import WineForge.Library.Transition
import WineForge.Library.WaitQueue
import WineForge.WfuSync.State

/-!
# Blocking waits on one object

Any number of client threads and the server on one event, semaphore or mutex. A client step is
one lock-held section, one `wake_address` call, one compare-and-sleep or one check between
them. The server runs one request at a time; a signal request is a section followed by its wake,
and a wait is the `signaled` callback followed by the `satisfied` callback.
-/

namespace WineForge.WfuSync

open Library

/-- A blocking wait: whether it has a timeout, and the generation cached for the handle. -/
structure WaitArgs where
  timed : Bool
  generation : ℕ
  deriving DecidableEq, Repr

/-- Where a client thread is. -/
inductive LoopThread
  | outside
  /-- The wait functions: the check of the flags, the first attempt, then the loop with its
  check, its attempt, the clock, the load of the owner and the compare-and-sleep. `refused`
  records that the attempt did not get the lock. -/
  | enter (c : WaitArgs)
  | first (c : WaitArgs)
  | loop (c : WaitArgs)
  | consume (c : WaitArgs)
  | clock (c : WaitArgs) (refused : Bool)
  | load (c : WaitArgs)
  | sleep (c : WaitArgs) (value : Int) (refused : Bool)
  | asleep (c : WaitArgs)
  /-- Attempts that never sleep on the object: a zero timeout or a wait for any object, and
  `try_wait_all_local`. `ready` tells whether the other objects let it proceed. -/
  | poll
  | waitAll (generation : ℕ) (ready : Bool)
  /-- The signaling functions, before the section, before the request to the server that a
  refused section falls back to, and before the wake. -/
  | signal (op : SignalOp) (generation : ℕ)
  | request (op : SignalOp)
  | wake (w : Wake)
  /-- A wait that goes to the server, before the request and in the wait queue. `all` is a wait
  for all of several objects, and `checked` tells whether the server looked at it once. -/
  | select (all : Bool)
  | queued (all checked : Bool)
  deriving DecidableEq, Repr

/-- What the server is doing. -/
inductive LoopServer (ι : Type*)
  | idle
  | wake (w : Wake)
  /-- `check_wait` of a queued thread, before `signaled`, before `satisfied`, and before the
  entry leaves the wait queue. -/
  | check (t : ι)
  | satisfy (t : ι)
  | retire
  /-- `wfusync_try_wait_all` after its guard and before it clears the guard. -/
  | guarded (t : ι)
  | unguard
  deriving DecidableEq, Repr

/-- The object, the number of entries in its server wait queue, the clients and the server.
`taken` counts the waits satisfied since the object last became signaled. -/
structure LoopState (ι : Type*) where
  obj : WfusyncState
  waiters : ℕ
  threads : ι → LoopThread
  server : LoopServer ι
  taken : ℕ

/-- How a step leaves to chance: the clock, signals and the kernel's support of waits. -/
inductive Choice
  | go | expire | unsupported
  deriving DecidableEq, Repr

inductive LoopAct (ι : Type*)
  | call (t : ι) (p : LoopThread)
  | run (t : ι) (choice : Choice)
  | wake (t : ι) (target : Option ι)
  | exit (t : ι)
  | serve (t : ι)
  | serverSignal (op : SignalOp) (tid : Int)
  | serverWake (target : Option ι)
  | enqueue (t : ι)
  | recheck (t : ι)
  | check (ready : Bool)
  | satisfied
  | retire
  | leave (t : ι)
  | setMulti (multiWaiters : Bool)
  | guard (t : ι)
  | commit (ready : Bool)
  | unguard
  deriving DecidableEq, Repr

def LoopThread.start : LoopThread → Bool
  | .enter _ | .poll | .waitAll _ _ | .signal _ _ | .select true => true
  | _ => false

/-- After the first attempt of a wait. Only the wait for a mutex tells a refused lock from an
object that is not signaled. -/
def afterFirst (kind : WaitKind) (c : WaitArgs) (status : NtStatus) : LoopThread :=
  if status.satisfied then .outside
  else if kind = .mutex ∧ status ≠ .timeout then .select false
  else .loop c

def afterConsume (kind : WaitKind) (c : WaitArgs) (status : NtStatus) : LoopThread :=
  if status.satisfied then .outside
  else if status = .timeout then .clock c false
  else if kind = .mutex then .select false
  else .clock c true

/-- The share of `try_wait_all_local` in this object. -/
def waitAllLocalEntry (type : SyncType) (tid : Int) (generation : ℕ) (ready : Bool)
    (o : WfusyncState) : Bool × WfusyncState :=
  if wfusyncLockGranted o type ∧ o.generation = generation ∧ ¬(type = .event ∧ o.high ≠ 0) then
    match waitAllLocalCheck type tid o with
    | .error _ => (false, o)
    | .ok _ =>
      if ready then
        ((waitAllLocalTake type tid o).1.satisfied, (waitAllLocalTake type tid o).2)
      else (false, o)
  else (false, o)

/-- One step of a client thread: the object, the thread, and whether a wait was satisfied. -/
def clientStep (kind : WaitKind) (tid : Int) (o : WfusyncState) (choice : Choice) :
    LoopThread → Option (WfusyncState × LoopThread × Bool)
  | .enter c => some (o, if wfusyncHasServerWaiters o then .select false else .first c, false)
  | .first c =>
    let r := kind.consumeState tid o
    some (r.2, afterFirst kind c r.1, r.1.satisfied)
  | .loop c =>
    if o.generation ≠ c.generation ∨ o.word.type ≠ kind.type ∨ wfusyncHasServerWaiters o then
      some (o, .select false, false)
    else some (o, .consume c, false)
  | .consume c =>
    let r := kind.consumeState tid o
    some (r.2, afterConsume kind c r.1, r.1.satisfied)
  | .clock c refused =>
    match choice with
    | .expire => if c.timed then some (o, .outside, false) else none
    | _ => some (o, if kind = .mutex then .load c else .sleep c 0 refused, false)
  | .load c => some (o, .sleep c o.low false, false)
  | .sleep c value _ =>
    match choice with
    | .unsupported => some (o, .select false, false)
    | _ => some (o, if o.low = value then .asleep c else .loop c, false)
  | .asleep c =>
    match choice with
    | .go => some (o, .loop c, false)
    | .expire => some (o, if c.timed then .outside else .select false, false)
    | .unsupported => some (o, .select false, false)
  | .poll =>
    let r := kind.consumeState tid o
    some (r.2, .outside, r.1.satisfied)
  | .waitAll generation ready =>
    let r := waitAllLocalEntry kind.type tid generation ready o
    some (r.2, .outside, r.1)
  | .signal op generation =>
    let r := op.client tid generation o
    if r.status = .notImplemented then some (o, .request op, false)
    else
      match r.wake with
      | none => some (r.state, .outside, false)
      | some w => some (r.state, .wake w, false)
  | .outside | .request _ | .wake _ | .select _ | .queued _ _ => none

def LoopThread.roused : LoopThread → LoopThread
  | .asleep c => .loop c
  | p => p

variable {ι : Type*} [DecidableEq ι]

def LoopThread.isAsleep : LoopThread → Bool
  | .asleep _ => true
  | _ => false

/-- `wake_address`: all sleepers, or any one if there is one. -/
def wakeThreads [Fintype ι] (w : Wake) (target : Option ι) (f : ι → LoopThread) :
    Option (ι → LoopThread) :=
  match w, target with
  | .all, _ => some fun t => (f t).roused
  | .one, some t => if (f t).isAsleep then some (Function.update f t (f t).roused) else none
  | .one, none => if ∀ t, (f t).isAsleep = false then some f else none

namespace LoopState

def put (s : LoopState ι) (o : WfusyncState) (satisfied : Bool) : LoopState ι :=
  { s with
    obj := o
    taken := if s.obj.low = 0 ∧ o.low ≠ 0 then 0 else s.taken + satisfied.toNat }

def goto (s : LoopState ι) (t : ι) (p : LoopThread) : LoopState ι :=
  { s with threads := Function.update s.threads t p }

def signal (s : LoopState ι) (op : SignalOp) (tid : Int) : LoopState ι :=
  { s.put (op.server tid s.obj).state false with
    server :=
      match (op.server tid s.obj).wake with
      | none => .idle
      | some w => .wake w }

/-- `wfusync_add_server_waiter`. -/
def addWaiter (s : LoopState ι) : LoopState ι :=
  { s with
    waiters := s.waiters + 1
    obj := { s.obj with word := { s.obj.word with serverWaiters := true } } }

/-- `wfusync_remove_server_waiter`. -/
def removeWaiter (s : LoopState ι) : LoopState ι :=
  { s with
    waiters := s.waiters - 1
    obj := { s.obj with word := { s.obj.word with
      serverWaiters := s.obj.word.serverWaiters && decide (s.waiters ≠ 1) } } }

end LoopState

variable [Fintype ι] (kind : WaitKind) (T : ThreadIds ι)

def loopStep (s : LoopState ι) : LoopAct ι → Option (LoopState ι)
  | .call t p =>
    if s.threads t = .outside ∧ p.start then some (s.goto t p) else none
  | .run t choice =>
    (clientStep kind (T.tid t) s.obj choice (s.threads t)).map fun r =>
      (s.put r.1 r.2.2).goto t r.2.1
  | .wake t target =>
    match s.threads t with
    | .wake w =>
      (wakeThreads w target s.threads).map fun f => { s with threads := f }.goto t .outside
    | _ => none
  -- The end of a thread is a request like any other; `abandon_mutexes` is its section.
  | .exit t =>
    if s.server = .idle ∧ s.threads t = .outside ∧ s.obj.word.type = .mutex then
      some { s.put (wfusyncAbandonMutex (T.tid t) s.obj).2 false with
        server := if (wfusyncAbandonMutex (T.tid t) s.obj).1 then .wake .all else .idle }
    else none
  | .serve t =>
    match s.server, s.threads t with
    | .idle, .request op => some ((s.signal op (T.tid t)).goto t .outside)
    | _, _ => none
  | .serverSignal op tid => if s.server = .idle then some (s.signal op tid) else none
  | .serverWake target =>
    match s.server with
    | .wake w =>
      (wakeThreads w target s.threads).map fun f => { s with threads := f, server := .idle }
    | _ => none
  | .enqueue t =>
    match s.server, s.threads t with
    | .idle, .select all =>
      some ({ s.addWaiter with server := .check t }.goto t (.queued all false))
    | _, _ => none
  | .recheck t =>
    match s.server, s.threads t with
    | .idle, .queued _ _ => some { s with server := .check t }
    | _, _ => none
  | .check ready =>
    match s.server with
    | .check t =>
      match s.threads t with
      | .queued all _ =>
        if signaledFor kind.type (T.tid t) s.obj ∧ (all = true → ready = true) then
          some { s with server := .satisfy t }
        else some ({ s with server := .idle }.goto t (.queued all true))
      | _ => none
    | _ => none
  | .satisfied =>
    match s.server with
    | .satisfy t =>
      some ({ s.put (satisfiedFor kind.type (T.tid t) s.obj) true with server := .retire }.goto t
        .outside)
    | _ => none
  | .retire =>
    match s.server with
    | .retire => some { s.removeWaiter with server := .idle }
    | _ => none
  | .leave t =>
    match s.server, s.threads t with
    | .idle, .queued _ _ => some (s.removeWaiter.goto t .outside)
    | _, _ => none
  | .setMulti multiWaiters =>
    if s.server = .idle then
      some { s with obj := { s.obj with word := { s.obj.word with multiWaiters := multiWaiters } } }
    else none
  | .guard t =>
    if s.server = .idle ∧ s.obj.word.serverWaiters = false then
      some { s with
        obj := { s.obj with word := { s.obj.word with serverWaiters := true } }
        server := .guarded t }
    else none
  | .commit ready =>
    match s.server with
    | .guarded t =>
      match tryWaitAllCheck kind.type (T.tid t) s.obj with
      | .error _ => some { s with server := .unguard }
      | .ok _ =>
        match tryWaitAllTake kind.type (T.tid t) s.obj with
        | some o => if ready then some { s.put o true with server := .unguard }
          else some { s with server := .unguard }
        | none => some { s with server := .unguard }
    | _ => none
  | .unguard =>
    match s.server with
    | .unguard =>
      some { s with
        obj := { s.obj with word := { s.obj.word with serverWaiters := false } }
        server := .idle }
    | _ => none

/-- The object as it is created: a semaphore holds between none and all of its units. -/
def LoopState.Created (s : LoopState ι) : Prop :=
  s.obj.word = ⟨kind.type, false, false, false⟩ ∧
    (kind = .semaphore → 0 ≤ s.obj.low ∧ s.obj.low ≤ s.obj.high ∧ s.obj.high ≤ intMax) ∧
    s.waiters = 0 ∧ (∀ t, s.threads t = .outside) ∧ s.server = .idle ∧ s.taken = 0

/-- No thread is under way and the server is idle: every thread is outside, sleeps on the
address, or is blocked in the server's wait queue. -/
def LoopState.Quiet (s : LoopState ι) : Prop :=
  s.server = .idle ∧ ∀ t, s.threads t = .outside ∨ (∃ c, s.threads t = .asleep c) ∨
    ∃ all, s.threads t = .queued all true

end WineForge.WfuSync
