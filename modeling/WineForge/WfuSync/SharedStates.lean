import WineForge.Library.Transition
import WineForge.WfuSync.Consumption
import Mathlib.Data.Finset.Insert
import Mathlib.Data.Finset.Erase

/-!
# Clients and the server over one set of shared states

The clients are arbitrary programs that write a state only between a granted
`wfusync_lock_state` and the unlock; they may hold several locks, and they may be suspended or
terminated between any two accesses. The server is single-threaded. Its tasks are the server
waits with their `signaled` and `satisfied` callbacks, `wfusync_try_wait_all`, and lock-held
sections of other requests, one access to shared memory at a time.
-/

namespace WineForge.WfuSync

open Function Library

inductive ThreadStatus
  | running | suspended | dead
  deriving DecidableEq, Repr

/-- A thread inside `wfusync_lock_state`. -/
structure LockAttempt where
  shmIdx : ℕ
  kind : WaitKind
  pc : LockPc
  deriving DecidableEq

structure ClientThread where
  held : Finset ℕ
  attempt : Option LockAttempt
  status : ThreadStatus
  deriving DecidableEq

/-- An entry of a wait: the object's state and the type its operations expect. -/
structure WaitObject where
  shmIdx : ℕ
  kind : WaitKind
  deriving DecidableEq

/-- `struct thread_wait`: the thread, whether the wait is `SELECT_WAIT_ALL`, and its queue
entries. -/
structure ServerWait where
  tid : Int
  all : Bool
  objs : List WaitObject
  deriving DecidableEq

/-- A lock-held section of another server request. -/
inductive ServerOp
  | signal (op : SignalOp) (tid : Int)
  | abandonMutex (tid : Int)
  | query (kind : WaitKind)
  deriving DecidableEq

def ServerOp.type : ServerOp → SyncType
  | .signal op _ => op.type
  | .abandonMutex _ => .mutex
  | .query kind => kind.type

def ServerOp.section (op : ServerOp) (s : WfusyncState) : WfusyncState × Bool :=
  match op with
  | .signal op tid => ((op.locked tid s).state, true)
  | .abandonMutex tid => ((wfusyncAbandonMutex tid s).2, (wfusyncAbandonMutex tid s).1)
  | .query _ => (s, true)

/-- The `signaled` callback of an entry. -/
def ServerWait.signaled (w : ServerWait) (obj : WaitObject) (s : WfusyncState) :
    WfusyncState × Bool :=
  (s, signaledFor obj.kind.type w.tid s)

/-- The `satisfied` callback of an entry. -/
def ServerWait.satisfied (w : ServerWait) (obj : WaitObject) (s : WfusyncState) :
    WfusyncState × Bool :=
  (satisfiedFor obj.kind.type w.tid s, true)

/-- Where the server is in a section of its own. -/
inductive SectionPc
  | lock (pc : ServerLockPc)
  | locked
  | unlock (result : Bool)
  deriving DecidableEq

inductive SectionNext
  | more (pc : SectionPc)
  | done (result : Bool)

/-- One step of `lock_state`, the section `f`, `unlock_state`. -/
def sectionStep (shmIdx : ℕ) (type : SyncType) (f : WfusyncState → WfusyncState × Bool)
    (mem : ℕ → WfusyncState) : SectionPc → (ℕ → WfusyncState) × SectionNext
  | .lock pc =>
    match lockState type (mem shmIdx) pc with
    | .spin pc' => (mem, .more (.lock pc'))
    | .granted s => (update mem shmIdx s, .more .locked)
    | .refused => (mem, .done false)
  | .locked =>
    (update mem shmIdx (f (mem shmIdx)).1, .more (.unlock (f (mem shmIdx)).2))
  | .unlock result =>
    (update mem shmIdx (mem shmIdx).unlock, .done result)

/-- An entry of the request: three unsigned numbers that the client sent. -/
structure TryAllEntry where
  shmIdx : ℕ
  generation : ℕ
  type : ℕ
  deriving DecidableEq

structure TryAllCall where
  entries : List TryAllEntry
  tid : Int
  deriving DecidableEq

namespace TryAllCall

def count (c : TryAllCall) : ℕ :=
  c.entries.length

def entry (c : TryAllCall) (i : ℕ) : TryAllEntry :=
  c.entries.getD i ⟨0, 0, 0⟩

end TryAllCall

/-- The case of `switch (type)` that a type number selects. -/
def SyncType.ofCode : ℕ → SyncType
  | 1 => .internal
  | 2 => .event
  | 3 => .mutex
  | 4 => .semaphore
  | _ => .unknown

/-- The three accesses of the guard loop, the three of the check loop, the commit loop, and the
loop at `done`, which clears the flag of the first `guarded` entries. -/
inductive TryAllPc
  | guardType (i : ℕ)
  | guardGeneration (i : ℕ) (seen : TypeWord)
  | guardSwap (i : ℕ) (seen : TypeWord)
  | checkType (i : ℕ) (abandoned : Bool)
  | checkGeneration (i : ℕ) (abandoned : Bool)
  | checkValue (i : ℕ) (abandoned : Bool)
  | commit (i : ℕ) (abandoned : Bool)
  | release (i guarded : ℕ) (status : NtStatus)
  | returned (status : NtStatus)

/-- The history of a call: the flags at entry, the states at the end of the check loop, and the
writes, oldest first. -/
structure TryAllTrace where
  flags : ℕ → Bool
  instant : ℕ → WfusyncState
  writes : List StateWrite

def WfusyncState.setServerWaiters (s : WfusyncState) (flag : Bool) : WfusyncState :=
  { s with word := { s.word with serverWaiters := flag } }

def TryAllCall.step (c : TryAllCall) (mapped : ℕ → Bool) (mem : ℕ → WfusyncState)
    (trace : TryAllTrace) : TryAllPc → Option ((ℕ → WfusyncState) × TryAllPc × TryAllTrace)
  | .guardType i =>
    if i < c.count then
      let e := c.entry i
      let w := (mem e.shmIdx).word
      if !mapped e.shmIdx then some (mem, .release 0 i .notImplemented, trace)
      else if w.locked ∨ w.serverWaiters ∨ w.type.code ≠ e.type then
        some (mem, .release 0 i .notImplemented, trace)
      else some (mem, .guardGeneration i w, trace)
    else some (mem, .checkType 0 false, trace)
  | .guardGeneration i seen =>
    if (mem (c.entry i).shmIdx).generation ≠ (c.entry i).generation then
      some (mem, .release 0 i .notImplemented, trace)
    else some (mem, .guardSwap i seen, trace)
  | .guardSwap i seen =>
    let idx := (c.entry i).shmIdx
    if (mem idx).word = seen then
      some (update mem idx ((mem idx).setServerWaiters true), .guardType (i + 1), trace)
    else some (mem, .release 0 i .notImplemented, trace)
  | .checkType i abandoned =>
    if i < c.count then
      if (mem (c.entry i).shmIdx).word.type.code ≠ (c.entry i).type then
        some (mem, .release 0 c.count .notImplemented, trace)
      else some (mem, .checkGeneration i abandoned, trace)
    else some (mem, .commit 0 abandoned, { trace with instant := mem })
  | .checkGeneration i abandoned =>
    if (mem (c.entry i).shmIdx).generation ≠ (c.entry i).generation then
      some (mem, .release 0 c.count .notImplemented, trace)
    else some (mem, .checkValue i abandoned, trace)
  | .checkValue i abandoned =>
    match tryWaitAllCheck (SyncType.ofCode (c.entry i).type) c.tid (mem (c.entry i).shmIdx) with
    | .error status => some (mem, .release 0 c.count status, trace)
    | .ok owner => some (mem, .checkType (i + 1) (abandoned || owner), trace)
  | .commit i abandoned =>
    if i < c.count then
      let idx := (c.entry i).shmIdx
      match tryWaitAllTake (SyncType.ofCode (c.entry i).type) c.tid (mem idx) with
      | none => some (mem, .release 0 c.count .notImplemented, trace)
      | some s =>
        some (update mem idx s, .commit (i + 1) abandoned,
          { trace with writes := trace.writes ++ [⟨idx, mem idx, s⟩] })
    else
      some (mem, .release 0 c.count (if abandoned then .abandonedWait0 else .wait0), trace)
  | .release i guarded status =>
    if i < guarded then
      let idx := (c.entry i).shmIdx
      some (update mem idx ((mem idx).setServerWaiters false),
        .release (i + 1) guarded status, trace)
    else some (mem, .returned status, trace)
  | .returned _ => none

/-- What the server is doing. `enlist` is the loop of `wait_on`, `check` and `satisfy` are the
callback loops of `check_wait` and `end_wait`, and `retire` is the loop of `end_wait` that takes
the entries off the queues. -/
inductive ServerTask
  | idle
  | enlist (wait : ServerWait) (added rest : List WaitObject)
  | check (wait : ServerWait) (before : List WaitObject) (obj : WaitObject)
      (rest : List WaitObject) (notOk : Bool) (pc : SectionPc)
  | satisfy (wait : ServerWait) (obj : WaitObject) (rest : List WaitObject) (pc : SectionPc)
  | retire (rest : List WaitObject)
  | request (shmIdx : ℕ) (op : ServerOp) (pc : SectionPc)
  | tryAll (call : TryAllCall) (pc : TryAllPc) (trace : TryAllTrace)

/-- `counts` are the fields `server_waiters`, `next` is `next_shm_idx`, and `generations` is
`next_generation`. A wait leaves `queue` while the server works on it. -/
structure SharedState (ι : Type*) where
  mem : ℕ → WfusyncState
  mapped : ℕ → Bool
  next : ℕ
  generations : ℕ
  counts : ℕ → ℕ
  clients : ι → ClientThread
  queue : List ServerWait
  task : ServerTask

inductive SharedAct (ι : Type*)
  | tryLock (t : ι) (shmIdx : ℕ) (kind : WaitKind)
  | access (t : ι)
  | write (t : ι) (shmIdx : ℕ) (low high : Int) (generation : ℕ)
  | unlock (t : ι) (shmIdx : ℕ)
  | suspend (t : ι)
  | resume (t : ι)
  | terminate (t : ι)
  | serve
  | select (wait : ServerWait)
  | wakeThread (wait : ServerWait)
  | endWait (wait : ServerWait)
  | request (shmIdx : ℕ) (op : ServerOp)
  | tryWaitAll (call : TryAllCall)
  | create (low high : Int) (type : SyncType)
  | destroy (shmIdx : ℕ)
  | setMulti (shmIdx : ℕ) (flag : Bool)
  | map (shmIdx : ℕ)

def ServerTask.refs : ServerTask → List WaitObject
  | .enlist _ added _ => added
  | .check w _ _ _ _ _ => w.objs
  | .satisfy w _ _ _ => w.objs
  | .retire rest => rest
  | _ => []

/-- The entries that the task works on, counted in `server_waiters` or not yet. -/
def ServerTask.objs : ServerTask → List WaitObject
  | .enlist w _ _ => w.objs
  | task => task.refs

namespace ServerWait

/-- The callback loop of `end_wait` over the given entries. -/
def satisfyFrom (w : ServerWait) : List WaitObject → ServerTask
  | [] => .retire w.objs
  | obj :: rest => .satisfy w obj rest (.lock .load)

/-- The callback loop of `check_wait`; without an entry to check, a wait for all is satisfied. -/
def startCheck (w : ServerWait) (queue : List ServerWait) : ServerTask × List ServerWait :=
  match w.objs with
  | [] => if w.all then (.retire [], queue) else (.idle, w :: queue)
  | obj :: rest => (.check w [] obj rest false (.lock .load), queue)

/-- `check_wait` after the callback of an entry. -/
def nextCheck (w : ServerWait) (before : List WaitObject) (obj : WaitObject)
    (rest : List WaitObject) (notOk signaled : Bool) (queue : List ServerWait) :
    ServerTask × List ServerWait :=
  if w.all then
    match rest with
    | next :: rest =>
      (.check w (before ++ [obj]) next rest (notOk || !signaled) (.lock .load), queue)
    | [] => if notOk || !signaled then (.idle, w :: queue) else (w.satisfyFrom w.objs, queue)
  else if signaled then (w.satisfyFrom [obj], queue)
  else
    match rest with
    | next :: rest => (.check w (before ++ [obj]) next rest false (.lock .load), queue)
    | [] => (.idle, w :: queue)

end ServerWait

variable {ι : Type*}

namespace SharedState

def refs (s : SharedState ι) : List WaitObject :=
  s.task.refs ++ s.queue.flatMap (·.objs)

/-- `wfusync_add_server_waiter`. -/
def addServerWaiter (s : SharedState ι) (idx : ℕ) : SharedState ι :=
  { s with
    counts := update s.counts idx (s.counts idx + 1)
    mem := update s.mem idx ((s.mem idx).setServerWaiters true) }

/-- `wfusync_remove_server_waiter`. -/
def removeServerWaiter (s : SharedState ι) (idx : ℕ) : SharedState ι :=
  if s.counts idx = 0 then s
  else
    { s with
      counts := update s.counts idx (s.counts idx - 1)
      mem := if s.counts idx = 1 then
          update s.mem idx ((s.mem idx).setServerWaiters false)
        else s.mem }

def serve (s : SharedState ι) : Option (SharedState ι) :=
  match s.task with
  | .idle => none
  | .enlist w _ [] =>
    let r := w.startCheck s.queue
    some { s with task := r.1, queue := r.2 }
  | .enlist w added (obj :: rest) =>
    some { s.addServerWaiter obj.shmIdx with task := .enlist w (added ++ [obj]) rest }
  | .check w before obj rest notOk pc =>
    match sectionStep obj.shmIdx obj.kind.type (w.signaled obj) s.mem pc with
    | (mem, .more pc') => some { s with mem := mem, task := .check w before obj rest notOk pc' }
    | (mem, .done signaled) =>
      let r := w.nextCheck before obj rest notOk signaled s.queue
      some { s with mem := mem, task := r.1, queue := r.2 }
  | .satisfy w obj rest pc =>
    match sectionStep obj.shmIdx obj.kind.type (w.satisfied obj) s.mem pc with
    | (mem, .more pc') => some { s with mem := mem, task := .satisfy w obj rest pc' }
    | (mem, .done _) => some { s with mem := mem, task := w.satisfyFrom rest }
  | .retire [] => some { s with task := .idle }
  | .retire (obj :: rest) => some { s.removeServerWaiter obj.shmIdx with task := .retire rest }
  | .request idx op pc =>
    match sectionStep idx op.type op.section s.mem pc with
    | (mem, .more pc') => some { s with mem := mem, task := .request idx op pc' }
    | (mem, .done _) => some { s with mem := mem, task := .idle }
  | .tryAll _ (.returned _) _ => some { s with task := .idle }
  | .tryAll c pc trace =>
    (c.step s.mapped s.mem trace pc).map fun r =>
      { s with mem := r.1, task := .tryAll c r.2.1 r.2.2 }

end SharedState

/-- The first test of `wfusync_try_wait_all`. -/
def TryAllCall.start (c : TryAllCall) : TryAllPc :=
  if c.entries = [] ∨ 64 < c.count then .returned .notImplemented else .guardType 0

/-- An object may be destroyed when nothing refers to it, between two requests or while a
finished wait drops its references. -/
def ServerTask.mayDestroy : ServerTask → Bool
  | .idle | .retire _ => true
  | _ => false

def ServerTask.isIdle : ServerTask → Bool
  | .idle => true
  | _ => false

variable [DecidableEq ι]

/-- One access of a client inside `wfusync_lock_state`. -/
def ClientThread.lockStep (c : ClientThread) (mem : ℕ → WfusyncState) :
    Option ((ℕ → WfusyncState) × ClientThread) :=
  match c.attempt with
  | none => none
  | some a =>
    match wfusyncLockState a.kind.type (mem a.shmIdx) a.pc with
    | .spin pc => some (mem, { c with attempt := some { a with pc := pc } })
    | .granted s =>
      some (update mem a.shmIdx s,
        { c with attempt := none, held := insert a.shmIdx c.held })
    | .refused => some (mem, { c with attempt := none })

def SharedState.setClient (s : SharedState ι) (t : ι) (c : ClientThread) : SharedState ι :=
  { s with clients := update s.clients t c }

def SharedState.clientStep (s : SharedState ι) (t : ι) : SharedAct ι → Option (SharedState ι)
  | .tryLock _ idx kind =>
    if (s.clients t).attempt = none then
      some (s.setClient t { s.clients t with attempt := some ⟨idx, kind, .load⟩ })
    else none
  | .access _ =>
    ((s.clients t).lockStep s.mem).map fun r => { s.setClient t r.2 with mem := r.1 }
  | .write _ idx low high generation =>
    if idx ∈ (s.clients t).held then
      some { s with
        mem := update s.mem idx ⟨low, high, generation, (s.mem idx).word⟩ }
    else none
  | .unlock _ idx =>
    if idx ∈ (s.clients t).held then
      some { s.setClient t { s.clients t with held := (s.clients t).held.erase idx } with
        mem := update s.mem idx (s.mem idx).unlock }
    else none
  | _ => none

def SharedAct.client : SharedAct ι → Option ι
  | .tryLock t _ _ | .access t | .write t _ _ _ _ | .unlock t _ => some t
  | _ => none

def sharedStep (s : SharedState ι) (a : SharedAct ι) : Option (SharedState ι) :=
  match a with
  | .tryLock t _ _ | .access t | .write t _ _ _ _ | .unlock t _ =>
    if (s.clients t).status = .running then s.clientStep t a else none
  | .suspend t =>
    if (s.clients t).status = .running then
      some (s.setClient t { s.clients t with status := .suspended })
    else none
  -- `ResumeThread` is a server request.
  | .resume t =>
    if s.task.isIdle ∧ (s.clients t).status = .suspended then
      some (s.setClient t { s.clients t with status := .running })
    else none
  | .terminate t =>
    if (s.clients t).status ≠ .dead then
      some (s.setClient t { s.clients t with status := .dead })
    else none
  | .serve => s.serve
  | .select w =>
    if s.task.isIdle ∧ ∀ obj ∈ w.objs, (s.mem obj.shmIdx).word.type = obj.kind.type then
      some { s with task := .enlist w [] w.objs }
    else none
  | .wakeThread w =>
    if s.task.isIdle ∧ w ∈ s.queue then
      let r := w.startCheck (s.queue.erase w)
      some { s with task := r.1, queue := r.2 }
    else none
  | .endWait w =>
    if s.task.isIdle ∧ w ∈ s.queue then
      some { s with task := .retire w.objs, queue := s.queue.erase w }
    else none
  | .request idx op =>
    if s.task.isIdle then some { s with task := .request idx op (.lock .load) } else none
  | .tryWaitAll c =>
    if s.task.isIdle then
      some { s with
        task := .tryAll c c.start ⟨fun idx => (s.mem idx).word.serverWaiters, s.mem, []⟩ }
    else none
  | .create low high type =>
    if s.task.isIdle ∧ type ≠ .unknown then
      some { s with
        mem := update s.mem s.next ⟨low, high, s.generations, ⟨type, false, false, false⟩⟩
        mapped := update s.mapped s.next true
        counts := update s.counts s.next 0
        next := s.next + 1
        generations := nextGeneration s.generations }
    else none
  | .destroy idx =>
    if s.task.mayDestroy ∧ (s.mem idx).word.type.waitable ∧ ∀ obj ∈ s.refs, obj.shmIdx ≠ idx then
      some { s with
        mem := update s.mem idx
          { s.mem idx with
            generation := s.generations
            word := ⟨.unknown, false, false, false⟩ }
        generations := nextGeneration s.generations }
    else none
  | .setMulti idx flag =>
    if s.task.isIdle then
      some { s with
        mem := update s.mem idx
          { s.mem idx with word := { (s.mem idx).word with multiWaiters := flag } } }
    else none
  | .map idx => some { s with mapped := update s.mapped idx true }

def SharedState.Initial (s : SharedState ι) : Prop :=
  (∀ idx, (s.mem idx).word = ⟨.unknown, false, false, false⟩) ∧ (∀ idx, s.counts idx = 0) ∧
    (∀ t, s.clients t = ⟨∅, none, .running⟩) ∧ s.queue = [] ∧ s.task.isIdle = true

def SectionPc.isLocked : SectionPc → Bool
  | .lock _ => false
  | .locked | .unlock _ => true

def ServerTask.holds : ServerTask → ℕ → Prop
  | .check _ _ obj _ _ pc, idx => pc.isLocked = true ∧ obj.shmIdx = idx
  | .satisfy _ obj _ pc, idx => pc.isLocked = true ∧ obj.shmIdx = idx
  | .request shmIdx _ pc, idx => pc.isLocked = true ∧ shmIdx = idx
  | _, _ => False

def SharedState.holds (s : SharedState ι) : Option ι → ℕ → Prop
  | some t, idx => idx ∈ (s.clients t).held
  | none, idx => s.task.holds idx

end WineForge.WfuSync
