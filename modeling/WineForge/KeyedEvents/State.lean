import Mathlib.Data.List.Basic
import Mathlib.Algebra.Order.Ring.Int

/-!
# Keyed events

The waits of the threads on keyed events, and what wakes them up: matching waits of other threads,
asynchronous procedure calls, timeouts, suspension, and the end of a thread.
-/

namespace WineForge.KeyedEvents

scoped instance neZeroTwo : NeZero 2 := ⟨by decide⟩

open Function

/-- `SELECT_KEYED_EVENT_WAIT` and `SELECT_KEYED_EVENT_RELEASE`. -/
inductive Kind
  | wait | release
  deriving DecidableEq, Repr

def matchingOp : Kind → Kind
  | .wait => .release
  | .release => .wait

inductive Status
  | success | timeout | userApc | kernelApc | threadWasSuspended | threadIsTerminating | noMemory
  deriving DecidableEq, Repr

/-- The wait of `NtWaitForKeyedEvent` or `NtReleaseKeyedEvent`, with a number of its own. Its flags
are `SELECT_INTERRUPTIBLE` and perhaps `SELECT_ALERTABLE`. -/
structure KeyedWait where
  id : Nat
  kind : Kind
  object : Nat
  key : Nat
  alertable : Bool
  when : Option Nat
  deriving DecidableEq, Repr

/-- A wait of the signal handler of a thread (`SELECT_NONE`). -/
structure NestedWait where
  interruptible : Bool
  alertable : Bool
  cooperative : Bool
  when : Option Nat
  deriving DecidableEq, Repr

/-- How a wait on a keyed event has ended. The server does not keep this. -/
structure Outcome (T : Type) where
  thread : T
  kind : Kind
  object : Nat
  key : Nat
  status : Status
  deriving DecidableEq, Repr

structure State (T P : Type) where
  process : T → P
  /-- The threads of a process that have started and not terminated. -/
  threads : P → List T
  started : T → Bool
  bypassProcSuspend : T → Bool
  suspend : T → Nat
  procSuspend : P → Nat
  /-- The `context` of a thread, with its `cooperative` field. -/
  context : T → Option Bool
  systemApc : T → Nat
  userApc : T → Nat
  /-- The client side of the thread is gone. -/
  broken : T → Bool
  /-- The waits of a thread: those of its signal handler, above a wait on a keyed event. -/
  nested : T → List NestedWait
  keyed : T → Option KeyedWait
  /-- The wait queue of a keyed event. -/
  queue : Nat → List T
  now : Nat
  count : Nat
  outcome : Nat → Option (Outcome T)

variable {T P : Type}

def isThreadSuspended (s : State T P) (t : T) : Bool :=
  if s.context t = some true then false
  else if s.suspend t ≠ 0 then true
  else !s.bypassProcSuspend t && s.procSuspend (s.process t) ≠ 0

def expired (s : State T P) : Option Nat → Bool
  | none => false
  | some time => time ≤ s.now

variable [DecidableEq T] [DecidableEq P]

/-- `end_wait` of a wait on a keyed event. -/
def endKeyed (s : State T P) (t : T) (status : Status) : State T P :=
  match s.keyed t with
  | none => s
  | some w => { s with
      keyed := update s.keyed t none
      queue := update s.queue w.object ((s.queue w.object).erase t)
      outcome := update s.outcome w.id (some ⟨t, w.kind, w.object, w.key, status⟩) }

def setNested (s : State T P) (t : T) (nested : List NestedWait) : State T P :=
  { s with nested := update s.nested t nested }

def killThread (s : State T P) (t : T) : State T P :=
  let s := endKeyed (setNested s t []) t .threadIsTerminating
  { s with threads :=
      update s.threads (s.process t) ((s.threads (s.process t)).erase t) }

/-- `send_thread_wakeup`, which kills a thread whose client is gone. -/
def sendThreadWakeup (s : State T P) (t : T) : State T P :=
  if s.broken t then killThread s t else s

/-- The test of `wake_thread_queue_entry`. -/
def canAcquire (s : State T P) (t : T) : Bool := s.nested t = [] && !isThreadSuspended s t

/-- A wait that `keyed_event_signaled` takes for a match. -/
def matchesWait (s : State T P) (t : T) (w : KeyedWait) (u : T) : Bool :=
  u ≠ t && s.process u = s.process t && (match s.keyed u with
    | none => false
    | some w' => w'.kind = matchingOp w.kind && w'.key = w.key) && canAcquire s u

/-- `keyed_event_signaled`, with the thread that it wakes up. That thread has no other waits that
`wake_thread_queue_entry` would check. -/
def keyedEventSignaled (s : State T P) (t : T) (w : KeyedWait) : Option (State T P) :=
  ((s.queue w.object).find? (matchesWait s t w)).map fun u =>
    sendThreadWakeup (endKeyed s u .success) u

/-- `check_wait` of a wait on a keyed event, which does not return -1 if it has a result. -/
def checkKeyed (s : State T P) (t : T) (w : KeyedWait) : Option (State T P × Status) :=
  if s.systemApc t ≠ 0 then some (s, .kernelApc)
  else if isThreadSuspended s t then none
  else match keyedEventSignaled s t w with
    | some s => some (s, .success)
    | none =>
      if w.alertable && s.userApc t ≠ 0 then some (s, .userApc)
      else if expired s w.when then some (s, .timeout)
      else none

/-- `check_wait` of a wait of the signal handler. -/
def checkNested (s : State T P) (t : T) (w : NestedWait) : Option (State T P × Status) :=
  if w.interruptible && s.systemApc t ≠ 0 then some (s, .kernelApc)
  else if w.cooperative && (s.context t).isSome then
    some ({ s with context := update s.context t (some true) }, .threadWasSuspended)
  else if isThreadSuspended s t then none
  else if w.alertable && s.userApc t ≠ 0 then some (s, .userApc)
  else if expired s w.when then some (s, .timeout)
  else none

/-- The loop of `wake_thread`, at a wait on a keyed event. -/
def wakeKeyed (s : State T P) (t : T) : State T P :=
  match s.keyed t with
  | none => s
  | some w =>
    match checkKeyed s t w with
    | none => s
    | some (s, status) => sendThreadWakeup (endKeyed s t status) t

/-- The loop of `wake_thread`, from the waits of the signal handler on. -/
def wakeWaits (s : State T P) (t : T) : List NestedWait → State T P
  | [] => wakeKeyed s t
  | w :: nested =>
    match checkNested s t w with
    | none => s
    | some (s, _) =>
      let s := setNested s t nested
      if s.broken t then killThread s t else wakeWaits s t nested

def wakeThread (s : State T P) (t : T) : State T P := wakeWaits s t (s.nested t)

/-- `thread_dequeue_apc`, for the status of the request. -/
def dequeueApc (s : State T P) (t : T) : Status → State T P
  | .kernelApc => { s with systemApc := update s.systemApc t (s.systemApc t - 1) }
  | .userApc => { s with userApc := update s.userApc t (s.userApc t - 1) }
  | _ => s

/-- `wait_on` in `select_on`. -/
def waitOn (s : State T P) (t : T) (w : KeyedWait) : State T P :=
  { s with
    keyed := update s.keyed t (some w)
    queue := update s.queue w.object (s.queue w.object ++ [t])
    count := s.count + 1 }

/-- `select_on` for a keyed event; the timer of a wait with a timeout may not be added. -/
def selectKeyed (s : State T P) (t : T) (w : KeyedWait) (timer : Bool) : State T P :=
  let s := waitOn s t w
  match checkKeyed s t w with
  | some (s, status) => dequeueApc (endKeyed s t status) t status
  | none => if w.when.isSome && !timer then endKeyed s t .noMemory else s

/-- `select_on` for the signal handler. -/
def selectNested (s : State T P) (t : T) (w : NestedWait) (timer : Bool) : State T P :=
  match checkNested s t w with
  | some (s, status) => dequeueApc s t status
  | none => if w.when.isSome && !timer then s else setNested s t (w :: s.nested t)

/-- `thread_timeout`, for the current wait of a thread. -/
def threadTimeout (s : State T P) (t : T) : Option (State T P) :=
  match s.nested t, s.keyed t with
  | w :: nested, _ =>
    if expired s w.when = false then none
    else if isThreadSuspended s t then some s
    else
      let s := setNested s t nested
      some (if s.broken t then killThread s t else wakeThread s t)
  | [], some w =>
    if expired s w.when = false then none
    else if isThreadSuspended s t then some s
    else some (sendThreadWakeup (endKeyed s t .timeout) t)
  | [], none => none

def maximumSuspendCount : Nat := 127

inductive Op (T P : Type)
  | newThread (t : T) (p : P) (suspend : Nat) (bypassProcSuspend : Bool)
  | select (t : T) (kind : Kind) (object key : Nat) (alertable : Bool) (when : Option Nat)
    (timer : Bool)
  | nested (t : T) (w : NestedWait) (timer : Bool)
  | timeout (t : T)
  | queueApc (t : T) (system : Bool)
  | cancelApc (t : T) (system : Bool)
  /-- `stop_thread` may not be able to create a context. -/
  | suspendThread (t : T) (context : Bool)
  | resumeThread (t : T)
  | suspendProcess (p : P) (contexts : List T)
  | resumeProcess (p : P)
  /-- A context is created, set, or released. -/
  | context (t : T) (context : Bool)
  | killThread (t : T)
  | breakThread (t : T)
  | advance (time : Nat)
  deriving DecidableEq, Repr

def running (s : State T P) (t : T) : Bool := t ∈ s.threads (s.process t)

def step (s : State T P) : Op T P → Option (State T P)
  | .newThread t p suspend bypass =>
    if s.started t then none
    else some { s with
      started := update s.started t true
      process := update s.process t p
      threads := update s.threads p (s.threads p ++ [t])
      suspend := update s.suspend t suspend
      bypassProcSuspend := update s.bypassProcSuspend t bypass }
  | .select t kind object key alertable when timer =>
    if running s t = false ∨ s.nested t ≠ [] ∨ s.keyed t ≠ none then none
    -- an odd key is an invalid parameter
    else if key % 2 = 1 then some s
    else some (selectKeyed s t ⟨s.count, kind, object, key, alertable, when⟩ timer)
  | .nested t w timer => if running s t then some (selectNested s t w timer) else none
  | .timeout t => threadTimeout s t
  | .queueApc t system =>
    if running s t = false then some s
    else if system then
      let s' := { s with systemApc := update s.systemApc t (s.systemApc t + 1) }
      some (if s.systemApc t = 0 then wakeThread s' t else s')
    else
      let s' := { s with userApc := update s.userApc t (s.userApc t + 1) }
      some (if s.userApc t = 0 then wakeThread s' t else s')
  | .cancelApc t system => some (dequeueApc s t (if system then .kernelApc else .userApc))
  | .suspendThread t context =>
    if s.suspend t < maximumSuspendCount then
      some { s with
        suspend := update s.suspend t (s.suspend t + 1)
        context := if isThreadSuspended s t ∨ s.context t ≠ none ∨ !context then s.context
          else update s.context t (some false) }
    else some s
  | .resumeThread t =>
    if s.suspend t = 0 then some s
    else
      let s := { s with suspend := update s.suspend t (s.suspend t - 1) }
      some (if isThreadSuspended s t then s else wakeThread s t)
  | .suspendProcess p contexts =>
    some { s with
      procSuspend := update s.procSuspend p (s.procSuspend p + 1)
      context := fun t => if s.procSuspend p = 0 ∧ t ∈ s.threads p ∧
          s.bypassProcSuspend t = false ∧ s.suspend t = 0 ∧ s.context t = none ∧ t ∈ contexts
        then some false else s.context t }
  | .resumeProcess p =>
    if s.procSuspend p = 0 then none
    else
      let s := { s with procSuspend := update s.procSuspend p (s.procSuspend p - 1) }
      some (if s.procSuspend p ≠ 0 then s
        else (s.threads p).foldl (fun s t =>
          if !s.bypassProcSuspend t && s.suspend t = 0 then wakeThread s t else s) s)
  | .context t context =>
    some { s with context := update s.context t (if context then some false else none) }
  | .killThread t => if running s t then some (killThread s t) else none
  | .breakThread t => some { s with broken := update s.broken t true }
  | .advance time => some { s with now := s.now + time }

def Initial (s : State T P) : Prop :=
  (∀ t, s.started t = false) ∧ (∀ p, s.threads p = []) ∧ (∀ t, s.nested t = []) ∧
    (∀ t, s.keyed t = none) ∧ (∀ o, s.queue o = []) ∧ s.count = 0 ∧ ∀ id, s.outcome id = none

end WineForge.KeyedEvents
