import WineForge.AddressWaits.Futexes

/-!
# Critical sections

An `RTL_CRITICAL_SECTION` and the operations on it, with one step for each access to one of its
fields.
-/

namespace WineForge.CriticalSections

scoped instance neZeroTwo : NeZero 2 := ⟨by decide⟩

open AddressWaits

/-- The field `LockSemaphore`. -/
inductive LockSemaphore
  /-- A handle to a semaphore, with its count and its maximum. -/
  | handle (count max : Nat)
  /-- The grant of the fallback, which is waited for with an address wait. -/
  | value (granted : Bool)
  deriving DecidableEq, Repr

/-- The next step of a thread. -/
inductive Pc
  | idle
  /-- The compare and exchange of `RtlTryEnterCriticalSection`, which may be called before the
  spinning of `RtlEnterCriticalSection`. -/
  | tryGrab (spin : Bool)
  | tryOwner (spin : Bool)
  | tryIncrement
  | spin (count : Nat)
  | spinGrab (count : Nat)
  /-- The increment of `LockCount` in `RtlEnterCriticalSection`. -/
  | increment
  | checkOwner
  | recurse
  /-- The call of `RtlpWaitForCriticalSection`. -/
  | waitSection
  | waitSemaphore
  /-- The comparison of `RtlWaitOnAddress`. -/
  | compare
  /-- Inside `RtlWaitOnAddress`. -/
  | waiting
  | setOwner
  | setRecursion
  | leaveRecursive
  | clearOwner
  | release
  /-- The call of `RtlpUnWaitCriticalSection`. -/
  | unwait
  | wakeSingle
  | waking
  deriving DecidableEq, Repr

structure State (T : Type) where
  lockCount : BitVec 32
  recursionCount : BitVec 32
  owningThread : Option T
  lockSemaphore : LockSemaphore
  spinCount : Nat
  /-- `RtlDllShutdownInProgress`. -/
  shutdown : Bool
  futexes : Futexes T Unit
  pc : T → Pc
  /-- How often each thread has entered the section that it did not leave. -/
  depth : T → Nat
  /-- The threads that count in `LockCount` and wait for the section. -/
  committed : List T

variable {T : Type} [DecidableEq T]

def State.setPc (s : State T) (t : T) (pc : Pc) : State T :=
  { s with pc := Function.update s.pc t pc }

def State.setDepth (s : State T) (t : T) (depth : Nat) : State T :=
  { s with depth := Function.update s.depth t depth }

/-- The thread takes a section that was not locked: it changes `LockCount` from -1 to 0. -/
def grab (s : State T) (t : T) : State T :=
  { (s.setPc t .setOwner).setDepth t 1 with lockCount := 0 }

def obtain (s : State T) (t : T) (lockSemaphore : LockSemaphore) : State T :=
  { (s.setPc t .setOwner).setDepth t 1 with
    lockSemaphore := lockSemaphore
    committed := s.committed.erase t }

/-- `InterlockedIncrement( &crit->LockCount )`, by the owner or by another thread. -/
def increment (s : State T) (t : T) : State T :=
  let lockCount := s.lockCount + 1
  if s.depth t > 0 then
    { (s.setPc t .checkOwner).setDepth t (s.depth t + 1) with lockCount := lockCount }
  else if lockCount = 0 then grab s t
  else { s.setPc t .checkOwner with lockCount := lockCount, committed := t :: s.committed }

/-- One round of the loop in `wait_semaphore`, or of the wait for the semaphore. -/
def waitSemaphore (s : State T) (t : T) : Option (State T) :=
  match s.lockSemaphore with
  | .handle count max => if count = 0 then none else some (obtain s t (.handle (count - 1) max))
  | .value true => some (obtain s t (.value false))
  | .value false => some (s.setPc t .compare)

/-- `RtlpUnWaitCriticalSection`. -/
def unwait (s : State T) (t : T) : State T :=
  match s.lockSemaphore with
  | .handle count max =>
    -- above the maximum the release fails and raises an exception
    if count < max then { s.setPc t .idle with lockSemaphore := .handle (count + 1) max }
    else s.setPc t .idle
  | .value _ => { s.setPc t .wakeSingle with lockSemaphore := .value true }

def wake (s : State T) (t : T) (futexes : Futexes T Unit) : State T :=
  match futexes.phase t with
  | .alerting _ => { s.setPc t .waking with futexes := futexes }
  | _ => { s.setPc t .idle with futexes := futexes }

def next (s : State T) (t : T) : Option (State T) :=
  match s.pc t with
  | .idle => none
  | .tryGrab spin => some (if s.lockCount = -1 then grab s t else s.setPc t (.tryOwner spin))
  | .tryOwner spin =>
    some (if s.owningThread = some t then s.setPc t .tryIncrement
      else s.setPc t (if spin then .spin s.spinCount else .idle))
  | .tryIncrement =>
    some { (s.setPc t .recurse).setDepth t (s.depth t + 1) with lockCount := s.lockCount + 1 }
  | .spin 0 => some (s.setPc t .increment)
  | .spin (count + 1) =>
    some (s.setPc t (if s.lockCount.toInt > 0 then .increment
      else if s.lockCount = -1 then .spinGrab count else .spin count))
  | .spinGrab count => some (if s.lockCount = -1 then grab s t else s.setPc t (.spin count))
  | .increment => some (increment s t)
  | .checkOwner =>
    some (s.setPc t (if s.owningThread = some t then .recurse else .waitSection))
  | .recurse => some { s.setPc t .idle with recursionCount := s.recursionCount + 1 }
  | .waitSection =>
    -- nobody blocks on a critical section during process termination
    some (if s.shutdown then obtain s t s.lockSemaphore else s.setPc t .waitSemaphore)
  | .waitSemaphore => waitSemaphore s t
  | .compare =>
    some (if s.lockSemaphore = .value false then
      { s.setPc t .waiting with futexes := s.futexes.wait t () }
      else s.setPc t .waitSemaphore)
  | .waiting =>
    (s.futexes.resume t).map fun futexes =>
      match futexes.phase t with
      | .out => { s.setPc t .waitSemaphore with futexes := futexes }
      | _ => { s with futexes := futexes }
  | .setOwner => some { s.setPc t .setRecursion with owningThread := some t }
  | .setRecursion => some { s.setPc t .idle with recursionCount := 1 }
  | .leaveRecursive =>
    some { (s.setPc t .idle).setDepth t (s.depth t - 1) with lockCount := s.lockCount - 1 }
  | .clearOwner => some { s.setPc t .release with owningThread := none }
  | .release =>
    let lockCount := s.lockCount - 1
    some { (s.setPc t (if lockCount.toInt ≥ 0 then .unwait else .idle)).setDepth t
      (s.depth t - 1) with lockCount := lockCount }
  | .unwait => some (unwait s t)
  | .wakeSingle => some (wake s t (s.futexes.wakeSingle t ()))
  | .waking => (s.futexes.alertNext t).map fun futexes => wake s t futexes

inductive Op (T : Type)
  | enter (t : T)
  | tryEnter (t : T)
  | leave (t : T)
  | next (t : T)
  /-- An address wait times out, and the wait for the section begins again. -/
  | timeout (t : T)
  /-- An alert from elsewhere. -/
  | alert (t : T)
  /-- The process shuts down. -/
  | shutdown
  deriving DecidableEq, Repr

def step (s : State T) : Op T → Option (State T)
  | .enter t =>
    if s.pc t ≠ .idle then none
    else some (s.setPc t (if s.spinCount ≠ 0 then .tryGrab true else .increment))
  | .tryEnter t => if s.pc t ≠ .idle then none else some (s.setPc t (.tryGrab false))
  | .leave t =>
    if s.pc t ≠ .idle ∨ s.depth t = 0 then none
    else
      let recursionCount := s.recursionCount - 1
      some { s.setPc t (if recursionCount = 0 then .clearOwner
        else if recursionCount.toInt > 0 then .leaveRecursive else .idle) with
        recursionCount := recursionCount }
  | .next t => next s t
  | .timeout t => (s.futexes.timeout t).map fun futexes => { s with futexes := futexes }
  | .alert t => some { s with futexes := s.futexes.alert t }
  | .shutdown => some { s with shutdown := true }

/-- After `RtlInitializeCriticalSection`, with no thread in an operation. A semaphore in the field
has no grant and room for one. -/
def Initial (s : State T) : Prop :=
  s.lockCount = -1 ∧ s.recursionCount = 0 ∧ s.owningThread = none ∧
    (s.lockSemaphore = .value false ∨ ∃ max ≥ 1, s.lockSemaphore = .handle 0 max) ∧
    s.shutdown = false ∧ s.futexes.queue = [] ∧ (∀ t, s.futexes.phase t = .out) ∧
    (∀ t, s.pc t = .idle) ∧ (∀ t, s.depth t = 0) ∧ s.committed = []

end WineForge.CriticalSections
