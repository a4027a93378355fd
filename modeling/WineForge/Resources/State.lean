import WineForge.Library.Census
import WineForge.Library.Transition

/-!
# Resources

An `RTL_RWLOCK` and the calls of the threads that use it. The fields are only accessed with `rtlCS`,
so each section with it is one step; the waits for the two semaphores are steps of their own.
-/

namespace WineForge.Resources

open Function Library

inductive Kind
  | exclusive | shared
  deriving DecidableEq, Repr

/-- What a thread brings along to the start of the loop: `fWait`, and a wait that has succeeded. -/
inductive How
  | noWait | wait | woken
  deriving DecidableEq, Repr

/-- The next step of a thread. -/
inductive Pc
  | idle
  /-- The section of `RtlAcquireResourceExclusive` or `RtlAcquireResourceShared`. -/
  | acquire (kind : Kind) (how : How)
  /-- `NtWaitForSingleObject`. -/
  | waiting (kind : Kind)
  | release
  deriving DecidableEq, Repr

/-- The resource, its semaphores, and the threads, with the number of acquisitions that each of them
has not released yet. -/
structure State (ι : Type) where
  numberActive : Int
  /-- `uExclusiveWaiters` and `uSharedWaiters`. -/
  waiters : Kind → Nat
  owningThread : Option ι
  semaphore : Kind → Nat
  pc : ι → Pc
  held : ι → Nat

variable {ι : Type} [DecidableEq ι]

def State.setPc (s : State ι) (t : ι) (pc : Pc) : State ι :=
  { s with pc := update s.pc t pc }

def State.setHeld (s : State ι) (t : ι) (held : Nat) : State ι :=
  { s with held := update s.held t held }

def State.acquired (s : State ι) (t : ι) : State ι :=
  (s.setPc t .idle).setHeld t (s.held t + 1)

def State.wait (s : State ι) (t : ι) (kind : Kind) (how : How) : State ι :=
  if how = .noWait then s.setPc t .idle
  else
    { s.setPc t (.waiting kind) with
      waiters := update s.waiters kind (s.waiters kind + 1) }

def acquireExclusive (s : State ι) (t : ι) (how : How) : State ι :=
  if s.numberActive = 0 then
    { s.acquired t with numberActive := -1, owningThread := some t }
  else if s.numberActive < 0 ∧ s.owningThread = some t then
    { s.acquired t with numberActive := s.numberActive - 1 }
  else s.wait t .exclusive how

def acquireShared (s : State ι) (t : ι) (how : How) : State ι :=
  if s.numberActive < 0 then
    if s.owningThread = some t then { s.acquired t with numberActive := s.numberActive - 1 }
    else s.wait t .shared how
  -- otherwise `RtlReleaseResource` has already counted the thread
  else if how ≠ .woken then { s.acquired t with numberActive := s.numberActive + 1 }
  else s.acquired t

/-- `NtReleaseSemaphore`, of semaphores that count up to 65535. -/
def releaseSemaphore (s : State ι) (kind : Kind) (n : Nat) : State ι :=
  if s.semaphore kind + n ≤ 65535 then
    { s with semaphore := update s.semaphore kind (s.semaphore kind + n) }
  else s

def wakeExclusive (s : State ι) : State ι :=
  releaseSemaphore
    { s with waiters := update s.waiters .exclusive (s.waiters .exclusive - 1) }
    .exclusive 1

def wakeShared (s : State ι) : State ι :=
  releaseSemaphore
    { s with
      numberActive := s.waiters .shared
      waiters := update s.waiters .shared 0 }
    .shared (s.waiters .shared)

def rtlReleaseResource (s : State ι) : State ι :=
  if 0 < s.numberActive then
    let s := { s with numberActive := s.numberActive - 1 }
    if s.numberActive = 0 ∧ s.waiters .exclusive ≠ 0 then wakeExclusive s else s
  else if s.numberActive < 0 then
    let s := { s with numberActive := s.numberActive + 1 }
    if s.numberActive = 0 then
      let s := { s with owningThread := none }
      if s.waiters .exclusive ≠ 0 then wakeExclusive s
      else if s.waiters .shared ≠ 0 then wakeShared s
      else s
    else s
  else s

def next (s : State ι) (t : ι) : Option (State ι) :=
  match s.pc t with
  | .idle => none
  | .acquire .exclusive how => some (acquireExclusive s t how)
  | .acquire .shared how => some (acquireShared s t how)
  | .waiting kind =>
    if s.semaphore kind = 0 then none
    else
      some { s.setPc t (.acquire kind .woken) with
        semaphore := update s.semaphore kind (s.semaphore kind - 1) }
  | .release => some (rtlReleaseResource ((s.setPc t .idle).setHeld t (s.held t - 1)))

inductive Op (ι : Type)
  | acquire (t : ι) (kind : Kind) (wait : Bool)
  /-- A thread releases what it has acquired. -/
  | release (t : ι)
  | next (t : ι)

def step (s : State ι) : Op ι → Option (State ι)
  | .acquire t kind wait =>
    if s.pc t = .idle then some (s.setPc t (.acquire kind (if wait then .wait else .noWait)))
    else none
  | .release t => if s.pc t = .idle ∧ 0 < s.held t then some (s.setPc t .release) else none
  | .next t => next s t

def rtlInitializeResource : State ι where
  numberActive := 0
  waiters _ := 0
  owningThread := none
  semaphore _ := 0
  pc _ := .idle
  held _ := 0

end WineForge.Resources
