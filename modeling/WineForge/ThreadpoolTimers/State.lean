import WineForge.Library.SortedInsert
import WineForge.Library.Transition

/-!
# Timers of the thread pool

All timers share one thread. The pending ones are in two lists, for absolute and for relative
timeouts, and each list has an NT timer that wakes the thread.

A step is a section of the code under `timerqueue.cs`. The callbacks that a section submits belong
to it. A failed assertion ends the process, so there is no step. Absolute instants are system times,
relative ones are values of the performance counter, both in units of 100 ns; they are signed 64-bit
integers that are not negative. So are periods and windows, in milliseconds and with 32 bits.
-/

namespace WineForge.ThreadpoolTimers

open Function Library

def maxLongLong : Nat := 0x7fffffffffffffff

def wrap (n : Nat) : Nat := n % 2 ^ 64

/-- `u.timer` of a timer object, with its `shutdown`. -/
structure Timer where
  initialized : Bool
  pending : Bool
  isSet : Bool
  timeout : Nat
  period : Nat
  windowLength : Nat
  shutdown : Bool
  deriving DecidableEq, Repr

/-- A list and its NT timer. -/
inductive Queue
  | abs | rel
  deriving DecidableEq, Repr

/-- The instant that an NT timer waits for. -/
inductive Armed
  | unset
  | atOnce
  | at (instant : Nat)
  deriving DecidableEq, Repr

inductive Thread
  | stopped
  /-- In front of its first section. -/
  | starting
  /-- In `NtWaitForMultipleObjects`. -/
  | waiting
  deriving DecidableEq, Repr

/-- The global `timerqueue`, with the timer objects. -/
structure State (T : Type) where
  timer : T → Timer
  objcount : Nat
  armed : Queue → Armed
  timers : Queue → List T
  thread : Thread
  -- history: the timer objects that are initialized, and the callbacks that were submitted
  objects : List T
  submitted : List T

variable {T : Type} [DecidableEq T]

/-- `list_remove`, with `timer_pending = FALSE`. -/
def State.unlink (s : State T) (t : T) : State T :=
  { s with
    timer := update s.timer t { s.timer t with pending := false }
    timers := fun queue => (s.timers queue).erase t }

def State.disable (s : State T) (t : T) : State T :=
  if (s.timer t).pending = true then s.unlink t else s

/-- `list_add_before` at the place of a timer, with `timer_pending = TRUE`. -/
def State.link (s : State T) (queue : Queue) (t : T) (timer : Timer) : State T :=
  { s with
    timer := update s.timer t { timer with pending := true }
    timers := update s.timers queue
      (insertBefore (fun other => decide (timer.timeout < (s.timer other).timeout)) t
        (s.timers queue)) }

def nextExpiry (queue : Queue) (timer : Timer) (relNow : Nat) : Nat :=
  -- update timeout when moving timer to relative queue
  let timeout := if queue = .abs then relNow else timer.timeout
  let timeout := wrap (timeout + timer.period * 10000)
  if timeout ≤ relNow then relNow + 1 else timeout

def submitTimer (queue : Queue) (relNow : Nat) (t : T) (s : State T) : State T :=
  let timer := s.timer t
  let s := { s.unlink t with submitted := s.submitted ++ [t] }
  -- insert the timer back into the queue, except it's marked for shutdown
  if timer.period ≠ 0 ∧ timer.shutdown = false then
    s.link .rel t { timer with timeout := nextExpiry queue timer relNow }
  else s

/-- The loop, nothing where it has not ended after `fuel` tests. -/
def submitExpiredTimers (queue : Queue) (queueNow relNow : Nat) : Nat → State T → Option (State T)
  | 0, _ => none
  | fuel + 1, s =>
    match s.timers queue with
    | [] => some s
    | t :: _ =>
      if (s.timer t).pending = false then none
      else if (s.timer t).timeout > queueNow then some s
      else submitExpiredTimers queue queueNow relNow fuel (submitTimer queue relNow t s)

def nextTimeoutLoop (timer : T → Timer) : List T → Nat → Nat → Nat
  | [], lower, _ => lower
  | other :: rest, lower, upper =>
    if (timer other).timeout ≥ upper then lower
    else
      let lower := (timer other).timeout
      let timeout := wrap (lower + (timer other).windowLength * 10000)
      nextTimeoutLoop timer rest lower (if timeout < upper then timeout else upper)

def getNextTimeout (s : State T) (queue : Queue) : Nat :=
  nextTimeoutLoop s.timer (s.timers queue) maxLongLong maxLongLong

/-- `NtSetTimer`: a negative time counts from now. -/
def ntSetTimer (timeout : Int) (relNow : Nat) : Armed :=
  if timeout > 0 then .at timeout.toNat
  else if timeout < 0 then .at (relNow + (-timeout).toNat)
  else .atOnce

def updateTimers (s : State T) (relNow : Nat) : State T :=
  let timeout : Int :=
    if s.objcount ≠ 0 then
      let timeout := getNextTimeout s .rel
      if timeout > relNow then (relNow : Int) - timeout else 0
    else -(5000 * 10000)
  { s with
    armed := fun
      | .abs => ntSetTimer (getNextTimeout s .abs) relNow
      | .rel => ntSetTimer timeout relNow }

/-- `tp_timerqueue_lock` for a new object; the NT timers are new where the thread is not running. -/
def tpTimerqueueLock (s : State T) (t : T) : State T :=
  { s with
    timer := update s.timer t ⟨true, false, false, 0, 0, 0, false⟩
    objcount := s.objcount + 1
    objects := t :: s.objects
    thread := if s.thread = .stopped then .starting else s.thread
    armed := if s.thread = .stopped then fun _ => .unset else s.armed }

/-- The list and the timestamp of `tp_set_timer`, nothing for a timer that is not enabled. -/
def schedule (timeout : Option Int) (period relNow : Nat) : Option (Queue × Nat) :=
  match timeout with
  | none => none
  | some timeout =>
    if timeout > 0 then some (.abs, timeout.toNat)
    else if timeout < 0 then some (.rel, wrap (relNow + (-timeout).toNat))
    else if period = 0 then none
    else some (.rel, wrap (relNow + period * 10000))

/-- The end of `tp_set_timer` for a timer that is enabled. -/
def enableTimer (s : State T) (t : T) (queue : Queue) (timestamp period windowLength relNow : Nat) :
    State T :=
  let s := s.link queue t { s.timer t with
    timeout := timestamp, period := period, windowLength := windowLength }
  -- update timeout if needed
  if (s.timers queue).head? = some t then updateTimers s relNow else s

def setTimeout (s : State T) (t : T) (timeout : Option Int) (period windowLength relNow relNow' : Nat) :
    State T :=
  match schedule timeout period relNow with
  | none => s
  | some (queue, timestamp) => enableTimer s t queue timestamp period windowLength relNow'

/-- `tp_set_timer`; the performance counter is read once for the timestamp and once for the update. -/
def tpSetTimer (s : State T) (t : T) (timeout : Option Int) (period windowLength relNow relNow' : Nat) :
    Option (State T) :=
  if (s.timer t).initialized = false then none
  else
    let s := { s with
      timer := update s.timer t { s.timer t with isSet := timeout.isSome } }
    let s := setTimeout (s.disable t) t timeout period windowLength relNow relNow'
    some (if timeout = some 0 then { s with submitted := s.submitted ++ [t] } else s)

def tpTimerqueueUnlock (s : State T) (t : T) (relNow : Nat) : Option (State T) :=
  if (s.timer t).initialized = false then some s
  else
    let s := s.disable t
    let s := { s with objcount := s.objcount - 1, objects := s.objects.erase t }
    let clear := fun s : State T =>
      { s with timer := update s.timer t { s.timer t with initialized := false } }
    -- if the last timer object was destroyed, then update timeout
    if s.objcount = 0 then
      if s.timers .abs = [] ∧ s.timers .rel = [] then some (clear (updateTimers s relNow)) else none
    else some (clear s)

/-- A section of the thread: it begins behind a wait, or at the start of the thread. -/
def threadPass (fuel : Nat) (s : State T) (absNow relNow : Nat) : Option (State T) := do
  let s ← submitExpiredTimers .abs absNow relNow fuel s
  let s ← submitExpiredTimers .rel relNow relNow fuel s
  some { updateTimers s relNow with thread := .waiting }

inductive Act (T : Type)
  | lock (t : T)
  | set (t : T) (timeout : Option Int) (period windowLength relNow relNow' : Nat)
  | unlock (t : T) (relNow : Nat)
  /-- `object->shutdown = TRUE`. -/
  | shutDown (t : T)
  | thread (fuel absNow relNow : Nat)

def step (s : State T) : Act T → Option (State T)
  | .lock t => if (s.timer t).initialized = false then some (tpTimerqueueLock s t) else none
  | .set t timeout period windowLength relNow relNow' =>
    tpSetTimer s t timeout period windowLength relNow relNow'
  | .unlock t relNow => tpTimerqueueUnlock s t relNow
  | .shutDown t =>
    some { s with timer := update s.timer t { s.timer t with shutdown := true } }
  | .thread fuel absNow relNow =>
    if relNow > maxLongLong then none
    else match s.thread with
      | .stopped => none
      | .starting => threadPass fuel s absNow relNow
      | .waiting =>
        if s.objcount = 0 then some { s with thread := .stopped }
        else threadPass fuel s absNow relNow

def initial : State T :=
  ⟨fun _ => ⟨false, false, false, 0, 0, 0, false⟩, 0, fun _ => .unset, fun _ => [], .stopped, [], []⟩

end WineForge.ThreadpoolTimers
