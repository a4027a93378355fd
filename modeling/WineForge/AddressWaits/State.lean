import Mathlib.Data.List.Basic
import Mathlib.Algebra.Order.Ring.Int

/-!
# Address waits and wakes, step by step

The futex queues with their spin locks, and the calls that use them, with one step for each access
to an entry of a queue. The entries live on the stacks of the waiters, so what each step accesses
is part of the model.
-/

namespace WineForge.AddressWaits

open Function

inductive Status
  | success | timeout
  deriving DecidableEq, Repr

/-- `get_futex_queue`, with the index of the queue for its address. -/
def getFutexQueue (addr : Nat) : Nat := addr / 16 % 256

/-- The value of `size` bytes at an address. -/
def readValue (mem : Nat → Nat) (addr : Nat) : Nat → Nat
  | 0 => 0
  | size + 1 => mem addr + 256 * readValue mem (addr + 1) size

def writeLong (mem : Nat → Nat) (addr value : Nat) : Nat → Nat :=
  fun i => if addr ≤ i ∧ i < addr + 4 then value / 256 ^ (i - addr) % 256 else mem i

def compareAddr (mem : Nat → Nat) (addr cmp size : Nat) : Bool :=
  if size = 1 ∨ size = 2 ∨ size = 4 ∨ size = 8 then readValue mem addr size == cmp else false

/-- The next step of a thread. An entry has a number of its own, and so has a wake. -/
inductive Pc (T : Type)
  | idle
  /-- `RtlWaitOnAddress`, before the spin lock. -/
  | waitLock (addr cmp size : Nat) (timed : Bool)
  | waitCompare (addr cmp size : Nat) (timed : Bool)
  /-- The value has changed. -/
  | waitChanged (addr : Nat)
  | waitUnlock (entry addr : Nat) (timed : Bool)
  /-- In `NtWaitForAlertByThreadId`. -/
  | sleeping (entry addr : Nat) (timed : Bool)
  /-- The read of `entry.addr` without the lock. -/
  | checkAddr (entry addr : Nat) (ret : Status)
  | removeLock (entry addr : Nat) (ret : Status)
  | removeCheck (entry addr : Nat) (ret : Status)
  | removeUnlock (entry addr : Nat) (ret : Status)
  /-- `RtlWakeConditionVariable` and `RtlWakeAllConditionVariable`, before the increment. -/
  | wakeIncrement (all : Bool) (addr : Nat)
  /-- `RtlWakeAddressSingle` or `RtlWakeAddressAll`, before the spin lock. -/
  | wakeLock (all : Bool) (addr : Nat)
  /-- The loop over the entries, at `cursor`, with the threads to alert so far. -/
  | scan (all : Bool) (addr call : Nat) (cursor : Option Nat) (tids : List T)
  /-- The entry is out of the queue, and its `addr` is still to be cleared. -/
  | unlinked (all : Bool) (addr call entry : Nat) (tid : T) (next : Option Nat) (tids : List T)
  /-- The array of `RtlWakeAddressAll` is full: its threads are alerted under the lock. -/
  | flush (addr call : Nat) (tid : T) (next : Option Nat) (tids : List T)
  | wakeUnlock (addr : Nat) (tids : List T)
  | alerting (tids : List T)
  deriving DecidableEq, Repr

/-- What a wake has done. The code does not keep this. -/
structure Call where
  all : Bool
  addr : Nat
  /-- The entries queued on the address when the call got the lock. -/
  seen : List Nat
  /-- The entries that the call took out of the queue. -/
  took : List Nat
  finished : Bool
  deriving DecidableEq, Repr

structure State (T : Type) where
  mem : Nat → Nat
  /-- The fields `addr` and `tid` of the entries. -/
  addr : Nat → Option Nat
  tid : Nat → T
  /-- The number of entries so far; they are numbered as they are queued. -/
  count : Nat
  queue : Nat → List Nat
  /-- The threads that hold the spin locks. -/
  lock : Nat → Option T
  alerted : T → Bool
  pc : T → Pc T
  /-- What the wait with the entry has returned. -/
  result : Nat → Option Status
  calls : Nat → Call
  callCount : Nat

variable {T : Type}

def nextIn (queue : List Nat) (entry : Nat) : Option Nat := (queue.dropWhile (· ≠ entry)).tail.head?

def prevIn (queue : List Nat) (entry : Nat) : Option Nat :=
  (queue.takeWhile (· ≠ entry)).getLast?

variable [DecidableEq T]

def State.setPc (s : State T) (t : T) (pc : Pc T) : State T :=
  { s with pc := update s.pc t pc }

def State.setQueue (s : State T) (b : Nat) (queue : List Nat) : State T :=
  { s with queue := update s.queue b queue }

def State.setCall (s : State T) (c : Nat) (call : Call) : State T :=
  { s with calls := update s.calls c call }

/-- `spin_lock`, which has a step when the lock is free. -/
def spinLock (s : State T) (t : T) (addr : Nat) : Option (State T) :=
  match s.lock (getFutexQueue addr) with
  | some _ => none
  | none => some { s with lock := update s.lock (getFutexQueue addr) (some t) }

def spinUnlock (s : State T) (addr : Nat) : State T :=
  { s with lock := update s.lock (getFutexQueue addr) none }

/-- `RtlWaitOnAddress` returns, and its stack frame is gone. -/
def finish (s : State T) (t : T) (entry : Nat) (ret : Status) : State T :=
  { s.setPc t .idle with result := update s.result entry (some ret) }

def alertThread (s : State T) (t : T) : State T :=
  { s with alerted := update s.alerted t true }

/-- `list_add_tail` of a new entry. -/
def enqueue (s : State T) (t : T) (addr : Nat) : State T :=
  { s.setQueue (getFutexQueue addr) (s.queue (getFutexQueue addr) ++ [s.count]) with
    addr := update s.addr s.count (some addr)
    tid := update s.tid s.count t
    result := update s.result s.count none
    count := s.count + 1 }

/-- `list_remove`. -/
def unlink (s : State T) (addr entry : Nat) : State T :=
  s.setQueue (getFutexQueue addr) ((s.queue (getFutexQueue addr)).erase entry)

def queuedOn (s : State T) (addr : Nat) : List Nat :=
  (s.queue (getFutexQueue addr)).filter fun entry => s.addr entry = some addr

def beginScan (s : State T) (t : T) (all : Bool) (addr : Nat) : State T :=
  { (s.setCall s.callCount ⟨all, addr, queuedOn s addr, [], false⟩).setPc t
      (.scan all addr s.callCount (s.queue (getFutexQueue addr)).head? []) with
    callCount := s.callCount + 1 }

def endScan (s : State T) (t : T) (addr call : Nat) (tids : List T) : State T :=
  (s.setCall call { s.calls call with finished := true }).setPc t (.wakeUnlock addr tids)

def take (s : State T) (t : T) (all : Bool) (addr call entry : Nat) (tids : List T) : State T :=
  ((unlink s addr entry).setCall call
    { s.calls call with took := (s.calls call).took ++ [entry] }).setPc t
      (.unlinked all addr call entry (s.tid entry) (nextIn (s.queue (getFutexQueue addr)) entry)
        tids)

def next (s : State T) (t : T) : Option (State T) :=
  match s.pc t with
  | .idle => none
  | .waitLock addr cmp size timed =>
    (spinLock s t addr).map (·.setPc t (.waitCompare addr cmp size timed))
  | .waitCompare addr cmp size timed =>
    some (if compareAddr s.mem addr cmp size then
      (enqueue s t addr).setPc t (.waitUnlock s.count addr timed)
      else s.setPc t (.waitChanged addr))
  | .waitChanged addr => some ((spinUnlock s addr).setPc t .idle)
  | .waitUnlock entry addr timed =>
    some ((spinUnlock s addr).setPc t (.sleeping entry addr timed))
  | .sleeping entry addr _ =>
    if s.alerted t then
      some { s.setPc t (.checkAddr entry addr .success) with
        alerted := update s.alerted t false }
    else none
  | .checkAddr entry addr ret =>
    some (if s.addr entry = none then finish s t entry ret
      else s.setPc t (.removeLock entry addr ret))
  | .removeLock entry addr ret =>
    (spinLock s t addr).map (·.setPc t (.removeCheck entry addr ret))
  | .removeCheck entry addr ret =>
    some ((if s.addr entry = none then s else unlink s addr entry).setPc t
      (.removeUnlock entry addr ret))
  | .removeUnlock entry addr ret => some (finish (spinUnlock s addr) t entry ret)
  | .wakeIncrement all addr =>
    some { s.setPc t (.wakeLock all addr) with
      mem := writeLong s.mem addr ((readValue s.mem addr 4 + 1) % 2 ^ 32) }
  | .wakeLock all addr => (spinLock s t addr).map fun s => beginScan s t all addr
  | .scan _ addr call none tids => some (endScan s t addr call tids)
  | .scan all addr call (some entry) tids =>
    some (if s.addr entry = some addr then take s t all addr call entry tids
      else s.setPc t (.scan all addr call (nextIn (s.queue (getFutexQueue addr)) entry) tids))
  | .unlinked all addr call entry tid next tids =>
    let s := { s with addr := update s.addr entry none }
    some (if !all then endScan s t addr call [tid]
      else if tids.length = 256 then s.setPc t (.flush addr call tid next tids)
      else s.setPc t (.scan true addr call next (tids ++ [tid])))
  | .flush addr call tid next [] => some (s.setPc t (.scan true addr call next [tid]))
  | .flush addr call tid next (u :: tids) =>
    some ((alertThread s u).setPc t (.flush addr call tid next tids))
  | .wakeUnlock addr tids => some ((spinUnlock s addr).setPc t (.alerting tids))
  | .alerting [] => some (s.setPc t .idle)
  | .alerting (u :: tids) => some ((alertThread s u).setPc t (.alerting tids))

def accesses (s : State T) (t : T) : List Nat :=
  let around := fun addr entry =>
    let queue := s.queue (getFutexQueue addr)
    entry :: ((prevIn queue entry).toList ++ (nextIn queue entry).toList)
  match s.pc t with
  | .waitCompare addr _ _ _ => (s.queue (getFutexQueue addr)).getLast?.toList
  | .checkAddr entry _ _ => [entry]
  | .removeCheck entry addr _ => if s.addr entry = none then [entry] else around addr entry
  | .scan _ addr _ (some entry) _ =>
    if s.addr entry = some addr then around addr entry else [entry]
  | .unlinked _ _ _ entry _ _ _ => [entry]
  | _ => []

inductive Op (T : Type)
  | waitOnAddress (t : T) (addr cmp size : Nat) (timed : Bool)
  /-- `RtlSleepConditionVariableCS` / `RtlSleepConditionVariableSRW`, up to the address wait. -/
  | sleepConditionVariable (t : T) (addr : Nat) (timed : Bool)
  | wakeAddress (t : T) (all : Bool) (addr : Nat)
  | wakeConditionVariable (t : T) (all : Bool) (addr : Nat)
  | next (t : T)
  /-- `NtWaitForAlertByThreadId` returns `STATUS_TIMEOUT`. -/
  | timeout (t : T)
  /-- An alert from elsewhere. -/
  | alert (t : T)
  | write (addr value : Nat)
  deriving DecidableEq, Repr

def step (s : State T) : Op T → Option (State T)
  | .waitOnAddress t addr cmp size timed =>
    if s.pc t ≠ .idle then none
    -- another size is an invalid parameter
    else if size ≠ 1 ∧ size ≠ 2 ∧ size ≠ 4 ∧ size ≠ 8 then some s
    else some (s.setPc t (.waitLock addr cmp size timed))
  | .sleepConditionVariable t addr timed =>
    if s.pc t ≠ .idle then none
    else some (s.setPc t (.waitLock addr (readValue s.mem addr 4) 4 timed))
  | .wakeAddress t all addr =>
    if s.pc t ≠ .idle then none
    else if addr = 0 then some s
    else some (s.setPc t (.wakeLock all addr))
  | .wakeConditionVariable t all addr =>
    if s.pc t ≠ .idle ∨ addr = 0 then none else some (s.setPc t (.wakeIncrement all addr))
  | .next t => next s t
  | .timeout t =>
    match s.pc t with
    | .sleeping entry addr true => some (s.setPc t (.checkAddr entry addr .timeout))
    | _ => none
  | .alert t => some (alertThread s t)
  | .write addr value => some { s with mem := update s.mem addr value }

def Initial (s : State T) : Prop :=
  (∀ b, s.queue b = []) ∧ (∀ b, s.lock b = none) ∧ (∀ t, s.pc t = .idle) ∧ s.count = 0 ∧
    s.callCount = 0

end WineForge.AddressWaits
