import Mathlib.Algebra.Order.Ring.Int

/-!
# The shared state of a WFUSync object

One `struct wfusync_state` of the shared pages, the bits of its `type` word, and the
functions of the server and of the client that run with the state locked. Each function here
is the body between `lock_state` and `unlock_state`; the interleavings are the business of the
machines built on top.
-/

namespace WineForge.WfuSync

scoped instance neZeroThree : NeZero 3 := ⟨by decide⟩

/-- `enum inproc_sync_type`. -/
inductive SyncType
  | unknown | internal | event | mutex | semaphore
  deriving DecidableEq, Repr

def SyncType.code : SyncType → ℕ
  | .unknown => 0
  | .internal => 1
  | .event => 2
  | .mutex => 3
  | .semaphore => 4

/-- The `type` word: the object type and the three flag bits. -/
structure TypeWord where
  type : SyncType
  locked : Bool
  multiWaiters : Bool
  serverWaiters : Bool
  deriving DecidableEq, Repr

def TypeWord.bits (w : TypeWord) : BitVec 16 :=
  BitVec.ofNat 16 w.type.code ||| (if w.locked then 0x2000 else 0) |||
    (if w.multiWaiters then 0x4000 else 0) ||| (if w.serverWaiters then 0x8000 else 0)

/-- The record and the bits carry the same information. -/
theorem TypeWord.bits_injective : Function.Injective TypeWord.bits := by
  rintro ⟨t, l, m, v⟩ ⟨t', l', m', v'⟩ h
  revert h
  cases t <;> cases t' <;> cases l <;> cases l' <;> cases m <;> cases m' <;> cases v <;>
    cases v' <;> decide

/-- Reading the fields is masking, setting and clearing a flag is `fetch_or` and `fetch_and`. -/
theorem TypeWord.bits_fields (w : TypeWord) : w.bits &&& 0x1fff = BitVec.ofNat 16 w.type.code ∧
      (w.bits &&& 0x2000 ≠ 0 ↔ w.locked = true) ∧
      (w.bits &&& 0x4000 ≠ 0 ↔ w.multiWaiters = true) ∧
      (w.bits &&& 0x8000 ≠ 0 ↔ w.serverWaiters = true) := by
  obtain ⟨t, l, m, v⟩ := w
  cases t <;> cases l <;> cases m <;> cases v <;> decide

theorem TypeWord.bits_update (w : TypeWord) :
    { w with locked := true }.bits = w.bits ||| 0x2000 ∧
      { w with locked := false }.bits = w.bits &&& ~~~0x2000 ∧
      { w with multiWaiters := true }.bits = w.bits ||| 0x4000 ∧
      { w with multiWaiters := false }.bits = w.bits &&& ~~~0x4000 ∧
      { w with serverWaiters := true }.bits = w.bits ||| 0x8000 ∧
      { w with serverWaiters := false }.bits = w.bits &&& ~~~0x8000 := by
  obtain ⟨t, l, m, v⟩ := w
  cases t <;> cases l <;> cases m <;> cases v <;> decide

/-- `struct wfusync_state`; `refcount` is not read by any function modelled here. -/
structure WfusyncState where
  low : Int
  high : Int
  generation : ℕ
  word : TypeWord
  deriving DecidableEq, Repr

/-- The status codes of the modelled functions. `wait0` is also `STATUS_SUCCESS`, and
`abandonedWait0` is also `STATUS_ABANDONED`. -/
inductive NtStatus
  | wait0 | abandonedWait0 | timeout | pending | notImplemented | mutantNotOwned
  | semaphoreLimitExceeded | objectTypeMismatch | accessDenied
  deriving DecidableEq, Repr

/-- The waits that end with `STATUS_WAIT_0` or `STATUS_ABANDONED_WAIT_0`. -/
def NtStatus.satisfied : NtStatus → Bool
  | .wait0 | .abandonedWait0 => true
  | _ => false

/-- Conversion of an `int` to `unsigned int`. -/
def toUnsigned (x : Int) : ℕ :=
  (x % 4294967296).toNat

/-- Conversion of an integer to `int`, wrapping around. -/
def toSigned (x : Int) : Int :=
  Int.bmod x 4294967296

def intMax : Int :=
  2147483647

lemma toSigned_of_range {x : Int} (hlo : -2147483648 ≤ x) (hhi : x ≤ intMax) : toSigned x = x := by
  unfold toSigned
  rw [intMax] at hhi
  rw [Int.bmod_eq_of_le] <;> omega

lemma toUnsigned_of_range {x : Int} (hlo : 0 ≤ x) (hhi : x ≤ intMax) : toUnsigned x = x.toNat := by
  unfold toUnsigned
  rw [intMax] at hhi
  rw [Int.emod_eq_of_lt hlo (by omega)]

/-- `generation++` on an `unsigned int`. -/
def nextGeneration (g : ℕ) : ℕ :=
  (g + 1) % 4294967296

/-- The argument of `wake_address`: any one sleeper, or all of them. -/
inductive Wake
  | one | all
  deriving DecidableEq, Repr

/-- Thread ids as the mutex word stores them. -/
structure ThreadIds (ι : Type*) where
  tid : ι → Int
  pos : ∀ t, 0 < tid t
  injective : Function.Injective tid

def threeThreads : ThreadIds (Fin 3) where
  tid t := t.val + 1
  pos t := by omega
  injective t u h := by
    have hval : (t.val : Int) + 1 = u.val + 1 := h
    omega

def wfusyncHasServerWaiters (s : WfusyncState) : Bool :=
  s.word.serverWaiters || s.word.multiWaiters

def wfusyncHasWineServerWaiters (s : WfusyncState) : Bool :=
  s.word.serverWaiters

def wfusyncHasMultiWaiters (s : WfusyncState) : Bool :=
  s.word.multiWaiters

/-- Whether `wfusync_lock_state` grants the lock of an unlocked state. A locked state makes
it spin, any other refusal makes it return `FALSE`. -/
def wfusyncLockGranted (s : WfusyncState) (expectedType : SyncType) : Bool :=
  decide (s.word.type = expectedType) && !s.word.serverWaiters

def consumeAutoEventState (s : WfusyncState) : NtStatus × WfusyncState :=
  if s.low = 0 then (.timeout, s)
  else if s.high ≠ 0 then (.notImplemented, s)
  else if s.low ≠ 1 then (.timeout, s)
  else (.wait0, { s with low := 0 })

def consumeEventStateLocked (s : WfusyncState) : NtStatus × WfusyncState :=
  if s.low = 0 then (.timeout, s)
  else if s.high ≠ 0 then (.wait0, s)
  else consumeAutoEventState s

def consumeSemaphoreStateLocked (s : WfusyncState) : NtStatus × WfusyncState :=
  if s.low ≤ 0 then (.timeout, s)
  else (.wait0, { s with low := s.low - 1 })

def consumeMutexStateLocked (tid : Int) (s : WfusyncState) : NtStatus × WfusyncState :=
  if s.low = tid then
    if s.high = intMax then (.notImplemented, s)
    else (.wait0, { s with high := s.high + 1 })
  else if s.low = 0 then (.wait0, { s with low := tid, high := 1 })
  else if s.low < 0 then
    (.abandonedWait0, { s with low := tid, high := 1, generation := nextGeneration s.generation })
  else (.timeout, s)

def consumeEventState (s : WfusyncState) : NtStatus × WfusyncState :=
  if wfusyncLockGranted s .event then consumeEventStateLocked s else (.notImplemented, s)

def consumeSemaphoreState (s : WfusyncState) : NtStatus × WfusyncState :=
  if wfusyncLockGranted s .semaphore then consumeSemaphoreStateLocked s else (.notImplemented, s)

def consumeMutexState (tid : Int) (s : WfusyncState) : NtStatus × WfusyncState :=
  if wfusyncLockGranted s .mutex then consumeMutexStateLocked tid s else (.notImplemented, s)

/-- The objects that the client waits for by itself. -/
inductive WaitKind
  | event | semaphore | mutex
  deriving DecidableEq, Repr

def WaitKind.type : WaitKind → SyncType
  | .event => .event
  | .semaphore => .semaphore
  | .mutex => .mutex

def WaitKind.consumeLocked (kind : WaitKind) (tid : Int) (s : WfusyncState) :
    NtStatus × WfusyncState :=
  match kind with
  | .event => consumeEventStateLocked s
  | .semaphore => consumeSemaphoreStateLocked s
  | .mutex => consumeMutexStateLocked tid s

def WaitKind.consumeState (kind : WaitKind) (tid : Int) (s : WfusyncState) :
    NtStatus × WfusyncState :=
  match kind with
  | .event => consumeEventState s
  | .semaphore => consumeSemaphoreState s
  | .mutex => consumeMutexState tid s

/-- What a signaling section leaves behind: its status, the new state, the old value it
reports, and the `wake_address` call that follows the unlock. `transition` is the test that
precedes the wake of the wait slots. -/
structure SignalResult where
  status : NtStatus
  state : WfusyncState
  previous : Int
  wake : Option Wake
  transition : Bool
  deriving DecidableEq, Repr

def SignalResult.refused (status : NtStatus) (s : WfusyncState) : SignalResult :=
  ⟨status, s, 0, none, false⟩

/-- The exchange of `wfusync_set_event`, the same in client and server. -/
def setEventLocked (s : WfusyncState) : SignalResult :=
  { status := .wait0
    state := { s with low := 1 }
    previous := s.low
    wake := if s.low = 0 then some (if s.high ≠ 0 then .all else .one) else none
    transition := decide (s.low = 0) }

def resetEventLocked (s : WfusyncState) : SignalResult :=
  { status := .wait0
    state := { s with low := 0 }
    previous := s.low
    wake := none
    transition := false }

/-- The loop of `wfusync_release_semaphore`; its compare-exchange cannot fail under the lock. -/
def releaseSemaphoreLocked (count : ℕ) (s : WfusyncState) : SignalResult :=
  let sum := (toUnsigned s.low + count) % 4294967296
  if sum < toUnsigned s.low ∨ toUnsigned s.high < sum then
    .refused .semaphoreLimitExceeded s
  else
    { status := .wait0
      state := { s with low := toSigned (s.low + count) }
      previous := s.low
      wake := if s.low = 0 then some (if 1 < count then .all else .one) else none
      transition := decide (s.low = 0) }

def releaseMutexLocked (tid : Int) (s : WfusyncState) : SignalResult :=
  if s.low ≠ tid ∨ s.high = 0 then .refused .mutantNotOwned s
  else if 1 < s.high then
    { status := .wait0
      state := { s with high := s.high - 1 }
      previous := s.high
      wake := none
      transition := false }
  else
    { status := .wait0
      state := { s with high := 0, low := 0 }
      previous := s.high
      wake := some .one
      transition := true }

/-- The four signaling operations of a client or a server request. -/
inductive SignalOp
  | setEvent
  | resetEvent
  | releaseSemaphore (count : UInt32)
  | releaseMutex
  deriving DecidableEq, Repr

def SignalOp.type : SignalOp → SyncType
  | .setEvent | .resetEvent => .event
  | .releaseSemaphore _ => .semaphore
  | .releaseMutex => .mutex

/-- The lock-held section of a signaling operation by thread `tid`. -/
def SignalOp.locked (op : SignalOp) (tid : Int) (s : WfusyncState) : SignalResult :=
  match op with
  | .setEvent => setEventLocked s
  | .resetEvent => resetEventLocked s
  | .releaseSemaphore count => releaseSemaphoreLocked count.toNat s
  | .releaseMutex => releaseMutexLocked tid s

/-- The client fast path: lock, check the cached generation and the waiter flags, then the
section. Every refusal falls back to the server. -/
def SignalOp.client (op : SignalOp) (tid : Int) (generation : ℕ) (s : WfusyncState) :
    SignalResult :=
  if !wfusyncLockGranted s op.type then .refused .notImplemented s
  else if s.generation ≠ generation ∨ wfusyncHasServerWaiters s then .refused .notImplemented s
  else op.locked tid s

def SignalOp.admitted (op : SignalOp) (generation : ℕ) (s : WfusyncState) : Bool :=
  wfusyncLockGranted s op.type && decide (s.generation = generation) && !wfusyncHasServerWaiters s

lemma SignalOp.client_eq (op : SignalOp) (tid : Int) (generation : ℕ) (s : WfusyncState) :
    op.client tid generation s =
      if op.admitted generation s then op.locked tid s else .refused .notImplemented s := by
  unfold SignalOp.client SignalOp.admitted
  by_cases hlock : wfusyncLockGranted s op.type = true
  · by_cases hgen : s.generation = generation
    · by_cases hwait : wfusyncHasServerWaiters s = true
      · simp [hlock, hgen, hwait]
      · simp [hlock, hgen, hwait]
    · simp [hlock, hgen]
  · simp [hlock]

lemma SignalOp.locked_status (op : SignalOp) (tid : Int) (s : WfusyncState) :
    (op.locked tid s).status ≠ .notImplemented := by
  cases op with
  | setEvent => simp [SignalOp.locked, setEventLocked]
  | resetEvent => simp [SignalOp.locked, resetEventLocked]
  | releaseSemaphore count =>
    simp only [SignalOp.locked, releaseSemaphoreLocked]
    split <;> simp [SignalResult.refused]
  | releaseMutex =>
    simp only [SignalOp.locked, releaseMutexLocked]
    split_ifs <;> simp [SignalResult.refused]

/-- The server's version: `lock_state` only refuses a state of another type. -/
def SignalOp.server (op : SignalOp) (tid : Int) (s : WfusyncState) : SignalResult :=
  if s.word.type = op.type then op.locked tid s else .refused .notImplemented s

/-- The `signaled` callbacks. -/
def wfusyncEventSignaled (s : WfusyncState) : Bool :=
  decide (s.low ≠ 0)

def wfusyncSemaphoreSignaled (s : WfusyncState) : Bool :=
  decide (0 < s.low)

def wfusyncMutexSignaled (tid : Int) (s : WfusyncState) : Bool :=
  decide (s.low = 0 ∨ s.low = tid ∨ s.low < 0)

def wfusyncEventSatisfied (s : WfusyncState) : WfusyncState :=
  if s.high = 0 then { s with low := 0 } else s

def wfusyncSemaphoreSatisfied (s : WfusyncState) : WfusyncState :=
  if s.low ≤ 0 then s else { s with low := s.low - 1 }

/-- `wfusync_mutex_satisfied`: success flag, abandoned flag and new state. The count of an
owner is an `int` that is incremented without a check. -/
def wfusyncMutexSatisfied (tid : Int) (s : WfusyncState) : Bool × Bool × WfusyncState :=
  if s.low = tid then (true, false, { s with high := toSigned (s.high + 1) })
  else if s.low = 0 then (true, false, { s with low := tid, high := 1 })
  else if s.low < 0 then
    (true, true, { s with low := tid, high := 1, generation := nextGeneration s.generation })
  else (false, false, s)

def wfusyncAbandonMutex (tid : Int) (s : WfusyncState) : Bool × WfusyncState :=
  if s.low ≠ tid ∨ s.high = 0 then (false, s)
  else (true, { s with low := -tid, high := 0, generation := nextGeneration s.generation })

/-- `signaled` of an object of the given type. -/
def signaledFor (type : SyncType) (tid : Int) (s : WfusyncState) : Bool :=
  match type with
  | .event | .internal => wfusyncEventSignaled s
  | .semaphore => wfusyncSemaphoreSignaled s
  | .mutex => wfusyncMutexSignaled tid s
  | .unknown => false

/-- `satisfied` of an object of the given type. -/
def satisfiedFor (type : SyncType) (tid : Int) (s : WfusyncState) : WfusyncState :=
  match type with
  | .event | .internal => wfusyncEventSatisfied s
  | .semaphore => wfusyncSemaphoreSatisfied s
  | .mutex => (wfusyncMutexSatisfied tid s).2.2
  | .unknown => s

/-- One entry of the second loop of `wfusync_try_wait_all`: `error` is the status at `done`,
otherwise whether the entry is an abandoned mutex. -/
def tryWaitAllCheck (type : SyncType) (tid : Int) (s : WfusyncState) : Except NtStatus Bool :=
  match type with
  | .event => if s.low = 0 then .error .timeout else .ok false
  | .semaphore => if s.low ≤ 0 then .error .timeout else .ok false
  | .mutex =>
    if s.low ≠ 0 ∧ s.low ≠ tid ∧ 0 < s.low then .error .timeout
    else if s.low = tid ∧ s.high = intMax then .error .notImplemented
    else .ok (decide (s.low < 0))
  | .internal | .unknown => .error .notImplemented

/-- One entry of the third loop of `wfusync_try_wait_all`; `none` is its early exit. -/
def tryWaitAllTake (type : SyncType) (tid : Int) (s : WfusyncState) : Option WfusyncState :=
  match type with
  | .event => if s.low = 0 then none else some (if s.high = 0 then { s with low := 0 } else s)
  | .semaphore => if s.low ≤ 0 then none else some { s with low := s.low - 1 }
  | .mutex =>
    if s.low = tid then
      if s.high = intMax then none else some { s with high := s.high + 1 }
    else if s.low = 0 ∨ s.low < 0 then
      some { s with
        generation := if s.low < 0 then nextGeneration s.generation else s.generation
        low := tid
        high := 1 }
    else none
  | .internal | .unknown => some s

/-- One entry of the second loop of `try_wait_all_local`. -/
def waitAllLocalCheck (type : SyncType) (tid : Int) (s : WfusyncState) : Except NtStatus Bool :=
  if (type = .event ∧ s.low = 0) ∨ (type = .semaphore ∧ s.low ≤ 0) ∨
      (type = .mutex ∧ 0 < s.low ∧ s.low ≠ tid) then .error .timeout
  else if type = .mutex ∧ s.low = tid ∧ s.high = intMax then .error .notImplemented
  else .ok (decide (type = .mutex ∧ s.low < 0))

/-- One entry of the third loop of `try_wait_all_local`: the new state and the status that
`consume_mutex_state_locked` returns there. -/
def waitAllLocalTake (type : SyncType) (tid : Int) (s : WfusyncState) : NtStatus × WfusyncState :=
  match type with
  | .event => (.wait0, { s with low := 0 })
  | .semaphore => (.wait0, { s with low := s.low - 1 })
  | _ => consumeMutexStateLocked tid s

/-- `wfusync_state_signaled`, the test made for a registered wait slot. -/
def wfusyncStateSignaled (s : WfusyncState) : Bool :=
  match s.word.type with
  | .event => decide (s.low ≠ 0)
  | .semaphore => decide (0 < s.low)
  | .mutex => decide (s.low = 0 ∨ s.low < 0)
  | .internal | .unknown => false

/-! ### Sections and the type word

No section that runs with the state locked touches the type word. -/

lemma locked_word (op : SignalOp) (tid : Int) (s : WfusyncState) :
    (op.locked tid s).state.word = s.word := by
  cases op with
  | setEvent | resetEvent => rfl
  | releaseSemaphore count =>
    simp only [SignalOp.locked, releaseSemaphoreLocked]
    split <;> rfl
  | releaseMutex =>
    simp only [SignalOp.locked, releaseMutexLocked]
    split_ifs <;> rfl

lemma server_word (op : SignalOp) (tid : Int) (s : WfusyncState) :
    (op.server tid s).state.word = s.word := by
  unfold SignalOp.server
  split
  · exact locked_word op tid s
  · rfl

lemma consumeMutexStateLocked_word (tid : Int) (s : WfusyncState) :
    (consumeMutexStateLocked tid s).2.word = s.word := by
  unfold consumeMutexStateLocked
  split_ifs <;> rfl

lemma consumeLocked_word (kind : WaitKind) (tid : Int) (s : WfusyncState) :
    (kind.consumeLocked tid s).2.word = s.word := by
  cases kind with
  | event =>
    simp only [WaitKind.consumeLocked, consumeEventStateLocked, consumeAutoEventState]
    split_ifs <;> rfl
  | semaphore =>
    simp only [WaitKind.consumeLocked, consumeSemaphoreStateLocked]
    split <;> rfl
  | mutex => exact consumeMutexStateLocked_word tid s

lemma waitAllLocalTake_word (type : SyncType) (tid : Int) (s : WfusyncState) :
    (waitAllLocalTake type tid s).2.word = s.word := by
  cases type with
  | event | semaphore => rfl
  | mutex | internal | unknown => exact consumeMutexStateLocked_word tid s

lemma satisfiedFor_word (type : SyncType) (tid : Int) (s : WfusyncState) :
    (satisfiedFor type tid s).word = s.word := by
  cases type with
  | event | internal =>
    simp only [satisfiedFor, wfusyncEventSatisfied]
    split <;> rfl
  | semaphore =>
    simp only [satisfiedFor, wfusyncSemaphoreSatisfied]
    split <;> rfl
  | mutex =>
    simp only [satisfiedFor, wfusyncMutexSatisfied]
    split_ifs <;> rfl
  | unknown => rfl

lemma tryWaitAllTake_word {type : SyncType} {tid : Int} {s s' : WfusyncState}
    (h : tryWaitAllTake type tid s = some s') : s'.word = s.word := by
  cases type with
  | event | mutex =>
    simp only [tryWaitAllTake] at h
    split_ifs at h <;> cases h <;> rfl
  | semaphore =>
    simp only [tryWaitAllTake] at h
    split_ifs at h
    cases h
    rfl
  | internal | unknown =>
    cases h
    rfl

end WineForge.WfuSync
