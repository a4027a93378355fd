import WineForge.WfuSync.WaitLoop

/-!
# Sections as moves of a wait queue

What the lock-held sections do to the units that an object offers: an attempt takes one, finds
none or is refused, and a signaling section publishes as many as its wake can answer for. The
exception is a semaphore that still has units, to which a release adds without a wake.
-/

namespace WineForge.WfuSync

open Library WaitQueue

/-- What the object offers: any number of units if it is a signaled manual-reset event. -/
def WaitKind.units (kind : WaitKind) (o : WfusyncState) : Option ℕ :=
  match kind with
  | .event => if o.low = 0 then some 0 else if o.high ≠ 0 then none else some 1
  | .semaphore => some o.low.toNat
  | .mutex => if o.low ≤ 0 then some 1 else some 0

variable {kind : WaitKind} {tid : Int} {o : WfusyncState}

lemma units_congr {o' : WfusyncState} (hlow : o'.low = o.low) (hhigh : o'.high = o.high) :
    kind.units o' = kind.units o := by
  simp [WaitKind.units, hlow, hhigh]

/-- An attempt takes a unit, finds none, or is refused. An auto-reset event with a value other
than 0 and 1 looks unsignaled to it. -/
lemma consumeLocked_spec (kind : WaitKind) (htid : 0 < tid) (o : WfusyncState) :
    ((kind.consumeLocked tid o).1.satisfied = true ∧
      Settles (kind.units o) (kind.units (kind.consumeLocked tid o).2)) ∨
    ((kind.consumeLocked tid o).1.satisfied = false ∧ (kind.consumeLocked tid o).2 = o ∧
      ((kind.consumeLocked tid o).1 = .timeout →
        kind.units o = some 0 ∨ (kind = .event ∧ o.low ≠ 0 ∧ o.low ≠ 1))) := by
  cases kind with
  | event =>
    simp only [WaitKind.consumeLocked, consumeEventStateLocked, consumeAutoEventState]
    by_cases hlow : o.low = 0
    · simp [hlow, NtStatus.satisfied, WaitKind.units]
    by_cases hhigh : o.high = 0
    · by_cases hone : o.low = 1
      · left
        simp [hhigh, hone, NtStatus.satisfied, WaitKind.units, Settles]
      · right
        simp [hlow, hhigh, hone, NtStatus.satisfied]
    · left
      simp [hlow, hhigh, NtStatus.satisfied, WaitKind.units, Settles]
  | semaphore =>
    simp only [WaitKind.consumeLocked, consumeSemaphoreStateLocked]
    split
    · right
      refine ⟨rfl, rfl, fun _ => .inl ?_⟩
      have hzero : o.low.toNat = 0 := by omega
      simp [WaitKind.units, hzero]
    left
    refine ⟨rfl, fun k hk => ⟨(o.low - 1).toNat, rfl, ?_⟩⟩
    simp only [WaitKind.units, Option.some.injEq] at hk
    omega
  | mutex =>
    simp only [WaitKind.consumeLocked, consumeMutexStateLocked]
    by_cases hown : o.low = tid
    · have hpos : ¬ tid ≤ 0 := by omega
      by_cases hmax : o.high = intMax
      · right
        simp [hown, hmax, NtStatus.satisfied]
      · left
        simp [hown, hmax, NtStatus.satisfied, WaitKind.units, hpos, Settles]
    have hpos : ¬ tid ≤ 0 := by omega
    by_cases hfree : o.low = 0
    · left
      have hne : (0 : Int) ≠ tid := by omega
      simp [hfree, hne, NtStatus.satisfied, WaitKind.units, hpos, Settles]
    by_cases habandoned : o.low < 0
    · left
      simp [hown, hfree, habandoned, NtStatus.satisfied, WaitKind.units, hpos, Settles,
        habandoned.le]
    · right
      have hle : ¬ o.low ≤ 0 := by omega
      simp [hown, hfree, habandoned, NtStatus.satisfied, WaitKind.units, hle]

lemma consumeState_eq (kind : WaitKind) (tid : Int) (o : WfusyncState) : kind.consumeState tid o =
      if wfusyncLockGranted o kind.type then kind.consumeLocked tid o
      else (.notImplemented, o) := by
  cases kind <;> rfl

lemma consumeState_spec (kind : WaitKind) (htid : 0 < tid) (o : WfusyncState) :
    ((kind.consumeState tid o).1.satisfied = true ∧
      Settles (kind.units o) (kind.units (kind.consumeState tid o).2)) ∨
    ((kind.consumeState tid o).1.satisfied = false ∧ (kind.consumeState tid o).2 = o ∧
      ((kind.consumeState tid o).1 = .timeout →
        kind.units o = some 0 ∨ (kind = .event ∧ o.low ≠ 0 ∧ o.low ≠ 1))) := by
  rw [consumeState_eq]
  split
  · exact consumeLocked_spec kind htid o
  · exact .inr ⟨rfl, rfl, fun h => by cases h⟩

lemma waitAllLocalEntry_drains (kind : WaitKind) (htid : 0 < tid) (generation : ℕ) (ready : Bool)
    (o : WfusyncState) :
    Drains (kind.units o) (kind.units (waitAllLocalEntry kind.type tid generation ready o).2) := by
  unfold waitAllLocalEntry
  split
  · split
    · exact .refl _
    split
    · cases kind with
      | event =>
        intro k _
        exact ⟨0, by simp [WaitKind.type, waitAllLocalTake, WaitKind.units], Nat.zero_le _⟩
      | semaphore =>
        intro k hk
        simp only [WaitKind.units, Option.some.injEq] at hk
        refine ⟨(o.low - 1).toNat, rfl, ?_⟩
        omega
      | mutex =>
        rcases consumeLocked_spec .mutex htid o with ⟨-, hsettles⟩ | ⟨-, hsame, -⟩
        · exact hsettles.drains
        · change Drains _ (WaitKind.mutex.units (WaitKind.mutex.consumeLocked tid o).2)
          rw [hsame]
          exact .refl _
    · exact .refl _
  · exact .refl _

lemma units_mutex_owned (htid : 0 < tid) (high : Int) (generation : ℕ) :
    WaitKind.mutex.units { o with low := tid, high := high, generation := generation } =
      some 0 := by
  have hpos : ¬ tid ≤ 0 := by omega
  simp [WaitKind.units, hpos]

lemma units_mutex_owner (htid : 0 < tid) (hown : o.low = tid) :
    WaitKind.mutex.units o = some 0 := by
  have hpos : ¬ o.low ≤ 0 := by omega
  simp [WaitKind.units, hpos]

lemma satisfiedFor_settles (kind : WaitKind) (htid : 0 < tid) (o : WfusyncState) :
    Settles (kind.units o) (kind.units (satisfiedFor kind.type tid o)) := by
  cases kind with
  | event =>
    simp only [WaitKind.type, satisfiedFor, wfusyncEventSatisfied]
    split
    · intro k _
      exact ⟨0, by simp [WaitKind.units], Nat.zero_le _⟩
    rename_i hhigh
    intro k hk
    by_cases hlow : o.low = 0
    · exact ⟨0, by simp [WaitKind.units, hlow], Nat.zero_le _⟩
    · simp [WaitKind.units, hlow, hhigh] at hk
  | semaphore =>
    simp only [WaitKind.type, satisfiedFor, wfusyncSemaphoreSatisfied]
    intro k hk
    simp only [WaitKind.units, Option.some.injEq] at hk
    split
    · exact ⟨k, by simpa [WaitKind.units] using hk, by omega⟩
    · refine ⟨(o.low - 1).toNat, rfl, ?_⟩
      omega
  | mutex =>
    simp only [WaitKind.type, satisfiedFor, wfusyncMutexSatisfied]
    split
    · rename_i hown
      change Settles (WaitKind.mutex.units o) (WaitKind.mutex.units o)
      rw [units_mutex_owner htid hown]
      exact .of_empty
    have hzero : ∀ g, Settles (WaitKind.mutex.units o)
        (WaitKind.mutex.units { o with low := tid, high := 1, generation := g }) := by
      intro g k _
      exact ⟨0, units_mutex_owned htid 1 g, Nat.zero_le _⟩
    split
    · exact hzero o.generation
    split
    · exact hzero _
    · have hheld : ¬ o.low ≤ 0 := by omega
      simp only [WaitKind.units, hheld, if_false]
      exact .of_empty

lemma tryWaitAllTake_drains (kind : WaitKind) (htid : 0 < tid) {o o' : WfusyncState}
    (h : tryWaitAllTake kind.type tid o = some o') : Drains (kind.units o) (kind.units o') := by
  cases kind with
  | event =>
    simp only [WaitKind.type, tryWaitAllTake] at h
    split at h
    · cases h
    split at h
    · cases h
      intro k _
      exact ⟨0, by simp [WaitKind.units], Nat.zero_le _⟩
    · cases h
      exact .refl _
  | semaphore =>
    simp only [WaitKind.type, tryWaitAllTake] at h
    split at h
    · cases h
    cases h
    intro k hk
    simp only [WaitKind.units, Option.some.injEq] at hk
    refine ⟨(o.low - 1).toNat, rfl, ?_⟩
    omega
  | mutex =>
    simp only [WaitKind.type, tryWaitAllTake] at h
    split at h
    · split at h
      · cases h
      · cases h
        exact .refl (WaitKind.mutex.units o)
    split at h
    · cases h
      intro k _
      exact ⟨0, units_mutex_owned htid 1 _, Nat.zero_le _⟩
    · cases h

lemma signaledFor_eq_false (kind : WaitKind) (h : signaledFor kind.type tid o = false) :
    kind.units o = some 0 := by
  cases kind with
  | event => simpa [WaitKind.type, signaledFor, wfusyncEventSignaled, WaitKind.units] using h
  | semaphore =>
    simp only [WaitKind.type, signaledFor, wfusyncSemaphoreSignaled, decide_eq_false_iff_not] at h
    have hzero : o.low.toNat = 0 := by omega
    simp [WaitKind.units, hzero]
  | mutex =>
    simp only [WaitKind.type, signaledFor, wfusyncMutexSignaled, decide_eq_false_iff_not] at h
    have hheld : ¬ o.low ≤ 0 := by omega
    simp [WaitKind.units, hheld]

/-- The units that a section publishes, by the wake that follows it. -/
inductive Publishes (kind : WaitKind) (op : SignalOp) (o o' : WfusyncState) : Option Wake → Prop
  | quiet : Drains (kind.units o) (kind.units o') → Publishes kind op o o' none
  | one (k : ℕ) : k ≤ 1 → kind.units o' = some k → Publishes kind op o o' (some .one)
  | all : Publishes kind op o o' (some .all)
  | raise (count : UInt32) : kind = .semaphore → op = .releaseSemaphore count → 0 < o.low →
      o.low + count.toNat ≤ o.high → kind.units o' = some (o.low + count.toNat).toNat →
      Publishes kind op o o' none

/-- What `create_semaphore` checks and every section keeps. -/
def UnitsInRange (kind : WaitKind) (o : WfusyncState) : Prop :=
  kind = .semaphore → 0 ≤ o.low ∧ o.low ≤ o.high ∧ o.high ≤ intMax

lemma releaseSemaphoreLocked_spec (count : UInt32) (hlow : 0 ≤ o.low) (hle : o.low ≤ o.high)
    (hhigh : o.high ≤ intMax) :
    (o.low + count.toNat ≤ o.high ∧
      releaseSemaphoreLocked count.toNat o =
        { status := .wait0
          state := { o with low := o.low + count.toNat }
          previous := o.low
          wake := if o.low = 0 then some (if 1 < count.toNat then .all else .one) else none
          transition := decide (o.low = 0) }) ∨
    (o.high < o.low + count.toNat ∧
      releaseSemaphoreLocked count.toNat o = .refused .semaphoreLimitExceeded o) := by
  have hcount : count.toNat < 4294967296 := count.toNat_lt
  have hulow : toUnsigned o.low = o.low.toNat := toUnsigned_of_range hlow (hle.trans hhigh)
  have huhigh : toUnsigned o.high = o.high.toNat := toUnsigned_of_range (hlow.trans hle) hhigh
  have hmax : intMax = 2147483647 := rfl
  unfold releaseSemaphoreLocked
  simp only [hulow, huhigh]
  by_cases hfit : o.low + count.toNat ≤ o.high
  · have hsum : (o.low.toNat + count.toNat) % 4294967296 = o.low.toNat + count.toNat :=
      Nat.mod_eq_of_lt (by omega)
    have hcond : ¬(o.low.toNat + count.toNat < o.low.toNat ∨
        o.high.toNat < o.low.toNat + count.toNat) := by omega
    have hsigned : toSigned (o.low + count.toNat) = o.low + count.toNat :=
      toSigned_of_range (by omega) (by omega)
    refine .inl ⟨hfit, ?_⟩
    rw [hsum, if_neg hcond, hsigned]
  · refine .inr ⟨by omega, if_pos ?_⟩
    omega

lemma locked_publishes {op : SignalOp} (htype : op.type = kind.type) (hrange : UnitsInRange kind o)
    (tid : Int) : Publishes kind op o (op.locked tid o).state (op.locked tid o).wake := by
  cases op with
  | setEvent =>
    have hkind : kind = .event := by cases kind <;> first | rfl | cases htype
    subst hkind
    simp only [SignalOp.locked, setEventLocked]
    by_cases hlow : o.low = 0
    · by_cases hhigh : o.high = 0
      · simpa [hlow, hhigh] using .one 1 le_rfl (by simp [WaitKind.units])
      · simpa [hlow, hhigh] using .all
    · simp only [hlow, if_false]
      exact .quiet (by simpa [WaitKind.units, hlow] using .refl _)
  | resetEvent =>
    have hkind : kind = .event := by cases kind <;> first | rfl | cases htype
    subst hkind
    refine .quiet fun k _ => ⟨0, ?_, Nat.zero_le _⟩
    simp [SignalOp.locked, resetEventLocked, WaitKind.units]
  | releaseSemaphore count =>
    have hkind : kind = .semaphore := by cases kind <;> first | rfl | cases htype
    obtain ⟨hlow, hle, hhigh⟩ := hrange hkind
    subst hkind
    rcases releaseSemaphoreLocked_spec count hlow hle hhigh with ⟨hfit, heq⟩ | ⟨-, heq⟩
    · simp only [SignalOp.locked, heq]
      by_cases hzero : o.low = 0
      · by_cases hcount : 1 < count.toNat
        · simpa [hzero, hcount] using .all
        · simp only [hzero, hcount, if_true, if_false]
          exact .one count.toNat (by omega) (by simp [WaitKind.units])
      · simp only [hzero, if_false]
        exact .raise count rfl rfl (by omega) hfit rfl
    · simp only [SignalOp.locked, heq]
      exact .quiet (.refl _)
  | releaseMutex =>
    have hkind : kind = .mutex := by cases kind <;> first | rfl | cases htype
    subst hkind
    simp only [SignalOp.locked, releaseMutexLocked]
    split
    · exact .quiet (.refl _)
    · split
      · exact .quiet (.refl (WaitKind.mutex.units o))
      · exact .one 1 le_rfl (by simp [WaitKind.units])

/-- The type of the object, the range of a semaphore, and the values of an event. -/
structure Keeps (kind : WaitKind) (o o' : WfusyncState) : Prop where
  type : o'.word.type = o.word.type
  range : UnitsInRange kind o → UnitsInRange kind o'
  value : kind = .event → (o'.low = o.low ∨ o'.low = 0 ∨ o'.low = 1) ∧ o'.high = o.high

lemma Keeps.refl (kind : WaitKind) (o : WfusyncState) : Keeps kind o o :=
  ⟨rfl, id, fun _ => ⟨.inl rfl, rfl⟩⟩

lemma Keeps.flags (kind : WaitKind) (o : WfusyncState) (l m v : Bool) :
    Keeps kind o { o with word := ⟨o.word.type, l, m, v⟩ } :=
  ⟨rfl, id, fun _ => ⟨.inl rfl, rfl⟩⟩

lemma consumeLocked_keeps (kind : WaitKind) (tid : Int) (o : WfusyncState) :
    Keeps kind o (kind.consumeLocked tid o).2 := by
  constructor
  · cases kind <;> simp only [WaitKind.consumeLocked, consumeEventStateLocked,
      consumeAutoEventState, consumeSemaphoreStateLocked, consumeMutexStateLocked] <;>
      split_ifs <;> rfl
  · rintro hrange rfl
    have h := hrange rfl
    simp only [WaitKind.consumeLocked, consumeSemaphoreStateLocked]
    split
    · exact h
    · dsimp only
      omega
  · rintro rfl
    simp only [WaitKind.consumeLocked, consumeEventStateLocked, consumeAutoEventState]
    split_ifs <;> simp

lemma consumeState_keeps (kind : WaitKind) (tid : Int) (o : WfusyncState) :
    Keeps kind o (kind.consumeState tid o).2 := by
  rw [consumeState_eq]
  split
  · exact consumeLocked_keeps kind tid o
  · exact .refl kind o

lemma waitAllLocalEntry_keeps (kind : WaitKind) (tid : Int) (generation : ℕ) (ready : Bool)
    (o : WfusyncState) :
    Keeps kind o (waitAllLocalEntry kind.type tid generation ready o).2 := by
  unfold waitAllLocalEntry
  split
  · split
    · exact .refl kind o
    rename_i hcheck
    split
    · cases kind with
      | event => exact ⟨rfl, fun _ hk => (by cases hk), fun _ => ⟨.inr (.inl rfl), rfl⟩⟩
      | semaphore =>
        refine ⟨rfl, fun hrange hk => ?_, fun hk => by cases hk⟩
        have h := hrange rfl
        have hpos : 0 < o.low := by
          by_contra hle
          have hle : o.low ≤ 0 := by omega
          simp [waitAllLocalCheck, WaitKind.type, hle] at hcheck
        simp only [WaitKind.type, waitAllLocalTake]
        omega
      | mutex => exact consumeLocked_keeps .mutex tid o
    · exact .refl kind o
  · exact .refl kind o

lemma locked_keeps {op : SignalOp} (htype : op.type = kind.type) (tid : Int) (o : WfusyncState) :
    Keeps kind o (op.locked tid o).state := by
  cases op with
  | setEvent =>
    refine ⟨rfl, fun _ hk => ?_, fun _ => ⟨.inr (.inr rfl), rfl⟩⟩
    subst hk
    cases htype
  | resetEvent =>
    refine ⟨rfl, fun _ hk => ?_, fun _ => ⟨.inr (.inl rfl), rfl⟩⟩
    subst hk
    cases htype
  | releaseSemaphore count =>
    have hkind : kind = .semaphore := by cases kind <;> first | rfl | cases htype
    subst hkind
    refine ⟨?_, fun hrange _ => ?_, fun hk => by cases hk⟩
    · simp only [SignalOp.locked, releaseSemaphoreLocked]
      split <;> rfl
    obtain ⟨hlow, hle, hhigh⟩ := hrange rfl
    rcases releaseSemaphoreLocked_spec count hlow hle hhigh with ⟨hfit, heq⟩ | ⟨-, heq⟩
    · simp only [SignalOp.locked, heq]
      omega
    · simp only [SignalOp.locked, heq]
      exact ⟨hlow, hle, hhigh⟩
  | releaseMutex =>
    have hkind : kind = .mutex := by cases kind <;> first | rfl | cases htype
    subst hkind
    refine ⟨?_, fun _ hk => (by cases hk), fun hk => by cases hk⟩
    simp only [SignalOp.locked, releaseMutexLocked]
    split_ifs <;> rfl

lemma satisfiedFor_keeps (kind : WaitKind) (tid : Int) (o : WfusyncState) :
    Keeps kind o (satisfiedFor kind.type tid o) := by
  cases kind with
  | event =>
    simp only [WaitKind.type, satisfiedFor, wfusyncEventSatisfied]
    split
    · exact ⟨rfl, fun _ hk => (by cases hk), fun _ => ⟨.inr (.inl rfl), rfl⟩⟩
    · exact .refl _ o
  | semaphore =>
    simp only [WaitKind.type, satisfiedFor, wfusyncSemaphoreSatisfied]
    split
    · exact .refl _ o
    refine ⟨rfl, fun hrange hk => ?_, fun hk => by cases hk⟩
    have h := hrange rfl
    dsimp only
    omega
  | mutex =>
    refine ⟨?_, fun _ hk => (by cases hk), fun hk => by cases hk⟩
    simp only [WaitKind.type, satisfiedFor, wfusyncMutexSatisfied]
    split_ifs <;> rfl

lemma tryWaitAllTake_keeps (kind : WaitKind) (tid : Int) {o o' : WfusyncState}
    (h : tryWaitAllTake kind.type tid o = some o') : Keeps kind o o' := by
  cases kind with
  | event =>
    simp only [WaitKind.type, tryWaitAllTake] at h
    split_ifs at h
    · cases h
      exact ⟨rfl, fun _ hk => (by cases hk), fun _ => ⟨.inr (.inl rfl), rfl⟩⟩
    · cases h
      exact .refl _ o
  | semaphore =>
    simp only [WaitKind.type, tryWaitAllTake] at h
    split_ifs at h
    cases h
    refine ⟨rfl, fun hrange hk => ?_, fun hk => by cases hk⟩
    have h := hrange rfl
    dsimp only
    omega
  | mutex =>
    refine ⟨?_, fun _ hk => (by cases hk), fun hk => by cases hk⟩
    simp only [WaitKind.type, tryWaitAllTake] at h
    split_ifs at h <;> cases h <;> rfl

end WineForge.WfuSync
