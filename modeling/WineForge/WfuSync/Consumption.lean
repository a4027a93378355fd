import WineForge.WfuSync.LockState

/-!
# What a wait takes

`Taken` says what consuming one signal of an object does to its state, in terms of the object
alone. The multi-object waits of client and server first check all their objects and then take
from each of them; a check that passed makes the taking succeed.
-/

namespace WineForge.WfuSync

/-- One signal of an object of the given type is consumed by thread `tid`. -/
inductive Taken (tid : Int) (o : WfusyncState) : SyncType → WfusyncState → Prop
  | autoEvent : o.low ≠ 0 → o.high = 0 → Taken tid o .event { o with low := 0 }
  | manualEvent : o.low ≠ 0 → o.high ≠ 0 → Taken tid o .event o
  | semaphore : 0 < o.low → Taken tid o .semaphore { o with low := o.low - 1 }
  | recursion : o.low = tid → o.high ≠ intMax →
      Taken tid o .mutex { o with high := o.high + 1 }
  | freeMutex : o.low = 0 → o.low ≠ tid → Taken tid o .mutex { o with low := tid, high := 1 }
  | abandonedMutex : o.low < 0 → o.low ≠ tid →
      Taken tid o .mutex
        { o with low := tid, high := 1, generation := nextGeneration o.generation }

/-- A write of a commit loop. -/
structure StateWrite where
  shmIdx : ℕ
  before : WfusyncState
  after : WfusyncState

variable {tid : Int} {o o' : WfusyncState} {type : SyncType}

lemma Taken.word (h : Taken tid o type o') : o'.word = o.word := by
  cases h <;> rfl

def SyncType.waitable : SyncType → Bool
  | .event | .semaphore | .mutex => true
  | .internal | .unknown => false

lemma waitAllLocalCheck_congr
    (hcore : o'.core = o.core) : waitAllLocalCheck type tid o' = waitAllLocalCheck type tid o := by
  simp only [WfusyncState.core, Prod.mk.injEq] at hcore
  simp only [waitAllLocalCheck, hcore.1, hcore.2.1]

lemma waitAllLocalCheck_error {status : NtStatus}
    (h : waitAllLocalCheck type tid o = .error status) :
    status = .timeout ∨ status = .notImplemented := by
  unfold waitAllLocalCheck at h
  split_ifs at h <;> cases h
  · exact .inl rfl
  · exact .inr rfl

lemma waitAllLocalTake_taken {abandoned : Bool}
    (hwaitable : type.waitable = true) (hauto : type = .event → o.high = 0)
    (h : waitAllLocalCheck type tid o = .ok abandoned) :
    ((waitAllLocalTake type tid o).1 = .wait0 ∨
        (waitAllLocalTake type tid o).1 = .abandonedWait0) ∧
      Taken tid o type (waitAllLocalTake type tid o).2 := by
  unfold waitAllLocalCheck at h
  split_ifs at h with hblocked hfull
  cases type with
  | unknown | internal => cases hwaitable
  | event =>
    have hlow : o.low ≠ 0 := by
      intro hzero
      exact hblocked (.inl ⟨rfl, hzero⟩)
    exact ⟨.inl rfl, .autoEvent hlow (hauto rfl)⟩
  | semaphore =>
    have hlow : 0 < o.low := by
      by_contra hnot
      exact hblocked (.inr (.inl ⟨rfl, by omega⟩))
    exact ⟨.inl rfl, .semaphore hlow⟩
  | mutex =>
    simp only [waitAllLocalTake, consumeMutexStateLocked]
    by_cases hown : o.low = tid
    · have hmax : o.high ≠ intMax := fun hhigh => hfull ⟨rfl, hown, hhigh⟩
      rw [if_pos hown, if_neg hmax]
      exact ⟨.inl rfl, .recursion hown hmax⟩
    rw [if_neg hown]
    by_cases hfree : o.low = 0
    · rw [if_pos hfree]
      exact ⟨.inl rfl, .freeMutex hfree hown⟩
    have hneg : o.low < 0 := by
      by_contra hnot
      exact hblocked (.inr (.inr ⟨rfl, by omega, hown⟩))
    rw [if_neg hfree, if_pos hneg]
    exact ⟨.inr rfl, .abandonedMutex hneg hown⟩

lemma tryWaitAllCheck_congr
    (hcore : o'.core = o.core) : tryWaitAllCheck type tid o' = tryWaitAllCheck type tid o := by
  simp only [WfusyncState.core, Prod.mk.injEq] at hcore
  cases type <;> simp only [tryWaitAllCheck, hcore.1, hcore.2.1]

lemma tryWaitAllCheck_error {status : NtStatus} (h : tryWaitAllCheck type tid o = .error status) :
    status = .timeout ∨ status = .notImplemented := by
  cases type <;> simp only [tryWaitAllCheck] at h
  all_goals first
    | split_ifs at h <;> cases h <;> simp
    | (cases h; simp)

lemma tryWaitAllTake_taken {abandoned : Bool} (h : tryWaitAllCheck type tid o = .ok abandoned) :
    ∃ o', tryWaitAllTake type tid o = some o' ∧ Taken tid o type o' := by
  cases type with
  | unknown | internal => cases h
  | event =>
    simp only [tryWaitAllCheck] at h
    split_ifs at h with hlow
    by_cases hhigh : o.high = 0
    · exact ⟨_, by simp [tryWaitAllTake, hlow, hhigh], .autoEvent hlow hhigh⟩
    · exact ⟨_, by simp [tryWaitAllTake, hlow, hhigh], .manualEvent hlow hhigh⟩
  | semaphore =>
    simp only [tryWaitAllCheck] at h
    split_ifs at h with hlow
    exact ⟨_, by simp [tryWaitAllTake, hlow], .semaphore (by omega)⟩
  | mutex =>
    simp only [tryWaitAllCheck] at h
    split_ifs at h with howned hfull
    by_cases hown : o.low = tid
    · have hmax : o.high ≠ intMax := fun hhigh => hfull ⟨hown, hhigh⟩
      exact ⟨_, by simp [tryWaitAllTake, hown, hmax], .recursion hown hmax⟩
    by_cases hfree : o.low = 0
    · have htid : (0 : Int) ≠ tid := hfree ▸ hown
      exact ⟨_, by simp [tryWaitAllTake, hfree, htid], .freeMutex hfree hown⟩
    have hneg : o.low < 0 := by
      by_contra hnot
      exact howned ⟨hfree, hown, by omega⟩
    exact ⟨_, by simp [tryWaitAllTake, hown, hneg], .abandonedMutex hneg hown⟩

end WineForge.WfuSync
