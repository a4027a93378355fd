import WineForge.WfuSync.State

/-!
# The lock bit

`wfusync_lock_state` of the client and `lock_state` of the server, one atomic access at a
time. Both return only after a compare-exchange on an unlocked word of the expected type; the
client also gives up when the server owns the state.
-/

namespace WineForge.WfuSync

open Function

def WfusyncState.core (s : WfusyncState) : Int × Int × ℕ :=
  (s.low, s.high, s.generation)

def WfusyncState.lock (s : WfusyncState) : WfusyncState :=
  { s with word := { s.word with locked := true } }

def WfusyncState.unlock (s : WfusyncState) : WfusyncState :=
  { s with word := { s.word with locked := false } }

/-- Where a client is inside `wfusync_lock_state`. The word it is about to compare was loaded
unlocked, of the expected type and without `SERVER_WAITERS`, so one bit of it is left. -/
inductive LockPc
  | load
  | cas (multiWaiters : Bool)
  | recheck
  deriving DecidableEq, Repr

/-- What one access of a lock function leads to. -/
inductive LockStep (π : Type)
  | spin (pc : π)
  | granted (s : WfusyncState)
  | refused
  deriving DecidableEq

/-- `wfusync_try_lock_state` is the first two accesses, the retry loop adds the third. -/
def wfusyncLockState (expectedType : SyncType) (s : WfusyncState) : LockPc → LockStep LockPc
  | .load =>
    if s.word.type ≠ expectedType ∨ s.word.locked ∨ s.word.serverWaiters then .spin .recheck
    else .spin (.cas s.word.multiWaiters)
  | .cas multiWaiters =>
    if s.word = ⟨expectedType, false, multiWaiters, false⟩ then .granted s.lock
    else .spin .recheck
  | .recheck =>
    if s.word.type ≠ expectedType ∨ s.word.serverWaiters then .refused else .spin .load

/-- Where the server is inside `lock_state`; two bits of the loaded word are open. -/
inductive ServerLockPc
  | load
  | cas (multiWaiters serverWaiters : Bool)
  deriving DecidableEq, Repr

def lockState (expectedType : SyncType) (s : WfusyncState) : ServerLockPc → LockStep ServerLockPc
  | .load =>
    if s.word.type ≠ expectedType then .refused
    else if s.word.locked then .spin .load
    else .spin (.cas s.word.multiWaiters s.word.serverWaiters)
  | .cas multiWaiters serverWaiters =>
    if s.word = ⟨expectedType, false, multiWaiters, serverWaiters⟩ then .granted s.lock
    else .spin .load

lemma wfusyncLockState_granted {type : SyncType} {s s' : WfusyncState} {pc : LockPc}
    (h : wfusyncLockState type s pc = .granted s') :
    s' = s.lock ∧ s.word.type = type ∧ s.word.locked = false ∧ s.word.serverWaiters = false := by
  cases pc with
  | load | recheck =>
    simp only [wfusyncLockState] at h
    split at h <;> cases h
  | cas multiWaiters =>
    simp only [wfusyncLockState] at h
    split at h
    · rename_i hword
      cases h
      rw [hword]
      exact ⟨rfl, rfl, rfl, rfl⟩
    · cases h

lemma lockState_granted {type : SyncType} {s s' : WfusyncState} {pc : ServerLockPc}
    (h : lockState type s pc = .granted s') :
    s' = s.lock ∧ s.word.type = type ∧ s.word.locked = false := by
  cases pc with
  | load =>
    simp only [lockState] at h
    split at h
    · cases h
    · split at h <;> cases h
  | cas multiWaiters serverWaiters =>
    simp only [lockState] at h
    split at h
    · rename_i hword
      cases h
      rw [hword]
      exact ⟨rfl, rfl, rfl⟩
    · cases h

/-! ### Who holds the locks

No owner is recorded in the shared word. `LockTable` relates the words to the holders that
the program points of a machine name. The lock bit of a destroyed state is lost, since its
word is overwritten. -/

variable {κ : Type*}

structure LockTable (mem : ℕ → WfusyncState) (holds : κ → ℕ → Prop) : Prop where
  holder : ∀ idx, (mem idx).word.locked = true → ∃ t, holds t idx
  locked : ∀ t idx, holds t idx →
    (mem idx).word.locked = true ∨ (mem idx).word.type = .unknown
  exclusive : ∀ t u idx, holds t idx → holds u idx → t = u

/-- What one step of a holder may do to the shared states and to its own set of locks. -/
inductive LockEffect (mem mem' : ℕ → WfusyncState) (held held' : ℕ → Prop) : Prop
  | quiet :
      (∀ idx, (mem' idx).core = (mem idx).core ∧ (mem' idx).word.type = (mem idx).word.type ∧
        (mem' idx).word.locked = (mem idx).word.locked) →
      (∀ idx, held' idx ↔ held idx) → LockEffect mem mem' held held'
  | acquire (idx : ℕ) :
      (mem idx).word.locked = false → (mem idx).word.type ≠ .unknown →
      mem' = update mem idx (mem idx).lock →
      (∀ j, held' j ↔ held j ∨ j = idx) → LockEffect mem mem' held held'
  | release (idx : ℕ) :
      held idx → mem' = update mem idx (mem idx).unlock →
      (∀ j, held' j ↔ held j ∧ j ≠ idx) → LockEffect mem mem' held held'
  | write (idx : ℕ) (o : WfusyncState) :
      held idx → o.word = (mem idx).word → mem' = update mem idx o →
      (∀ j, held' j ↔ held j) → LockEffect mem mem' held held'

variable {mem mem' : ℕ → WfusyncState} {holds holds' : κ → ℕ → Prop} {t : κ}

lemma LockEffect.same {held held' : ℕ → Prop} (hheld : ∀ idx, held' idx ↔ held idx) :
    LockEffect mem mem held held' :=
  .quiet (fun _ => ⟨rfl, rfl, rfl⟩) hheld

lemma LockTable.frame (h : LockTable mem holds) {held' : ℕ → Prop}
    (heffect : LockEffect mem mem' (holds t) held') {u : κ} (hne : u ≠ t) {idx : ℕ}
    (hheld : holds u idx) :
    (mem' idx).core = (mem idx).core ∧ (mem' idx).word.type = (mem idx).word.type := by
  cases heffect with
  | quiet hsame _ => exact ⟨(hsame idx).1, (hsame idx).2.1⟩
  | acquire j _ _ hmem _ | release j _ hmem _ =>
    rw [hmem]
    by_cases hj : idx = j
    · rw [hj, update_self]
      exact ⟨rfl, rfl⟩
    · rw [update_of_ne hj]
      exact ⟨rfl, rfl⟩
  | write j o hj hword hmem _ =>
    have hidx : idx ≠ j := by
      intro heq
      rw [heq] at hheld
      exact hne (h.exclusive u t j hheld hj)
    rw [hmem, update_of_ne hidx]
    exact ⟨rfl, rfl⟩

lemma LockTable.congr (h : LockTable mem holds)
    (hsame : ∀ idx, (mem' idx).word.type = (mem idx).word.type ∧
      (mem' idx).word.locked = (mem idx).word.locked) : LockTable mem' holds where
  holder idx hidx := by
    rw [(hsame idx).2] at hidx
    exact h.holder idx hidx
  locked u idx hu := by
    rw [(hsame idx).1, (hsame idx).2]
    exact h.locked u idx hu
  exclusive := h.exclusive

lemma holds_eq (hholds : ∀ idx, holds' t idx ↔ holds t idx)
    (hother : ∀ u, u ≠ t → holds' u = holds u) : holds' = holds := by
  funext u
  by_cases hu : u = t
  · rw [hu]
    funext idx
    exact propext (hholds idx)
  · exact hother u hu

theorem LockTable.step (h : LockTable mem holds)
    (heffect : LockEffect mem mem' (holds t) (holds' t)) (hother : ∀ u, u ≠ t → holds' u = holds u) :
    LockTable mem' holds' := by
  cases heffect with
  | quiet hsame hholds =>
    rw [holds_eq hholds hother]
    exact h.congr fun idx => (hsame idx).2
  | acquire j hfree htype hmem hholds =>
    -- Nobody holds a free lock of a live state.
    have hnobody : ∀ u, ¬ holds u j := by
      intro u hu
      rcases h.locked u j hu with hlocked | hunknown
      · rw [hfree] at hlocked
        cases hlocked
      · exact htype hunknown
    have hold : ∀ u idx, idx ≠ j → (holds' u idx ↔ holds u idx) := by
      intro u idx hidx
      by_cases hu : u = t
      · rw [hu, hholds]
        simp [hidx]
      · rw [hother u hu]
    have hnew : ∀ u, holds' u j ↔ u = t := by
      intro u
      by_cases hu : u = t
      · rw [hu, hholds]
        simp
      · rw [hother u hu]
        simp [hu, hnobody u]
    rw [hmem]
    constructor
    · intro idx hidx
      by_cases hj : idx = j
      · exact ⟨t, by rw [hj, hnew]⟩
      · rw [update_of_ne hj] at hidx
        obtain ⟨u, hu⟩ := h.holder idx hidx
        exact ⟨u, (hold u idx hj).mpr hu⟩
    · intro u idx hu
      by_cases hj : idx = j
      · rw [hj, update_self]
        exact .inl rfl
      · rw [update_of_ne hj]
        exact h.locked u idx ((hold u idx hj).mp hu)
    · intro u v idx hu hv
      by_cases hj : idx = j
      · rw [hj, hnew] at hu hv
        rw [hu, hv]
      · exact h.exclusive u v idx ((hold u idx hj).mp hu) ((hold v idx hj).mp hv)
  | release j hheld hmem hholds =>
    have hold : ∀ u idx, idx ≠ j → (holds' u idx ↔ holds u idx) := by
      intro u idx hidx
      by_cases hu : u = t
      · rw [hu, hholds]
        simp [hidx]
      · rw [hother u hu]
    have hnobody : ∀ u, ¬ holds' u j := by
      intro u hu
      by_cases hut : u = t
      · rw [hut, hholds] at hu
        exact hu.2 rfl
      · rw [hother u hut] at hu
        exact hut (h.exclusive u t j hu hheld)
    rw [hmem]
    constructor
    · intro idx hidx
      by_cases hj : idx = j
      · rw [hj, update_self] at hidx
        cases hidx
      · rw [update_of_ne hj] at hidx
        obtain ⟨u, hu⟩ := h.holder idx hidx
        exact ⟨u, (hold u idx hj).mpr hu⟩
    · intro u idx hu
      have hj : idx ≠ j := by
        intro heq
        rw [heq] at hu
        exact hnobody u hu
      rw [update_of_ne hj]
      exact h.locked u idx ((hold u idx hj).mp hu)
    · intro u v idx hu hv
      have hj : idx ≠ j := by
        intro heq
        rw [heq] at hu
        exact hnobody u hu
      exact h.exclusive u v idx ((hold u idx hj).mp hu) ((hold v idx hj).mp hv)
  | write j o _ hword hmem hholds =>
    rw [holds_eq hholds hother]
    apply h.congr
    intro idx
    rw [hmem]
    by_cases hj : idx = j
    · rw [hj, update_self, hword]
      exact ⟨rfl, rfl⟩
    · rw [update_of_ne hj]
      exact ⟨rfl, rfl⟩

end WineForge.WfuSync
