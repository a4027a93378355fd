import WineForge.FileLocks.State

/-!
# The buffer of holes is large enough

The links of the holes always lead to later holes, so every walk ends. A lock splits at most one
hole, so the buffer of one hole more than there are locks is never exceeded. Both hold even where
a split leaves a wrong link back.
-/

namespace WineForge.FileLocks

open Function

def FileLock.Proper (lock : FileLock) : Prop :=
  lock.stop = 0 ∨ lock.start < lock.stop

namespace HoleBuffer

/-- The links respect a ranking of the holes by their position. -/
structure Ranked (b : HoleBuffer) (rank : ℕ → ℕ) : Prop where
  bound : ∀ i < b.used, rank i < b.used
  first : ∀ i, b.first = some i → i < b.used
  next : ∀ i < b.used, ∀ j, (b.hole i).next = some j → j < b.used ∧ rank i < rank j
  prev : ∀ i < b.used, ∀ j, (b.hole i).prev = some j → j < b.used ∧ rank j < rank i

variable {b b' : HoleBuffer} {rank : ℕ → ℕ}

lemma ranked_single (start stop : FilePos) : (single start stop).Ranked fun _ => 0 where
  bound _ _ := Nat.one_pos
  first i hi := by
    cases hi
    exact Nat.one_pos
  next _ _ j hj := by cases hj
  prev _ _ j hj := by cases hj

lemma Ranked.links (h : b.Ranked rank) (hused : b'.used = b.used) (hfirst : b'.first = b.first)
    (hnext : ∀ i, (b'.hole i).next = (b.hole i).next)
    (hprev : ∀ i, (b'.hole i).prev = (b.hole i).prev) : b'.Ranked rank where
  bound i hi := by
    rw [hused] at hi ⊢
    exact h.bound i hi
  first i hi := by
    rw [hfirst] at hi
    rw [hused]
    exact h.first i hi
  next i hi j hj := by
    rw [hused] at hi ⊢
    rw [hnext] at hj
    exact h.next i hi j hj
  prev i hi j hj := by
    rw [hused] at hi ⊢
    rw [hprev] at hj
    exact h.prev i hi j hj

lemma setStart_next (b : HoleBuffer) (i : ℕ) (pos : FilePos) (j : ℕ) :
    ((b.setStart i pos).hole j).next = (b.hole j).next := by
  by_cases hj : j = i
  · rw [hj]
    simp [setStart]
  · simp [setStart, hj]

lemma setStart_prev (b : HoleBuffer) (i : ℕ) (pos : FilePos) (j : ℕ) :
    ((b.setStart i pos).hole j).prev = (b.hole j).prev := by
  by_cases hj : j = i
  · rw [hj]
    simp [setStart]
  · simp [setStart, hj]

lemma Ranked.setStart (h : b.Ranked rank) (i : ℕ) (pos : FilePos) :
    (b.setStart i pos).Ranked rank :=
  h.links rfl rfl (setStart_next b i pos) (setStart_prev b i pos)

lemma Ranked.setStop (h : b.Ranked rank) (i : ℕ) (pos : FilePos) :
    (b.setStop i pos).Ranked rank := by
  have hsame : ∀ j, ((b.setStop i pos).hole j).next = (b.hole j).next ∧
      ((b.setStop i pos).hole j).prev = (b.hole j).prev := by
    intro j
    by_cases hj : j = i
    · rw [hj]
      simp [HoleBuffer.setStop]
    · simp [HoleBuffer.setStop, hj]
  exact h.links rfl rfl (fun j => (hsame j).1) fun j => (hsame j).2

lemma unlinkNext_next (b : HoleBuffer) (cur j : ℕ) :
    ((b.unlinkNext cur).hole j).next = (b.hole j).next := by
  unfold unlinkNext
  split
  · rename_i next _
    by_cases hj : j = next
    · rw [hj]
      simp [setPrev]
    · simp [setPrev, hj]
  · rfl

lemma unlinkNext_used (b : HoleBuffer) (cur : ℕ) : (b.unlinkNext cur).used = b.used := by
  unfold unlinkNext
  split <;> rfl

lemma unlinkNext_first (b : HoleBuffer) (cur : ℕ) : (b.unlinkNext cur).first = b.first := by
  unfold unlinkNext
  split <;> rfl

lemma Ranked.unlinkNext (h : b.Ranked rank) {cur : ℕ} (hcur : cur < b.used) :
    (b.unlinkNext cur).Ranked rank := by
  refine ⟨fun i hi => ?_, fun i hi => ?_, fun i hi j hj => ?_, fun i hi j hj => ?_⟩
  · rw [unlinkNext_used] at hi ⊢
    exact h.bound i hi
  · rw [unlinkNext_first] at hi
    rw [unlinkNext_used]
    exact h.first i hi
  · rw [unlinkNext_used] at hi ⊢
    rw [unlinkNext_next] at hj
    exact h.next i hi j hj
  rw [unlinkNext_used] at hi ⊢
  unfold HoleBuffer.unlinkNext at hj
  split at hj
  · rename_i next hnext
    by_cases heq : i = next
    · rw [heq] at hj ⊢
      simp only [HoleBuffer.setPrev, update_self] at hj
      have hlater := (h.next cur hcur next hnext).2
      have hearlier := h.prev cur hcur j hj
      exact ⟨hearlier.1, hearlier.2.trans hlater⟩
    · simp only [HoleBuffer.setPrev, update_of_ne heq] at hj
      exact h.prev i hi j hj
  · exact h.prev i hi j hj

lemma Ranked.unlinkPrev (h : b.Ranked rank) {cur : ℕ} (hcur : cur < b.used) :
    (b.unlinkPrev cur).Ranked rank := by
  unfold HoleBuffer.unlinkPrev
  split
  · rename_i prev hprev
    have hearlier := h.prev cur hcur prev hprev
    refine ⟨h.bound, h.first, fun i hi j hj => ?_, fun i hi j hj => ?_⟩
    · by_cases heq : i = prev
      · rw [heq] at hj ⊢
        simp only [HoleBuffer.setNext, update_self] at hj
        have hlater := h.next cur hcur j hj
        exact ⟨hlater.1, hearlier.2.trans hlater.2⟩
      · simp only [HoleBuffer.setNext, update_of_ne heq] at hj
        exact h.next i hi j hj
    by_cases heq : i = prev
    · rw [heq] at hj ⊢
      simp only [HoleBuffer.setNext, update_self] at hj
      exact h.prev prev hearlier.1 j hj
    · simp only [HoleBuffer.setNext, update_of_ne heq] at hj
      exact h.prev i hi j hj
  · exact ⟨h.bound, fun i hi => (h.next cur hcur i hi).1, h.next, h.prev⟩

lemma unlink_used (b : HoleBuffer) (cur : ℕ) : (b.unlink cur).used = b.used := by
  unfold unlink unlinkPrev
  split <;> exact unlinkNext_used b cur

def rankSplit (rank : ℕ → ℕ) (used cur : ℕ) (i : ℕ) : ℕ :=
  if i = used then rank cur + 1 else if rank i ≤ rank cur then rank i else rank i + 1

lemma Ranked.split (h : b.Ranked rank) {cur : ℕ} (hcur : cur < b.used) (lock : FileLock) :
    (b.split cur lock).Ranked (rankSplit rank b.used cur) := by
  have hne : cur ≠ b.used := hcur.ne
  have hold : ∀ i < b.used, rankSplit rank b.used cur i =
      if rank i ≤ rank cur then rank i else rank i + 1 := by
    intro i hi
    exact if_neg hi.ne
  have hnew : rankSplit rank b.used cur b.used = rank cur + 1 := if_pos rfl
  have hmono : ∀ i < b.used, ∀ j < b.used, rank i < rank j →
      rankSplit rank b.used cur i < rankSplit rank b.used cur j := by
    intro i hi j hj hlt
    rw [hold i hi, hold j hj]
    split_ifs <;> omega
  have hcases : ∀ i, i < b.used + 1 → i ≠ b.used → i < b.used := by
    intro i hi hne
    omega
  refine ⟨fun i hi => ?_, fun i hi => ?_, fun i hi j hj => ?_, fun i hi j hj => ?_⟩
  · change rankSplit rank b.used cur i < b.used + 1
    by_cases hi' : i = b.used
    · have hlt := h.bound cur hcur
      rw [hi', hnew]
      omega
    · have hlt := h.bound i (hcases i hi hi')
      rw [hold i (hcases i hi hi')]
      split_ifs <;> omega
  · exact Nat.lt_succ_of_lt (h.first i hi)
  · by_cases hi' : i = b.used
    · simp only [hi', HoleBuffer.split, update_of_ne hne.symm, update_self] at hj
      obtain ⟨hj', hlt⟩ := h.next cur hcur j hj
      rw [hi', hnew, hold j hj', if_neg (by omega)]
      exact ⟨by omega, by omega⟩
    by_cases hic : i = cur
    · simp only [hic, HoleBuffer.split, update_self, Option.some.injEq] at hj
      rw [hic, ← hj, hnew, hold cur hcur, if_pos le_rfl]
      exact ⟨Nat.lt_succ_self _, Nat.lt_succ_self _⟩
    · simp only [HoleBuffer.split, update_of_ne hic, update_of_ne hi'] at hj
      obtain ⟨hj', hlt⟩ := h.next i (hcases i hi hi') j hj
      exact ⟨Nat.lt_succ_of_lt hj', hmono i (hcases i hi hi') j hj' hlt⟩
  · by_cases hi' : i = b.used
    · simp only [hi', HoleBuffer.split, update_of_ne hne.symm, update_self, Option.some.injEq] at hj
      rw [hi', ← hj, hnew, hold cur hcur, if_pos le_rfl]
      exact ⟨Nat.lt_succ_of_lt hcur, Nat.lt_succ_self _⟩
    have hprev : (b.hole i).prev = some j := by
      by_cases hic : i = cur
      · simp only [hic, HoleBuffer.split, update_self] at hj
        rw [hic]
        exact hj
      · simp only [HoleBuffer.split, update_of_ne hic, update_of_ne hi'] at hj
        exact hj
    obtain ⟨hj', hlt⟩ := h.prev i (hcases i hi hi') j hprev
    exact ⟨Nat.lt_succ_of_lt hj', hmono j hj' i (hcases i hi hi') hlt⟩

lemma walk_ok {lock : FileLock} (hlock : lock.Proper) (capacity : ℕ) :
    ∀ (fuel : ℕ) (cur : Option ℕ) (b : HoleBuffer), b.Ranked rank → b.used < capacity →
      (∀ i, cur = some i → i < b.used ∧ b.used - rank i ≤ fuel) →
      ∃ b' rank', b.walk lock capacity fuel cur = .ok b' ∧ b'.Ranked rank' ∧
        b'.used ≤ b.used + 1 := by
  intro fuel
  induction fuel with
  | zero =>
    intro cur b h hcap hcur
    cases cur with
    | none => exact ⟨b, rank, by simp [walk], h, Nat.le_succ _⟩
    | some i =>
      have hlt := h.bound i (hcur i rfl).1
      have hfuel := (hcur i rfl).2
      omega
  | succ fuel ih =>
    intro cur b h hcap hcur
    cases cur with
    | none => exact ⟨b, rank, by simp [walk], h, Nat.le_succ _⟩
    | some i =>
      obtain ⟨hi, hfuel⟩ := hcur i rfl
      have hbound := h.bound i hi
      -- The next hole has a higher rank, so less fuel is enough for it.
      have hnext : ∀ j, (b.hole i).next = some j → j < b.used ∧ b.used - rank j ≤ fuel := by
        intro j hj
        obtain ⟨hj', hlt⟩ := h.next i hi j hj
        exact ⟨hj', by omega⟩
      simp only [walk]
      split_ifs with hbefore hbehind hstart hpart hlarge hassert hcapacity hsplit
      · exact ih _ b h hcap hnext
      · exact ⟨b, rank, rfl, h, Nat.le_succ _⟩
      · exact ⟨_, rank, rfl, h.setStart i lock.stop, Nat.le_succ _⟩
      · have hset := h.setStart i lock.stop
        have hunlink : ((b.setStart i lock.stop).unlink i).Ranked rank := by
          apply (hset.unlinkNext hi).unlinkPrev
          rw [unlinkNext_used]
          exact hi
        have hused : ((b.setStart i lock.stop).unlink i).used = b.used := unlink_used _ i
        have hrest := ih (b.hole i).next _ hunlink (by rw [hused]; exact hcap)
          (by rw [hused]; exact hnext)
        rwa [hused] at hrest
      · exact ih _ _ (h.setStop i lock.start) hcap hnext
      · exact absurd (UInt64.not_le.mp hstart) hassert
      · omega
      · exact ⟨_, _, rfl, h.split hi lock, le_rfl⟩
      -- The lock lies inside the hole, so neither assertion can fail.
      exfalso
      rw [not_or] at hlarge
      rcases hlock with hstop | hlt
      · exact hlarge.1 hstop
      · exact hsplit ⟨UInt64.not_le.mp hlarge.2, hlt⟩

lemma cutAll_ok {capacity : ℕ} :
    ∀ (locks : List FileLock) (b : HoleBuffer) (rank : ℕ → ℕ), b.Ranked rank →
      (∀ lock ∈ locks, lock.Proper) → b.used + locks.length ≤ capacity →
      ∃ b' rank', b.cutAll capacity locks = .ok b' ∧ b'.Ranked rank' := by
  intro locks
  induction locks with
  | nil =>
    intro b rank h _ _
    exact ⟨b, rank, rfl, h⟩
  | cons lock locks ih =>
    intro b rank h hproper hcap
    have hlength : (lock :: locks).length = locks.length + 1 := rfl
    have hfirst : ∀ i, b.first = some i → i < b.used ∧ b.used - rank i ≤ b.used :=
      fun i hi => ⟨h.first i hi, Nat.sub_le _ _⟩
    obtain ⟨b₁, rank₁, hwalk, h₁, hused⟩ := walk_ok (hproper lock List.mem_cons_self)
      capacity b.used b.first b h (by omega) hfirst
    have hrest := ih b₁ rank₁ h₁ (fun l hl => hproper l (List.mem_cons_of_mem lock hl)) (by omega)
    simp only [cutAll, hwalk]
    exact hrest

lemma collect_ok (h : b.Ranked rank) :
    ∀ (fuel : ℕ) (cur : Option ℕ), (∀ i, cur = some i → i < b.used ∧ b.used - rank i ≤ fuel) →
      ∃ holes, b.collect fuel cur = .ok holes := by
  intro fuel
  induction fuel with
  | zero =>
    intro cur hcur
    cases cur with
    | none => exact ⟨[], by simp [collect]⟩
    | some i =>
      have hlt := h.bound i (hcur i rfl).1
      have hfuel := (hcur i rfl).2
      omega
  | succ fuel ih =>
    intro cur hcur
    cases cur with
    | none => exact ⟨[], by simp [collect]⟩
    | some i =>
      obtain ⟨hi, hfuel⟩ := hcur i rfl
      have hnext : ∀ j, (b.hole i).next = some j → j < b.used ∧ b.used - rank j ≤ fuel := by
        intro j hj
        obtain ⟨hj', hlt⟩ := h.next i hi j hj
        exact ⟨hj', by omega⟩
      obtain ⟨holes, hholes⟩ := ih _ hnext
      refine ⟨b.hole i :: holes, ?_⟩
      simp only [collect, hholes]
      rfl

end HoleBuffer

/-- The loops of `remove_unix_locks` end, stay inside the buffer, and pass their assertions. -/
theorem unlockedHoles_ok {locks : List FileLock} (hproper : ∀ lock ∈ locks, lock.Proper)
    (start stop : FilePos) : ∃ holes, unlockedHoles locks start stop = .ok holes := by
  have hsingle := HoleBuffer.ranked_single start stop
  have hcap : (HoleBuffer.single start stop).used + locks.length ≤ locks.length + 1 := by
    rw [Nat.add_comm]
    exact le_rfl
  obtain ⟨b, rank, hcut, h⟩ := HoleBuffer.cutAll_ok locks _ _ hsingle hproper hcap
  obtain ⟨holes, hholes⟩ := HoleBuffer.collect_ok h b.used b.first
    fun i hi => ⟨h.first i hi, Nat.sub_le _ _⟩
  refine ⟨holes, ?_⟩
  simp only [unlockedHoles, hcut]
  exact hholes

end WineForge.FileLocks
