import Mathlib.Algebra.BigOperators.Fin
import Mathlib.Algebra.Order.BigOperators.Group.Finset
import Mathlib.Tactic.Linarith

/-!
# Counting threads by control state

`census p f` is the number of threads whose control state satisfies the test `p`. A step of
one thread changes a census by at most one; a broadcast moves a whole class of threads.
-/

namespace WineForge.Library

open Bool Function List

variable {ι κ : Type*} [Fintype ι]

def census (p : κ → Bool) (f : ι → κ) : ℕ :=
  ∑ i, (p (f i)).toNat

variable {p : κ → Bool} {f : ι → κ}

lemma census_eq_zero : census p f = 0 ↔ ∀ i, p (f i) = false := by
  simp [census, Finset.sum_eq_zero_iff]

lemma census_congr {g : ι → κ} (h : ∀ i, p (f i) = p (g i)) : census p f = census p g := by
  exact Finset.sum_congr rfl fun i _ => by rw [h i]

lemma census_le_card (p : κ → Bool) (f : ι → κ) : census p f ≤ Fintype.card ι := by
  have hle : census p f ≤ ∑ _i : ι, 1 := Finset.sum_le_sum fun i _ => toNat_le (p (f i))
  rwa [Finset.sum_const, smul_eq_mul, mul_one, Finset.card_univ] at hle

lemma census_eq_card (h : Fintype.card ι ≤ census p f) (i : ι) : p (f i) = true := by
  by_contra hfalse
  have hlt : census p f < ∑ _i : ι, 1 := by
    apply Finset.sum_lt_sum
    · exact fun j _ => toNat_le (p (f j))
    · exact ⟨i, Finset.mem_univ i, by simp [eq_false_iff.mpr hfalse]⟩
  rw [Finset.sum_const, smul_eq_mul, mul_one, Finset.card_univ] at hlt
  omega

lemma census_of_forall (h : ∀ i, p (f i) = true) : census p f = Fintype.card ι := by
  unfold census
  simp [h]

lemma census_pos {i : ι} (h : p (f i) = true) : 0 < census p f := by
  refine pos_of_ne_zero fun hzero => ?_
  have hfalse := census_eq_zero.mp hzero i
  rw [h] at hfalse
  simp at hfalse

lemma exists_of_census_pos (h : 0 < census p f) : ∃ i, p (f i) = true := by
  by_contra hnone
  rw [census_eq_zero.mpr] at h
  · exact absurd h (lt_irrefl 0)
  · exact fun i => eq_false_iff.mpr fun hi => hnone ⟨i, hi⟩

lemma sum_change [DecidableEq ι] {f g : ι → ℕ} (i : ι) (h : ∀ j, j ≠ i → g j = f j) :
    ∑ j, g j + f i = ∑ j, f j + g i := by
  have hrest : ∑ j ∈ Finset.univ.erase i, g j = ∑ j ∈ Finset.univ.erase i, f j :=
    Finset.sum_congr rfl fun j hj => h j (Finset.ne_of_mem_erase hj)
  rw [← Finset.add_sum_erase _ g (Finset.mem_univ i), ← Finset.add_sum_erase _ f (Finset.mem_univ i),
    hrest]
  omega

lemma census_update [DecidableEq ι] (p : κ → Bool) (f : ι → κ) (i : ι) (v : κ) :
    census p (update f i v) + (p (f i)).toNat = census p f + (p v).toNat := by
  have hsum := sum_change (f := fun j => (p (f j)).toNat)
    (g := fun j => (p (update f i v j)).toNat) i fun j hj => by
      rw [update_of_ne hj]
  rwa [update_self] at hsum

lemma census_change [DecidableEq ι] {g : ι → κ} (i : ι) (h : ∀ j, j ≠ i → p (g j) = p (f j)) :
    census p g + (p (f i)).toNat = census p f + (p (g i)).toNat := by
  have hupdate : census p g = census p (update f i (g i)) := by
    apply census_congr
    intro j
    by_cases heq : j = i
    · rw [heq, update_self]
    · rw [update_of_ne heq, h j heq]
  rw [hupdate]
  exact census_update p f i (g i)

/-- All threads that pass `p` move to `v`. -/
def relocate (p : κ → Bool) (v : κ) (f : ι → κ) : ι → κ :=
  fun i => if p (f i) then v else f i

lemma census_relocate_source {v : κ} (f : ι → κ) (hv : p v = false) :
    census p (relocate p v f) = 0 := by
  rw [census_eq_zero]
  intro i
  unfold relocate
  split
  · exact hv
  · rename_i hp
    simpa using hp

/-!
## Shares of finitely many holders

`Tally f n` says that the holders have `n` shares together, `f a` of them in the hands of `a`. There
may be infinitely many possible holders, of whom only finitely many have a share.
-/

variable {α : Type*} [DecidableEq α] {f g : α → ℕ} {n m : ℕ} {a b : α}

/-- The holders have `n` shares together. -/
def Tally (f : α → ℕ) (n : ℕ) : Prop := ∃ l : List α, (∀ a, l.count a = f a) ∧ l.length = n

lemma tally_zero (h : ∀ a, f a = 0) : Tally f 0 :=
  ⟨[], fun a => (h a).symm, rfl⟩

lemma Tally.congr (h : Tally f n) (hsame : ∀ a, g a = f a) : Tally g n := by
  have heq : g = f := funext hsame
  rw [heq]
  exact h

lemma Tally.le (h : Tally f n) (a : α) : f a ≤ n := by
  obtain ⟨l, hcount, rfl⟩ := h
  rw [← hcount a]
  exact count_le_length

lemma Tally.eq_zero (h : Tally f 0) (a : α) : f a = 0 := Nat.le_zero.mp (h.le a)

lemma Tally.add (h : Tally f n) (a : α) (hadd : ∀ x, g x = f x + if x = a then 1 else 0) :
    Tally g (n + 1) := by
  obtain ⟨l, hcount, hlength⟩ := h
  refine ⟨a :: l, fun x => ?_, by rw [length_cons, hlength]⟩
  rw [hadd, ← hcount, count_cons]
  by_cases heq : x = a
  · simp [heq]
  · simp [heq, Ne.symm heq]

lemma Tally.remove (h : Tally f n) (a : α) (hadd : ∀ x, f x = g x + if x = a then 1 else 0) :
    0 < n ∧ Tally g (n - 1) := by
  obtain ⟨l, hcount, hlength⟩ := h
  have hmem : a ∈ l := by
    rw [← count_pos_iff, hcount, hadd, if_pos rfl]
    omega
  have hpos := length_pos_of_mem hmem
  refine ⟨hlength ▸ hpos, l.erase a, fun x => ?_, ?_⟩
  · have hx := hadd x
    rw [← hcount] at hx
    by_cases heq : x = a
    · subst heq
      rw [count_erase_self, hx, if_pos rfl]
      omega
    · rw [count_erase_of_ne heq, hx, if_neg heq]
      omega
  · rw [length_erase_of_mem hmem, hlength]

lemma Tally.move (h : Tally f n) (a b : α)
    (hmove : ∀ x, g x + (if x = a then 1 else 0) = f x + if x = b then 1 else 0) : Tally g n := by
  have hadd : Tally (fun x => f x + if x = b then 1 else 0) (n + 1) := h.add b fun _ => rfl
  exact (hadd.remove a fun x => (hmove x).symm).2

/-- One holder's share becomes another. -/
lemma Tally.change (h : Tally f n) (a : α) (hsame : ∀ x, x ≠ a → g x = f x) :
    f a ≤ n ∧ Tally g (n - f a + g a) := by
  refine ⟨h.le a, ?_⟩
  obtain ⟨l, hcount, rfl⟩ := h
  refine ⟨l.filter (· ≠ a) ++ replicate (g a) a, fun x => ?_, ?_⟩
  · rw [count_append, count_replicate]
    by_cases heq : x = a
    · subst heq
      have hnone : count x (l.filter (· ≠ x)) = 0 := count_eq_zero.mpr (by simp)
      simpa using hnone
    · rw [hsame x heq, ← hcount x]
      simp [Ne.symm heq, count_filter, heq]
  have hlength := length_eq_countP_add_countP (· == a) (l := l)
  rw [← count_eq_countP, hcount, countP_eq_length_filter] at hlength
  simp only [beq_iff_eq, ← ne_eq] at hlength
  rw [length_append, length_replicate]
  omega

lemma Tally.pos (h : Tally f n) (ha : 0 < f a) : 0 < n := Nat.lt_of_lt_of_le ha (h.le a)

lemma Tally.exists_pos (h : Tally f n) (hn : 0 < n) : ∃ a, 0 < f a := by
  obtain ⟨l, hcount, rfl⟩ := h
  obtain ⟨a, ha⟩ := exists_mem_of_length_pos hn
  exact ⟨a, hcount a ▸ count_pos_iff.mpr ha⟩

lemma Tally.unique (h : Tally f n) (hn : n ≤ 1) (ha : 0 < f a) (hb : 0 < f b) : a = b := by
  obtain ⟨l, hcount, hlength⟩ := h
  rw [← hcount, count_pos_iff] at ha hb
  obtain ⟨x, rfl⟩ := length_eq_one_iff.mp
    (le_antisymm (hlength ▸ hn) (length_pos_of_mem ha))
  rw [mem_singleton.mp ha, mem_singleton.mp hb]

end WineForge.Library
