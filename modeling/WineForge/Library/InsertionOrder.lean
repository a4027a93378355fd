import Mathlib.GroupTheory.Perm.Basic
import Mathlib.Algebra.Order.Ring.Int

/-!
# Insertion sort on an array of positions

The array is a permutation of the natural numbers that starts as the identity, so the sort
can only exchange positions. Only the first `count` positions are sorted; the array leaves the
others where they are.
-/

namespace WineForge.Library

variable {κ : Type*} [LinearOrder κ]

/-- The inner loop: the entry at position `j` moves down past every larger key. -/
def siftDown (keys : ℕ → κ) (order : Equiv.Perm ℕ) : ℕ → Equiv.Perm ℕ
  | 0 => order
  | j + 1 =>
    if keys (order (j + 1)) < keys (order j) then siftDown keys (order * Equiv.swap j (j + 1)) j
    else order

/-- The outer loop over the first `count` positions. -/
def insertionOrder (keys : ℕ → κ) : ℕ → Equiv.Perm ℕ
  | 0 => 1
  | n + 1 => siftDown keys (insertionOrder keys n) n

/-- The first `n` entries are in order. -/
def SortedBelow (keys : ℕ → κ) (order : Equiv.Perm ℕ) (n : ℕ) : Prop :=
  ∀ a b, a < b → b < n → keys (order a) ≤ keys (order b)

/-- The inner loop in progress: in order but for position `j`, which is below what follows. -/
structure Sifting (keys : ℕ → κ) (order : Equiv.Perm ℕ) (j n : ℕ) : Prop where
  others : ∀ a b, a < b → b < n → a ≠ j → b ≠ j → keys (order a) ≤ keys (order b)
  above : ∀ b, j < b → b < n → keys (order j) ≤ keys (order b)

variable {keys : ℕ → κ} {order : Equiv.Perm ℕ} {j n : ℕ}

lemma Sifting.sorted (h : Sifting keys order j n)
    (hbelow : ∀ a, a < j → keys (order a) ≤ keys (order j)) : SortedBelow keys order n := by
  intro a b hab hb
  by_cases haj : a = j
  · rw [haj]
    exact h.above b (haj ▸ hab) hb
  by_cases hbj : b = j
  · rw [hbj]
    exact hbelow a (hbj ▸ hab)
  · exact h.others a b hab hb haj hbj

lemma Sifting.swap (h : Sifting keys order (j + 1) n)
    (hlt : keys (order (j + 1)) < keys (order j)) :
    Sifting keys (order * Equiv.swap j (j + 1)) j n := by
  have hleft : (order * Equiv.swap j (j + 1)) j = order (j + 1) := by
    simp [Equiv.Perm.mul_apply]
  have hright : (order * Equiv.swap j (j + 1)) (j + 1) = order j := by
    simp [Equiv.Perm.mul_apply]
  have hother : ∀ a, a ≠ j → a ≠ j + 1 → (order * Equiv.swap j (j + 1)) a = order a := by
    intro a ha ha'
    rw [Equiv.Perm.mul_apply, Equiv.swap_apply_of_ne_of_ne ha ha']
  constructor
  · intro a b hab hb ha hbne
    by_cases haj : a = j + 1
    · have hb' : b ≠ j + 1 := by omega
      rw [haj, hright, hother b hbne hb']
      exact h.others j b (by omega) hb (by omega) hb'
    rw [hother a ha haj]
    by_cases hbj : b = j + 1
    · rw [hbj, hright]
      exact h.others a j (by omega) (by omega) haj (by omega)
    · rw [hother b hbne hbj]
      exact h.others a b hab hb haj hbj
  · intro b hjb hb
    rw [hleft]
    by_cases hbj : b = j + 1
    · rw [hbj, hright]
      exact hlt.le
    · rw [hother b (by omega) hbj]
      exact h.above b (by omega) hb

lemma siftDown_sorted (h : Sifting keys order j n) (hj : j < n) :
    SortedBelow keys (siftDown keys order j) n := by
  induction j generalizing order with
  | zero =>
    rw [siftDown]
    exact h.sorted fun a ha => absurd ha (Nat.not_lt_zero a)
  | succ j ih =>
    rw [siftDown]
    by_cases hlt : keys (order (j + 1)) < keys (order j)
    · rw [if_pos hlt]
      exact ih (h.swap hlt) (by omega)
    rw [if_neg hlt]
    apply h.sorted
    intro a ha
    by_cases haj : a = j
    · rw [haj]
      exact not_lt.mp hlt
    · exact (h.others a j (by omega) (by omega) (by omega) (by omega)).trans (not_lt.mp hlt)

lemma siftDown_fixes (hfix : ∀ k, n ≤ k → order k = k) (hj : j < n) :
    ∀ k, n ≤ k → siftDown keys order j k = k := by
  induction j generalizing order with
  | zero => exact hfix
  | succ j ih =>
    rw [siftDown]
    by_cases hlt : keys (order (j + 1)) < keys (order j)
    · rw [if_pos hlt]
      apply ih _ (by omega)
      intro k hk
      rw [Equiv.Perm.mul_apply, Equiv.swap_apply_of_ne_of_ne (by omega) (by omega)]
      exact hfix k hk
    · rw [if_neg hlt]
      exact hfix

/-- The sort touches no position from `n` on, which is why the entry that the outer loop
starts with is the next position itself. -/
lemma insertionOrder_fixes (keys : ℕ → κ) (n : ℕ) : ∀ k, n ≤ k → insertionOrder keys n k = k := by
  induction n with
  | zero =>
    intro k _
    rfl
  | succ n ih => exact siftDown_fixes (fun k hk => ih k (by omega)) (by omega)

theorem insertionOrder_sorted (keys : ℕ → κ) (n : ℕ) :
    SortedBelow keys (insertionOrder keys n) n := by
  induction n with
  | zero =>
    intro a b _ hb
    exact absurd hb (Nat.not_lt_zero b)
  | succ n ih =>
    apply siftDown_sorted _ (by omega)
    constructor
    · intro a b hab hb _ hbn
      exact ih a b hab (by omega)
    · intro b hnb hb
      omega

lemma insertionOrder_surj (keys : ℕ → κ) {n i : ℕ} (hi : i < n) :
    ∃ k, k < n ∧ insertionOrder keys n k = i := by
  refine ⟨(insertionOrder keys n).symm i, ?_, Equiv.apply_symm_apply _ i⟩
  by_contra h
  have hfix := insertionOrder_fixes keys n _ (not_lt.mp h)
  rw [Equiv.apply_symm_apply] at hfix
  omega

/-- When neighbours differ, the keys of the sorted entries increase strictly. -/
theorem insertionOrder_strict (keys : ℕ → κ) {n m : ℕ} (hm : m ≤ n) (hne : ∀ k, k + 1 < m →
      keys (insertionOrder keys n k) ≠ keys (insertionOrder keys n (k + 1))) :
    ∀ a b, a < b → b < m →
      keys (insertionOrder keys n a) < keys (insertionOrder keys n b) := by
  intro a b hab hb
  induction b with
  | zero => omega
  | succ b ih =>
    have hstep : keys (insertionOrder keys n b) < keys (insertionOrder keys n (b + 1)) :=
      lt_of_le_of_ne (insertionOrder_sorted keys n b (b + 1) (by omega) (by omega)) (hne b hb)
    by_cases hlast : a = b
    · rw [hlast]
      exact hstep
    · exact (ih (by omega) (by omega)).trans hstep

end WineForge.Library
