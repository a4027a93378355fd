import Mathlib.Data.List.Sort
import Mathlib.Algebra.Order.Ring.Int

/-!
# Bubble sort by a key

A pass exchanges neighbours whose keys are strictly out of order. An exchange leaves the stable
sort of the list as it is, so the passes end there.
-/

namespace WineForge.Library

open Bool List

variable {α : Type*} {key : α → ℕ} {a b : α} {l : List α}

def stableSort (key : α → ℕ) (l : List α) : List α :=
  l.insertionSort fun a b => key a ≤ key b

/-- A pass over the list `a :: l`, and whether it exchanged anything. -/
def bubble (key : α → ℕ) (a : α) : List α → List α × Bool
  | [] => ([a], false)
  | b :: l =>
    if key b < key a then (b :: (bubble key a l).1, true)
    else (a :: (bubble key b l).1, (bubble key b l).2)

def bubblePass (key : α → ℕ) : List α → List α × Bool
  | [] => ([], false)
  | a :: l => bubble key a l

def bubbleSort (key : α → ℕ) : ℕ → List α → Option (List α)
  | 0, _ => none
  | n + 1, l =>
    if (bubblePass key l).2 then bubbleSort key n (bubblePass key l).1
    else some (bubblePass key l).1

def inversions (key : α → ℕ) : List α → ℕ
  | [] => 0
  | a :: l => l.countP (fun b => decide (key b < key a)) + inversions key l

lemma bubble_perm (key : α → ℕ) (a : α) (l : List α) : (bubble key a l).1.Perm (a :: l) := by
  induction l generalizing a with
  | nil => exact List.Perm.refl _
  | cons b l ih =>
    rw [bubble]
    split
    · exact ((ih a).cons b).trans (List.Perm.swap a b l)
    · exact (ih b).cons a

lemma bubble_tail (hl : ∀ c ∈ l, key c ≠ 0) :
    ∃ b m, (bubble key a l).1 = b :: m ∧ ∀ c ∈ m, key c ≠ 0 := by
  cases l with
  | nil => exact ⟨a, [], rfl, hl⟩
  | cons b l =>
    rw [bubble]
    split
    · rename_i hswap
      refine ⟨b, _, rfl, fun c hc => ?_⟩
      obtain rfl | hc := mem_cons.mp ((bubble_perm key a l).mem_iff.mp hc)
      · exact Nat.ne_zero_of_lt hswap
      · exact hl c (mem_cons_of_mem b hc)
    · exact ⟨a, _, rfl, fun c hc => hl c ((bubble_perm key b l).mem_iff.mp hc)⟩

lemma orderedInsert_comm (h : key b < key a) (l : List α) :
    (l.orderedInsert (fun a b => key a ≤ key b) a).orderedInsert (fun a b => key a ≤ key b) b =
      (l.orderedInsert (fun a b => key a ≤ key b) b).orderedInsert (fun a b => key a ≤ key b) a := by
  induction l with
  | nil => simp [h.le, h.not_ge]
  | cons c l ih =>
    by_cases hac : key a ≤ key c
    · have hbc : key b ≤ key c := h.le.trans hac
      simp [hac, hbc, h.le, h.not_ge]
    · by_cases hbc : key b ≤ key c
      · simp [hac, hbc, h.not_ge]
      · simp [hac, hbc, ih]

lemma stableSort_bubble (key : α → ℕ) (a : α) (l : List α) :
    stableSort key (bubble key a l).1 = stableSort key (a :: l) := by
  unfold stableSort at *
  induction l generalizing a with
  | nil => rfl
  | cons b l ih =>
    rw [bubble]
    split
    · rename_i hswap
      rw [insertionSort_cons, ih, insertionSort_cons, orderedInsert_comm hswap]
      rfl
    · rw [insertionSort_cons, ih]
      rfl

lemma bubble_ordered (h : (bubble key a l).2 = false) :
    (bubble key a l).1 = a :: l ∧ (a :: l).Pairwise fun a b => key a ≤ key b := by
  induction l generalizing a with
  | nil => exact ⟨rfl, pairwise_singleton _ _⟩
  | cons b l ih =>
    rw [bubble] at h ⊢
    split at h
    · nomatch h
    rename_i hswap
    obtain ⟨hsame, hordered⟩ := ih h
    rw [if_neg hswap]
    refine ⟨congrArg (a :: ·) hsame, pairwise_cons.mpr ⟨fun c hc => ?_, hordered⟩⟩
    have hab : key a ≤ key b := Nat.le_of_not_lt hswap
    cases hc with
    | head => exact hab
    | tail _ hc => exact hab.trans ((pairwise_cons.mp hordered).1 c hc)

lemma bubble_inversions (key : α → ℕ) (a : α) (l : List α) :
    inversions key (bubble key a l).1 + (bubble key a l).2.toNat ≤ inversions key (a :: l) := by
  induction l generalizing a with
  | nil => exact le_refl _
  | cons b l ih =>
    rw [bubble]
    split
    · rename_i hswap
      have hperm := (bubble_perm key a l).countP_eq fun c => decide (key c < key b)
      have hle := ih a
      simp only [inversions, countP_cons, hswap, hswap.not_gt, decide_true, decide_false,
        if_true, false_eq_true, if_false, toNat_true] at hperm hle ⊢
      omega
    have hperm := (bubble_perm key b l).countP_eq fun c => decide (key c < key a)
    have hle := ih b
    rw [inversions, inversions, hperm]
    dsimp only
    omega

lemma inversions_le (key : α → ℕ) (l : List α) : inversions key l ≤ l.length * l.length := by
  induction l with
  | nil => exact le_refl 0
  | cons a l ih =>
    have hcount := countP_le_length (p := fun b => decide (key b < key a)) (l := l)
    rw [inversions, length_cons, Nat.succ_mul_succ]
    omega

/-- The passes end with the stable sort. -/
theorem bubbleSort_eq {n : ℕ} (h : inversions key l < n) :
    bubbleSort key n l = some (stableSort key l) := by
  induction n generalizing l with
  | zero => exact absurd h (Nat.not_lt_zero _)
  | succ n ih =>
    rw [bubbleSort]
    cases l with
    | nil => rfl
    | cons a l =>
      have hless := bubble_inversions key a l
      cases hflag : (bubble key a l).2 with
      | true =>
        rw [bubblePass, if_pos hflag, ← stableSort_bubble]
        rw [hflag, toNat_true] at hless
        exact ih (by omega)
      | false =>
        obtain ⟨hsame, hordered⟩ := bubble_ordered hflag
        rw [bubblePass, hflag, if_neg Bool.false_ne_true, hsame]
        exact congrArg some hordered.insertionSort_eq.symm

end WineForge.Library
