import Mathlib.Data.List.Pairwise
import Mathlib.Data.List.Perm.Basic
import Mathlib.Algebra.Order.Ring.Int

/-!
# Insertion in front of the first larger entry

A walk over a list stops at the first entry that meets a test, and the new entry goes in front of
it. Where the test compares keys, a list that is sorted by its keys stays so.
-/

namespace WineForge.Library

open List

variable {α κ : Type*}

/-- The new entry goes in front of the first entry that meets the test, or to the end. -/
def insertBefore (stop : α → Bool) (x : α) : List α → List α
  | [] => [x]
  | y :: ys => if stop y then x :: y :: ys else y :: insertBefore stop x ys

lemma insertBefore_perm (stop : α → Bool) (x : α) (ys : List α) :
    (insertBefore stop x ys).Perm (x :: ys) := by
  induction ys with
  | nil => exact List.Perm.refl _
  | cons y ys ih =>
    rw [insertBefore]
    split
    · exact List.Perm.refl _
    · exact (ih.cons y).trans (List.Perm.swap x y ys)

variable {stop : α → Bool} {x : α} {ys xs : List α}

@[simp] lemma mem_insertBefore {z : α} :
    z ∈ insertBefore stop x ys ↔ z = x ∨ z ∈ ys := by
  rw [(insertBefore_perm stop x ys).mem_iff, mem_cons]

lemma head?_insertBefore (stop : α → Bool) (x : α) (ys : List α) :
    (insertBefore stop x ys).head? = some x ∨ ∃ y ∈ ys, stop y = false := by
  cases ys with
  | nil => exact .inl rfl
  | cons y ys =>
    rw [insertBefore]
    split
    · exact .inl rfl
    · rename_i hstop
      exact .inr ⟨y, mem_cons_self, Bool.not_eq_true _ ▸ hstop⟩

lemma filter_insertBefore {p : α → Bool} (hx : p x = false) (ys : List α) :
    (insertBefore stop x ys).filter p = ys.filter p := by
  induction ys with
  | nil => rw [insertBefore, filter_cons, hx, if_neg Bool.false_ne_true]
  | cons y ys ih =>
    rw [insertBefore]
    split
    · rw [filter_cons, hx, if_neg Bool.false_ne_true]
    · rw [filter_cons, filter_cons, ih]

lemma insertBefore_congr {stop' : α → Bool} (h : ∀ y ∈ ys, stop y = stop' y)
    (x : α) : insertBefore stop x ys = insertBefore stop' x ys := by
  induction ys with
  | nil => rfl
  | cons y ys ih =>
    rw [insertBefore, insertBefore, h y mem_cons_self,
      ih fun y' hy' => h y' (mem_cons_of_mem y hy')]

variable [LinearOrder κ] {key : α → κ}

def SortedBy (key : α → κ) (xs : List α) : Prop := xs.Pairwise fun a b => key a ≤ key b

lemma SortedBy.congr {key' : α → κ} (h : SortedBy key xs)
    (hkey : ∀ x ∈ xs, key' x = key x) : SortedBy key' xs := by
  refine List.Pairwise.imp_of_mem (fun ha hb hle => ?_) h
  rw [hkey _ ha, hkey _ hb]
  exact hle

lemma SortedBy.sublist (h : SortedBy key ys) (hsub : xs.Sublist ys) :
    SortedBy key xs := List.Pairwise.sublist hsub h

lemma SortedBy.head_le {y : α} (h : SortedBy key (x :: xs)) (hy : y ∈ x :: xs) : key x ≤ key y := by
  cases mem_cons.mp hy with
  | inl heq => exact le_of_eq (congrArg key heq.symm)
  | inr hmem => exact (pairwise_cons.mp h).1 y hmem

lemma SortedBy.insertBefore (h : SortedBy key ys) :
    SortedBy key (insertBefore (fun y => decide (key x < key y)) x ys) := by
  induction ys with
  | nil => exact pairwise_singleton _ x
  | cons y ys ih =>
    obtain ⟨hy, hys⟩ := pairwise_cons.mp h
    rw [Library.insertBefore]
    split
    · rename_i hlt
      have hlt := of_decide_eq_true hlt
      refine pairwise_cons.mpr ⟨fun z hz => ?_, h⟩
      cases mem_cons.mp hz with
      | inl heq => exact heq ▸ hlt.le
      | inr hmem => exact hlt.le.trans (hy z hmem)
    rename_i hlt
    have hle : key y ≤ key x := not_lt.mp fun h => hlt (decide_eq_true h)
    refine pairwise_cons.mpr ⟨fun z hz => ?_, ih hys⟩
    cases mem_insertBefore.mp hz with
    | inl heq => exact heq ▸ hle
    | inr hmem => exact hy z hmem

lemma SortedBy.insertBefore_le (h : SortedBy key ys) :
    SortedBy key (Library.insertBefore (fun y => decide (key x ≤ key y)) x ys) := by
  induction ys with
  | nil => exact pairwise_singleton _ x
  | cons y ys ih =>
    obtain ⟨hy, hys⟩ := pairwise_cons.mp h
    rw [Library.insertBefore]
    split
    · rename_i hle
      have hle := of_decide_eq_true hle
      apply pairwise_cons.mpr
      refine ⟨fun z hz => ?_, h⟩
      cases mem_cons.mp hz with
      | inl heq => exact heq ▸ hle
      | inr hmem => exact hle.trans (hy z hmem)
    rename_i hle
    have hlt : key y < key x := not_le.mp fun h => hle (decide_eq_true h)
    apply pairwise_cons.mpr
    refine ⟨fun z hz => ?_, ih hys⟩
    cases mem_insertBefore.mp hz with
    | inl heq => exact heq ▸ hlt.le
    | inr hmem => exact hy z hmem

lemma SortedBy.append (h : SortedBy key ys) (hx : ∀ y ∈ ys, key y ≤ key x) :
    SortedBy key (ys ++ [x]) := by
  refine pairwise_append.mpr ⟨h, pairwise_singleton _ x, fun y hy z hz => ?_⟩
  rw [mem_singleton.mp hz]
  exact hx y hy

end WineForge.Library
