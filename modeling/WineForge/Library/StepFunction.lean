import Mathlib.Data.List.Chain
import Mathlib.Algebra.Order.Ring.Int

/-!
# Step functions

A list of entries, each with a key and a value, stands for the function that has the value of an
entry from its key on up to the next one.
-/

namespace WineForge.Library

open List

variable {α β : Type*} {key : α → ℕ} {val : α → β} {a b : α} {l m : List α} {d : β} {x : ℕ}

/-- The value at `x`, where `d` is the value in front of the first entry. -/
def stepAt (key : α → ℕ) (val : α → β) : β → List α → ℕ → β
  | d, [], _ => d
  | d, a :: l, x => if key a ≤ x then stepAt key val (val a) l x else d

def Stepwise (key : α → ℕ) (val : α → β) (l : List α) : Prop :=
  l.IsChain fun a b => key a < key b ∧ val a ≠ val b

lemma stepAt_of_lt (h : ∀ a ∈ l, x < key a) : stepAt key val d l x = d := by
  cases l with
  | nil => rfl
  | cons a l => exact if_neg (Nat.not_le.mpr (h a (mem_cons_self ..)))

lemma stepAt_append (h : ∀ a ∈ m, x < key a) :
    stepAt key val d (l ++ m) x = stepAt key val d l x := by
  induction l generalizing d with
  | nil => exact stepAt_of_lt h
  | cons a l ih =>
    rw [cons_append, stepAt, stepAt]
    split
    · exact ih
    · rfl

lemma stepAt_append_cons (h : ∀ b ∈ l, key b ≤ x) (ha : key a ≤ x) :
    stepAt key val d (l ++ a :: m) x = stepAt key val (val a) m x := by
  induction l generalizing d with
  | nil => exact if_pos ha
  | cons b l ih =>
    rw [cons_append, stepAt, if_pos (h b (mem_cons_self ..))]
    exact ih fun c hc => h c (mem_cons_of_mem b hc)

lemma Stepwise.pairwise (h : Stepwise key val l) : l.Pairwise fun a b => key a < key b := by
  exact (h.imp fun _ _ hab => hab.1).pairwise

lemma Stepwise.around (h : Stepwise key val (l ++ a :: m)) :
    (∀ b ∈ l, key b < key a) ∧ ∀ b ∈ m, key a < key b := by
  obtain ⟨-, hback, hcross⟩ := pairwise_append.mp h.pairwise
  exact ⟨fun b hb => hcross b hb a (mem_cons_self ..), (pairwise_cons.mp hback).1⟩

lemma Stepwise.at_entry (h : Stepwise key val (l ++ a :: m)) (ha : key a ≤ x) :
    stepAt key val d (l ++ a :: m) x = stepAt key val (val a) m x :=
  stepAt_append_cons (fun b hb => (le_of_lt (h.around.1 b hb)).trans ha) ha

lemma Stepwise.between (h : Stepwise key val (l ++ a :: b :: m)) (ha : key a ≤ x)
    (hb : x < key b) : stepAt key val d (l ++ a :: b :: m) x = val a := by
  rw [h.at_entry ha]
  exact if_neg (Nat.not_le.mpr hb)

lemma Stepwise.before (h : Stepwise key val (l ++ a :: m)) (ha : x < key a) :
    stepAt key val d (l ++ a :: m) x = stepAt key val d l x := by
  refine stepAt_append fun b hb => ?_
  obtain rfl | hb := mem_cons.mp hb
  · exact ha
  · exact ha.trans (h.around.2 b hb)

lemma Stepwise.splice {words t q r : List α} {e : α} (h : Stepwise key val words)
    (hfront : words = l ++ t) (hback : words = q ++ e :: r)
    (hnew : Stepwise key val (l ++ a :: b :: r)) (ht : ∀ c ∈ t, key a ≤ key c)
    (he : key e ≤ key b) (hval : val b = val e) :
    stepAt key val d (l ++ a :: b :: r) x =
      if key a ≤ x ∧ x < key b then val a else stepAt key val d words x := by
  split
  · rename_i hin
    exact hnew.between hin.1 hin.2
  rename_i hout
  by_cases hx : key a ≤ x
  · have hb : key b ≤ x := Nat.le_of_not_lt fun hlt => hout ⟨hx, hlt⟩
    have hnew' : Stepwise key val ((l ++ [a]) ++ b :: r) :=
      append_cons l a (b :: r) ▸ hnew
    rw [hback] at h ⊢
    have hsame : l ++ a :: b :: r = (l ++ [a]) ++ b :: r := append_cons ..
    rw [h.at_entry (he.trans hb), hsame, hnew'.at_entry hb, hval]
  · rw [hnew.before (Nat.lt_of_not_le hx), hfront]
    exact (stepAt_append fun c hc => Nat.lt_of_lt_of_le (Nat.lt_of_not_le hx) (ht c hc)).symm

end WineForge.Library
