import Mathlib.Data.List.Perm.Basic
import Mathlib.Algebra.Order.Ring.Int

/-!
# Keeping the largest elements

`Largest key n xs kept` says that `kept` are `n` elements of `xs`, or all of them if there are fewer,
and that none of the others has a larger key. A list that is kept sorted is extended by replacing its
last element.
-/

namespace WineForge.Library

open List

variable {α β : Type} [LinearOrder β] {key : α → β} {n : Nat} {xs kept sorted : List α} {x last : α}

structure Largest (key : α → β) (n : Nat) (xs kept : List α) : Prop where
  length_eq : kept.length = min n xs.length
  selects : ∃ rest, (kept ++ rest).Perm xs ∧ ∀ a ∈ kept, ∀ b ∈ rest, key b ≤ key a

lemma largest_nil : Largest key n [] [] := by
  constructor
  · simp
  · exact ⟨[], List.Perm.refl _, by simp⟩

lemma Largest.perm (h : Largest key n xs kept) (hperm : sorted.Perm kept) :
    Largest key n xs sorted := by
  obtain ⟨rest, hrest, hle⟩ := h.selects
  constructor
  · rw [hperm.length_eq, h.length_eq]
  · refine ⟨rest, (hperm.append_right rest).trans hrest, fun a ha => ?_⟩
    exact hle a (hperm.mem_iff.mp ha)

lemma Largest.append (h : Largest key n xs kept) (hroom : kept.length < n) :
    Largest key n (xs ++ [x]) (kept ++ [x]) := by
  obtain ⟨rest, hrest, hle⟩ := h.selects
  have hlen := h.length_eq
  have htotal := hrest.length_eq
  rw [length_append] at htotal
  have hnil : rest = [] := by
    apply eq_nil_of_length_eq_zero
    omega
  subst hnil
  constructor
  · simp
    omega
  · refine ⟨[], ?_, by simp⟩
    rw [append_nil] at hrest ⊢
    exact hrest.append_right [x]

lemma Largest.skip (h : Largest key n xs kept) (hfull : kept.length = n)
    (hx : ∀ a ∈ kept, key x ≤ key a) : Largest key n (xs ++ [x]) kept := by
  obtain ⟨rest, hrest, hle⟩ := h.selects
  have hlen := h.length_eq
  constructor
  · simp
    omega
  · refine ⟨rest ++ [x], ?_, ?_⟩
    · rw [← append_assoc]
      exact hrest.append_right [x]
    intro a ha b hb
    rw [mem_append, mem_singleton] at hb
    obtain hb | rfl := hb
    · exact hle a ha b hb
    · exact hx a ha

lemma Largest.replace (h : Largest key n xs (kept ++ [last])) (hfull : (kept ++ [last]).length = n)
    (hsorted : ∀ a ∈ kept, key last ≤ key a) (hx : key last < key x) :
    Largest key n (xs ++ [x]) (kept ++ [x]) := by
  obtain ⟨rest, hrest, hle⟩ := h.selects
  have hlen := h.length_eq
  rw [length_append, length_singleton] at hlen hfull
  constructor
  · simp
    omega
  · refine ⟨last :: rest, ?_, ?_⟩
    · have hmove : (kept ++ [x] ++ last :: rest).Perm (kept ++ [last] ++ rest ++ [x]) := by
        simp only [append_assoc, cons_append]
        apply List.Perm.append_left
        refine (List.Perm.swap last x rest).trans ?_
        exact (perm_append_singleton x rest).symm.cons last
      exact hmove.trans (hrest.append_right [x])
    intro a ha b hb
    rw [mem_append, mem_singleton] at ha
    rw [mem_cons] at hb
    obtain ha | rfl := ha
    · obtain rfl | hb := hb
      · exact hsorted a ha
      · exact hle a (by simp [ha]) b hb
    · obtain rfl | hb := hb
      · exact hx.le
      · exact (hle last (by simp) b hb).trans hx.le

end WineForge.Library
