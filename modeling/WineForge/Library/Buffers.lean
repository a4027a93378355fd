import Mathlib.Data.List.Infix
import Mathlib.Algebra.Order.Ring.Int

/-!
# Buffers

A buffer is a list of fixed length. A write past its end has no result. A stream of pieces fills a
buffer with as many whole pieces as it has room for.
-/

namespace WineForge.Library

open List

variable {α : Type*}

def put (buf : List α) (pos : Nat) (xs : List α) : Option (List α) :=
  if pos + xs.length ≤ buf.length then some (buf.take pos ++ xs ++ buf.drop (pos + xs.length))
  else none

variable {buf : List α} {pos : Nat} {xs buf' : List α}

lemma put_eq (h : pos + xs.length ≤ buf.length) :
    put buf pos xs = some (buf.take pos ++ xs ++ buf.drop (pos + xs.length)) := if_pos h

lemma put_nil (h : pos ≤ buf.length) : put buf pos [] = some buf := by
  rw [put_eq (by simpa using h)]
  simp

lemma length_of_put (h : put buf pos xs = some buf') : buf'.length = buf.length := by
  unfold put at h
  split at h
  · cases h
    simp only [length_append, length_take, length_drop]
    omega
  · simp at h

lemma put_spec (h : pos + xs.length ≤ buf.length) :
    ∃ buf', put buf pos xs = some buf' ∧ buf'.length = buf.length ∧
      buf'.take (pos + xs.length) = buf.take pos ++ xs ∧
      ∀ k, pos + xs.length ≤ k → buf'.drop k = buf.drop k := by
  have hfront : (buf.take pos ++ xs).length = pos + xs.length := by
    rw [length_append, length_take]
    omega
  refine ⟨_, put_eq h, length_of_put (put_eq h), take_left' hfront, fun k hk => ?_⟩
  obtain ⟨j, rfl⟩ := Nat.exists_eq_add_of_le hk
  rw [← drop_drop, drop_left' hfront, drop_drop]

lemma put_put {ys : List α} (h : put buf pos xs = some buf')
    (hys : pos + xs.length + ys.length ≤ buf.length) :
    put buf' (pos + xs.length) ys = put buf pos (xs ++ ys) := by
  have hlength := length_of_put h
  have hxs : pos + xs.length ≤ buf.length := by omega
  rw [put_eq hxs, Option.some.injEq] at h
  rw [put_eq (by omega), put_eq (by simp only [length_append]; omega), ← h]
  have hpos : (buf.take pos).length = pos := by simp only [length_take]; omega
  have hfront : (buf.take pos ++ xs).length = pos + xs.length := by
    rw [length_append, hpos]
  have htake : (buf.take pos ++ xs ++ buf.drop (pos + xs.length)).take (pos + xs.length) =
      buf.take pos ++ xs := take_left' hfront
  have hdrop : (buf.take pos ++ xs ++ buf.drop (pos + xs.length)).drop (pos + xs.length + ys.length) =
      buf.drop (pos + (xs ++ ys).length) := by
    rw [← drop_drop, drop_left' hfront, drop_drop, length_append]
    congr 1
    omega
  rw [htake, hdrop]
  simp only [append_assoc]

lemma put_zero (h : put buf 0 xs = some buf') :
    buf'.take xs.length = xs ∧ buf'.drop xs.length = buf.drop xs.length := by
  unfold put at h
  split at h
  · cases h
    simp
  · simp at h

def fitting (room : Nat) : List (List α) → List (List α)
  | [] => []
  | x :: xs => if x.length ≤ room then x :: fitting (room - x.length) xs else []

lemma fitting_front (room : Nat) (xs : List (List α)) : fitting room xs <+: xs := by
  induction xs generalizing room with
  | nil => exact prefix_refl []
  | cons x xs ih =>
    unfold fitting
    split
    · exact (prefix_cons_inj x).mpr (ih _)
    · exact nil_prefix

lemma length_fitting_le (room : Nat) (xs : List (List α)) :
    (fitting room xs).flatten.length ≤ room := by
  induction xs generalizing room with
  | nil => exact Nat.zero_le room
  | cons x xs ih =>
    unfold fitting
    split
    · have hxs := ih (room - x.length)
      simp only [flatten_cons, length_append]
      omega
    · exact Nat.zero_le room

lemma fitting_eq_self {room : Nat} {xs : List (List α)} (h : xs.flatten.length ≤ room) :
    fitting room xs = xs := by
  induction xs generalizing room with
  | nil => rfl
  | cons x xs ih =>
    simp only [flatten_cons, length_append] at h
    rw [fitting, if_pos (by omega), ih (by omega)]

end WineForge.Library
