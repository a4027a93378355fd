import Mathlib.Data.List.DropRight
import Mathlib.Algebra.Order.Ring.Int

/-!
# Text made of names with separators

A text is a list of names with a separator after each, then a last name that may be empty.
-/

namespace WineForge.Library

open List

variable {α : Type*}

/-- Each of `dirs` with a separator after it, then `last`. -/
def separated (sep : α) (dirs : List (List α)) (last : List α) : List α :=
  dirs.flatMap (· ++ [sep]) ++ last

lemma separated_nil (sep : α) (last : List α) : separated sep [] last = last := rfl

lemma separated_cons (sep : α) (d : List α) (dirs : List (List α)) (last : List α) :
    separated sep (d :: dirs) last = d ++ sep :: separated sep dirs last := by
  simp [separated]

lemma separated_append (sep : α) (dirs : List (List α)) (s t : List α) :
    separated sep dirs (s ++ t) = separated sep dirs s ++ t := by
  simp [separated]

lemma separated_concat (sep : α) (dirs : List (List α)) (d last : List α) :
    separated sep (dirs ++ [d]) last = separated sep dirs d ++ sep :: last := by
  simp [separated]

variable {sep : α} {dirs : List (List α)} {last : List α}

lemma mem_separated {c : α}
    (h : c ∈ separated sep dirs last) : c = sep ∨ ∃ d ∈ dirs ++ [last], c ∈ d := by
  rw [separated, mem_append, mem_flatMap] at h
  obtain ⟨d, hd, hc⟩ | hc := h
  · rw [mem_append, mem_singleton] at hc
    exact hc.symm.imp id fun hmem => ⟨d, mem_append_left [last] hd, hmem⟩
  · exact .inr ⟨last, by simp, hc⟩

lemma mem_separated_of_mem (sep : α) {c : α} {d : List α}
    (hd : d ∈ dirs ++ [last]) (hc : c ∈ d) : c ∈ separated sep dirs last := by
  rw [separated, mem_append, mem_flatMap]
  obtain hd | rfl := (mem_append.mp hd).imp id mem_singleton.mp
  · exact .inl ⟨d, hd, mem_append_left [sep] hc⟩
  · exact .inr hc

lemma separated_sublist (sep : α) {dirs' : List (List α)} (h : dirs'.Sublist dirs)
    (last : List α) : (separated sep dirs' last).Sublist (separated sep dirs last) := by
  induction h with
  | slnil => exact List.Sublist.refl _
  | cons d _ ih =>
    rw [separated_cons]
    exact (ih.cons sep).trans (sublist_append_right d _)
  | cons_cons d _ ih =>
    rw [separated_cons, separated_cons]
    exact (ih.cons_cons sep).append_left d

lemma rdropWhile_separated {p : α → Bool} (hsep : p sep = false)
    (dirs : List (List α)) (last : List α) :
    (separated sep dirs last).rdropWhile p = separated sep dirs (last.rdropWhile p) := by
  induction last using List.reverseRecOn with
  | nil =>
    rw [rdropWhile_nil]
    induction dirs using List.reverseRecOn with
    | nil => rfl
    | append_singleton dirs d _ =>
      rw [separated_concat]
      exact rdropWhile_concat_neg p _ sep (by rw [hsep]; exact Bool.false_ne_true)
  | append_singleton s c ih =>
    rw [separated_append]
    by_cases hc : p c
    · rw [rdropWhile_concat_pos p _ c hc, rdropWhile_concat_pos p _ c hc, ih]
    · rw [rdropWhile_concat_neg p _ c hc, rdropWhile_concat_neg p _ c hc, separated_append]

variable [DecidableEq α]

theorem exists_separated (sep : α) (s : List α) :
    ∃ dirs last, s = separated sep dirs last ∧ (∀ d ∈ dirs, sep ∉ d) ∧ sep ∉ last := by
  induction s with
  | nil => exact ⟨[], [], rfl, by simp, by simp⟩
  | cons c s ih =>
    obtain ⟨dirs, last, rfl, hdirs, hlast⟩ := ih
    by_cases hc : c = sep
    · refine ⟨[] :: dirs, last, ?_, ?_, hlast⟩
      · rw [separated_cons, hc]
        rfl
      · rw [forall_mem_cons]
        exact ⟨not_mem_nil, hdirs⟩
    have hnot : ∀ d : List α, sep ∉ d → sep ∉ c :: d := by
      intro d hd hmem
      exact (mem_cons.mp hmem).elim (fun heq => hc heq.symm) hd
    cases dirs with
    | nil => exact ⟨[], c :: last, rfl, by simp, hnot last hlast⟩
    | cons d dirs =>
      rw [forall_mem_cons] at hdirs
      refine ⟨(c :: d) :: dirs, last, ?_, ?_, hlast⟩
      · rw [separated_cons, separated_cons, cons_append]
      · rw [forall_mem_cons]
        exact ⟨hnot d hdirs.1, hdirs.2⟩

theorem splitOn_separated (hdirs : ∀ d ∈ dirs, sep ∉ d) (hlast : sep ∉ last) :
    (separated sep dirs last).splitOn sep = dirs ++ [last] := by
  induction dirs with
  | nil => exact splitOn_eq_singleton hlast
  | cons d dirs ih =>
    rw [forall_mem_cons] at hdirs
    rw [separated_cons, splitOn_append_cons_self_of_not_mem hdirs.1, ih hdirs.2]
    rfl

end WineForge.Library
