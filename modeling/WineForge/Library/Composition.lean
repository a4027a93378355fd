import Mathlib.Algebra.BigOperators.Group.List.Basic
import Mathlib.Data.List.Chain
import WineForge.Library.BubbleSort

/-!
# Ordering and composition of classed letters

Every letter has a class; a letter of class 0 is a starter. The canonical order sorts each run of
letters of other classes. The composition merges into a starter the letters behind it that are not
blocked and have a composite with it.
-/

namespace WineForge.Library

open List Option

variable {α : Type*} {cls : α → ℕ} {comp : α → α → Option α} {s c d : α} {mid rest l : List α}

def InOrder (cls : α → ℕ) (l : List α) : Prop :=
  l.IsChain fun a b => cls b = 0 ∨ cls a ≤ cls b

/-- The letters of a list sorted run by run; `run` is the run that has been read. -/
def orderRuns (cls : α → ℕ) (run : List α) : List α → List α
  | [] => stableSort cls run
  | c :: l =>
    if cls c = 0 then stableSort cls run ++ c :: orderRuns cls [] l
    else orderRuns cls (run ++ [c]) l

def canonicalOrder (cls : α → ℕ) (l : List α) : List α :=
  orderRuns cls [] l

lemma orderRuns_starter (h : cls s = 0) (run l : List α) :
    orderRuns cls (s :: run) l = s :: orderRuns cls run l := by
  have hfront : ∀ run, stableSort cls (s :: run) = s :: stableSort cls run := by
    intro run
    apply insertionSort_cons_of_forall_rel
    intro b _
    rw [h]
    exact Nat.zero_le _
  induction l generalizing run with
  | nil => exact hfront run
  | cons c l ih =>
    rw [orderRuns, orderRuns]
    split
    · rw [hfront, cons_append]
    · exact ih (run ++ [c])

/-- What is in between blocks the letter: a starter, or a letter of its class or a larger one. -/
def Blocked (cls : α → ℕ) (mid : List α) (c : α) : Prop :=
  ∃ b ∈ mid, cls b = 0 ∨ cls c ≤ cls b

instance (cls : α → ℕ) (mid : List α) (c : α) : Decidable (Blocked cls mid c) :=
  inferInstanceAs (Decidable (∃ b ∈ mid, cls b = 0 ∨ cls c ≤ cls b))

/-- The first letter behind a starter that is not blocked and has a composite with it: the
composite, and the letters that remain behind it. -/
def mergeNext (cls : α → ℕ) (comp : α → α → Option α) (s : α) (mid : List α) :
    List α → Option (α × List α)
  | [] => none
  | c :: rest =>
    if Blocked cls mid c then mergeNext cls comp s (mid ++ [c]) rest
    else
      match comp s c with
      | some d => some (d, mid ++ rest)
      | none => mergeNext cls comp s (mid ++ [c]) rest

lemma mergeNext_length {r : α × List α} (h : mergeNext cls comp s mid l = some r) :
    r.2.length + 1 = mid.length + l.length := by
  induction l generalizing mid with
  | nil => nomatch h
  | cons c rest ih =>
    have hnext : mergeNext cls comp s (mid ++ [c]) rest = some r →
        r.2.length + 1 = mid.length + (c :: rest).length := by
      intro h
      rw [ih h, length_append, length_singleton, length_cons]
      omega
    rw [mergeNext] at h
    split at h
    · exact hnext h
    split at h
    · cases h
      rw [length_append, length_cons]
      omega
    · exact hnext h

/-- The composition of what follows a starter, or of what is in front of the first one. -/
def composed (cls : α → ℕ) (comp : α → α → Option α) : Option α → List α → List α
  | none, [] => []
  | none, c :: rest =>
    if cls c = 0 then composed cls comp (some c) rest else c :: composed cls comp none rest
  | some s, rest =>
    match _hmerge : mergeNext cls comp s [] rest with
    | some r => composed cls comp (some r.1) r.2
    | none => s :: composed cls comp none rest
termination_by s rest => 2 * rest.length + s.toList.length
decreasing_by
  · simp only [length_cons, toList_some, length_nil]
    omega
  · simp only [length_cons, toList_none, length_nil]
    omega
  · have hlength := mergeNext_length _hmerge
    simp only [toList_some, length_cons, length_nil] at hlength ⊢
    omega
  · simp only [toList_some, toList_none, length_cons, length_nil]
    omega

/-- What the composition makes of a starter, the letters that it has passed and those ahead. -/
def composedFrom (cls : α → ℕ) (comp : α → α → Option α) (s : α) (mid rest : List α) : List α :=
  match mergeNext cls comp s mid rest with
  | some r => composed cls comp (some r.1) r.2
  | none => s :: composed cls comp none (mid ++ rest)

def lastClass (cls : α → ℕ) (mid : List α) : ℕ :=
  (mid.getLast?.map cls).getD 0

lemma composed_some (s : α) (rest : List α) :
    composed cls comp (some s) rest = composedFrom cls comp s [] rest := by
  rw [composed, composedFrom]
  cases mergeNext cls comp s [] rest with
  | some r => rfl
  | none => rfl

lemma composed_starter (h : cls c = 0) (rest : List α) :
    composed cls comp none (c :: rest) = composedFrom cls comp c [] rest := by
  rw [composed, if_pos h, composed_some]

lemma composed_mark (h : cls c ≠ 0) (rest : List α) :
    composed cls comp none (c :: rest) = c :: composed cls comp none rest := by
  rw [composed, if_neg h]

lemma composed_marks (h : ∀ b ∈ mid, cls b ≠ 0) (rest : List α) :
    composed cls comp none (mid ++ rest) = mid ++ composed cls comp none rest := by
  induction mid with
  | nil => rfl
  | cons b mid ih =>
    rw [cons_append, composed_mark (h b (mem_cons_self ..)),
      ih fun c hc => h c (mem_cons_of_mem b hc), cons_append]

lemma mergeNext_blocked (h : ∃ b ∈ mid, cls b = 0) : mergeNext cls comp s mid rest = none := by
  induction rest generalizing mid with
  | nil => rfl
  | cons c rest ih =>
    obtain ⟨b, hb, hzero⟩ := h
    rw [mergeNext, if_pos ⟨b, hb, .inl hzero⟩]
    exact ih ⟨b, mem_append_left _ hb, hzero⟩

lemma mergeNext_pass (h : Blocked cls mid c ∨ comp s c = none) (rest : List α) :
    mergeNext cls comp s mid (c :: rest) = mergeNext cls comp s (mid ++ [c]) rest := by
  rw [mergeNext]
  split
  · rfl
  · rename_i hfree
    rw [h.resolve_left hfree]

lemma composedFrom_end (h : ∀ b ∈ mid, cls b ≠ 0) : composedFrom cls comp s mid [] = s :: mid := by
  have hmarks : composed cls comp none (mid ++ []) = _ := composed_marks h []
  rw [composed, append_nil] at hmarks
  rw [composedFrom, mergeNext, append_nil]
  exact congrArg (s :: ·) hmarks

lemma composedFrom_pass (h : Blocked cls mid c ∨ comp s c = none) (rest : List α) :
    composedFrom cls comp s mid (c :: rest) = composedFrom cls comp s (mid ++ [c]) rest := by
  rw [composedFrom, composedFrom, mergeNext_pass h, append_assoc]
  rfl

lemma composedFrom_starter (h : Blocked cls mid c ∨ comp s c = none) (hstarter : cls c = 0)
    (hmid : ∀ b ∈ mid, cls b ≠ 0) (rest : List α) :
    composedFrom cls comp s mid (c :: rest) = s :: (mid ++ composedFrom cls comp c [] rest) := by
  have hnone : mergeNext cls comp s (mid ++ [c]) rest = none :=
    mergeNext_blocked ⟨c, mem_append_right _ (mem_singleton_self c), hstarter⟩
  rw [composedFrom, mergeNext_pass h, hnone, composed_marks hmid, composed_starter hstarter]

lemma composedFrom_merge (h : ¬ Blocked cls mid c) (hcomp : comp s c = some d) (rest : List α) :
    composedFrom cls comp s mid (c :: rest) = composedFrom cls comp d [] (mid ++ rest) := by
  rw [composedFrom, mergeNext, if_neg h, hcomp]
  exact composed_some d (mid ++ rest)

lemma InOrder.tail (h : InOrder cls (c :: l)) : InOrder cls l :=
  List.IsChain.tail h

lemma blocked_iff (hmid : ∀ b ∈ mid, cls b ≠ 0) (h : InOrder cls mid) (c : α) :
    Blocked cls mid c ↔ lastClass cls mid ≠ 0 ∧ cls c ≤ lastClass cls mid := by
  induction mid using List.reverseRecOn with
  | nil => simp [Blocked, lastClass]
  | append_singleton mid x _ =>
    have hlast : lastClass cls (mid ++ [x]) = cls x := by simp [lastClass]
    have hx : cls x ≠ 0 := hmid x (mem_append_right _ (mem_singleton_self x))
    rw [hlast, and_iff_right hx]
    constructor
    · rintro ⟨b, hb, hblocks⟩
      have hle : cls c ≤ cls b := hblocks.resolve_left (hmid b hb)
      obtain hb | hb := mem_append.mp hb
      · have hsorted : (mid ++ [x]).Pairwise fun a b => cls a ≤ cls b := by
          refine List.IsChain.pairwise (List.IsChain.imp_of_mem_imp (fun a b _ hb hab => ?_) h)
          exact hab.resolve_left (hmid b hb)
        exact hle.trans ((pairwise_append.mp hsorted).2.2 b hb x (mem_singleton_self x))
      · rw [← mem_singleton.mp hb]
        exact hle
    · intro hle
      exact ⟨x, mem_append_right _ (mem_singleton_self x), .inr hle⟩

lemma InOrder.merge (h : InOrder cls (mid ++ c :: rest)) (hfree : ¬ Blocked cls mid c) :
    InOrder cls (mid ++ rest) := by
  obtain ⟨hfront, hback, hjoin⟩ := isChain_append.mp h
  refine isChain_append.mpr ⟨hfront, hback.tail, fun x hx y hy => ?_⟩
  have hnot : ¬ (cls x = 0 ∨ cls c ≤ cls x) := fun hblocks =>
    hfree ⟨x, mem_of_getLast? hx, hblocks⟩
  have hcy : cls y = 0 ∨ cls c ≤ cls y := by
    cases rest with
    | nil => nomatch hy
    | cons z rest =>
      cases hy
      exact (isChain_cons_cons.mp hback).1
  omega

section Sizes

variable {size : α → ℕ} (hsize : ∀ s c d, comp s c = some d → size d ≤ size s + size c)

include hsize

lemma mergeNext_size {r : α × List α} (h : mergeNext cls comp s mid l = some r) :
    size r.1 + (r.2.map size).sum ≤ size s + (mid.map size).sum + (l.map size).sum := by
  induction l generalizing mid with
  | nil => nomatch h
  | cons c rest ih =>
    have hnext : mergeNext cls comp s (mid ++ [c]) rest = some r → size r.1 + (r.2.map size).sum ≤
        size s + (mid.map size).sum + ((c :: rest).map size).sum := by
      intro h
      have hle := ih h
      simp only [map_append, map_cons, map_nil, sum_append, sum_cons, sum_nil] at hle ⊢
      omega
    rw [mergeNext] at h
    split at h
    · exact hnext h
    split at h
    · rename_i d hcomp
      cases h
      have hle := hsize s c d hcomp
      simp only [map_append, map_cons, sum_append, sum_cons]
      omega
    · exact hnext h

/-- A composition is not longer than what it is made from, where no composite is longer than its
two letters. -/
theorem composed_size (starter : Option α) (l : List α) :
    ((composed cls comp starter l).map size).sum ≤ ((starter.toList ++ l).map size).sum := by
  induction starter, l using composed.induct cls comp with
  | case1 =>
    rw [composed]
    exact le_refl _
  | case2 c rest hzero ih =>
    rw [composed, if_pos hzero]
    exact ih
  | case3 c rest hzero ih =>
    rw [composed, if_neg hzero]
    exact Nat.add_le_add_left ih _
  | case4 s rest r hmerge ih =>
    rw [composed_some, composedFrom, hmerge]
    have hle := mergeNext_size hsize hmerge
    simp only [toList_some, singleton_append, map_cons, sum_cons, map_nil, sum_nil] at ih hle ⊢
    omega
  | case5 s rest hmerge ih =>
    rw [composed_some, composedFrom, hmerge]
    exact Nat.add_le_add_left ih _

end Sizes

end WineForge.Library
