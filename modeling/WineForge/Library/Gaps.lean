import Mathlib.Order.Interval.Set.Basic
import Mathlib.Algebra.Order.Ring.Int

/-!
# Cutting an interval out of a sorted list of gaps

A list of gaps is an ordered list of non-empty half-open intervals that do not meet. Cutting an
interval out of it walks the list once and stops at the first gap behind the interval.
-/

namespace WineForge.Library

open List

variable {α : Type*} [LinearOrder α]

/-- The half-open interval from `lo` to `hi`. -/
structure Gap (α : Type*) where
  lo : α
  hi : α
  deriving DecidableEq, Repr

def gapPoints (gaps : List (Gap α)) : Set α :=
  {x | ∃ g ∈ gaps, g.lo ≤ x ∧ x < g.hi}

/-- No gap is empty, and each ends before the next begins. -/
structure Separated (gaps : List (Gap α)) : Prop where
  nonempty : ∀ g ∈ gaps, g.lo < g.hi
  ordered : gaps.Pairwise fun g g' => g.hi ≤ g'.lo

def cutGaps (lo hi : α) : List (Gap α) → List (Gap α)
  | [] => []
  | g :: gaps =>
    if g.hi ≤ lo then g :: cutGaps lo hi gaps
    else if hi ≤ g.lo then g :: gaps
    else if lo ≤ g.lo then
      if hi < g.hi then ⟨hi, g.hi⟩ :: gaps else cutGaps lo hi gaps
    else if g.hi ≤ hi then ⟨g.lo, lo⟩ :: cutGaps lo hi gaps
    else ⟨g.lo, lo⟩ :: ⟨hi, g.hi⟩ :: gaps

@[simp] lemma gapPoints_nil : gapPoints ([] : List (Gap α)) = ∅ := by
  simp [gapPoints]

variable {g : Gap α} {gaps : List (Gap α)} {lo hi : α}

@[simp] lemma mem_gapPoints_cons {x : α} :
    x ∈ gapPoints (g :: gaps) ↔ (g.lo ≤ x ∧ x < g.hi) ∨ x ∈ gapPoints gaps := by
  simp [gapPoints]

lemma Separated.tail (h : Separated (g :: gaps)) : Separated gaps where
  nonempty g' hg' := h.nonempty g' (mem_cons_of_mem g hg')
  ordered := (List.pairwise_cons.mp h.ordered).2

lemma Separated.behind (h : Separated (g :: gaps)) {x : α}
    (hx : x ∈ gapPoints gaps) : g.hi ≤ x := by
  obtain ⟨g', hg', hlo, _⟩ := hx
  exact ((pairwise_cons.mp h.ordered).1 g' hg').trans hlo

lemma cutGaps_inside : ∀ g ∈ cutGaps lo hi gaps, ∃ g' ∈ gaps, g'.lo ≤ g.lo ∧ g.hi ≤ g'.hi := by
  induction gaps with
  | nil =>
    intro g hg
    cases hg
  | cons g₀ gaps ih =>
    intro g hg
    have hlater : g ∈ cutGaps lo hi gaps → ∃ g' ∈ g₀ :: gaps, g'.lo ≤ g.lo ∧ g.hi ≤ g'.hi := by
      intro hg
      obtain ⟨g', hg', hbounds⟩ := ih g hg
      exact ⟨g', mem_cons_of_mem g₀ hg', hbounds⟩
    have hold : ∀ g' ∈ g₀ :: gaps, g = g' → ∃ g' ∈ g₀ :: gaps, g'.lo ≤ g.lo ∧ g.hi ≤ g'.hi := by
      intro g' hg' heq
      exact ⟨g', hg', by rw [heq], by rw [heq]⟩
    simp only [cutGaps] at hg
    split_ifs at hg with hbefore hbehind hstart hpart hend
    · rcases mem_cons.mp hg with heq | hg
      · exact hold g₀ mem_cons_self heq
      · exact hlater hg
    · exact hold g hg rfl
    · rcases mem_cons.mp hg with heq | hg
      · exact ⟨g₀, mem_cons_self, by rw [heq]; exact (not_le.mp hbehind).le, by rw [heq]⟩
      · exact hold g (mem_cons_of_mem g₀ hg) rfl
    · exact hlater hg
    · rcases mem_cons.mp hg with heq | hg
      · exact ⟨g₀, mem_cons_self, by rw [heq], by rw [heq]; exact (not_le.mp hbefore).le⟩
      · exact hlater hg
    rcases mem_cons.mp hg with heq | hg
    · exact ⟨g₀, mem_cons_self, by rw [heq], by rw [heq]; exact (not_le.mp hbefore).le⟩
    · rcases mem_cons.mp hg with heq | hg
      · exact ⟨g₀, mem_cons_self, by rw [heq]; exact (not_le.mp hbehind).le, by rw [heq]⟩
      · exact hold g (mem_cons_of_mem g₀ hg) rfl

theorem Separated.cut (h : Separated gaps) (hlt : lo < hi) : Separated (cutGaps lo hi gaps) := by
  induction gaps with
  | nil => exact h
  | cons g gaps ih =>
    have hrest := ih h.tail
    have hg : g.lo < g.hi := h.nonempty g mem_cons_self
    have hafter := (pairwise_cons.mp h.ordered).1
    have hafter' : ∀ g' ∈ cutGaps lo hi gaps, g.hi ≤ g'.lo := by
      intro g' hg'
      obtain ⟨g₁, hg₁, hlo, _⟩ := cutGaps_inside g' hg'
      exact (hafter g₁ hg₁).trans hlo
    -- A gap that ends no later than `g` may stand before what is left of the others.
    have hcons : ∀ (g₁ : Gap α) gaps', g₁.lo < g₁.hi → Separated gaps' →
        (∀ g' ∈ gaps', g₁.hi ≤ g'.lo) → Separated (g₁ :: gaps') := by
      intro g₁ gaps' hlt₁ hsep hle
      refine ⟨fun g' hg' => ?_, pairwise_cons.mpr ⟨hle, hsep.ordered⟩⟩
      rcases mem_cons.mp hg' with heq | hg'
      · rw [heq]
        exact hlt₁
      · exact hsep.nonempty g' hg'
    simp only [cutGaps]
    split_ifs with hbefore hbehind hstart hpart hend
    · exact hcons g _ hg hrest hafter'
    · exact h
    · exact hcons _ _ hpart h.tail hafter
    · exact hrest
    · exact hcons _ _ (not_le.mp hstart) hrest
        fun g' hg' => (not_le.mp hbefore).le.trans (hafter' g' hg')
    have hsplit := hcons ⟨hi, g.hi⟩ gaps (not_le.mp hend) h.tail hafter
    refine hcons _ _ (not_le.mp hstart) hsplit fun g' hg' => ?_
    rcases mem_cons.mp hg' with heq | hg'
    · rw [heq]
      exact hlt.le
    · exact (not_le.mp hbefore).le.trans (hafter g' hg')

/-- Cutting removes exactly the points of the interval. -/
theorem mem_gapPoints_cut (h : Separated gaps) (hlt : lo < hi)
    (x : α) : x ∈ gapPoints (cutGaps lo hi gaps) ↔ x ∈ gapPoints gaps ∧ ¬ (lo ≤ x ∧ x < hi) := by
  induction gaps with
  | nil => simp [cutGaps]
  | cons g gaps ih =>
    have hrest := ih h.tail
    have hbehind := fun hx : x ∈ gapPoints gaps => h.behind hx
    have hg : g.lo < g.hi := h.nonempty g mem_cons_self
    simp only [cutGaps]
    split_ifs with h₁ h₂ h₃ h₄ h₅ <;> simp only [mem_gapPoints_cons, hrest]
    all_goals grind

end WineForge.Library
