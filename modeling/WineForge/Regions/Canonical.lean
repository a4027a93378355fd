import Mathlib.Data.Int.ConditionallyCompleteOrder
import Mathlib.Order.ConditionallyCompleteLattice.Basic
import Mathlib.Data.List.Pairwise
import WineForge.Regions.Algebra
import WineForge.Regions.Transforms

/-!
# Canonical regions

A valid and coalesced list is determined by its points. The second part says when a change of the
coordinates keeps this form.
-/

namespace WineForge.Regions

open List

/-- The band that starts at `top`. -/
def bandOf (rects : List Rect) (top : Int) : List Rect :=
  rects.filter fun r => r.top = top

variable {rects : List Rect} {r : Rect}

lemma mem_bandOf {top : Int} : r ∈ bandOf rects top ↔ r ∈ rects ∧ r.top = top := by
  simp [bandOf]

def Level (r r' : Rect) : Prop :=
  (r.top = r'.top ∧ r.bottom = r'.bottom) ∨ r.bottom ≤ r'.top ∨ r'.bottom ≤ r.top

instance : Std.Symm Level where
  symm r r' h := by
    unfold Level at h ⊢
    omega

lemma Before.level {r' : Rect} (h : Before r r') : Level r r' := by
  obtain ⟨htop, hbottom, _⟩ | hle := h
  · exact .inl ⟨htop, hbottom⟩
  · exact .inr (.inl hle)

lemma Banded.level (hb : Banded rects) {r' : Rect} (hr : r ∈ rects) (hr' : r' ∈ rects) :
    (r.top = r'.top ∧ r.bottom = r'.bottom) ∨ r.bottom ≤ r'.top ∨ r'.bottom ≤ r.top := by
  by_cases heq : r = r'
  · exact .inl ⟨congrArg _ heq, congrArg _ heq⟩
  · exact (hb.ordered.imp Before.level).forall hr hr' heq

lemma Banded.bandOf_row (hb : Banded rects) (hr : r ∈ rects) :
    Row r.top r.bottom (bandOf rects r.top) := by
  have hsub : (bandOf rects r.top).Sublist rects := filter_sublist
  refine ⟨⟨(hb.sublist hsub).wide, ?_⟩, fun q hq => (mem_bandOf.mp hq).2, ?_⟩
  · apply (hb.sublist hsub).ordered.imp_of_mem
    intro q q' hq hq' hbefore
    obtain ⟨hqm, hqtop⟩ := mem_bandOf.mp hq
    obtain ⟨_, hqtop'⟩ := mem_bandOf.mp hq'
    have hhigh := hb.high q hqm
    obtain ⟨_, _, hgap⟩ | hle := hbefore
    · exact hgap
    · omega
  intro q hq
  obtain ⟨hqm, hqtop⟩ := mem_bandOf.mp hq
  have hhigh := hb.high q hqm
  have hhigh' := hb.high r hr
  have hcase := hb.level hqm hr
  omega

lemma Banded.line_eq (hb : Banded rects) (hr : r ∈ rects) {y : Int}
    (htop : r.top ≤ y) (hbottom : y < r.bottom) :
    line (points rects) y = columns (bandOf rects r.top) := by
  have hrow := hb.bandOf_row hr
  ext x
  constructor
  · rintro ⟨q, hq, hleft, hright, hqtop, hqbottom⟩
    have hcase := hb.level hq hr
    exact ⟨q, mem_bandOf.mpr ⟨hq, by omega⟩, hleft, hright⟩
  · rintro ⟨q, hq, hleft, hright⟩
    have hqtop := hrow.top_eq q hq
    have hqbottom := hrow.bottom_eq q hq
    exact ⟨q, (mem_bandOf.mp hq).1, hleft, hright, by dsimp only; omega, by dsimp only; omega⟩

lemma coalesced_iff (hb : Banded rects) :
    Coalesced rects ↔ ∀ r ∈ rects, ∀ r' ∈ rects, r.bottom = r'.top →
      (bandOf rects r.top).map Rect.sides ≠ (bandOf rects r'.top).map Rect.sides := by
  constructor
  · intro hcoalesced r hr r' hr' htouch hsides
    have hhigh := hb.high r hr
    have hhigh' := hb.high r' hr'
    apply hcoalesced r' hr'
    rw [hb.line_eq hr (by omega) (by omega), hb.line_eq hr' le_rfl hhigh',
      columns_eq_of_sides hsides]
  · intro hsides r' hr' heq
    obtain ⟨x, hx⟩ := hb.line_nonempty hr'
    have hhigh' := hb.high r' hr'
    -- the same columns are covered right above, so a band ends here
    have hx' : x ∈ line (points rects) (r'.top - 1) := heq ▸ hx
    obtain ⟨r, hr, _, _, htop, hbottom⟩ := hx'
    have hcase := hb.level hr hr'
    apply hsides r hr r' hr' (by omega)
    apply (hb.bandOf_row hr).toXOrdered.sides_unique (hb.bandOf_row hr').toXOrdered
    rw [← hb.line_eq hr htop hbottom, ← hb.line_eq hr' le_rfl hhigh', heq]

section Unique

variable {h1 h2 : Rect} {t1 t2 : List Rect}

lemma Banded.first_top_le (hb : Banded (h1 :: t1)) {r : Rect} (hr : r ∈ h1 :: t1) :
    h1.top ≤ r.top := by
  have hhigh := hb.high h1 mem_cons_self
  obtain rfl | hr := mem_cons.mp hr
  · exact le_rfl
  · obtain ⟨htop, _⟩ | hle := (banded_cons.mp hb).2.2.1 r hr
    · exact htop.le
    · omega

lemma Banded.rest_first (hb : Banded (h1 :: t1)) : Rest (h1 :: t1) (h1 :: t1) h1.top where
  banded := hb
  ahead q hq := (hb.first_top_le hq).trans_lt (hb.high q hq)
  sub _ hq := hq
  mem _ _ := Iff.rfl

lemma Banded.line_first (hb : Banded (h1 :: t1)) :
    line (points (h1 :: t1)) h1.top = columns (band (h1 :: t1)) := by
  ext x
  exact hb.rest_first.mem_band le_rfl le_rfl (hb.high h1 mem_cons_self)

lemma first_top_le_of_points_eq (hb1 : Banded (h1 :: t1)) (hb2 : Banded (h2 :: t2))
    (hpoints : points (h1 :: t1) = points (h2 :: t2)) : h2.top ≤ h1.top := by
  have hmem := (hb1.corner_mem mem_cons_self).1
  rw [hpoints] at hmem
  obtain ⟨q, hq, _, _, htop, _⟩ := hmem
  exact (hb2.first_top_le hq).trans htop

lemma first_bottom_le_of_points_eq (hb1 : Banded (h1 :: t1)) (hb2 : Banded (h2 :: t2))
    (hcoalesced : Coalesced (h1 :: t1)) (hpoints : points (h1 :: t1) = points (h2 :: t2))
    (htop : h1.top = h2.top) : h2.bottom ≤ h1.bottom := by
  by_contra hlt
  have hm1 : h1 ∈ h1 :: t1 := mem_cons_self
  have hm2 : h2 ∈ h2 :: t2 := mem_cons_self
  have hhigh1 := hb1.high h1 hm1
  have hsame : line (points (h1 :: t1)) h1.bottom = line (points (h1 :: t1)) h1.top := by
    rw [hpoints, hb2.line_eq hm2 (by omega) (by omega), hb2.line_eq hm2 (by omega) (by omega)]
  have hlast : line (points (h1 :: t1)) (h1.bottom - 1) = line (points (h1 :: t1)) h1.top := by
    rw [hb1.line_eq hm1 (by omega) (by omega), hb1.line_eq hm1 le_rfl hhigh1]
  obtain ⟨x, hx⟩ := hb1.line_nonempty hm1
  rw [← hsame] at hx
  obtain ⟨q, hq, _, _, hqtop, hqbottom⟩ := hx
  have hcase := hb1.level hq hm1
  have hqtop' : q.top = h1.bottom := by omega
  apply hcoalesced q hq
  rw [hqtop', hlast, hsame]

lemma Row.eq_of_sides {top bottom : Int} {r1s r2s : List Rect} (h1 : Row top bottom r1s)
    (h2 : Row top bottom r2s) (hsides : r1s.map Rect.sides = r2s.map Rect.sides) : r1s = r2s := by
  have hback : ∀ {rects : List Rect}, Row top bottom rects →
      (rects.map Rect.sides).map (fun s => (⟨s.1, top, s.2, bottom⟩ : Rect)) = rects := by
    intro rects hrow
    rw [map_map]
    conv_rhs => rw [← map_id rects]
    apply map_congr_left
    intro r hr
    rw [Function.comp_apply, Rect.sides, id, ← hrow.top_eq r hr, ← hrow.bottom_eq r hr]
  rw [← hback h1, hsides, hback h2]

lemma Coalesced.bandEnd (hb : Banded (h1 :: t1)) (hcoalesced : Coalesced (h1 :: t1)) :
    Coalesced (bandEnd (h1 :: t1)) ∧
      points (bandEnd (h1 :: t1)) = {p | p ∈ points (h1 :: t1) ∧ h1.bottom ≤ p.2} := by
  have hrest := hb.rest_first.advance (hb.high h1 mem_cons_self).le le_rfl
  rw [if_pos rfl] at hrest
  have hclip : (Regions.bandEnd (h1 :: t1)).map (clip h1.bottom) = Regions.bandEnd (h1 :: t1) := by
    conv_rhs => rw [← map_id (Regions.bandEnd (h1 :: t1))]
    apply map_congr_left
    intro r hr
    rw [clip, max_eq_left (hb.first_band.2.1 r hr), id]
  constructor
  · rw [← hclip]
    exact hrest.clip_coalesced hcoalesced
  · ext p
    conv_lhs => rw [← hclip]
    exact hrest.mem_clip

end Unique

/-- The list of a canonical region is determined by its points. -/
theorem Banded.unique {r1s r2s : List Rect} (hb1 : Banded r1s) (hb2 : Banded r2s)
    (hc1 : Coalesced r1s) (hc2 : Coalesced r2s) (hpoints : points r1s = points r2s) :
    r1s = r2s := by
  induction hlen : r1s.length using Nat.strong_induction_on generalizing r1s r2s with
  | _ n ih =>
    cases r1s with
    | nil =>
      rw [points_nil] at hpoints
      exact ((points_eq_empty hb2).mp hpoints.symm).symm
    | cons h1 t1 =>
      cases r2s with
      | nil =>
        rw [points_nil] at hpoints
        exact (points_eq_empty hb1).mp hpoints
      | cons h2 t2 =>
        have htop : h1.top = h2.top :=
          le_antisymm (first_top_le_of_points_eq hb2 hb1 hpoints.symm)
            (first_top_le_of_points_eq hb1 hb2 hpoints)
        have hbottom : h1.bottom = h2.bottom :=
          le_antisymm (first_bottom_le_of_points_eq hb2 hb1 hc2 hpoints.symm htop.symm)
            (first_bottom_le_of_points_eq hb1 hb2 hc1 hpoints htop)
        obtain ⟨hrow1, _, hend1⟩ := hb1.first_band
        obtain ⟨hrow2, _, hend2⟩ := hb2.first_band
        have hcolumns : columns (band (h1 :: t1)) = columns (band (h2 :: t2)) := by
          rw [← hb1.line_first, ← hb2.line_first, hpoints, htop]
        have hsides := hrow1.toXOrdered.sides_unique hrow2.toXOrdered hcolumns
        have hband : band (h1 :: t1) = band (h2 :: t2) := by
          rw [← htop, ← hbottom] at hrow2
          exact hrow1.eq_of_sides hrow2 hsides
        have hrest : bandEnd (h1 :: t1) = bandEnd (h2 :: t2) := by
          apply ih _ _ hend1 hend2 (hc1.bandEnd hb1).1 (hc2.bandEnd hb2).1 _ rfl
          · rw [← hlen]
            exact length_bandEnd_lt (by simp)
          · rw [(hc1.bandEnd hb1).2, (hc2.bandEnd hb2).2, hpoints, hbottom]
        rw [← band_append_bandEnd (h1 :: t1), ← band_append_bandEnd (h2 :: t2), hband, hrest]

structure Canonical (region : Region) : Prop extends WellFormed region where
  coalesced : Coalesced region.rects

lemma isBoundingBox_iff {box : Rect} (hb : Banded rects) (hne : rects ≠ []) :
    IsBoundingBox box (points rects) ↔
      (∀ r ∈ rects, box.left ≤ r.left ∧ box.top ≤ r.top ∧ r.right ≤ box.right ∧
        r.bottom ≤ box.bottom) ∧
      (∃ r ∈ rects, r.left = box.left) ∧ (∃ r ∈ rects, r.top = box.top) ∧
      (∃ r ∈ rects, r.right = box.right) ∧ ∃ r ∈ rects, r.bottom = box.bottom := by
  constructor
  · intro hbox
    have hsides : ∀ r ∈ rects, box.left ≤ r.left ∧ box.top ≤ r.top ∧ r.right ≤ box.right ∧
        r.bottom ≤ box.bottom := by
      intro r hr
      obtain ⟨hleft, _, htop, _⟩ := hbox.contains (hb.corner_mem hr).1
      obtain ⟨_, hright, _, hbottom⟩ := hbox.contains (hb.corner_mem hr).2
      omega
    obtain ⟨hempty, _⟩ | ⟨_, ⟨p, ⟨r, hr, hp⟩, hpl⟩, ⟨q, ⟨s, hs, hq⟩, hqt⟩,
      ⟨p', ⟨r', hr', hp'⟩, hpr⟩, q', ⟨s', hs', hq'⟩, hqb⟩ := hbox
    · exact absurd ((points_eq_empty hb).mp hempty) hne
    have h1 := hsides r hr
    have h2 := hsides s hs
    have h3 := hsides r' hr'
    have h4 := hsides s' hs'
    unfold Rect.Contains at hp hq hp' hq'
    exact ⟨hsides, ⟨r, hr, by omega⟩, ⟨s, hs, by omega⟩, ⟨r', hr', by omega⟩, s', hs', by omega⟩
  · rintro ⟨hsides, ⟨r, hr, hl⟩, ⟨s, hs, ht⟩, ⟨r', hr', hr''⟩, s', hs', hb'⟩
    refine .inr ⟨?_, ⟨_, (hb.corner_mem hr).1, hl⟩, ⟨_, (hb.corner_mem hs).1, ht⟩,
      ⟨_, (hb.corner_mem hr').2, by dsimp only; omega⟩,
      ⟨_, (hb.corner_mem hs').2, by dsimp only; omega⟩⟩
    rintro p ⟨q, hq, hpl, hpr, hpt, hpb⟩
    have hqs := hsides q hq
    exact ⟨by omega, by omega, by omega, by omega⟩

/-- The columns are mapped by `f` and the rows by `g`. -/
def remap (f g : Int → Int) (r : Rect) : Rect := ⟨f r.left, g r.top, f r.right, g r.bottom⟩

def xs (rects : List Rect) : Set Int := {x | ∃ r ∈ rects, x = r.left ∨ x = r.right}

def ys (rects : List Rect) : Set Int := {y | ∃ r ∈ rects, y = r.top ∨ y = r.bottom}

/-- The order of the coordinates is kept where the form of the list depends on it. -/
structure Keeps (f g : Int → Int) (rects : List Rect) : Prop where
  monoX : MonotoneOn f (xs rects)
  monoY : MonotoneOn g (ys rects)
  wide : ∀ r ∈ rects, f r.left < f r.right
  high : ∀ r ∈ rects, g r.top < g r.bottom
  gap : ∀ r ∈ rects, ∀ r' ∈ rects, r.top = r'.top → r.right < r'.left → f r.right < f r'.left
  apart : ∀ r ∈ rects, ∀ r' ∈ rects, g r.bottom = g r'.top →
    (bandOf rects r.top).map (fun q => (f q.left, f q.right)) ≠
      (bandOf rects r'.top).map fun q => (f q.left, f q.right)

section Keeps

variable {f g : Int → Int} {rects : List Rect} {r : Rect}

lemma left_mem_xs (hr : r ∈ rects) : r.left ∈ xs rects := ⟨r, hr, .inl rfl⟩

lemma right_mem_xs (hr : r ∈ rects) : r.right ∈ xs rects := ⟨r, hr, .inr rfl⟩

lemma top_mem_ys (hr : r ∈ rects) : r.top ∈ ys rects := ⟨r, hr, .inl rfl⟩

lemma bottom_mem_ys (hr : r ∈ rects) : r.bottom ∈ ys rects := ⟨r, hr, .inr rfl⟩

section

variable (hk : Keeps f g rects)

include hk

lemma Keeps.banded (hb : Banded rects) : Banded (rects.map (remap f g)) where
  wide := by
    simp only [mem_map, forall_exists_index, and_imp, forall_apply_eq_imp_iff₂]
    exact hk.wide
  high := by
    simp only [mem_map, forall_exists_index, and_imp, forall_apply_eq_imp_iff₂]
    exact hk.high
  ordered := by
    rw [pairwise_map]
    apply hb.ordered.imp_of_mem
    intro r r' hr hr' hbefore
    obtain ⟨htop, hbottom, hgap⟩ | hle := hbefore
    · exact .inl ⟨congrArg g htop, congrArg g hbottom, hk.gap r hr r' hr' htop hgap⟩
    · exact .inr (hk.monoY (bottom_mem_ys hr) (top_mem_ys hr') hle)

lemma Keeps.top_eq_iff (hb : Banded rects) {r' : Rect} (hr : r ∈ rects)
    (hr' : r' ∈ rects) : g r.top = g r'.top ↔ r.top = r'.top := by
  refine ⟨fun heq => ?_, congrArg g⟩
  have hhigh := hk.high r hr
  have hhigh' := hk.high r' hr'
  obtain ⟨htop, _⟩ | hle | hle := hb.level hr hr'
  · exact htop
  · have hmono := hk.monoY (bottom_mem_ys hr) (top_mem_ys hr') hle
    omega
  · have hmono := hk.monoY (bottom_mem_ys hr') (top_mem_ys hr) hle
    omega

lemma Keeps.bandOf_eq (hb : Banded rects) (hr : r ∈ rects) :
    bandOf (rects.map (remap f g)) (g r.top) = (bandOf rects r.top).map (remap f g) := by
  rw [bandOf, bandOf, filter_map]
  congr 1
  apply filter_congr
  intro q hq
  exact decide_eq_decide.mpr (hk.top_eq_iff hb hq hr)

lemma Keeps.coalesced (hb : Banded rects) : Coalesced (rects.map (remap f g)) := by
  rw [coalesced_iff (hk.banded hb)]
  simp only [mem_map, forall_exists_index, and_imp, forall_apply_eq_imp_iff₂]
  intro r hr r' hr' htouch
  have hband := hk.bandOf_eq hb hr
  have hband' := hk.bandOf_eq hb hr'
  simp only [remap] at hband hband' ⊢
  rw [hband, hband', map_map, map_map]
  exact hk.apart r hr r' hr' htouch

lemma Keeps.isBoundingBox (hb : Banded rects) (hne : rects ≠ []) {box : Rect}
    (hbox : IsBoundingBox box (points rects)) :
    IsBoundingBox (remap f g box) (points (rects.map (remap f g))) := by
  have hne' : rects.map (remap f g) ≠ [] := by simpa using hne
  obtain ⟨hsides, ⟨r, hr, hl⟩, ⟨s, hs, ht⟩, ⟨r', hr', hr''⟩, s', hs', hb'⟩ :=
    (isBoundingBox_iff hb hne).mp hbox
  rw [isBoundingBox_iff (hk.banded hb) hne']
  refine ⟨?_, ⟨_, mem_map_of_mem hr, congrArg f hl⟩, ⟨_, mem_map_of_mem hs, congrArg g ht⟩,
    ⟨_, mem_map_of_mem hr', congrArg f hr''⟩, _, mem_map_of_mem hs', congrArg g hb'⟩
  simp only [mem_map, forall_exists_index, and_imp, forall_apply_eq_imp_iff₂]
  intro q hq
  obtain ⟨hql, hqt, hqr, hqb⟩ := hsides q hq
  rw [← hl] at hql
  rw [← ht] at hqt
  rw [← hr''] at hqr
  rw [← hb'] at hqb
  simp only [remap]
  rw [← hl, ← ht, ← hr'', ← hb']
  exact ⟨hk.monoX (left_mem_xs hr) (left_mem_xs hq) hql,
    hk.monoY (top_mem_ys hs) (top_mem_ys hq) hqt,
    hk.monoX (right_mem_xs hq) (right_mem_xs hr') hqr,
    hk.monoY (bottom_mem_ys hq) (bottom_mem_ys hs') hqb⟩

end

end Keeps

theorem Canonical.remap {region : Region} {f g : Int → Int} (h : Canonical region)
    (hne : region.rects ≠ []) (hk : Keeps f g region.rects) :
    Canonical ⟨region.rects.map (remap f g), Regions.remap f g region.extents⟩ where
  valid := validateRectangles_iff.mpr (hk.banded h.banded)
  box := hk.isBoundingBox h.banded hne h.box
  coalesced := hk.coalesced h.banded

end WineForge.Regions
