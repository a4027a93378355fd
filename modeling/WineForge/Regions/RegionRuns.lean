import Mathlib.Data.List.Forall2
import Mathlib.Tactic.Linarith
import WineForge.Library.Transition
import WineForge.Regions.Canonical

/-!
# Runs of region operations

Which operations keep every region canonical. Mirroring writes the last rectangle of a band over
the first one, scaling and moving can wrap around or round rectangles away, and request data need
not be coalesced. All other operations keep the form unconditionally.
-/

namespace WineForge.Regions

open Function Library List

lemma isRectEqual_iff {rect1 rect2 : Rect} : isRectEqual rect1 rect2 = true ↔ rect1 = rect2 := by
  cases rect1
  cases rect2
  simp only [isRectEqual, Bool.and_eq_true, decide_eq_true_eq, Rect.mk.injEq]
  tauto

lemma rectsEqual_iff {rects1 rects2 : List Rect} (hlen : rects1.length = rects2.length) :
    rectsEqual rects1 rects2 = true ↔ rects1 = rects2 := by
  induction rects1 generalizing rects2 with
  | nil =>
    cases rects2 with
    | nil => simp [rectsEqual]
    | cons _ _ => simp at hlen
  | cons rect1 rects1 ih =>
    cases rects2 with
    | nil => simp at hlen
    | cons rect2 rects2 =>
      rw [rectsEqual, List.cons.injEq, ← ih (Nat.succ.inj hlen), ← isRectEqual_iff]
      cases isRectEqual rect1 rect2 <;> simp

lemma IsBoundingBox.unique {box box' : Rect} {P : Set (Int × Int)} (h : IsBoundingBox box P)
    (h' : IsBoundingBox box' P) : box = box' := by
  obtain ⟨hempty, hbox⟩ | ⟨hall, ⟨p, hp, hpl⟩, ⟨q, hq, hqt⟩, ⟨s, hs, hsr⟩, t, ht, htb⟩ := h
  · obtain ⟨_, hbox'⟩ | ⟨_, ⟨p, hp, _⟩, _⟩ := h'
    · rw [hbox, hbox']
    · rw [hempty] at hp
      exact absurd hp (Set.notMem_empty p)
  obtain ⟨hempty, _⟩ | ⟨hall', ⟨p', hp', hpl'⟩, ⟨q', hq', hqt'⟩, ⟨s', hs', hsr'⟩, t', ht', htb'⟩ :=
    h'
  · rw [hempty] at hp
    exact absurd hp (Set.notMem_empty p)
  have h1 := (hall' p hp).1
  have h2 := (hall p' hp').1
  have h3 := (hall' q hq).2.2.1
  have h4 := (hall q' hq').2.2.1
  have h5 := (hall' s hs).2.1
  have h6 := (hall s' hs').2.1
  have h7 := (hall' t ht).2.2.2
  have h8 := (hall t' ht').2.2.2
  cases box
  cases box'
  dsimp only at *
  rw [Rect.mk.injEq]
  omega

lemma isRegionEqual_iff {region1 region2 : Region} (h1 : WellFormed region1)
    (h2 : WellFormed region2) :
    isRegionEqual region1 region2 = true ↔ region1.rects = region2.rects := by
  rw [isRegionEqual]
  by_cases hlen : region1.rects.length = region2.rects.length
  · rw [if_neg (not_not.mpr hlen)]
    by_cases hempty : region1.rects.length = 0
    · rw [if_pos hempty, length_eq_zero_iff.mp hempty,
        length_eq_zero_iff.mp (hlen.symm.trans hempty)]
      simp
    rw [if_neg hempty]
    cases hext : isRectEqual region1.extents region2.extents with
    | false =>
      simp only [Bool.not_false, if_true, Bool.false_eq_true, false_iff]
      intro heq
      have hbox := h1.box
      rw [heq] at hbox
      rw [isRectEqual_iff.mpr (hbox.unique h2.box)] at hext
      exact Bool.false_ne_true hext.symm
    | true =>
      exact rectsEqual_iff hlen
  · rw [if_pos hlen]
    simp only [Bool.false_eq_true, false_iff]
    exact fun heq => hlen (congrArg List.length heq)

theorem Canonical.isRegionEqual_iff {region1 region2 : Region} (h1 : Canonical region1)
    (h2 : Canonical region2) :
    isRegionEqual region1 region2 = true ↔ points region1.rects = points region2.rects := by
  rw [Regions.isRegionEqual_iff h1.toWellFormed h2.toWellFormed]
  exact ⟨congrArg points, h1.banded.unique h2.banded h1.coalesced h2.coalesced⟩

lemma emptyRegion_canonical : Canonical ⟨[], emptyRect⟩ where
  toWellFormed := empty_wellFormed
  coalesced := by simp [Coalesced]

lemma setRegionRect_canonical (rect : Rect) : Canonical (setRegionRect rect) := by
  rw [setRegionRect]
  cases hempty : isRectEmpty rect with
  | true => exact emptyRegion_canonical
  | false =>
    obtain ⟨hwide, hhigh⟩ := isRectEmpty_eq_false.mp hempty
    have hrow : Row rect.top rect.bottom [rect] :=
      ⟨xOrdered_cons.mpr ⟨hwide, by simp, xOrdered_nil⟩, by simp, by simp⟩
    have hbanded := hrow.banded hhigh
    refine ⟨⟨validateRectangles_iff.mpr hbanded, ?_⟩, hrow.coalesced hhigh⟩
    rw [Bool.not_false, if_pos rfl, isBoundingBox_iff hbanded (by simp)]
    simp

variable {region : Region}

lemma createRegionFromReqData_canonical {data : List Rect}
    (hcoalesced : validateRectangles data = true → Coalesced data)
    (h : createRegionFromReqData data = some region) : Canonical region := by
  rw [createRegionFromReqData] at h
  by_cases hzero : data = [emptyRect]
  · simp only [if_pos hzero] at h
    rw [← Option.some.inj h]
    exact ⟨setRegionExtents_wellFormed banded_nil, by simp [Coalesced, setRegionExtents]⟩
  simp only [if_neg hzero] at h
  cases hvalid : validateRectangles data with
  | false => simp [hvalid] at h
  | true =>
    rw [hvalid, if_pos rfl] at h
    rw [← Option.some.inj h]
    exact ⟨setRegionExtents_wellFormed (validateRectangles_iff.mp hvalid), hcoalesced hvalid⟩

lemma forall₂_of_map_eq {α β : Type*} {φ : α → β} {R : α → α → Prop} {l l' : List α}
    (heq : l.map φ = l'.map φ) (hR : ∀ q ∈ l, ∀ q' ∈ l', φ q = φ q' → R q q') :
    List.Forall₂ R l l' := by
  induction l generalizing l' with
  | nil =>
    rw [map_nil, eq_comm, map_eq_nil_iff] at heq
    rw [heq]
    exact .nil
  | cons q l ih =>
    cases l' with
    | nil => simp at heq
    | cons q' l' =>
      obtain ⟨hhead, htail⟩ := List.cons.inj heq
      apply List.Forall₂.cons (hR q mem_cons_self q' mem_cons_self hhead)
      exact ih htail fun p hp p' hp' =>
        hR p (mem_cons_of_mem q hp) p' (mem_cons_of_mem q' hp')

variable {rects : List Rect}

lemma Keeps.of_strictMono {f g : Int → Int} (hb : Banded rects)
    (hcoalesced : Coalesced rects) (hf : StrictMonoOn f (xs rects))
    (hg : StrictMonoOn g (ys rects)) : Keeps f g rects where
  monoX := hf.monotoneOn
  monoY := hg.monotoneOn
  wide r hr := hf (left_mem_xs hr) (right_mem_xs hr) (hb.wide r hr)
  high r hr := hg (top_mem_ys hr) (bottom_mem_ys hr) (hb.high r hr)
  gap r hr r' hr' _ hgap := hf (right_mem_xs hr) (left_mem_xs hr') hgap
  apart r hr r' hr' htouch heq := by
    have htouch' := hg.injOn (bottom_mem_ys hr) (top_mem_ys hr') htouch
    apply (coalesced_iff hb).mp hcoalesced r hr r' hr' htouch'
    rw [← forall₂_eq_eq_eq, forall₂_map_left_iff, forall₂_map_right_iff]
    apply forall₂_of_map_eq heq
    intro q hq q' hq' hsides
    have hqm := (mem_bandOf.mp hq).1
    have hqm' := (mem_bandOf.mp hq').1
    have hleft := hf.injOn (left_mem_xs hqm) (left_mem_xs hqm') (congrArg Prod.fst hsides)
    have hright := hf.injOn (right_mem_xs hqm) (right_mem_xs hqm') (congrArg Prod.snd hsides)
    rw [Rect.sides, Rect.sides, hleft, hright]

def OffsetFits (region : Region) (x y : Int) : Prop :=
  ∀ r ∈ region.rects, InInt32 (r.left + x) ∧ InInt32 (r.right + x) ∧ InInt32 (r.top + y) ∧
    InInt32 (r.bottom + y)

lemma offset_strictMono {S : Set Int} {d : Int} (h : ∀ c ∈ S, InInt32 (c + d)) :
    StrictMonoOn (fun c => toInt32 (c + d)) S := by
  intro c hc c' hc' hlt
  dsimp only
  rw [toInt32_of_inInt32 (h c hc), toInt32_of_inInt32 (h c' hc')]
  omega

lemma offsetRegion_canonical {x y : Int} (h : Canonical region)
    (hfits : OffsetFits region x y) : Canonical (offsetRegion region x y) := by
  rw [offsetRegion]
  by_cases hne : region.rects = []
  · rw [if_pos hne]
    exact h
  rw [if_neg hne]
  have hx : ∀ c ∈ xs region.rects, InInt32 (c + x) := by
    rintro c ⟨r, hr, rfl | rfl⟩
    · exact (hfits r hr).1
    · exact (hfits r hr).2.1
  have hy : ∀ c ∈ ys region.rects, InInt32 (c + y) := by
    rintro c ⟨r, hr, rfl | rfl⟩
    · exact (hfits r hr).2.2.1
    · exact (hfits r hr).2.2.2
  exact h.remap hne
    (Keeps.of_strictMono h.banded h.coalesced (offset_strictMono hx) (offset_strictMono hy))

/-- The width that `mirror_rect` mirrors in. -/
def clientWidth (client : Rect) : Int := toInt32 (client.right - client.left)

/-- Every band is a single rectangle, no coordinate overflows, and an empty region is mirrored in a
rectangle without width. -/
structure MirrorFits (client : Rect) (region : Region) : Prop where
  single : region.rects.Pairwise fun r r' => r.top ≠ r'.top
  range : ∀ r ∈ region.rects, InInt32 (clientWidth client - r.left) ∧
    InInt32 (clientWidth client - r.right)
  empty : region.rects = [] → clientWidth client = 0

lemma mirrorBands_eq {client : Rect} (hsingle : rects.Pairwise fun r r' => r.top ≠ r'.top) :
    mirrorBands client rects = rects.map (mirrorRect client) := by
  induction rects with
  | nil => rw [mirrorBands, map_nil]
  | cons r rects ih =>
    obtain ⟨hfirst, hrest⟩ := pairwise_cons.mp hsingle
    have hnone : ∀ r' ∈ rects, ¬decide (r'.top = r.top) = true := by
      intro r' hr'
      simpa using (hfirst r' hr').symm
    have hband : band (r :: rects) = [r] := by
      rw [band]
      cases rects with
      | nil => rfl
      | cons r' rects => 
        rw [takeWhile_cons_of_neg (p := fun q : Rect => decide (q.top = r.top))
          (hnone r' mem_cons_self)]
    have hend : bandEnd (r :: rects) = rects := by
      rw [bandEnd]
      cases rects with
      | nil => rfl
      | cons r' rects => 
        rw [dropWhile_cons_of_neg (p := fun q : Rect => decide (q.top = r.top))
          (hnone r' mem_cons_self)]
    rw [mirrorBands, hband, hend, ih hrest, mirrorBand]
    rfl

section Mirror

variable {client : Rect} {region : Region}

lemma MirrorFits.mirrorRect_eq (hfits : MirrorFits client region) {r : Rect}
    (hr : r ∈ region.rects) :
    mirrorRect client r =
      ⟨clientWidth client - r.right, r.top, clientWidth client - r.left, r.bottom⟩ := by
  obtain ⟨hleft, hright⟩ := hfits.range r hr
  rw [mirrorRect, ← clientWidth, toInt32_of_inInt32 hleft, toInt32_of_inInt32 hright]

lemma mirror_banded (hb : Banded region.rects) (hfits : MirrorFits client region) :
    Banded (region.rects.map (mirrorRect client)) where
  wide := by
    simp only [mem_map, forall_exists_index, and_imp, forall_apply_eq_imp_iff₂]
    intro r hr
    have hwide := hb.wide r hr
    rw [hfits.mirrorRect_eq hr]
    dsimp only
    omega
  high := by
    simp only [mem_map, forall_exists_index, and_imp, forall_apply_eq_imp_iff₂]
    exact hb.high
  ordered := by
    rw [pairwise_map]
    apply (hb.ordered.and hfits.single).imp
    rintro r r' ⟨hbefore, hne⟩
    obtain ⟨htop, _⟩ | hle := hbefore
    · exact absurd htop hne
    · exact .inr hle

lemma mirror_bandOf (top : Int) : bandOf (region.rects.map (mirrorRect client)) top =
      (bandOf region.rects top).map (mirrorRect client) := by
  rw [bandOf, bandOf, filter_map]
  rfl

lemma mirror_coalesced (hb : Banded region.rects) (hcoalesced : Coalesced region.rects)
    (hfits : MirrorFits client region) : Coalesced (region.rects.map (mirrorRect client)) := by
  rw [coalesced_iff (mirror_banded hb hfits)]
  simp only [mem_map, forall_exists_index, and_imp, forall_apply_eq_imp_iff₂]
  intro r hr r' hr' htouch heq
  apply (coalesced_iff hb).mp hcoalesced r hr r' hr' htouch
  rw [mirror_bandOf, mirror_bandOf, map_map, map_map] at heq
  rw [← forall₂_eq_eq_eq, forall₂_map_left_iff, forall₂_map_right_iff]
  apply forall₂_of_map_eq heq
  intro q hq q' hq' hsides
  have hqm := (mem_bandOf.mp hq).1
  have hqm' := (mem_bandOf.mp hq').1
  simp only [Function.comp_apply, hfits.mirrorRect_eq hqm, hfits.mirrorRect_eq hqm', Rect.sides,
    Prod.mk.injEq] at hsides
  have hleft : q.left = q'.left := by omega
  have hright : q.right = q'.right := by omega
  rw [Rect.sides, Rect.sides, hleft, hright]

lemma mirror_isBoundingBox (h : WellFormed region) (hfits : MirrorFits client region) :
    IsBoundingBox (mirrorRect client region.extents)
      (points (region.rects.map (mirrorRect client))) := by
  by_cases hne : region.rects = []
  · -- the extents of an empty region are mirrored all the same
    have hbox := h.box
    rw [hne, points_nil] at hbox
    rw [hne, map_nil, points_nil]
    have hext : region.extents = emptyRect := hbox.unique (.inl ⟨rfl, rfl⟩)
    have hwidth := hfits.empty hne
    refine .inl ⟨rfl, ?_⟩
    rw [hext, mirrorRect, ← clientWidth, hwidth]
    rfl
  have hne' : region.rects.map (mirrorRect client) ≠ [] := by simpa using hne
  obtain ⟨hsides, ⟨r, hr, hl⟩, ⟨s, hs, ht⟩, ⟨r', hr', hr''⟩, s', hs', hb'⟩ :=
    (isBoundingBox_iff h.banded hne).mp h.box
  have hext : mirrorRect client region.extents =
      ⟨clientWidth client - region.extents.right, region.extents.top,
        clientWidth client - region.extents.left, region.extents.bottom⟩ := by
    rw [mirrorRect, ← clientWidth, ← hl, ← hr'', toInt32_of_inInt32 (hfits.range r hr).1,
      toInt32_of_inInt32 (hfits.range r' hr').2]
  rw [hext, isBoundingBox_iff (mirror_banded h.banded hfits) hne']
  refine ⟨?_, ⟨_, mem_map_of_mem hr', ?_⟩, ⟨_, mem_map_of_mem hs, ht⟩,
    ⟨_, mem_map_of_mem hr, ?_⟩, _, mem_map_of_mem hs', hb'⟩
  · simp only [mem_map, forall_exists_index, and_imp, forall_apply_eq_imp_iff₂]
    intro q hq
    have hqs := hsides q hq
    rw [hfits.mirrorRect_eq hq]
    dsimp only
    omega
  · rw [hfits.mirrorRect_eq hr', hr'']
  · rw [hfits.mirrorRect_eq hr, hl]

lemma mirrorRegion_canonical (h : Canonical region) (hfits : MirrorFits client region) :
    Canonical (mirrorRegion client region) := by
  rw [mirrorRegion, mirrorBands_eq hfits.single]
  exact ⟨⟨validateRectangles_iff.mpr (mirror_banded h.banded hfits),
    mirror_isBoundingBox h.toWellFormed hfits⟩, mirror_coalesced h.banded h.coalesced hfits⟩

end Mirror

/-- The coordinate that `scale_dpi` rounds to. -/
def rounded (num den c : Int) : Int := (c * num + den / 2) / den

/-- Rounding puts `c` before `c'`: a multiple of `den` lies between them. -/
def RoundsApart (num den c c' : Int) : Prop :=
  ∃ k, c * num + den / 2 < k * den ∧ k * den ≤ c' * num + den / 2

def RoundsTogether (num den c c' : Int) : Prop :=
  ¬RoundsApart num den c c' ∧ ¬RoundsApart num den c' c

/-- No wrap-around: the coordinate is not negative (or no rounding takes place), the sum is that of
32 bits, and the quotient is a 32-bit integer. -/
def ScalesExactly (num den c : Int) : Prop :=
  (0 ≤ c ∨ den = 1) ∧ c * num + den / 2 < 4294967296 ∧ InInt32 (rounded num den c)

/-- No coordinate wraps around, no rectangle and no gap inside a band is rounded away, and bands
that touch after rounding do not have the same sides after rounding. -/
structure ScaleFits (num den : Int) (rects : List Rect) : Prop where
  exact : ∀ r ∈ rects, ScalesExactly num den r.left ∧ ScalesExactly num den r.right ∧
    ScalesExactly num den r.top ∧ ScalesExactly num den r.bottom
  wide : ∀ r ∈ rects, RoundsApart num den r.left r.right
  high : ∀ r ∈ rects, RoundsApart num den r.top r.bottom
  gap : ∀ r ∈ rects, ∀ r' ∈ rects, r.top = r'.top → r.right < r'.left →
    RoundsApart num den r.right r'.left
  apart : ∀ r ∈ rects, ∀ r' ∈ rects, r.bottom ≤ r'.top →
    ¬RoundsApart num den r.bottom r'.top →
    ¬List.Forall₂ (fun q q' => RoundsTogether num den q.left q'.left ∧
      RoundsTogether num den q.right q'.right) (bandOf rects r.top) (bandOf rects r'.top)

section Scale

variable {num den : Int}

lemma roundsApart_iff (hden : 0 < den) {c c' : Int} :
    RoundsApart num den c c' ↔ rounded num den c < rounded num den c' := by
  constructor
  · rintro ⟨k, hlt, hle⟩
    have hlow : rounded num den c < k := Int.ediv_lt_of_lt_mul hden hlt
    have hhigh : k ≤ rounded num den c' := Int.le_ediv_of_mul_le hden hle
    exact hlow.trans_le hhigh
  · intro hlt
    exact ⟨rounded num den c', Int.lt_mul_of_ediv_lt hden hlt,
      Int.ediv_mul_le _ (Int.ne_of_gt hden)⟩

lemma roundsTogether_iff (hden : 0 < den) {c c' : Int} :
    RoundsTogether num den c c' ↔ rounded num den c = rounded num den c' := by
  rw [RoundsTogether, roundsApart_iff hden, roundsApart_iff hden]
  omega

lemma rounded_mono (hnum : 0 ≤ num) (hden : 0 < den) : Monotone (rounded num den) := by
  intro c c' hle
  apply Int.ediv_le_ediv hden
  have hmul := Int.mul_le_mul_of_nonneg_right hle hnum
  omega

lemma scaleNum_nonneg (dpiFrom dpiTo : Ratio) : 0 ≤ scaleNum dpiFrom dpiTo := by
  unfold scaleNum toUint32
  omega

lemma scaleDen_nonneg (dpiFrom dpiTo : Ratio) : 0 ≤ scaleDen dpiFrom dpiTo := by
  unfold scaleDen toUint32
  omega

variable {dpiFrom dpiTo : Ratio}

lemma scaleDpi_eq {c : Int}
    (h : ScalesExactly (scaleNum dpiFrom dpiTo) (scaleDen dpiFrom dpiTo) c) :
    scaleDpi c dpiFrom dpiTo = rounded (scaleNum dpiFrom dpiTo) (scaleDen dpiFrom dpiTo) c := by
  obtain ⟨hsign, hsum, hrange⟩ := h
  have hnum := scaleNum_nonneg dpiFrom dpiTo
  have hden := scaleDen_nonneg dpiFrom dpiTo
  rw [scaleDpi]
  by_cases hc : c ≥ 0
  · have hmul := Int.mul_nonneg hc hnum
    have hnonneg : 0 ≤ c * scaleNum dpiFrom dpiTo + scaleDen dpiFrom dpiTo / 2 := by omega
    rw [if_pos hc, toUint32, Int.emod_eq_of_lt hnonneg hsum]
    exact toInt32_of_inInt32 hrange
  have hone : scaleDen dpiFrom dpiTo = 1 := hsign.resolve_left hc
  rw [hone] at hsum hrange ⊢
  have hround : rounded (scaleNum dpiFrom dpiTo) 1 c = c * scaleNum dpiFrom dpiTo := by
    unfold rounded
    omega
  generalize c * scaleNum dpiFrom dpiTo = product at *
  obtain ⟨hlo, hhi⟩ := hrange
  unfold toInt32 toUint32
  omega

/-- The part of the rounding that `Keeps` needs, for both axes. -/
lemma ScaleFits.keeps (hb : Banded rects) (hden : scaleDen dpiFrom dpiTo ≠ 0)
    (hfits : ScaleFits (scaleNum dpiFrom dpiTo) (scaleDen dpiFrom dpiTo) rects) :
    Keeps (scaleDpi · dpiFrom dpiTo) (scaleDpi · dpiFrom dpiTo) rects := by
  have hpos : 0 < scaleDen dpiFrom dpiTo :=
    lt_of_le_of_ne (scaleDen_nonneg dpiFrom dpiTo) hden.symm
  have hmono := rounded_mono (scaleNum_nonneg dpiFrom dpiTo) hpos
  have hleft := fun r hr => scaleDpi_eq (hfits.exact r hr).1
  have hright := fun r hr => scaleDpi_eq (hfits.exact r hr).2.1
  have htop := fun r hr => scaleDpi_eq (hfits.exact r hr).2.2.1
  have hbottom := fun r hr => scaleDpi_eq (hfits.exact r hr).2.2.2
  have hxs : ∀ c ∈ xs rects, scaleDpi c dpiFrom dpiTo =
      rounded (scaleNum dpiFrom dpiTo) (scaleDen dpiFrom dpiTo) c := by
    rintro c ⟨r, hr, rfl | rfl⟩
    · exact hleft r hr
    · exact hright r hr
  have hys : ∀ c ∈ ys rects, scaleDpi c dpiFrom dpiTo =
      rounded (scaleNum dpiFrom dpiTo) (scaleDen dpiFrom dpiTo) c := by
    rintro c ⟨r, hr, rfl | rfl⟩
    · exact htop r hr
    · exact hbottom r hr
  refine ⟨?_, ?_, ?_, ?_, ?_, ?_⟩
  · intro c hc c' hc' hle
    dsimp only
    rw [hxs c hc, hxs c' hc']
    exact hmono hle
  · intro c hc c' hc' hle
    dsimp only
    rw [hys c hc, hys c' hc']
    exact hmono hle
  · intro r hr
    rw [hleft r hr, hright r hr]
    exact (roundsApart_iff hpos).mp (hfits.wide r hr)
  · intro r hr
    rw [htop r hr, hbottom r hr]
    exact (roundsApart_iff hpos).mp (hfits.high r hr)
  · intro r hr r' hr' hsame hgap
    rw [hright r hr, hleft r' hr']
    exact (roundsApart_iff hpos).mp (hfits.gap r hr r' hr' hsame hgap)
  intro r hr r' hr' htouch heq
  rw [hbottom r hr, htop r' hr'] at htouch
  have hhigh := (roundsApart_iff hpos).mp (hfits.high r hr)
  have hhigh' := (roundsApart_iff hpos).mp (hfits.high r' hr')
  -- touching after rounding leaves only the order from top to bottom
  have hbelow : r.bottom ≤ r'.top := by
    obtain ⟨hsame, _⟩ | hle | hle := hb.level hr hr'
    · rw [hsame] at hhigh
      omega
    · exact hle
    · have hle' := hmono hle
      omega
  apply hfits.apart r hr r' hr' hbelow
  · rw [roundsApart_iff hpos]
    omega
  apply forall₂_of_map_eq heq
  intro q hq q' hq' hsides
  have hqm := (mem_bandOf.mp hq).1
  have hqm' := (mem_bandOf.mp hq').1
  rw [hleft q hqm, hright q hqm, hleft q' hqm', hright q' hqm', Prod.mk.injEq] at hsides
  exact ⟨(roundsTogether_iff hpos).mpr hsides.1, (roundsTogether_iff hpos).mpr hsides.2⟩

lemma scaleRegion_canonical {region region' : Region} (h : Canonical region)
    (hfits : ScaleFits (scaleNum dpiFrom dpiTo) (scaleDen dpiFrom dpiTo) region.rects)
    (hscale : scaleRegion region dpiFrom dpiTo = some region') : Canonical region' := by
  rw [scaleRegion] at hscale
  by_cases hne : region.rects = []
  · rw [if_pos hne] at hscale
    rw [← Option.some.inj hscale]
    exact h
  rw [if_neg hne] at hscale
  by_cases hden : scaleDen dpiFrom dpiTo = 0
  · simp [hden] at hscale
  · rw [if_neg hden] at hscale
    rw [← Option.some.inj hscale]
    exact h.remap hne (hfits.keeps h.banded hden)

end Scale

section Runs

variable {L : Type*} [DecidableEq L]

def Fresh (st : Store L) : Prop := ∀ l, st l = createEmptyRegion

def KeepsForm (st : Store L) : RegionOp L → Prop
  | .createFromReqData _ data => validateRectangles data = true → Coalesced data
  | .offset dst x y => OffsetFits (st dst) x y
  | .mirror dst client => MirrorFits client (st dst)
  | .scale dst dpiFrom dpiTo =>
    ScaleFits (scaleNum dpiFrom dpiTo) (scaleDen dpiFrom dpiTo) (st dst).rects
  | _ => True

lemma canonical_update {st : Store L} (dst : L) (hst : ∀ l, Canonical (st l))
    (h : Canonical region) (l : L) : Canonical (update st dst region l) := by
  by_cases hl : l = dst
  · rw [hl, update_self]
    exact h
  · rw [update_of_ne hl]
    exact hst l

lemma Computed.canonical {st st' : Store L} {dst src1 src2 : L} {T : Set (Int × Int)}
    (h : Computed st st' dst src1 src2 T) (hst : ∀ l, Canonical (st l)) (l : L) :
    Canonical (st' l) := by
  by_cases hl : l = dst
  · rw [hl]
    exact ⟨h.wellFormed, h.coalesced (hst src1).coalesced (hst src2).coalesced⟩
  · rw [h.frame l hl]
    exact hst l

theorem regionStep_canonical {st st' : Store L} {op : RegionOp L} (hst : ∀ l, Canonical (st l))
    (hkeeps : KeepsForm st op) (hstep : regionStep st op = some st') : ∀ l, Canonical (st' l) := by
  have hwf := fun l => (hst l).toWellFormed
  cases op with
  | createEmpty dst =>
    rw [← Option.some.inj hstep]
    exact canonical_update dst hst emptyRegion_canonical
  | createFromReqData dst data =>
    rw [regionStep] at hstep
    cases hcreate : createRegionFromReqData data with
    | none =>
      rw [hcreate] at hstep
      rw [← Option.some.inj hstep]
      exact hst
    | some region =>
      rw [hcreate] at hstep
      rw [← Option.some.inj hstep]
      exact canonical_update dst hst (createRegionFromReqData_canonical hkeeps hcreate)
  | setRect dst rect =>
    rw [← Option.some.inj hstep]
    exact canonical_update dst hst (setRegionRect_canonical rect)
  | offset dst x y =>
    rw [← Option.some.inj hstep]
    exact canonical_update dst hst (offsetRegion_canonical (hst dst) hkeeps)
  | mirror dst client =>
    rw [← Option.some.inj hstep]
    exact canonical_update dst hst (mirrorRegion_canonical (hst dst) hkeeps)
  | scale dst dpiFrom dpiTo =>
    obtain ⟨region, hscale, rfl⟩ := Option.map_eq_some_iff.mp hstep
    exact canonical_update dst hst (scaleRegion_canonical (hst dst) hkeeps hscale)
  | copy dst src =>
    rw [← Option.some.inj hstep, copyRegion_eq]
    exact canonical_update dst hst (hst src)
  | intersect dst src1 src2 =>
    rw [← Option.some.inj hstep]
    exact (intersectRegion_computed dst (hwf src1) (hwf src2)).canonical hst
  | subtract dst src1 src2 =>
    rw [← Option.some.inj hstep]
    exact (subtractRegion_computed dst (hwf src1) (hwf src2)).canonical hst
  | union dst src1 src2 =>
    rw [← Option.some.inj hstep]
    exact (unionRegion_computed dst (hwf src1) (hwf src2)).canonical hst
  | xor dst src1 src2 =>
    rw [← Option.some.inj hstep]
    exact (xorRegion_computed dst (hwf src1) (hwf src2)).canonical hst

theorem canonical_of_reaches {st : Store L} (hst : Reaches regionStep KeepsForm Fresh st) :
    ∀ l, Canonical (st l) := by
  apply hst.invariant (P := fun st => ∀ l, Canonical (st l))
  · intro st hfresh l
    rw [hfresh l]
    exact emptyRegion_canonical
  · intro st op st' hcanonical hkeeps hstep
    exact regionStep_canonical hcanonical hkeeps hstep

/-- In such runs every region is valid with its bounding box, and two regions compare equal exactly
when they have the same points. -/
theorem regions_canonical {st : Store L} (hst : Reaches regionStep KeepsForm Fresh st) :
    (∀ l, validateRectangles (st l).rects = true ∧
      IsBoundingBox (st l).extents (points (st l).rects)) ∧
    ∀ l l', isRegionEqual (st l) (st l') = true ↔ points (st l).rects = points (st l').rects := by
  have hcanonical := canonical_of_reaches hst
  exact ⟨fun l => ⟨(hcanonical l).valid, (hcanonical l).box⟩,
    fun l l' => (hcanonical l).isRegionEqual_iff (hcanonical l')⟩

end Runs

def sideBySide : List (RegionOp Bool) :=
  [.createFromReqData true [⟨0, 0, 10, 10⟩, ⟨20, 0, 30, 10⟩], .mirror true ⟨0, 0, 100, 100⟩]

def cutColumn : List (RegionOp Bool) :=
  [.createFromReqData true [⟨0, 0, 10, 10⟩, ⟨0, 10, 10, 20⟩], .setRect false ⟨0, 0, 10, 20⟩]

def acrossOrigin : List (RegionOp Bool) :=
  [.setRect true ⟨-10, -10, 10, 10⟩, .scale true ⟨96, 1⟩ ⟨144, 1⟩]

lemma cutColumn_points : points [⟨0, 0, 10, 10⟩, ⟨0, 10, 10, 20⟩] = points [⟨0, 0, 10, 20⟩] := by
  ext p
  simp only [mem_points_cons, points_nil, Set.mem_empty_iff_false, or_false, Rect.Contains]
  omega

theorem region_form_lost :
    (∃ st : Store Bool, run regionStep (fun _ => createEmptyRegion) sideBySide = some st ∧
      validateRectangles (st true).rects = false) ∧
    (∃ st : Store Bool, run regionStep (fun _ => createEmptyRegion) cutColumn = some st ∧
      points (st true).rects = points (st false).rects ∧
      isRegionEqual (st true) (st false) = false) ∧
    ∃ st : Store Bool, run regionStep (fun _ => createEmptyRegion) acrossOrigin = some st ∧
      validateRectangles (st true).rects = false := by
  refine ⟨⟨_, rfl, ?_⟩, ⟨_, rfl, cutColumn_points, ?_⟩, _, rfl, ?_⟩
  · decide +kernel
  · decide +kernel
  · decide +kernel

def movedSquare : Store Bool :=
  let st : Store Bool := update (fun _ => createEmptyRegion) true (setRegionRect ⟨0, 0, 10, 10⟩)
  update st true (offsetRegion (st true) 5 5)

theorem regions_canonical_movedSquare : validateRectangles (movedSquare true).rects = true ∧
      (isRegionEqual (movedSquare true) (movedSquare false) = true ↔
        points (movedSquare true).rects = points (movedSquare false).rects) := by
  have hsquare : Reaches regionStep KeepsForm Fresh
      (update (fun _ : Bool => createEmptyRegion) true (setRegionRect ⟨0, 0, 10, 10⟩)) :=
    .next (a := .setRect true ⟨0, 0, 10, 10⟩) (.start fun _ => rfl) trivial rfl
  have hfits : OffsetFits (setRegionRect ⟨0, 0, 10, 10⟩) 5 5 := by
    intro r hr
    rw [mem_singleton.mp hr]
    decide
  have hmoved : Reaches regionStep KeepsForm Fresh movedSquare :=
    hsquare.next (a := .offset true 5 5) hfits rfl
  exact ⟨((regions_canonical hmoved).1 true).1, (regions_canonical hmoved).2 true false⟩

end WineForge.Regions
