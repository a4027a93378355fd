import Mathlib.Data.Real.Basic
import WineForge.Regions.RegionRuns

/-!
# The mirror image of a region

A coordinate is a line between two columns of pixels, so a region is also an area of the plane that
consists of closed rectangles. The loop of `mirror_region` writes the right rectangle of a pair to
both places, and so it mirrors only regions with one rectangle in each band.
-/

namespace WineForge.Regions

open List

def area (rects : List Rect) : Set (ℝ × ℝ) :=
  {p | ∃ r ∈ rects, (r.left : ℝ) ≤ p.1 ∧ p.1 ≤ r.right ∧ (r.top : ℝ) ≤ p.2 ∧ p.2 ≤ r.bottom}

def mirrorWidth (client : Rect) : Int := client.right - client.left

/-- The image of the plane under `x ↦ width - x`. -/
noncomputable def mirrorPoint (client : Rect) (p : ℝ × ℝ) : ℝ × ℝ :=
  ((mirrorWidth client : ℝ) - p.1, p.2)

/-- The pixel behind the line `x` becomes the one before the line `width - x`. -/
def mirrorPixel (client : Rect) (p : Int × Int) : Int × Int := (mirrorWidth client - 1 - p.1, p.2)

structure Rect.InInt32 (r : Rect) : Prop where
  left : Regions.InInt32 r.left
  top : Regions.InInt32 r.top
  right : Regions.InInt32 r.right
  bottom : Regions.InInt32 r.bottom

/-- The mirrored region is valid and the mirror image, and mirroring it again undoes the change. -/
structure Mirrored (client : Rect) (region : Region) : Prop where
  valid : validateRectangles (mirrorRegion client region).rects = true
  image : area (mirrorRegion client region).rects = mirrorPoint client '' area region.rects
  pixels : points (mirrorRegion client region).rects = mirrorPixel client '' points region.rects
  count : (mirrorRegion client region).rects.length = region.rects.length
  twice : mirrorRegion client (mirrorRegion client region) = region

/-- Every band is a single rectangle, and no mirrored coordinate overflows. -/
structure Mirrorable (client : Rect) (region : Region) : Prop where
  single : region.rects.Pairwise fun r r' => r.top ≠ r'.top
  fits : ∀ r ∈ region.rects, InInt32 (mirrorWidth client - r.left) ∧
    InInt32 (mirrorWidth client - r.right)

lemma toInt32_sub (x y : Int) : toInt32 (toInt32 x - y) = toInt32 (x - y) := by
  simp only [toInt32]
  omega

lemma toInt32_inInt32 (x : Int) : InInt32 (toInt32 x) := by
  rw [toInt32]
  constructor
  · omega
  · omega

lemma mirrorRect_eq_toInt32 (client r : Rect) :
    mirrorRect client r = ⟨toInt32 (mirrorWidth client - r.right), r.top,
      toInt32 (mirrorWidth client - r.left), r.bottom⟩ := by
  rw [mirrorRect, toInt32_sub, toInt32_sub]
  rfl

lemma mirrorRect_mirrorRect {client r : Rect} (hleft : InInt32 r.left) (hright : InInt32 r.right) :
    mirrorRect client (mirrorRect client r) = r := by
  have htwice : ∀ x, InInt32 x →
      toInt32 (mirrorWidth client - toInt32 (mirrorWidth client - x)) = x := by
    rintro x ⟨hlo, hhi⟩
    simp only [toInt32]
    omega
  rw [mirrorRect_eq_toInt32, mirrorRect_eq_toInt32, htwice _ hleft, htwice _ hright]

lemma length_mirrorBand (client : Rect) (rects : List Rect) (i j : ℕ) :
    (mirrorBand client rects i j).length = rects.length := by
  fun_induction mirrorBand client rects i j with
  | case1 rects i j hlt rect rects₁ rects₂ rects₃ ih =>
    rw [ih]
    simp [rects₃, rects₂, rects₁]
  | case2 rects j hlt => simp
  | case3 => rfl

lemma getElem?_mirrorBand (client : Rect) (rects : List Rect) (i j k : ℕ) (hk : k < i ∨ j < k) :
    (mirrorBand client rects i j)[k]? = rects[k]? := by
  fun_induction mirrorBand client rects i j with
  | case1 rects i j hlt rect rects₁ rects₂ rects₃ ih =>
    have hi : i ≠ k := by omega
    have hj : j ≠ k := by omega
    rw [ih (by omega)]
    simp [rects₃, rects₂, rects₁, hi, hj]
  | case2 rects j hlt =>
    have hj : j ≠ k := by omega
    simp [hj]
  | case3 => rfl

lemma mirrorBand_ends (client : Rect) (rects : List Rect) {i j : ℕ} (hlt : i < j)
    (hj : j < rects.length) :
    (mirrorBand client rects i j)[i]? = (mirrorBand client rects i j)[j]? := by
  have hi : i < rects.length := by omega
  have hne : i ≠ j := by omega
  rw [mirrorBand, if_pos hlt]
  rw [getElem?_mirrorBand client _ (i + 1) (j - 1) i (.inl (by omega)),
    getElem?_mirrorBand client _ (i + 1) (j - 1) j (.inr (by omega))]
  simp [hi, hj, hne, hne.symm]

lemma mirrorBand_not_banded (client : Rect) {rects : List Rect} (hlength : 2 ≤ rects.length) :
    ¬Banded (mirrorBand client rects 0 (rects.length - 1)) := by
  intro h
  have hsame := length_mirrorBand client rects 0 (rects.length - 1)
  have hends := mirrorBand_ends client rects (show 0 < rects.length - 1 by omega) (by omega)
  generalize mirrorBand client rects 0 (rects.length - 1) = out at h hsame hends
  have h₀ : 0 < out.length := by omega
  have h₁ : rects.length - 1 < out.length := by omega
  have hbefore := pairwise_iff_getElem.mp h.ordered 0 (rects.length - 1) h₀ h₁ (by omega)
  rw [getElem?_eq_getElem h₀, getElem?_eq_getElem h₁] at hends
  have heq : out[0] = out[rects.length - 1] := Option.some.inj hends
  have hwide := h.wide out[0] (getElem_mem h₀)
  have hhigh := h.high out[0] (getElem_mem h₀)
  rw [← heq] at hbefore
  obtain ⟨_, _, hgap⟩ | hbelow := hbefore
  · omega
  · omega

lemma single_of_mirrorBands {client : Rect} {rects : List Rect} (hb : Banded rects)
    (hmirrored : Banded (mirrorBands client rects)) :
    rects.Pairwise fun r r' => r.top ≠ r'.top := by
  fun_induction mirrorBands client rects with
  | case1 => exact .nil
  | case2 h t ih =>
    obtain ⟨_, hbelow, hrest⟩ := hb.first_band
    have hsplit := band_append_bandEnd (h :: t)
    have hfirst := hmirrored.sublist (sublist_append_left _ _)
    have hlast := hmirrored.sublist (sublist_append_right _ _)
    have hshort : ¬2 ≤ (band (h :: t)).length := fun hlength =>
      mirrorBand_not_banded client hlength hfirst
    have hband : band (h :: t) = [h] := by
      rw [band] at hshort ⊢
      rw [length_cons] at hshort
      have hempty : (t.takeWhile fun r => decide (r.top = h.top)).length = 0 := by omega
      rw [length_eq_zero_iff.mp hempty]
    have hend : bandEnd (h :: t) = t := by
      rw [hband] at hsplit
      exact tail_eq_of_cons_eq hsplit
    rw [hend] at ih hbelow hrest hlast
    rw [pairwise_cons]
    refine ⟨fun r hr => ?_, ih hrest hlast⟩
    have hhigh := hb.high h mem_cons_self
    have hlow := hbelow r hr
    omega

variable {client : Rect} {region : Region}

section

variable (h : Mirrorable client region)

include h

lemma Mirrorable.rects_eq :
    (mirrorRegion client region).rects = region.rects.map (mirrorRect client) :=
  mirrorBands_eq h.single

lemma Mirrorable.mirrorRect_eq {r : Rect} (hr : r ∈ region.rects) :
    mirrorRect client r = ⟨mirrorWidth client - r.right, r.top, mirrorWidth client - r.left,
      r.bottom⟩ := by
  obtain ⟨hleft, hright⟩ := h.fits r hr
  rw [mirrorRect_eq_toInt32, toInt32_of_inInt32 hleft, toInt32_of_inInt32 hright]

lemma Mirrorable.area_eq :
    area (mirrorRegion client region).rects = mirrorPoint client '' area region.rects := by
  rw [h.rects_eq]
  ext ⟨x, y⟩
  constructor
  · rintro ⟨m, hm, hleft, hright, hy⟩
    obtain ⟨r, hr, rfl⟩ := mem_map.mp hm
    rw [h.mirrorRect_eq hr] at hleft hright hy
    push_cast at hleft hright
    refine ⟨(mirrorWidth client - x, y), ⟨r, hr, ?_, ?_, hy⟩, ?_⟩
    · linarith
    · linarith
    · rw [mirrorPoint, sub_sub_cancel]
  · rintro ⟨⟨x', y'⟩, ⟨r, hr, hleft, hright, hy⟩, heq⟩
    obtain ⟨rfl, rfl⟩ := heq
    refine ⟨_, mem_map_of_mem hr, ?_⟩
    rw [h.mirrorRect_eq hr]
    push_cast
    refine ⟨?_, ?_, hy⟩
    · linarith
    · linarith

lemma Mirrorable.points_eq :
    points (mirrorRegion client region).rects = mirrorPixel client '' points region.rects := by
  rw [h.rects_eq]
  ext ⟨x, y⟩
  constructor
  · rintro ⟨m, hm, hleft, hright, hy⟩
    obtain ⟨r, hr, rfl⟩ := mem_map.mp hm
    rw [h.mirrorRect_eq hr] at hleft hright hy
    dsimp only at hleft hright
    refine ⟨(mirrorWidth client - 1 - x, y), ⟨r, hr, ?_, ?_, hy⟩, ?_⟩
    · omega
    · omega
    · rw [mirrorPixel, sub_sub_cancel]
  · rintro ⟨⟨x', y'⟩, ⟨r, hr, hleft, hright, hy⟩, heq⟩
    obtain ⟨rfl, rfl⟩ := heq
    refine ⟨_, mem_map_of_mem hr, ?_⟩
    rw [h.mirrorRect_eq hr]
    refine ⟨?_, ?_, hy⟩
    · dsimp only
      omega
    · dsimp only
      omega

lemma Mirrorable.banded (hb : Banded region.rects) : Banded (mirrorRegion client region).rects := by
  rw [h.rects_eq]
  constructor
  · intro m hm
    obtain ⟨r, hr, rfl⟩ := mem_map.mp hm
    have hwide := hb.wide r hr
    rw [h.mirrorRect_eq hr]
    dsimp only
    omega
  · intro m hm
    obtain ⟨r, hr, rfl⟩ := mem_map.mp hm
    exact hb.high r hr
  · rw [pairwise_map]
    apply (hb.ordered.and h.single).imp
    rintro r r' ⟨⟨htop, _⟩ | hle, hne⟩
    · exact absurd htop hne
    · exact .inr hle

lemma Mirrorable.twice (hints : ∀ r ∈ region.rects, r.InInt32) (hextents : region.extents.InInt32) :
    mirrorRegion client (mirrorRegion client region) = region := by
  have hsingle : (mirrorRegion client region).rects.Pairwise fun r r' => r.top ≠ r'.top := by
    rw [h.rects_eq, pairwise_map]
    exact h.single
  have hrects : mirrorBands client (mirrorRegion client region).rects = region.rects := by
    rw [mirrorBands_eq hsingle, h.rects_eq, map_map]
    refine (map_congr_left fun r hr => ?_).trans (map_id _)
    exact mirrorRect_mirrorRect (hints r hr).left (hints r hr).right
  have hext : mirrorRect client (mirrorRegion client region).extents = region.extents :=
    mirrorRect_mirrorRect hextents.left hextents.right
  calc mirrorRegion client (mirrorRegion client region)
      = ⟨mirrorBands client (mirrorRegion client region).rects,
          mirrorRect client (mirrorRegion client region).extents⟩ := rfl
    _ = region := by rw [hrects, hext]

end

lemma inInt32_of_image {x y : Int} (hsingle : region.rects.Pairwise fun r r' => r.top ≠ r'.top)
    (himage : area (mirrorRegion client region).rects = mirrorPoint client '' area region.rects)
    (hmem : ((x : ℝ), (y : ℝ)) ∈ area region.rects) : InInt32 (mirrorWidth client - x) := by
  have himg : mirrorPoint client (x, y) ∈ area (mirrorRegion client region).rects := by
    rw [himage]
    exact Set.mem_image_of_mem _ hmem
  have hrects : (mirrorRegion client region).rects = region.rects.map (mirrorRect client) :=
    mirrorBands_eq hsingle
  rw [hrects] at himg
  obtain ⟨m, hm, hleft, hright, _⟩ := himg
  obtain ⟨r, _, rfl⟩ := mem_map.mp hm
  rw [mirrorRect_eq_toInt32] at hleft hright
  dsimp only [mirrorPoint] at hleft hright
  have hlo : toInt32 (mirrorWidth client - r.right) ≤ mirrorWidth client - x := by
    exact_mod_cast hleft
  have hhi : mirrorWidth client - x ≤ toInt32 (mirrorWidth client - r.left) := by
    exact_mod_cast hright
  exact ⟨(toInt32_inInt32 _).1.trans hlo, hhi.trans_lt (toInt32_inInt32 _).2⟩

/-- The mirror image is exact if and only if no band has several rectangles and nothing overflows. -/
theorem mirror_region_exact (client : Rect) (region : Region)
    (hvalid : validateRectangles region.rects = true) (hints : ∀ r ∈ region.rects, r.InInt32)
    (hextents : region.extents.InInt32) : Mirrored client region ↔ Mirrorable client region := by
  have hb := validateRectangles_iff.mp hvalid
  constructor
  · intro h
    have hsingle := single_of_mirrorBands hb (validateRectangles_iff.mp h.valid)
    refine ⟨hsingle, fun r hr => ?_⟩
    have hwide : (r.left : ℝ) ≤ r.right := by exact_mod_cast (hb.wide r hr).le
    have hhigh : (r.top : ℝ) ≤ r.bottom := by exact_mod_cast (hb.high r hr).le
    exact ⟨inInt32_of_image hsingle h.image ⟨r, hr, le_refl _, hwide, le_refl _, hhigh⟩,
      inInt32_of_image hsingle h.image ⟨r, hr, hwide, le_refl _, le_refl _, hhigh⟩⟩
  · intro h
    refine ⟨validateRectangles_iff.mpr (h.banded hb), h.area_eq, h.points_eq, ?_,
      h.twice hints hextents⟩
    rw [h.rects_eq, length_map]

def cornerRegion : Region := ⟨[⟨0, 0, 2, 3⟩, ⟨0, 3, 6, 5⟩], ⟨0, 0, 6, 5⟩⟩

theorem mirror_region_exact_corner :
    Mirrored ⟨10, 0, 18, 8⟩ cornerRegion ↔ Mirrorable ⟨10, 0, 18, 8⟩ cornerRegion := by
  apply mirror_region_exact
  · decide
  · intro r hr
    simp only [cornerRegion, mem_cons, not_mem_nil, or_false] at hr
    obtain rfl | rfl := hr
    · exact ⟨by decide, by decide, by decide, by decide⟩
    · exact ⟨by decide, by decide, by decide, by decide⟩
  · exact ⟨by decide, by decide, by decide, by decide⟩

/-- Two legs side by side become the same leg twice, which is no valid region. -/
theorem mirrored_legs_lost : validateRectangles [⟨0, 0, 2, 3⟩, ⟨4, 0, 6, 3⟩] = true ∧
      ¬Mirrored ⟨0, 0, 8, 8⟩ ⟨[⟨0, 0, 2, 3⟩, ⟨4, 0, 6, 3⟩], ⟨0, 0, 6, 3⟩⟩ := by
  refine ⟨by decide, fun h => ?_⟩
  have hrects : (mirrorRegion ⟨0, 0, 8, 8⟩ ⟨[⟨0, 0, 2, 3⟩, ⟨4, 0, 6, 3⟩], ⟨0, 0, 6, 3⟩⟩).rects =
      [⟨2, 0, 4, 3⟩, ⟨2, 0, 4, 3⟩] := by
    simp [mirrorRegion, mirrorBands, band, bandEnd, mirrorBand, mirrorRect, toInt32]
  have hvalid := h.valid
  rw [hrects] at hvalid
  cases hvalid

end WineForge.Regions
