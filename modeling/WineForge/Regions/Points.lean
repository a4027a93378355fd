import Mathlib.Data.List.TakeWhile
import WineForge.Regions.State

/-!
# What a region means

A region is a set of points. The list is valid when no rectangle is empty and each one is before
all later ones: left of them in the same band, or in a band above theirs.
-/

namespace WineForge.Regions

open List

def Rect.Contains (r : Rect) (p : Int × Int) : Prop :=
  r.left ≤ p.1 ∧ p.1 < r.right ∧ r.top ≤ p.2 ∧ p.2 < r.bottom

def points (rects : List Rect) : Set (Int × Int) := {p | ∃ r ∈ rects, r.Contains p}

def columns (rects : List Rect) : Set Int := {x | ∃ r ∈ rects, r.left ≤ x ∧ x < r.right}

def Before (r r' : Rect) : Prop :=
  (r.top = r'.top ∧ r.bottom = r'.bottom ∧ r.right < r'.left) ∨ r.bottom ≤ r'.top

structure Banded (rects : List Rect) : Prop where
  wide : ∀ r ∈ rects, r.left < r.right
  high : ∀ r ∈ rects, r.top < r.bottom
  ordered : rects.Pairwise Before

/-- From left to right, with a gap between any two. -/
structure XOrdered (rects : List Rect) : Prop where
  wide : ∀ r ∈ rects, r.left < r.right
  ordered : rects.Pairwise fun r r' => r.right < r'.left

/-- A band from `top` to `bottom`. -/
structure Row (top bottom : Int) (rects : List Rect) : Prop extends XOrdered rects where
  top_eq : ∀ r ∈ rects, r.top = top
  bottom_eq : ∀ r ∈ rects, r.bottom = bottom

@[simp] lemma points_nil : points [] = ∅ := by
  simp [points]

variable {r : Rect} {rects first second : List Rect} {p : Int × Int}

@[simp] lemma mem_points_cons :
    p ∈ points (r :: rects) ↔ r.Contains p ∨ p ∈ points rects := by
  simp [points]

@[simp] lemma mem_points_append :
    p ∈ points (first ++ second) ↔ p ∈ points first ∨ p ∈ points second := by
  simp [points, or_and_right, exists_or]

@[simp] lemma columns_nil : columns [] = ∅ := by
  simp [columns]

@[simp] lemma mem_columns_cons {x : Int} :
    x ∈ columns (r :: rects) ↔ (r.left ≤ x ∧ x < r.right) ∨ x ∈ columns rects := by
  simp [columns]

@[simp] lemma mem_columns_append {x : Int} :
    x ∈ columns (first ++ second) ↔ x ∈ columns first ∨ x ∈ columns second := by
  simp [columns, or_and_right, exists_or]

lemma isRectEmpty_eq_false : isRectEmpty r = false ↔ r.left < r.right ∧ r.top < r.bottom := by
  simp [isRectEmpty]

lemma Before.trans {r' r'' : Rect} (hhigh : r'.top < r'.bottom) (hwide : r'.left < r'.right)
    (h : Before r r') (h' : Before r' r'') : Before r r'' := by
  obtain ⟨htop, hbottom, hleft⟩ | habove := h
  · obtain ⟨htop', hbottom', hleft'⟩ | habove' := h'
    · exact .inl ⟨htop.trans htop', hbottom.trans hbottom', by omega⟩
    · exact .inr (by omega)
  · obtain ⟨htop', _, _⟩ | habove' := h'
    · exact .inr (by omega)
    · exact .inr (by omega)

lemma banded_cons : Banded (r :: rects) ↔
      r.left < r.right ∧ r.top < r.bottom ∧ (∀ r' ∈ rects, Before r r') ∧ Banded rects := by
  constructor
  · intro h
    obtain ⟨hfirst, hrest⟩ := pairwise_cons.mp h.ordered
    exact ⟨h.wide r (by simp), h.high r (by simp), hfirst,
      fun r' hr' => h.wide r' (mem_cons_of_mem r hr'),
      fun r' hr' => h.high r' (mem_cons_of_mem r hr'), hrest⟩
  · rintro ⟨hwide, hhigh, hfirst, hrest⟩
    refine ⟨?_, ?_, pairwise_cons.mpr ⟨hfirst, hrest.ordered⟩⟩
    · intro r' hr'
      obtain rfl | hr' := mem_cons.mp hr'
      · exact hwide
      · exact hrest.wide r' hr'
    intro r' hr'
    obtain rfl | hr' := mem_cons.mp hr'
    · exact hhigh
    · exact hrest.high r' hr'

/-- The check on neighbours is a check on all pairs. -/
theorem validateRectangles_iff : validateRectangles rects = true ↔ Banded rects := by
  induction rects with
  | nil => exact ⟨fun _ => ⟨by simp, by simp, .nil⟩, fun _ => rfl⟩
  | cons r rects ih =>
    rw [banded_cons]
    cases rects with
    | nil =>
      have hnil : Banded [] := ⟨by simp, by simp, .nil⟩
      cases hempty : isRectEmpty r with
      | true =>
        have hnot : ¬(r.left < r.right ∧ r.top < r.bottom) := by
          rw [← isRectEmpty_eq_false, hempty]
          simp
        constructor
        · intro h
          simp [validateRectangles, hempty] at h
        · intro h
          exact absurd ⟨h.1, h.2.1⟩ hnot
      | false =>
        obtain ⟨hwide, hhigh⟩ := isRectEmpty_eq_false.mp hempty
        simp [validateRectangles, hempty, hwide, hhigh, hnil]
    | cons next rects =>
      -- the first rectangle is before all others when it is before its neighbour
      have hneighbour : Banded (next :: rects) → r.top < r.bottom →
          ((∀ r' ∈ next :: rects, Before r r') ↔ Before r next) := by
        intro hrest _
        refine ⟨fun h => h next (by simp), fun h r' hr' => ?_⟩
        obtain rfl | hr' := mem_cons.mp hr'
        · exact h
        · exact h.trans (hrest.high next (by simp)) (hrest.wide next (by simp))
            ((pairwise_cons.mp hrest.ordered).1 r' hr')
      have hcheck : validateRectangles (r :: next :: rects) = true ↔
          isRectEmpty r = false ∧ Before r next ∧ validateRectangles (next :: rects) = true := by
        rw [validateRectangles]
        unfold Before
        cases hempty : isRectEmpty r with
        | true => simp
        | false =>
          obtain ⟨_, hhigh⟩ := isRectEmpty_eq_false.mp hempty
          by_cases htop : r.top = next.top
          · by_cases hbottom : r.bottom = next.bottom
            · by_cases hleft : r.right ≥ next.left
              · have hnot' : ¬next.bottom ≤ next.top := by omega
                simp [htop, hbottom, hleft, hnot, hnot']
              · have hlt : r.right < next.left := by omega
                simp [htop, hbottom, hlt]
            · have hnot : ¬r.bottom ≤ next.top := by omega
              simp [htop, hbottom, hnot]
          by_cases hbottom : r.bottom > next.top
          · simp [htop, hbottom, hnot]
          · have hle : r.bottom ≤ next.top := by omega
            simp [htop, hle]
      rw [hcheck, ih, isRectEmpty_eq_false]
      constructor
      · rintro ⟨⟨hwide, hhigh⟩, hbefore, hrest⟩
        exact ⟨hwide, hhigh, (hneighbour hrest hhigh).mpr hbefore, hrest⟩
      · rintro ⟨hwide, hhigh, hall, hrest⟩
        exact ⟨⟨hwide, hhigh⟩, (hneighbour hrest hhigh).mp hall, hrest⟩

lemma Banded.tail (h : Banded (r :: rects)) : Banded rects :=
  (banded_cons.mp h).2.2.2

lemma Banded.sublist (h : Banded second) (hsub : first.Sublist second) : Banded first where
  wide r hr := h.wide r (hsub.subset hr)
  high r hr := h.high r (hsub.subset hr)
  ordered := h.ordered.sublist hsub

lemma band_append_bandEnd (rects : List Rect) : band rects ++ bandEnd rects = rects := by
  cases rects with
  | nil => rfl
  | cons r rects =>
    rw [band, bandEnd, cons_append, takeWhile_append_dropWhile]

lemma mem_band_top {h : Rect} {t : List Rect} (hr : r ∈ band (h :: t)) : r.top = h.top := by
  obtain rfl | hr := mem_cons.mp hr
  · rfl
  · simpa using mem_takeWhile_imp hr

lemma Banded.first_band {h : Rect} {t : List Rect} (hb : Banded (h :: t)) :
    Row h.top h.bottom (band (h :: t)) ∧ (∀ r ∈ bandEnd (h :: t), h.bottom ≤ r.top) ∧
      Banded (bandEnd (h :: t)) := by
  have hsplit := band_append_bandEnd (h :: t)
  have hsub : (band (h :: t)).Sublist (h :: t) := by
    conv_rhs => rw [← hsplit]
    exact sublist_append_left _ _
  have hsub' : (bandEnd (h :: t)).Sublist (h :: t) := by
    conv_rhs => rw [← hsplit]
    exact sublist_append_right _ _
  have hband := hb.sublist hsub
  have hrest := hb.sublist hsub'
  have hfirst := (banded_cons.mp hb).2.2.1
  have hhigh := (banded_cons.mp hb).2.1
  refine ⟨⟨⟨hband.wide, ?_⟩, fun r hr => mem_band_top hr, ?_⟩, ?_, hrest⟩
  · apply hband.ordered.imp_of_mem
    intro r r' hr hr' hbefore
    have htop := mem_band_top hr
    have htop' := mem_band_top hr'
    have hr'high := hband.high r hr
    obtain ⟨_, _, hleft⟩ | habove := hbefore
    · exact hleft
    · omega
  · intro r hr
    have htop := mem_band_top hr
    obtain rfl | hr := mem_cons.mp hr
    · rfl
    have hmem : r ∈ t := (takeWhile_sublist _).subset hr
    obtain ⟨_, hbottom, _⟩ | habove := hfirst r hmem
    · exact hbottom.symm
    · omega
  -- the rectangle behind the band lies below it, and the later ones do not lie higher
  cases hend : bandEnd (h :: t) with
  | nil => simp
  | cons d ds =>
    have hmem : d ∈ t := by
      have hsuffix : d ∈ bandEnd (h :: t) := by simp [hend]
      exact (dropWhile_sublist _).subset hsuffix
    have hd : d.top ≠ h.top := by
      have hnot := head?_dropWhile_not (fun r : Rect => decide (r.top = h.top)) t
      have hdrop : t.dropWhile (fun r => decide (r.top = h.top)) = d :: ds := hend
      simpa [hdrop] using hnot
    have habove : h.bottom ≤ d.top := by
      obtain ⟨htop, _, _⟩ | habove := hfirst d hmem
      · exact absurd htop.symm hd
      · exact habove
    rw [hend] at hrest
    intro r hr
    obtain rfl | hr := mem_cons.mp hr
    · exact habove
    have hdhigh := hrest.high d (by simp)
    obtain ⟨htop, _, _⟩ | hbelow := (banded_cons.mp hrest).2.2.1 r hr
    · omega
    · omega

lemma Row.mem_points {top bottom : Int} (h : Row top bottom rects) :
    p ∈ points rects ↔ p.1 ∈ columns rects ∧ top ≤ p.2 ∧ p.2 < bottom := by
  constructor
  · rintro ⟨r, hr, hleft, hright, htop, hbottom⟩
    rw [h.top_eq r hr] at htop
    rw [h.bottom_eq r hr] at hbottom
    exact ⟨⟨r, hr, hleft, hright⟩, htop, hbottom⟩
  · rintro ⟨⟨r, hr, hleft, hright⟩, htop, hbottom⟩
    rw [← h.top_eq r hr] at htop
    rw [← h.bottom_eq r hr] at hbottom
    exact ⟨r, hr, hleft, hright, htop, hbottom⟩

end WineForge.Regions
