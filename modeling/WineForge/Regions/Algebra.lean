import WineForge.Regions.Sweep

/-!
# Region algebra

The set operations on regions whose extents are right. The destination may be one of the sources
or both.
-/

namespace WineForge.Regions

open Function List Option

/-- The smallest rectangle that contains all points, and `emptyRect` when there are none. -/
def IsBoundingBox (box : Rect) (P : Set (Int × Int)) : Prop :=
  (P = ∅ ∧ box = emptyRect) ∨
  ((∀ p ∈ P, box.Contains p) ∧ (∃ p ∈ P, p.1 = box.left) ∧ (∃ p ∈ P, p.2 = box.top) ∧
    (∃ p ∈ P, p.1 + 1 = box.right) ∧ ∃ p ∈ P, p.2 + 1 = box.bottom)

structure WellFormed (region : Region) : Prop where
  valid : validateRectangles region.rects = true
  box : IsBoundingBox region.extents (points region.rects)

variable {rects : List Rect} {region : Region}

lemma points_eq_empty (hb : Banded rects) : points rects = ∅ ↔ rects = [] := by
  constructor
  · intro h
    cases rects with
    | nil => rfl
    | cons r rects =>
      have hmem : (r.left, r.top) ∈ points (r :: rects) :=
        ⟨r, mem_cons_self, le_rfl, hb.wide r mem_cons_self, le_rfl, hb.high r mem_cons_self⟩
      rw [h] at hmem
      exact absurd hmem (Set.notMem_empty _)
  · rintro rfl
    exact points_nil

lemma IsBoundingBox.contains {box : Rect} {P : Set (Int × Int)} (h : IsBoundingBox box P)
    {p : Int × Int} (hp : p ∈ P) : box.Contains p := by
  obtain ⟨rfl, _⟩ | ⟨hall, _⟩ := h
  · exact absurd hp (Set.notMem_empty p)
  · exact hall p hp

lemma growExtents_eq (box r : Rect) :
    growExtents box r = ⟨min box.left r.left, box.top, max box.right r.right, box.bottom⟩ := by
  rw [min_comm, min_def_lt, max_def_lt, growExtents]
  by_cases hleft : r.left < box.left
  · rw [if_pos hleft, if_pos hleft]
    by_cases hright : box.right < r.right
    · rw [if_pos hright, if_pos hright]
    · rw [if_neg hright, if_neg hright]
  rw [if_neg hleft, if_neg hleft]
  by_cases hright : box.right < r.right
  · rw [if_pos hright, if_pos hright]
  · rw [if_neg hright, if_neg hright]

lemma foldl_growExtents (rects : List Rect) (box : Rect) :
    ∃ left right, rects.foldl growExtents box = ⟨left, box.top, right, box.bottom⟩ ∧
      (∀ r ∈ rects, left ≤ r.left ∧ r.right ≤ right) ∧ left ≤ box.left ∧ box.right ≤ right ∧
      (left = box.left ∨ ∃ r ∈ rects, r.left = left) ∧
      (right = box.right ∨ ∃ r ∈ rects, r.right = right) := by
  induction rects generalizing box with
  | nil => exact ⟨box.left, box.right, rfl, by simp, le_rfl, le_rfl, .inl rfl, .inl rfl⟩
  | cons r rects ih =>
    obtain ⟨left, right, heq, hall, hleft, hright, hleftAt, hrightAt⟩ := ih (growExtents box r)
    rw [growExtents_eq] at heq hleft hright hleftAt hrightAt
    refine ⟨left, right, ?_, ?_, hleft.trans (min_le_left _ _), (le_max_left _ _).trans hright,
      ?_, ?_⟩
    · rw [foldl_cons, growExtents_eq, heq]
    · intro r' hr'
      obtain rfl | hr' := mem_cons.mp hr'
      · exact ⟨hleft.trans (min_le_right _ _), (le_max_right _ _).trans hright⟩
      · exact hall r' hr'
    · obtain heq | ⟨r', hr', heq⟩ := hleftAt
      · obtain hmin | hmin := min_choice box.left r.left
        · exact .inl (heq.trans hmin)
        · exact .inr ⟨r, mem_cons_self, (heq.trans hmin).symm⟩
      · exact .inr ⟨r', mem_cons_of_mem r hr', heq⟩
    obtain heq | ⟨r', hr', heq⟩ := hrightAt
    · obtain hmax | hmax := max_choice box.right r.right
      · exact .inl (heq.trans hmax)
      · exact .inr ⟨r, mem_cons_self, (heq.trans hmax).symm⟩
    · exact .inr ⟨r', mem_cons_of_mem r hr', heq⟩

lemma Banded.corner_mem (hb : Banded rects) {r : Rect} (hr : r ∈ rects) :
    (r.left, r.top) ∈ points rects ∧ (r.right - 1, r.bottom - 1) ∈ points rects := by
  have hwide := hb.wide r hr
  have hhigh := hb.high r hr
  exact ⟨⟨r, hr, le_rfl, hwide, le_rfl, hhigh⟩,
    ⟨r, hr, by dsimp only; omega, by dsimp only; omega, by dsimp only; omega, by dsimp only; omega⟩⟩

lemma Banded.getLast_bottom (hb : Banded rects) {last : Rect}
    (hlast : rects.getLast? = some last) {r : Rect} (hr : r ∈ rects) : r.bottom ≤ last.bottom := by
  obtain ⟨init, rfl⟩ := getLast?_eq_some_iff.mp hlast
  obtain hr | hr := mem_append.mp hr
  · have hhigh := hb.high last (by simp)
    obtain ⟨_, hbottom, _⟩ | hle := (banded_append.mp hb).2.2 r hr last (by simp)
    · exact hbottom.le
    · omega
  · rw [mem_singleton.mp hr]

/-- The extents that are computed from a valid list are the bounding box of its points. -/
theorem regionExtents_isBoundingBox (hb : Banded rects) :
    IsBoundingBox (regionExtents rects) (points rects) := by
  cases rects with
  | nil => exact .inl ⟨points_nil, rfl⟩
  | cons first rest =>
    right
    obtain ⟨last, hlast⟩ :=
      isSome_iff_exists.mp (getLast?_isSome.mpr (cons_ne_nil first rest))
    have hlastmem := mem_of_getLast? hlast
    have hfirstmem : first ∈ first :: rest := mem_cons_self
    obtain ⟨left, right, heq, hall, hleft, hright, hleftAt, hrightAt⟩ :=
      foldl_growExtents (first :: rest) ⟨first.left, first.top, last.right, last.bottom⟩
    have hext : regionExtents (first :: rest) = ⟨left, first.top, right, last.bottom⟩ := by
      rw [← heq, regionExtents, hlast]
      rfl
    have htop : ∀ r ∈ first :: rest, first.top ≤ r.top := by
      intro r hr
      have hhigh := hb.high first hfirstmem
      obtain rfl | hr := mem_cons.mp hr
      · exact le_rfl
      · obtain ⟨htop, _⟩ | hle := (banded_cons.mp hb).2.2.1 r hr
        · exact htop.le
        · omega
    rw [hext]
    refine ⟨?_, ?_, ?_, ?_, ?_⟩
    · rintro p ⟨r, hr, hpleft, hpright, hptop, hpbottom⟩
      have hsides := hall r hr
      have hrtop := htop r hr
      have hrbottom := hb.getLast_bottom hlast hr
      exact ⟨hsides.1.trans hpleft, hpright.trans_le hsides.2, hrtop.trans hptop,
        hpbottom.trans_le hrbottom⟩
    · obtain heq | ⟨r, hr, heq⟩ := hleftAt
      · exact ⟨_, (hb.corner_mem hfirstmem).1, heq.symm⟩
      · exact ⟨_, (hb.corner_mem hr).1, heq⟩
    · exact ⟨_, (hb.corner_mem hfirstmem).1, rfl⟩
    · obtain heq | ⟨r, hr, heq⟩ := hrightAt
      · exact ⟨_, (hb.corner_mem hlastmem).2, by dsimp only at heq ⊢; omega⟩
      · exact ⟨_, (hb.corner_mem hr).2, by dsimp only; omega⟩
    · exact ⟨_, (hb.corner_mem hlastmem).2, by dsimp only; omega⟩

lemma setRegionExtents_wellFormed (hb : Banded region.rects) :
    WellFormed (setRegionExtents region) where
  valid := validateRectangles_iff.mpr hb
  box := regionExtents_isBoundingBox hb

lemma empty_wellFormed : WellFormed ⟨[], emptyRect⟩ where
  valid := rfl
  box := .inl ⟨points_nil, rfl⟩

lemma WellFormed.banded (h : WellFormed region) : Banded region.rects :=
  validateRectangles_iff.mp h.valid

lemma WellFormed.extents_top_le (h : WellFormed region) :
    ∀ r ∈ region.rects, region.extents.top ≤ r.top := by
  intro r hr
  exact (h.box.contains (h.banded.corner_mem hr).1).2.2.1

lemma disjoint_of_extentCheck {reg1 reg2 : Region} (h1 : WellFormed reg1) (h2 : WellFormed reg2)
    (hcheck : extentCheck reg1.extents reg2.extents = false) {p : Int × Int}
    (hp1 : p ∈ points reg1.rects) : p ∉ points reg2.rects := by
  intro hp2
  obtain ⟨hleft1, hright1, htop1, hbottom1⟩ := h1.box.contains hp1
  obtain ⟨hleft2, hright2, htop2, hbottom2⟩ := h2.box.contains hp2
  have hoverlap : extentCheck reg1.extents reg2.extents = true := by
    simp only [extentCheck, Bool.and_eq_true, decide_eq_true_eq]
    omega
  rw [hcheck] at hoverlap
  exact Bool.false_ne_true hoverlap

lemma covers_subset {reg1 reg2 : Region} (h1 : WellFormed reg1) (h2 : WellFormed reg2)
    (hcovers : covers reg1 reg2.extents = true) : points reg2.rects ⊆ points reg1.rects := by
  simp only [covers, Bool.and_eq_true, decide_eq_true_eq] at hcovers
  obtain ⟨⟨⟨⟨hlen, hleft⟩, htop⟩, hright⟩, hbottom⟩ := hcovers
  obtain ⟨r, hr⟩ := length_eq_one_iff.mp hlen
  have hmem : r ∈ reg1.rects := by simp [hr]
  have hbox : r.left ≤ reg1.extents.left ∧ r.top ≤ reg1.extents.top ∧
      reg1.extents.right ≤ r.right ∧ reg1.extents.bottom ≤ r.bottom := by
    obtain ⟨hempty, _⟩ | ⟨_, ⟨p, hp, hpl⟩, ⟨q, hq, hqt⟩, ⟨p', hp', hpr⟩, q', hq', hqb⟩ := h1.box
    · rw [points_eq_empty h1.banded, hr] at hempty
      simp at hempty
    rw [hr, mem_points_cons, points_nil, Set.mem_empty_iff_false, or_false] at hp hq hp' hq'
    have hpc := hp.1
    have hqc := hq.2.2.1
    have hpc' := hp'.2.1
    have hqc' := hq'.2.2.2
    omega
  intro p hp
  obtain ⟨hpl, hpr, hpt, hpb⟩ := h2.box.contains hp
  exact ⟨r, hmem, by omega, by omega, by omega, by omega⟩

variable {L : Type*}

/-- The destination is a valid region of the points in `T`, and nothing else has changed. It is
coalesced when both sources are. -/
structure Computed (st st' : Store L) (dst src1 src2 : L) (T : Set (Int × Int)) : Prop where
  wellFormed : WellFormed (st' dst)
  points_eq : points (st' dst).rects = T
  frame : ∀ l, l ≠ dst → st' l = st l
  coalesced : Coalesced (st src1).rects → Coalesced (st src2).rects →
    Coalesced (st' dst).rects

/-- The destination has exactly the points in `T`, as a valid list with its bounding box. The other
regions are what they were. -/
structure Exact (st st' : Store L) (dst : L) (T : Set (Int × Int)) : Prop where
  points_eq : points (st' dst).rects = T
  valid : validateRectangles (st' dst).rects = true
  box : IsBoundingBox (st' dst).extents T
  unchanged : ∀ l, l ≠ dst → st' l = st l

lemma Computed.exact {st st' : Store L} {dst src1 src2 : L} {T : Set (Int × Int)}
    (h : Computed st st' dst src1 src2 T) : Exact st st' dst T where
  points_eq := h.points_eq
  valid := h.wellFormed.valid
  box := h.points_eq ▸ h.wellFormed.box
  unchanged := h.frame

variable [DecidableEq L]

lemma computed_update {st : Store L} {dst src1 src2 : L} {T : Set (Int × Int)}
    (hwf : WellFormed region) (hpoints : points region.rects = T)
    (hcoalesced : Coalesced (st src1).rects → Coalesced (st src2).rects → Coalesced region.rects) :
    Computed st (update st dst region) dst src1 src2 T where
  wellFormed := by rwa [update_self]
  points_eq := by rwa [update_self]
  frame l hl := update_of_ne hl _ _
  coalesced := by rwa [update_self]

lemma copyRegion_eq (st : Store L) (dst src : L) :
    copyRegion st dst src = update st dst (st src) := by
  rw [copyRegion]
  by_cases h : dst = src
  · rw [if_pos h, h, update_eq_self]
  · rw [if_neg h]

variable {st : Store L} {src1 src2 : L}

theorem intersectRegion_computed (dst : L) (h1 : WellFormed (st src1)) (h2 : WellFormed (st src2)) :
    Computed st (intersectRegion st dst src1 src2) dst src1 src2
      (points (st src1).rects ∩ points (st src2).rects) := by
  rw [intersectRegion]
  by_cases hfast : (st src1).rects = [] ∨ (st src2).rects = [] ∨
      extentCheck (st src1).extents (st src2).extents = false
  · rw [if_pos hfast]
    have hnone : points (st src1).rects ∩ points (st src2).rects = ∅ := by
      rw [Set.eq_empty_iff_forall_notMem]
      rintro p ⟨hp1, hp2⟩
      obtain hempty | hempty | hcheck := hfast
      · simp [hempty] at hp1
      · simp [hempty] at hp2
      · exact disjoint_of_extentCheck h1 h2 hcheck hp1 hp2
    rw [hnone]
    exact computed_update empty_wellFormed points_nil fun _ _ => by simp [Coalesced]
  rw [if_neg hfast]
  obtain ⟨hbanded, hpoints, hcoalesced⟩ := regionOp_spec intersect_computes h1.banded h2.banded
    h1.extents_top_le h2.extents_top_le
  exact computed_update (setRegionExtents_wellFormed hbanded) hpoints fun h1 h2 =>
    hcoalesced (fun _ => h1) fun _ => h2

theorem subtractRegion_computed (dst : L) (h1 : WellFormed (st src1)) (h2 : WellFormed (st src2)) :
    Computed st (subtractRegion st dst src1 src2) dst src1 src2
      (points (st src1).rects \ points (st src2).rects) := by
  rw [subtractRegion]
  by_cases hfast : (st src1).rects = [] ∨ (st src2).rects = [] ∨
      extentCheck (st src1).extents (st src2).extents = false
  · rw [if_pos hfast, copyRegion_eq]
    apply computed_update h1 _ fun h _ => h
    ext p
    refine ⟨fun hp => ⟨hp, fun hp2 => ?_⟩, fun hp => hp.1⟩
    obtain hempty | hempty | hcheck := hfast
    · simp [hempty] at hp
    · simp [hempty] at hp2
    · exact disjoint_of_extentCheck h1 h2 hcheck hp hp2
  rw [if_neg hfast]
  obtain ⟨hbanded, hpoints, hcoalesced⟩ := regionOp_spec subtract_computes h1.banded h2.banded
    h1.extents_top_le h2.extents_top_le
  exact computed_update (setRegionExtents_wellFormed hbanded) hpoints fun h1 h2 =>
    hcoalesced (fun _ => h1) fun _ => h2

lemma unionExtents_eq (st : Store L) (dst src1 src2 : L) :
    unionExtents st dst src1 src2 = update st dst
      { st dst with
        extents :=
          ⟨min (st src1).extents.left (st src2).extents.left,
            min (st src1).extents.top (st src2).extents.top,
            max (st src1).extents.right (st src2).extents.right,
            max (st src1).extents.bottom (st src2).extents.bottom⟩ } := by
  simp only [unionExtents, setExtents, update_self, update_idem]
  by_cases h1 : src1 = dst
  · by_cases h2 : src2 = dst
    · simp [h1, h2]
    · simp [h1, h2, update_of_ne]
  · by_cases h2 : src2 = dst
    · simp [h1, h2, update_of_ne]
    · simp [h1, h2, update_of_ne]

lemma IsBoundingBox.union {b1 b2 : Rect} {P1 P2 : Set (Int × Int)} (h1 : IsBoundingBox b1 P1)
    (h2 : IsBoundingBox b2 P2) (hne1 : P1 ≠ ∅) (hne2 : P2 ≠ ∅) :
    IsBoundingBox ⟨min b1.left b2.left, min b1.top b2.top, max b1.right b2.right,
      max b1.bottom b2.bottom⟩ (P1 ∪ P2) := by
  obtain ⟨hall1, hleft1, htop1, hright1, hbottom1⟩ := h1.resolve_left fun h => hne1 h.1
  obtain ⟨hall2, hleft2, htop2, hright2, hbottom2⟩ := h2.resolve_left fun h => hne2 h.1
  have hreach : ∀ {f : Int × Int → Int} {a b c : Int}, c = a ∨ c = b → (∃ p ∈ P1, f p = a) →
      (∃ p ∈ P2, f p = b) → ∃ p ∈ P1 ∪ P2, f p = c := by
    rintro f a b c (rfl | rfl) ⟨p, hp, hfp⟩ ⟨q, hq, hfq⟩
    · exact ⟨p, .inl hp, hfp⟩
    · exact ⟨q, .inr hq, hfq⟩
  refine .inr ⟨?_, hreach (min_choice _ _) hleft1 hleft2, hreach (min_choice _ _) htop1 htop2,
    hreach (max_choice _ _) hright1 hright2, hreach (max_choice _ _) hbottom1 hbottom2⟩
  rintro p (hp | hp)
  · obtain ⟨hpl, hpr, hpt, hpb⟩ := hall1 p hp
    exact ⟨(min_le_left _ _).trans hpl, hpr.trans_le (le_max_left _ _),
      (min_le_left _ _).trans hpt, hpb.trans_le (le_max_left _ _)⟩
  · obtain ⟨hpl, hpr, hpt, hpb⟩ := hall2 p hp
    exact ⟨(min_le_right _ _).trans hpl, hpr.trans_le (le_max_right _ _),
      (min_le_right _ _).trans hpt, hpb.trans_le (le_max_right _ _)⟩

theorem unionRegion_computed (dst : L) (h1 : WellFormed (st src1)) (h2 : WellFormed (st src2)) :
    Computed st (unionRegion st dst src1 src2) dst src1 src2
      (points (st src1).rects ∪ points (st src2).rects) := by
  rw [unionRegion]
  by_cases hsame : src1 = src2
  · rw [if_pos hsame, copyRegion_eq]
    apply computed_update h1 _ fun h _ => h
    rw [hsame, Set.union_self]
  rw [if_neg hsame]
  by_cases hempty1 : (st src1).rects = []
  · rw [if_pos hempty1, copyRegion_eq]
    apply computed_update h2 _ fun _ h => h
    rw [hempty1, points_nil, Set.empty_union]
  rw [if_neg hempty1]
  by_cases hempty2 : (st src2).rects = []
  · rw [if_pos hempty2, copyRegion_eq]
    apply computed_update h1 _ fun h _ => h
    rw [hempty2, points_nil, Set.union_empty]
  rw [if_neg hempty2]
  by_cases hcovers1 : covers (st src1) (st src2).extents = true
  · rw [if_pos hcovers1, copyRegion_eq]
    apply computed_update h1 _ fun h _ => h
    exact (Set.union_eq_left.mpr (covers_subset h1 h2 hcovers1)).symm
  rw [if_neg hcovers1]
  by_cases hcovers2 : covers (st src2) (st src1).extents = true
  · rw [if_pos hcovers2, copyRegion_eq]
    apply computed_update h2 _ fun _ h => h
    exact (Set.union_eq_right.mpr (covers_subset h2 h1 hcovers2)).symm
  rw [if_neg hcovers2]
  obtain ⟨hbanded, hpoints, hcoalesced⟩ := regionOp_spec union_computes h1.banded h2.banded
    h1.extents_top_le h2.extents_top_le
  have hpoints' : points (regionOp (st src1) (st src2) unionOverlapping (some unionNonOverlapping)
      (some unionNonOverlapping)) = points (st src1).rects ∪ points (st src2).rects := hpoints
  have hbox := h1.box.union h2.box (fun h => hempty1 ((points_eq_empty h1.banded).mp h))
    (fun h => hempty2 ((points_eq_empty h2.banded).mp h))
  rw [← hpoints'] at hbox
  -- the destination keeps its old extents until the new ones are written
  have hext : ∀ l : L, (update st dst
      { st dst with
        rects := regionOp (st src1) (st src2) unionOverlapping (some unionNonOverlapping)
          (some unionNonOverlapping) } l).extents = (st l).extents := by
    intro l
    by_cases hl : l = dst
    · rw [hl, update_self]
    · rw [update_of_ne hl]
  rw [unionExtents_eq, hext, hext, update_idem, update_self]
  exact computed_update ⟨validateRectangles_iff.mpr hbanded, hbox⟩ hpoints' fun h1 h2 =>
    hcoalesced (fun _ => h1) fun _ => h2

theorem xorRegion_computed (dst : L) (h1 : WellFormed (st src1)) (h2 : WellFormed (st src2)) :
    Computed st (xorRegion st dst src1 src2) dst src1 src2
      ((points (st src1).rects \ points (st src2).rects) ∪
        (points (st src2).rects \ points (st src1).rects)) := by
  obtain ⟨st0, hxor, hst0⟩ : ∃ st0 : Store (Option L),
      (∀ l, xorRegion st dst src1 src2 l = unionRegion (subtractRegion (subtractRegion st0 none
        (some src1) (some src2)) (some dst) (some src2) (some src1)) (some dst) (some dst) none
        (some l)) ∧ ∀ l, st0 (some l) = st l := ⟨_, fun _ => rfl, fun _ => rfl⟩
  have hfirst := @subtractRegion_computed _ _ st0 (some src1) (some src2) none
    ((hst0 src1).symm ▸ h1) ((hst0 src2).symm ▸ h2)
  set st1 := subtractRegion st0 none (some src1) (some src2) with hst1
  have hst1some : ∀ l, st1 (some l) = st l := fun l =>
    (hfirst.frame _ (some_ne_none l)).trans (hst0 l)
  have hsecond := @subtractRegion_computed _ _ st1 (some src2) (some src1) (some dst)
    (hst1some src2 ▸ h2) (hst1some src1 ▸ h1)
  set st2 := subtractRegion st1 (some dst) (some src2) (some src1) with hst2
  have htemp : st2 none = st1 none := hsecond.frame _ (some_ne_none dst).symm
  have hthird := @unionRegion_computed _ _ st2 (some dst) none (some dst) hsecond.wellFormed
    (htemp ▸ hfirst.wellFormed)
  have hresult : ∀ l, xorRegion st dst src1 src2 l =
      unionRegion st2 (some dst) (some dst) none (some l) := hxor
  refine ⟨hresult dst ▸ hthird.wellFormed, ?_, ?_, ?_⟩
  · rw [hresult, hthird.points_eq, hsecond.points_eq, htemp, hfirst.points_eq, hst1some, hst1some,
      hst0, hst0, Set.union_comm]
  · intro l hl
    have hne : some l ≠ some dst := fun h => hl (some.inj h)
    rw [hresult, hthird.frame _ hne, hsecond.frame _ hne, hst1some]
  intro hc1 hc2
  rw [hresult]
  apply hthird.coalesced
  · apply hsecond.coalesced
    · rw [hst1some]
      exact hc2
    · rw [hst1some]
      exact hc1
  · rw [htemp]
    exact hfirst.coalesced ((hst0 src1).symm ▸ hc1) ((hst0 src2).symm ▸ hc2)

/-- The region algebra is exact for any aliasing of the destination and the sources. -/
theorem region_algebra_exact (st : Store L) (dst src1 src2 : L) (h1 : WellFormed (st src1))
    (h2 : WellFormed (st src2)) :
    Exact st (intersectRegion st dst src1 src2) dst
      (points (st src1).rects ∩ points (st src2).rects) ∧
    Exact st (subtractRegion st dst src1 src2) dst
      (points (st src1).rects \ points (st src2).rects) ∧
    Exact st (unionRegion st dst src1 src2) dst (points (st src1).rects ∪ points (st src2).rects) ∧
    Exact st (xorRegion st dst src1 src2) dst ((points (st src1).rects \ points (st src2).rects) ∪
        (points (st src2).rects \ points (st src1).rects)) :=
  ⟨(intersectRegion_computed dst h1 h2).exact, (subtractRegion_computed dst h1 h2).exact,
    (unionRegion_computed dst h1 h2).exact, (xorRegion_computed dst h1 h2).exact⟩

def twoSquares : Store Bool := fun l =>
  if l then ⟨[⟨0, 0, 10, 10⟩], ⟨0, 0, 10, 10⟩⟩ else ⟨[⟨5, 5, 15, 15⟩], ⟨5, 5, 15, 15⟩⟩

lemma twoSquares_wellFormed (l : Bool) : WellFormed (twoSquares l) := by
  have hvalid : validateRectangles (twoSquares l).rects = true := by cases l <;> decide
  have hext : (twoSquares l).extents = regionExtents (twoSquares l).rects := by
    cases l <;> decide
  exact ⟨hvalid, hext ▸ regionExtents_isBoundingBox (validateRectangles_iff.mp hvalid)⟩

theorem region_algebra_exact_twoSquares :
    Exact twoSquares (intersectRegion twoSquares true true false) true
      (points (twoSquares true).rects ∩ points (twoSquares false).rects) ∧
    Exact twoSquares (subtractRegion twoSquares true true false) true
      (points (twoSquares true).rects \ points (twoSquares false).rects) ∧
    Exact twoSquares (unionRegion twoSquares true true false) true
      (points (twoSquares true).rects ∪ points (twoSquares false).rects) ∧
    Exact twoSquares (xorRegion twoSquares true true false) true
      ((points (twoSquares true).rects \ points (twoSquares false).rects) ∪
        (points (twoSquares false).rects \ points (twoSquares true).rects)) :=
  region_algebra_exact twoSquares true true false (twoSquares_wellFormed true)
    (twoSquares_wellFormed false)

end WineForge.Regions
