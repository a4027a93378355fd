import WineForge.Regions.Points

/-!
# Points and rectangles in a region

`point_in_region` and `rect_in_region` go through the rectangles from top to bottom and stop at the
first one that lies below or, in the band of the point, to the right of it.
-/

namespace WineForge.Regions

/-- The loop of `point_in_region`. -/
def pointInRects (x y : Int) : List Rect → Bool
  | [] => false
  | ptr :: rects =>
    if ptr.top > y then false
    else if ptr.bottom ≤ y then pointInRects x y rects
    -- now we are in the correct band
    else if ptr.left > x then false
    else if ptr.right ≤ x then pointInRects x y rects
    else true

def pointInRegion (region : Region) (x y : Int) : Bool := pointInRects x y region.rects

/-- The loop of `rect_in_region`. -/
def rectInRects (rect : Rect) : List Rect → Bool
  | [] => false
  | ptr :: rects =>
    if ptr.top ≥ rect.bottom then false
    else if ptr.bottom ≤ rect.top then rectInRects rect rects
    else if ptr.left ≥ rect.right then rectInRects rect rects
    else if ptr.right ≤ rect.left then rectInRects rect rects
    else true

def rectInRegion (region : Region) (rect : Rect) : Bool := rectInRects rect region.rects

variable {r : Rect} {rects : List Rect}

lemma Banded.top_le (h : Banded (r :: rects)) {r' : Rect} (hr' : r' ∈ rects) : r.top ≤ r'.top := by
  obtain ⟨_, hhigh, hfirst, _⟩ := banded_cons.mp h
  obtain ⟨htop, _, _⟩ | hbelow := hfirst r' hr'
  · omega
  · omega

lemma Banded.left_lt (h : Banded (r :: rects)) {r' : Rect} (hr' : r' ∈ rects) {y : Int}
    (hy : y < r.bottom) (hin : r'.top ≤ y) : r.left < r'.left := by
  obtain ⟨hwide, _, hfirst, _⟩ := banded_cons.mp h
  obtain ⟨_, _, hgap⟩ | hbelow := hfirst r' hr'
  · omega
  · omega

lemma pointInRects_eq_true (h : Banded rects) (x y : Int) :
    pointInRects x y rects = true ↔ (x, y) ∈ points rects := by
  induction rects with
  | nil => simp [pointInRects]
  | cons ptr rects ih =>
    have hrest := ih h.tail
    rw [mem_points_cons, Rect.Contains, pointInRects]
    by_cases htop : ptr.top > y
    · -- everything behind lies at least as low
      have hnone : (x, y) ∉ points rects := by
        rintro ⟨r', hr', _, _, hin, _⟩
        have hle := h.top_le hr'
        omega
      rw [if_pos htop]
      simp only [hnone, or_false]
      apply iff_of_false nofun
      rintro ⟨_, _, hin, _⟩
      omega
    rw [if_neg htop]
    by_cases hbottom : ptr.bottom ≤ y
    · rw [if_pos hbottom, hrest]
      apply (or_iff_right _).symm
      rintro ⟨_, _, _, hin⟩
      omega
    rw [if_neg hbottom]
    by_cases hleft : ptr.left > x
    · -- everything behind in the band lies further to the right
      have hnone : (x, y) ∉ points rects := by
        rintro ⟨r', hr', hin, _, hin', _⟩
        have hlt := h.left_lt hr' (not_le.mp hbottom) hin'
        omega
      rw [if_pos hleft]
      simp only [hnone, or_false]
      apply iff_of_false nofun
      rintro ⟨hin, _⟩
      omega
    rw [if_neg hleft]
    by_cases hright : ptr.right ≤ x
    · rw [if_pos hright, hrest]
      apply (or_iff_right _).symm
      rintro ⟨_, hin, _⟩
      omega
    rw [if_neg hright]
    apply iff_of_true rfl
    left
    exact ⟨by omega, by omega, by omega, by omega⟩

lemma exists_contains_iff {rect : Rect} (hwide : r.left < r.right) (hhigh : r.top < r.bottom)
    (hwide' : rect.left < rect.right) (hhigh' : rect.top < rect.bottom) :
    (∃ p, rect.Contains p ∧ r.Contains p) ↔
      r.top < rect.bottom ∧ rect.top < r.bottom ∧ r.left < rect.right ∧ rect.left < r.right := by
  constructor
  · rintro ⟨⟨x, y⟩, ⟨h₁, h₂, h₃, h₄⟩, h₅, h₆, h₇, h₈⟩
    exact ⟨by omega, by omega, by omega, by omega⟩
  · rintro ⟨h₁, h₂, h₃, h₄⟩
    refine ⟨(max rect.left r.left, max rect.top r.top), ⟨?_, ?_, ?_, ?_⟩, ?_, ?_, ?_, ?_⟩ <;>
      dsimp only <;> omega

lemma rectInRects_eq_true (h : Banded rects) {rect : Rect} (hwide : rect.left < rect.right)
    (hhigh : rect.top < rect.bottom) :
    rectInRects rect rects = true ↔ ∃ p, rect.Contains p ∧ p ∈ points rects := by
  induction rects with
  | nil => simp [rectInRects]
  | cons ptr rects ih =>
    have hrest := ih h.tail
    have hfirst := exists_contains_iff (h.wide ptr List.mem_cons_self)
      (h.high ptr List.mem_cons_self) hwide hhigh
    simp only [mem_points_cons, and_or_left, exists_or]
    rw [hfirst, rectInRects]
    by_cases htop : ptr.top ≥ rect.bottom
    · have hnone : ¬∃ p, rect.Contains p ∧ p ∈ points rects := by
        rintro ⟨p, hp, r', hr', _, _, hin, _⟩
        have hle := h.top_le hr'
        have hbelow := hp.2.2.2
        omega
      rw [if_pos htop]
      apply iff_of_false (by rintro ⟨⟩)
      rintro (⟨hin, _⟩ | hin)
      · omega
      · exact hnone hin
    rw [if_neg htop]
    by_cases hmiss : ptr.bottom ≤ rect.top ∨ ptr.left ≥ rect.right ∨ ptr.right ≤ rect.left
    · have hskip : (if ptr.bottom ≤ rect.top then rectInRects rect rects
          else if ptr.left ≥ rect.right then rectInRects rect rects
          else if ptr.right ≤ rect.left then rectInRects rect rects
          else true) = rectInRects rect rects := by
        obtain hmiss | hmiss | hmiss := hmiss
        · rw [if_pos hmiss]
        · rw [if_pos hmiss, ite_self]
        · rw [if_pos hmiss, ite_self, ite_self]
      rw [hskip, hrest]
      apply (or_iff_right _).symm
      rintro ⟨_, hin⟩
      omega
    · simp only [not_or] at hmiss
      obtain ⟨hbottom, hleft, hright⟩ := hmiss
      rw [if_neg hbottom, if_neg hleft, if_neg hright]
      apply iff_of_true rfl
      left
      exact ⟨by omega, by omega, by omega, by omega⟩

/-- In an accepted region the queries find exactly its points. -/
theorem region_queries_exact (region : Region) (hvalid : validateRectangles region.rects = true) :
    (∀ x y, pointInRegion region x y = true ↔ (x, y) ∈ points region.rects) ∧
      ∀ rect, isRectEmpty rect = false →
        (rectInRegion region rect = true ↔ ∃ p, rect.Contains p ∧ p ∈ points region.rects) := by
  have hb := validateRectangles_iff.mp hvalid
  constructor
  · intro x y
    exact pointInRects_eq_true hb x y
  · intro rect hrect
    obtain ⟨hwide, hhigh⟩ := isRectEmpty_eq_false.mp hrect
    exact rectInRects_eq_true hb hwide hhigh

/-- Two rectangles side by side and one below. -/
theorem region_queries_exact_three :
    let region : Region :=
      ⟨[⟨-4, 0, -1, 3⟩, ⟨2, 0, 5, 3⟩, ⟨-2, 3, 4, 6⟩], ⟨-4, 0, 5, 6⟩⟩
    (∀ x y, pointInRegion region x y = true ↔ (x, y) ∈ points region.rects) ∧
      ∀ rect, isRectEmpty rect = false →
        (rectInRegion region rect = true ↔ ∃ p, rect.Contains p ∧ p ∈ points region.rects) :=
  region_queries_exact ⟨[⟨-4, 0, -1, 3⟩, ⟨2, 0, 5, 3⟩, ⟨-2, 3, 4, 6⟩], ⟨-4, 0, 5, 6⟩⟩ (by decide)

end WineForge.Regions
