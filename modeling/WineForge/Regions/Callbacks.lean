import Mathlib.Data.List.Basic
import WineForge.Regions.Points

/-!
# What the callbacks add

Every callback appends one row to the new region. Its columns are the intersection, the difference
or the union of the columns of the two bands.
-/

namespace WineForge.Regions

open List

/-- `out` is a row from `top` to `bottom` over the columns of `S`. -/
structure IsRow (top bottom : Int) (S : Int → Prop) (out : List Rect) : Prop
    extends Row top bottom out where
  mem_columns : ∀ x, x ∈ columns out ↔ S x

lemma xOrdered_nil : XOrdered [] := ⟨by simp, .nil⟩

variable {r : Rect}

lemma xOrdered_cons {rects : List Rect} : XOrdered (r :: rects) ↔
      r.left < r.right ∧ (∀ r' ∈ rects, r.right < r'.left) ∧ XOrdered rects := by
  constructor
  · intro h
    obtain ⟨hfirst, hrest⟩ := pairwise_cons.mp h.ordered
    exact ⟨h.wide r (by simp), hfirst, fun r' hr' => h.wide r' (mem_cons_of_mem r hr'), hrest⟩
  · rintro ⟨hwide, hfirst, hrest⟩
    refine ⟨?_, pairwise_cons.mpr ⟨hfirst, hrest.ordered⟩⟩
    intro r' hr'
    obtain rfl | hr' := mem_cons.mp hr'
    · exact hwide
    · exact hrest.wide r' hr'

lemma XOrdered.right_of_first {rects : List Rect} (h : XOrdered (r :: rects)) {x : Int}
    (hx : x ∈ columns rects) : r.right < x := by
  obtain ⟨r', hr', hle, _⟩ := hx
  have hlt := (xOrdered_cons.mp h).2.1 r' hr'
  omega

lemma XOrdered.left_mem {rects : List Rect} (h : XOrdered rects) (hr : r ∈ rects) :
    r.left ∈ columns rects :=
  ⟨r, hr, Int.le_refl r.left, h.wide r hr⟩

lemma XOrdered.left_le {r r' : Rect} {rects : List Rect} (h : XOrdered (r :: rects))
    (hr' : r' ∈ r :: rects) : r.left ≤ r'.left := by
  obtain ⟨hwide, hfirst, _⟩ := xOrdered_cons.mp h
  obtain rfl | hr' := mem_cons.mp hr'
  · exact le_rfl
  · have hlt := hfirst r' hr'
    omega

variable {top bottom : Int} {S : Int → Prop}

lemma IsRow.nil (hS : ∀ x, ¬S x) : IsRow top bottom S [] where
  toRow := ⟨xOrdered_nil, by simp, by simp⟩
  mem_columns x := by simp [hS x]

variable {S S' : Int → Prop} {out : List Rect} {left right : Int}

lemma IsRow.cons (h : IsRow top bottom S out) (hlt : left < right) (hgap : ∀ x, S x → right < x)
    (hS' : ∀ x, S' x ↔ (left ≤ x ∧ x < right) ∨ S x) :
    IsRow top bottom S' (⟨left, top, right, bottom⟩ :: out) where
  toRow := by
    refine ⟨xOrdered_cons.mpr ⟨hlt, ?_, h.toXOrdered⟩, ?_, ?_⟩
    · intro r hr
      exact hgap r.left ((h.mem_columns _).mp (h.toXOrdered.left_mem hr))
    · intro r hr
      obtain rfl | hr := mem_cons.mp hr
      · rfl
      · exact h.top_eq r hr
    intro r hr
    obtain rfl | hr := mem_cons.mp hr
    · rfl
    · exact h.bottom_eq r hr
  mem_columns x := by
    rw [mem_columns_cons, h.mem_columns, hS']

lemma IsRow.congr (h : IsRow top bottom S out)
    (hS : ∀ x, S' x ↔ S x) : IsRow top bottom S' out where
  toRow := h.toRow
  mem_columns x := by rw [h.mem_columns, hS]

lemma IsRow.grow (reg : List Rect) (h : IsRow top bottom S out) (hgap : ∀ x, S x → right < x)
    (hS' : ∀ x, S' x ↔ (left ≤ x ∧ x < right) ∨ S x) :
    ∃ out', (if left < right then addRect reg left top right bottom else reg) ++ out =
      reg ++ out' ∧ IsRow top bottom S' out' := by
  by_cases hlt : left < right
  · refine ⟨⟨left, top, right, bottom⟩ :: out, ?_, h.cons hlt hgap hS'⟩
    rw [if_pos hlt, addRect, append_assoc]
    rfl
  refine ⟨out, by rw [if_neg hlt], h.congr fun x => ?_⟩
  rw [hS']
  constructor
  · rintro (⟨hle, hx⟩ | hx)
    · omega
    · exact hx
  · exact .inr

lemma mem_columns_inter {r1 r2 : Rect} {r1s r2s : List Rect} {x : Int} :
    x ∈ columns (r1 :: r1s) ∧ x ∈ columns (r2 :: r2s) ↔
      (max r1.left r2.left ≤ x ∧ x < min r1.right r2.right) ∨
        (r1.left ≤ x ∧ x < r1.right ∧ x ∈ columns r2s) ∨
        (x ∈ columns r1s ∧ r2.left ≤ x ∧ x < r2.right) ∨
        (x ∈ columns r1s ∧ x ∈ columns r2s) := by
  rw [mem_columns_cons, mem_columns_cons, max_le_iff, lt_min_iff]
  tauto

lemma intersectOverlapping_spec (reg : List Rect) {r1s r2s : List Rect} (h1 : XOrdered r1s)
    (h2 : XOrdered r2s) :
    ∃ out, intersectOverlapping reg r1s r2s top bottom = reg ++ out ∧
      IsRow top bottom (fun x => x ∈ columns r1s ∧ x ∈ columns r2s) out := by
  fun_induction intersectOverlapping reg r1s r2s top bottom with
  | case1 reg r1 r1s r2 r2s top bottom left right reg' hlt ih =>
    have hright1 := fun x => @XOrdered.right_of_first r1 r1s h1 x
    have hright2 := fun x => @XOrdered.right_of_first r2 r2s h2 x
    obtain ⟨out, heq, hrow⟩ := ih (xOrdered_cons.mp h1).2.2 h2
    rw [heq]
    apply hrow.grow reg
    · rintro x ⟨hx, _⟩
      have hle : right ≤ r1.right := min_le_left _ _
      exact hle.trans_lt (hright1 x hx)
    · intro x
      rw [mem_columns_inter, mem_columns_cons]
      grind
  | case2 reg r1 r1s r2 r2s top bottom left right reg' hlt hgt ih =>
    have hright1 := fun x => @XOrdered.right_of_first r1 r1s h1 x
    have hright2 := fun x => @XOrdered.right_of_first r2 r2s h2 x
    obtain ⟨out, heq, hrow⟩ := ih h1 (xOrdered_cons.mp h2).2.2
    rw [heq]
    apply hrow.grow reg
    · rintro x ⟨_, hx⟩
      have hle : right ≤ r2.right := min_le_right _ _
      exact hle.trans_lt (hright2 x hx)
    · intro x
      rw [mem_columns_inter, mem_columns_cons]
      grind
  | case3 reg r1 r1s r2 r2s top bottom left right reg' hlt hgt ih =>
    have hright1 := fun x => @XOrdered.right_of_first r1 r1s h1 x
    have hright2 := fun x => @XOrdered.right_of_first r2 r2s h2 x
    obtain ⟨out, heq, hrow⟩ := ih (xOrdered_cons.mp h1).2.2 (xOrdered_cons.mp h2).2.2
    rw [heq]
    apply hrow.grow reg
    · rintro x ⟨hx, _⟩
      have hle : right ≤ r1.right := min_le_left _ _
      exact hle.trans_lt (hright1 x hx)
    · intro x
      rw [mem_columns_inter]
      grind
  | case4 reg r1s r2s top bottom hnot =>
    refine ⟨[], by simp, IsRow.nil ?_⟩
    rintro x ⟨hx1, hx2⟩
    cases r1s with
    | nil => simp at hx1
    | cons r1 r1s =>
      cases r2s with
      | nil => simp at hx2
      | cons r2 r2s => exact hnot r1 r1s r2 r2s rfl rfl

/-- The rectangle of a row, cut to the rows from `top` to `bottom`. -/
def cut (top bottom : Int) (r : Rect) : Rect := ⟨r.left, top, r.right, bottom⟩

lemma columns_map_cut (rects : List Rect) : columns (rects.map (cut top bottom)) = columns rects := by
  ext x
  simp [columns, cut]

lemma XOrdered.isRow_cut {rects : List Rect} (h : XOrdered rects) :
    IsRow top bottom (fun x => x ∈ columns rects) (rects.map (cut top bottom)) where
  toRow := by
    refine ⟨⟨?_, ?_⟩, by simp [cut], by simp [cut]⟩
    · simpa [cut] using h.wide
    · rw [pairwise_map]
      exact h.ordered
  mem_columns x := by rw [columns_map_cut]

lemma unionNonOverlapping_eq (reg rects : List Rect) (top bottom : Int) :
    unionNonOverlapping reg rects top bottom = reg ++ rects.map (cut top bottom) := by
  induction rects generalizing reg with
  | nil => simp [unionNonOverlapping]
  | cons r rects ih =>
    rw [unionNonOverlapping, ih, addRect, append_assoc]
    rfl

lemma subtractNonOverlapping_eq (reg rects : List Rect) (top bottom : Int) :
    subtractNonOverlapping reg rects top bottom = reg ++ rects.map (cut top bottom) := by
  induction rects generalizing reg with
  | nil => simp [subtractNonOverlapping]
  | cons r rects ih =>
    rw [subtractNonOverlapping, ih, addRect, append_assoc]
    rfl

/-- What is left of a band when `left` has advanced into its first rectangle. -/
def current (left : Int) : List Rect → List Rect
  | [] => []
  | r :: rs => { r with left := left } :: rs

lemma current_nextLeft (rects : List Rect) (left : Int) :
    current (nextLeft rects left) rects = rects := by
  cases rects <;> rfl

lemma subtractRest_eq (reg : List Rect) (left : Int) (rects : List Rect) (top bottom : Int) :
    subtractRest reg left rects top bottom = reg ++ (current left rects).map (cut top bottom) := by
  induction rects generalizing reg left with
  | nil => simp [subtractRest, current]
  | cons r rects ih =>
    rw [subtractRest, ih, current_nextLeft, addRect, append_assoc]
    rfl

lemma mem_columns_diff {r1 r2 : Rect} {r1s r2s : List Rect} {left x : Int} :
    x ∈ columns (current left (r1 :: r1s)) ∧ x ∉ columns (r2 :: r2s) ↔
      ((left ≤ x ∧ x < r1.right) ∨ x ∈ columns r1s) ∧ ¬(r2.left ≤ x ∧ x < r2.right) ∧
        x ∉ columns r2s := by
  rw [current, mem_columns_cons, mem_columns_cons, not_or]

lemma subtractLoop_spec (reg : List Rect) {left : Int} {r1s r2s : List Rect}
    (h1 : XOrdered (current left r1s)) (h2 : XOrdered r2s) :
    ∃ out, subtractLoop reg left r1s r2s top bottom = reg ++ out ∧
      IsRow top bottom (fun x => x ∈ columns (current left r1s) ∧ x ∉ columns r2s) out := by
  fun_induction subtractLoop reg left r1s r2s top bottom with
  | case1 reg left r1 r1s r2 r2s top bottom hbefore ih =>
    have hright1 := fun x => @XOrdered.right_of_first _ _ h1 x
    have hwide : left < r1.right := (xOrdered_cons.mp h1).1
    obtain ⟨out, heq, hrow⟩ := ih h1 (xOrdered_cons.mp h2).2.2
    refine ⟨out, heq, hrow.congr fun x => ?_⟩
    rw [mem_columns_diff, current, mem_columns_cons]
    grind
  | case2 reg left r1 r1s r2 r2s top bottom hbefore hle hcover ih =>
    -- the rectangle ends inside the one that is taken away
    rw [current_nextLeft] at ih
    obtain ⟨out, heq, hrow⟩ := ih (xOrdered_cons.mp h1).2.2 h2
    refine ⟨out, heq, hrow.congr fun x => ?_⟩
    rw [mem_columns_diff, mem_columns_cons]
    grind
  | case3 reg left r1 r1s r2 r2s top bottom hbefore hle hcover ih =>
    -- it goes on right of the one that is taken away
    have hright1 := fun x => @XOrdered.right_of_first _ _ h1 x
    obtain ⟨_, hfirst, hrest⟩ := xOrdered_cons.mp h1
    have hcur : XOrdered (current r2.right (r1 :: r1s)) :=
      xOrdered_cons.mpr ⟨not_le.mp hcover, hfirst, hrest⟩
    obtain ⟨out, heq, hrow⟩ := ih hcur (xOrdered_cons.mp h2).2.2
    refine ⟨out, heq, hrow.congr fun x => ?_⟩
    rw [mem_columns_diff, current, mem_columns_cons]
    grind
  | case4 reg left r1 r1s r2 r2s top bottom hbefore hle hlt reg' hcover ih =>
    have hright1 := fun x => @XOrdered.right_of_first _ _ h1 x
    have hright2 := fun x => @XOrdered.right_of_first _ _ h2 x
    rw [current_nextLeft] at ih
    obtain ⟨out, heq, hrow⟩ := ih (xOrdered_cons.mp h1).2.2 h2
    refine ⟨cut top bottom ⟨left, top, r2.left, bottom⟩ :: out, ?_, ?_⟩
    · have hreg : reg' = reg ++ [cut top bottom ⟨left, top, r2.left, bottom⟩] := rfl
      rw [heq, hreg, append_assoc, singleton_append]
    apply hrow.cons (not_le.mp hle)
    · rintro x ⟨hx, _⟩
      have hx1 := hright1 x hx
      dsimp only at hx1
      omega
    · intro x
      rw [mem_columns_diff, mem_columns_cons]
      grind
  | case5 reg left r1 r1s r2 r2s top bottom hbefore hle hlt reg' hcover ih =>
    have hright1 := fun x => @XOrdered.right_of_first _ _ h1 x
    have hright2 := fun x => @XOrdered.right_of_first _ _ h2 x
    obtain ⟨_, hfirst, hrest⟩ := xOrdered_cons.mp h1
    have hwide2 := (xOrdered_cons.mp h2).1
    have hcur : XOrdered (current r2.right (r1 :: r1s)) :=
      xOrdered_cons.mpr ⟨not_le.mp hcover, hfirst, hrest⟩
    obtain ⟨out, heq, hrow⟩ := ih hcur (xOrdered_cons.mp h2).2.2
    refine ⟨cut top bottom ⟨left, top, r2.left, bottom⟩ :: out, ?_, ?_⟩
    · have hreg : reg' = reg ++ [cut top bottom ⟨left, top, r2.left, bottom⟩] := rfl
      rw [heq, hreg, append_assoc, singleton_append]
    apply hrow.cons (not_le.mp hle)
    · rintro x ⟨hx, _⟩
      have hle2 : r2.right ≤ x := by
        rw [current, mem_columns_cons] at hx
        grind
      omega
    · intro x
      rw [mem_columns_diff, current, mem_columns_cons]
      grind
  | case6 reg left r1 r1s r2 r2s top bottom hbefore hle hlt reg' ih =>
    -- the one that is taken away lies right of the whole rectangle
    have hwide2 := (xOrdered_cons.mp h2).1
    have hright1 := fun x => @XOrdered.right_of_first _ _ h1 x
    have hright2 := fun x => @XOrdered.right_of_first _ _ h2 x
    rw [current_nextLeft] at ih
    obtain ⟨out, heq, hrow⟩ := ih (xOrdered_cons.mp h1).2.2 h2
    rw [heq]
    apply hrow.grow reg
    · rintro x ⟨hx, _⟩
      exact hright1 x hx
    · intro x
      rw [mem_columns_diff, mem_columns_cons]
      grind
  | case7 reg left r1s r2s top bottom hnot =>
    have hempty : ∀ x, x ∈ columns (current left r1s) → x ∉ columns r2s := by
      intro x hx1 hx2
      cases r1s with
      | nil => simp [current] at hx1
      | cons r1 r1s =>
        cases r2s with
        | nil => simp at hx2
        | cons r2 r2s => exact hnot r1 r1s r2 r2s rfl rfl
    refine ⟨_, subtractRest_eq reg left r1s top bottom, h1.isRow_cut.congr fun x => ?_⟩
    exact ⟨fun h => h.1, fun h => ⟨h, hempty x h⟩⟩

lemma subtractOverlapping_spec (reg : List Rect) {r1s r2s : List Rect} (h1 : XOrdered r1s)
    (h2 : XOrdered r2s) :
    ∃ out, subtractOverlapping reg r1s r2s top bottom = reg ++ out ∧
      IsRow top bottom (fun x => x ∈ columns r1s ∧ x ∉ columns r2s) out := by
  have hcur := current_nextLeft r1s 0
  have hspec := @subtractLoop_spec top bottom reg _ r1s r2s (hcur.symm ▸ h1) h2
  rw [hcur] at hspec
  exact hspec

lemma xOrdered_concat {rects : List Rect} : XOrdered (rects ++ [r]) ↔
      XOrdered rects ∧ r.left < r.right ∧ ∀ r' ∈ rects, r'.right < r.left := by
  constructor
  · intro h
    obtain ⟨hfirst, _, hlast⟩ := pairwise_append.mp h.ordered
    exact ⟨⟨fun r' hr' => h.wide r' (by simp [hr']), hfirst⟩, h.wide r (by simp),
      fun r' hr' => hlast r' hr' r (by simp)⟩
  · rintro ⟨hrects, hwide, hlast⟩
    refine ⟨?_, pairwise_append.mpr ⟨hrects.ordered, by simp, ?_⟩⟩
    · intro r' hr'
      obtain hr' | hr' := mem_append.mp hr'
      · exact hrects.wide r' hr'
      · rw [mem_singleton.mp hr']
        exact hwide
    · intro r' hr' r'' hr''
      rw [mem_singleton.mp hr'']
      exact hlast r' hr'

lemma IsRow.concat
    (h : IsRow top bottom S out) (hlt : left < right) (hgap : ∀ r ∈ out, r.right < left)
    (hS' : ∀ x, S' x ↔ S x ∨ (left ≤ x ∧ x < right)) :
    IsRow top bottom S' (out ++ [⟨left, top, right, bottom⟩]) where
  toRow := by
    refine ⟨xOrdered_concat.mpr ⟨h.toXOrdered, hlt, hgap⟩, ?_, ?_⟩
    · intro r hr
      obtain hr | hr := mem_append.mp hr
      · exact h.top_eq r hr
      · rw [mem_singleton.mp hr]
    intro r hr
    obtain hr | hr := mem_append.mp hr
    · exact h.bottom_eq r hr
    · rw [mem_singleton.mp hr]
  mem_columns x := by
    rw [mem_columns_append, h.mem_columns, hS']
    simp

lemma Row.dropLast {rects : List Rect} (h : Row top bottom (rects ++ [r])) :
    IsRow top bottom (fun x => x ∈ columns rects) rects where
  toRow :=
    ⟨(xOrdered_concat.mp h.toXOrdered).1, fun r' hr' => h.top_eq r' (by simp [hr']),
      fun r' hr' => h.bottom_eq r' (by simp [hr'])⟩
  mem_columns _ := Iff.rfl

/-- A rectangle that starts right of the start of every rectangle of the row joins the last one or
follows it. The rectangles of the rows above do not take part. -/
lemma mergeRect_spec {pre acc : List Rect} (hlt : top < bottom)
    (hpre : ∀ p ∈ pre, p.bottom ≤ top) (hacc : IsRow top bottom S acc)
    (hleft : ∀ a ∈ acc, a.left ≤ r.left) (hwide : r.left < r.right) :
    ∃ acc', mergeRect (pre ++ acc) r top bottom = pre ++ acc' ∧
      IsRow top bottom (fun x => S x ∨ (r.left ≤ x ∧ x < r.right)) acc' ∧
      ∀ a ∈ acc', a.left ≤ r.left := by
  have hadd : (∀ a ∈ acc, a.right < r.left) → ∃ acc',
      addRect (pre ++ acc) r.left top r.right bottom = pre ++ acc' ∧
      IsRow top bottom (fun x => S x ∨ (r.left ≤ x ∧ x < r.right)) acc' ∧
      ∀ a ∈ acc', a.left ≤ r.left := by
    intro hgap
    refine ⟨acc ++ [cut top bottom r], by rw [addRect, append_assoc]; rfl,
      hacc.concat hwide hgap fun _ => Iff.rfl, ?_⟩
    intro a ha
    obtain ha | ha := mem_append.mp ha
    · exact hleft a ha
    · rw [mem_singleton.mp ha]
      exact le_rfl
  rw [mergeRect]
  obtain rfl | ⟨init, last, rfl⟩ := eq_nil_or_concat' acc
  · rw [append_nil] at hadd ⊢
    cases hlast : pre.getLast? with
    | none => exact hadd (by simp)
    | some p =>
      -- the last rectangle belongs to a row above
      have hp : p.bottom ≤ top := hpre p (mem_of_getLast? hlast)
      have hne : p.bottom ≠ bottom := by omega
      simp only [hne, false_and, and_false, if_false]
      exact hadd (by simp)
  have htop := hacc.top_eq last (by simp)
  have hbottom := hacc.bottom_eq last (by simp)
  have hlastleft := hleft last (by simp)
  obtain ⟨hinit, _, hgap⟩ := xOrdered_concat.mp hacc.toXOrdered
  have hsplit : ∀ x, x ∈ columns (init ++ [last]) ↔
      x ∈ columns init ∨ (last.left ≤ x ∧ x < last.right) := by simp
  rw [← append_assoc, getLast?_concat]
  simp only [htop, hbottom, true_and, ge_iff_le]
  by_cases htouch : r.left ≤ last.right
  · rw [if_pos htouch]
    by_cases hgrow : last.right < r.right
    · rw [if_pos hgrow, dropLast_concat]
      refine ⟨init ++ [{ last with right := r.right }],
        by rw [append_assoc, htop, hbottom], ?_, ?_⟩
      · have hwider : last.left < r.right := by omega
        have hcolumns := hacc.toRow.dropLast.concat hwider hgap fun _ => Iff.rfl
        rw [htop, hbottom]
        refine hcolumns.congr fun x => ?_
        rw [← hacc.mem_columns, hsplit]
        grind
      intro a ha
      obtain ha | ha := mem_append.mp ha
      · exact hleft a (by simp [ha])
      · rw [mem_singleton.mp ha]
        exact hlastleft
    · rw [if_neg hgrow, append_assoc]
      refine ⟨_, rfl, hacc.congr fun x => ?_, hleft⟩
      rw [← hacc.mem_columns, hsplit]
      grind
  · rw [if_neg htouch, append_assoc]
    apply hadd
    intro a ha
    obtain ha | ha := mem_append.mp ha
    · have hlt := hgap a ha
      omega
    · rw [mem_singleton.mp ha]
      omega

lemma unionRest_spec {pre acc rects : List Rect} (hlt : top < bottom)
    (hpre : ∀ p ∈ pre, p.bottom ≤ top) (hacc : IsRow top bottom S acc) (hrects : XOrdered rects)
    (hleft : ∀ a ∈ acc, ∀ r ∈ rects, a.left ≤ r.left) :
    ∃ acc', unionRest (pre ++ acc) rects top bottom = pre ++ acc' ∧
      IsRow top bottom (fun x => S x ∨ x ∈ columns rects) acc' := by
  induction rects generalizing acc S with
  | nil => exact ⟨acc, rfl, hacc.congr fun x => by simp⟩
  | cons r rects ih =>
    obtain ⟨hwide, hfirst, hrest⟩ := xOrdered_cons.mp hrects
    obtain ⟨acc', heq, hacc', hleft'⟩ :=
      mergeRect_spec hlt hpre hacc (fun a ha => hleft a ha r (by simp)) hwide
    have hleft'' : ∀ a ∈ acc', ∀ r' ∈ rects, a.left ≤ r'.left := by
      intro a ha r' hr'
      have hle := hleft' a ha
      have hgap := hfirst r' hr'
      omega
    obtain ⟨acc'', heq', hacc''⟩ := ih hacc' hrest hleft''
    refine ⟨acc'', by rw [unionRest, heq, heq'], hacc''.congr fun x => ?_⟩
    rw [mem_columns_cons, or_assoc]

lemma unionOverlapping_spec {reg pre acc r1s r2s : List Rect} (hlt : top < bottom)
    (hreg : reg = pre ++ acc) (hpre : ∀ p ∈ pre, p.bottom ≤ top) (hacc : IsRow top bottom S acc)
    (h1 : XOrdered r1s) (h2 : XOrdered r2s) (hleft1 : ∀ a ∈ acc, ∀ r ∈ r1s, a.left ≤ r.left)
    (hleft2 : ∀ a ∈ acc, ∀ r ∈ r2s, a.left ≤ r.left) :
    ∃ acc', unionOverlapping reg r1s r2s top bottom = pre ++ acc' ∧
      IsRow top bottom (fun x => S x ∨ x ∈ columns r1s ∨ x ∈ columns r2s) acc' := by
  fun_induction unionOverlapping reg r1s r2s top bottom generalizing acc S with
  | case1 reg r1 r1s r2 r2s top bottom hbefore ih =>
    obtain ⟨hwide, hfirst, hrest⟩ := xOrdered_cons.mp h1
    obtain ⟨acc', heq, hacc', hleft'⟩ :=
      mergeRect_spec hlt hpre hacc (fun a ha => hleft1 a ha r1 (by simp)) hwide
    have hleft1' : ∀ a ∈ acc', ∀ r ∈ r1s, a.left ≤ r.left := by
      intro a ha r hr
      have hle := hleft' a ha
      have hgap := hfirst r hr
      omega
    have hleft2' : ∀ a ∈ acc', ∀ r ∈ r2 :: r2s, a.left ≤ r.left := by
      intro a ha r hr
      have hle := hleft' a ha
      have hfirst2 := h2.left_le hr
      omega
    obtain ⟨acc'', heq', hacc''⟩ := ih hlt (by rw [hreg, heq]) hpre hacc' hrest h2 hleft1' hleft2'
    refine ⟨acc'', heq', hacc''.congr fun x => ?_⟩
    rw [mem_columns_cons (r := r1), or_assoc, or_assoc]
  | case2 reg r1 r1s r2 r2s top bottom hbefore ih =>
    obtain ⟨hwide, hfirst, hrest⟩ := xOrdered_cons.mp h2
    obtain ⟨acc', heq, hacc', hleft'⟩ :=
      mergeRect_spec hlt hpre hacc (fun a ha => hleft2 a ha r2 (by simp)) hwide
    have hleft2' : ∀ a ∈ acc', ∀ r ∈ r2s, a.left ≤ r.left := by
      intro a ha r hr
      have hle := hleft' a ha
      have hgap := hfirst r hr
      omega
    have hleft1' : ∀ a ∈ acc', ∀ r ∈ r1 :: r1s, a.left ≤ r.left := by
      intro a ha r hr
      have hle := hleft' a ha
      have hfirst1 := h1.left_le hr
      omega
    obtain ⟨acc'', heq', hacc''⟩ := ih hlt (by rw [hreg, heq]) hpre hacc' h1 hrest hleft1' hleft2'
    refine ⟨acc'', heq', hacc''.congr fun x => ?_⟩
    rw [mem_columns_cons (r := r2)]
    tauto
  | case3 reg r2s top bottom =>
    obtain ⟨acc', heq, hacc'⟩ := unionRest_spec hlt hpre hacc h2 hleft2
    exact ⟨acc', hreg ▸ heq, hacc'.congr fun x => by simp⟩
  | case4 reg r1s top bottom hne =>
    obtain ⟨acc', heq, hacc'⟩ := unionRest_spec hlt hpre hacc h1 hleft1
    exact ⟨acc', hreg ▸ heq, hacc'.congr fun x => by simp⟩

end WineForge.Regions
