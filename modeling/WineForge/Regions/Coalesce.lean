import WineForge.Regions.Callbacks

/-!
# Coalescing

A list of bands is coalesced when the columns change at the top of every rectangle. A band that is
appended to such a list and then coalesced with the last one keeps it so, and no point changes.
-/

namespace WineForge.Regions

open List

def line (P : Set (Int × Int)) (y : Int) : Set Int := {x | (x, y) ∈ P}

def Coalesced (rects : List Rect) : Prop :=
  ∀ r ∈ rects, line (points rects) (r.top - 1) ≠ line (points rects) r.top

variable {y top bottom : Int} {r1s r2s rects : List Rect}

@[simp] lemma mem_line {P : Set (Int × Int)} {x : Int} : x ∈ line P y ↔ (x, y) ∈ P := Iff.rfl

def Rect.sides (r : Rect) : Int × Int := (r.left, r.right)

lemma XOrdered.sides_unique (h1 : XOrdered r1s) (h2 : XOrdered r2s)
    (hcolumns : columns r1s = columns r2s) : r1s.map Rect.sides = r2s.map Rect.sides := by
  induction r1s generalizing r2s with
  | nil =>
    cases r2s with
    | nil => rfl
    | cons r2 r2s =>
      have hmem := h2.left_mem mem_cons_self
      rw [← hcolumns, columns_nil] at hmem
      exact absurd hmem (Set.notMem_empty _)
  | cons r1 r1s ih =>
    cases r2s with
    | nil =>
      have hmem := h1.left_mem mem_cons_self
      rw [hcolumns, columns_nil] at hmem
      exact absurd hmem (Set.notMem_empty _)
    | cons r2 r2s =>
      have hright1 := fun x => @XOrdered.right_of_first r1 r1s h1 x
      have hright2 := fun x => @XOrdered.right_of_first r2 r2s h2 x
      have hwide1 := (xOrdered_cons.mp h1).1
      have hwide2 := (xOrdered_cons.mp h2).1
      have hiff : ∀ x, ((r1.left ≤ x ∧ x < r1.right) ∨ x ∈ columns r1s) ↔
          ((r2.left ≤ x ∧ x < r2.right) ∨ x ∈ columns r2s) := by
        intro x
        rw [← mem_columns_cons, ← mem_columns_cons, hcolumns]
      -- both bands start in the first column, and their first gaps start in the same one
      have hleft : r1.left = r2.left := by
        grind
      have hright : r1.right = r2.right := by
        have hx2 := hiff r2.right
        grind
      have hrest : columns r1s = columns r2s := by
        ext x
        grind
      rw [map_cons, map_cons, ih (xOrdered_cons.mp h1).2.2 (xOrdered_cons.mp h2).2.2 hrest,
        Rect.sides, Rect.sides, hleft, hright]

lemma columns_eq_of_sides (h : r1s.map Rect.sides = r2s.map Rect.sides) :
    columns r1s = columns r2s := by
  have hmem : ∀ rs : List Rect, columns rs = {x | ∃ s ∈ rs.map Rect.sides, s.1 ≤ x ∧ x < s.2} := by
    intro rs
    ext x
    simp [columns, Rect.sides]
  rw [hmem, hmem, h]

lemma sameSides_iff : sameSides r1s r2s = true ↔ r1s.map Rect.sides = r2s.map Rect.sides := by
  induction r1s generalizing r2s with
  | nil => cases r2s <;> simp [sameSides]
  | cons r1 r1s ih =>
    cases r2s with
    | nil => simp [sameSides]
    | cons r2 r2s =>
      rw [sameSides, map_cons, map_cons, List.cons.injEq, ← ih, Rect.sides, Rect.sides,
        Prod.mk.injEq]
      by_cases hne : r1.left ≠ r2.left ∨ r1.right ≠ r2.right
      · rw [if_pos hne]
        grind
      · rw [if_neg hne]
        grind

lemma banded_nil : Banded [] := ⟨by simp, by simp, .nil⟩

lemma banded_append {first second : List Rect} : Banded (first ++ second) ↔
      Banded first ∧ Banded second ∧ ∀ r ∈ first, ∀ r' ∈ second, Before r r' := by
  constructor
  · intro h
    exact ⟨h.sublist (sublist_append_left _ _), h.sublist (sublist_append_right _ _),
      (pairwise_append.mp h.ordered).2.2⟩
  · rintro ⟨hfirst, hsecond, hbefore⟩
    refine ⟨?_, ?_, pairwise_append.mpr ⟨hfirst.ordered, hsecond.ordered, hbefore⟩⟩
    · intro r hr
      exact (mem_append.mp hr).elim (hfirst.wide r) (hsecond.wide r)
    · intro r hr
      exact (mem_append.mp hr).elim (hfirst.high r) (hsecond.high r)

lemma Row.banded (h : Row top bottom rects) (hlt : top < bottom) : Banded rects where
  wide := h.wide
  high r hr := by
    rw [h.top_eq r hr, h.bottom_eq r hr]
    exact hlt
  ordered := by
    apply h.ordered.imp_of_mem
    intro r r' hr hr' hgap
    exact .inl ⟨(h.top_eq r hr).trans (h.top_eq r' hr').symm,
      (h.bottom_eq r hr).trans (h.bottom_eq r' hr').symm, hgap⟩

lemma Row.band_eq (h : Row top bottom rects) : band rects = rects ∧ bandEnd rects = [] := by
  cases rects with
  | nil => exact ⟨rfl, rfl⟩
  | cons r rects =>
    have hall : ∀ r' ∈ rects, decide (r'.top = r.top) = true := by
      intro r' hr'
      rw [h.top_eq r' (mem_cons_of_mem r hr'), h.top_eq r mem_cons_self]
      exact decide_eq_true rfl
    rw [band, bandEnd, takeWhile_eq_self_iff.mpr hall, dropWhile_eq_nil_iff.mpr hall]
    exact ⟨rfl, rfl⟩

lemma Row.line_eq (h : Row top bottom rects)
    (htop : top ≤ y) (hbottom : y < bottom) : line (points rects) y = columns rects := by
  ext x
  rw [mem_line, h.mem_points]
  exact ⟨fun hx => hx.1, fun hx => ⟨hx, htop, hbottom⟩⟩

lemma line_points_append (first second : List Rect) (y : Int) :
    line (points (first ++ second)) y = line (points first) y ∪ line (points second) y := by
  ext x
  rw [mem_line, mem_points_append]
  rfl

lemma line_eq_empty (h : ∀ r ∈ rects, y < r.top ∨ r.bottom ≤ y) : line (points rects) y = ∅ := by
  rw [Set.eq_empty_iff_forall_notMem]
  rintro x ⟨r, hr, _, _, htop, hbottom⟩
  obtain hlt | hle := h r hr
  · omega
  · omega

lemma Banded.line_nonempty (h : Banded rects) {r : Rect} (hr : r ∈ rects) :
    (line (points rects) r.top).Nonempty :=
  ⟨r.left, r, hr, le_rfl, h.wide r hr, le_rfl, h.high r hr⟩

lemma Row.coalesced (h : Row top bottom rects) (hlt : top < bottom) : Coalesced rects := by
  intro r hr
  have hempty : line (points rects) (r.top - 1) = ∅ := by
    apply line_eq_empty
    intro r' hr'
    left
    rw [h.top_eq r hr, h.top_eq r' hr']
    omega
  rw [hempty]
  exact ((h.banded hlt).line_nonempty hr).ne_empty.symm

/-- What the sweep keeps: all rows lie above `y`, and `prev` is where the last band starts. -/
structure Stack (reg : List Rect) (prev : Nat) (y : Int) : Prop where
  banded : Banded reg
  above : ∀ r ∈ reg, r.bottom ≤ y
  start_le : prev ≤ reg.length
  start : reg ≠ [] → prev < reg.length
  last_band : ∃ top bottom, Row top bottom (reg.drop prev) ∧ ∀ r ∈ reg.take prev, r.bottom ≤ top
  coalesced : Coalesced reg

lemma stack_nil (y : Int) : Stack [] 0 y where
  banded := banded_nil
  above := by simp
  start_le := le_rfl
  start h := absurd rfl h
  last_band := ⟨0, 0, ⟨xOrdered_nil, by simp, by simp⟩, by simp⟩
  coalesced := by simp [Coalesced]

lemma Stack.mono {reg : List Rect} {prev : Nat} {y' : Int} (h : Stack reg prev y) (hle : y ≤ y') :
    Stack reg prev y' :=
  { h with above := fun r hr => (h.above r hr).trans hle }

lemma zipWith_bottom {prev cur : List Rect} (hlen : prev.length = cur.length)
    (hbottom : ∀ c ∈ cur, c.bottom = bottom) :
    List.zipWith (fun p c => { p with bottom := Rect.bottom c }) prev cur =
      prev.map fun p => { p with bottom := bottom } := by
  induction prev generalizing cur with
  | nil => rfl
  | cons p prev ih =>
    cases cur with
    | nil => simp at hlen
    | cons c cur =>
      have hrest : ∀ c' ∈ cur, c'.bottom = bottom := fun c' hc' =>
        hbottom c' (mem_cons_of_mem c hc')
      rw [zipWith_cons_cons, ih (Nat.succ.inj hlen) hrest, hbottom c mem_cons_self]
      rfl

/-- Whether the band `cur` is joined with the band `prev`. -/
def Joins (prev cur : List Rect) : Prop :=
  (∃ p ∈ prev, ∃ c ∈ cur, p.bottom = c.top) ∧ prev.map Rect.sides = cur.map Rect.sides

/-- The tests of `coalesce_region` on two bands. -/
def joinTest {α : Type*} (prev cur : List Rect) (yes no : α) : α :=
  if cur.length = prev.length then
    match prev, cur with
    | p :: _, c :: _ => if p.bottom = c.top then if sameSides prev cur then yes else no else no
    | _, _ => no
  else no

lemma joinTest_eq {α : Type*} {prev cur : List Rect} {top' bottom' : Int}
    (hprev : Row top bottom prev) (hcur : Row top' bottom' cur) (yes no : α) :
    (Joins prev cur → joinTest prev cur yes no = yes) ∧
      (¬Joins prev cur → joinTest prev cur yes no = no) := by
  have hlen : sameSides prev cur = true → cur.length = prev.length := by
    intro h
    simpa using (congrArg List.length (sameSides_iff.mp h)).symm
  cases prev with
  | nil => simp [Joins, joinTest]
  | cons p prev =>
    cases cur with
    | nil => simp [Joins, joinTest]
    | cons c cur =>
      have hp := hprev.bottom_eq p mem_cons_self
      have hc := hcur.top_eq c mem_cons_self
      have htouch : (∃ p' ∈ p :: prev, ∃ c' ∈ c :: cur, p'.bottom = c'.top) ↔ p.bottom = c.top := by
        constructor
        · rintro ⟨p', hp', c', hc', heq⟩
          rw [hp, hc, ← hprev.bottom_eq p' hp', ← hcur.top_eq c' hc', heq]
        · intro heq
          exact ⟨p, mem_cons_self, c, mem_cons_self, heq⟩
      rw [Joins, htouch, ← sameSides_iff, joinTest]
      grind

lemma coalesceRegion_append {old tail : List Rect} {prev : Nat} {top' bottom' : Int}
    (hprev : Row top bottom (old.drop prev)) (hcur : Row top' bottom' (band tail))
    (hle : prev ≤ old.length) :
    (Joins (old.drop prev) (band tail) →
      (coalesceRegion (old ++ tail) prev old.length).1 =
        old.take prev ++ (old.drop prev).map (fun p => { p with bottom := bottom' }) ++ bandEnd tail ∧
      (bandEnd tail = [] → (coalesceRegion (old ++ tail) prev old.length).2 = prev)) ∧
    (¬Joins (old.drop prev) (band tail) →
      (coalesceRegion (old ++ tail) prev old.length).1 = old ++ tail ∧
      (bandEnd tail = [] → (coalesceRegion (old ++ tail) prev old.length).2 = old.length)) := by
  have htake : (old ++ tail).take prev = old.take prev := take_append_of_le_length hle
  have heq : coalesceRegion (old ++ tail) prev old.length = joinTest (old.drop prev) (band tail)
        (old.take prev ++ List.zipWith (fun p c => { p with bottom := Rect.bottom c })
          (old.drop prev) (band tail) ++ bandEnd tail,
          if bandEnd tail = [] then prev
          else if bandEnd tail = [] then old.length else lastBandStart (old ++ tail))
        (old ++ tail, if bandEnd tail = [] then old.length else lastBandStart (old ++ tail)) := by
    rw [coalesceRegion, drop_left, take_left, htake]
    rfl
  rw [heq]
  constructor
  · intro hjoins
    have hlen : (old.drop prev).length = (band tail).length := by
      simpa using congrArg List.length hjoins.2
    rw [(joinTest_eq hprev hcur _ _).1 hjoins, zipWith_bottom hlen hcur.bottom_eq]
    exact ⟨rfl, fun hrest => if_pos hrest⟩
  · intro hjoins
    rw [(joinTest_eq hprev hcur _ _).2 hjoins]
    exact ⟨rfl, fun hrest => if_pos hrest⟩

section Append

variable {old tail : List Rect} {prev : Nat} {y : Int}

lemma Stack.append_banded (h : Stack old prev y) (htail : Banded tail)
    (hbelow : ∀ r ∈ tail, y ≤ r.top) : Banded (old ++ tail) :=
  banded_append.mpr ⟨h.banded, htail, fun r hr r' hr' =>
    .inr ((h.above r hr).trans (hbelow r' hr'))⟩

lemma line_append_above {y' : Int} (hbelow : ∀ r ∈ tail, y ≤ r.top) (hlt : y' < y) :
    line (points (old ++ tail)) y' = line (points old) y' := by
  have hempty : line (points tail) y' = ∅ :=
    line_eq_empty fun r hr => .inl (hlt.trans_le (hbelow r hr))
  rw [line_points_append, hempty, Set.union_empty]

lemma line_append_below {y' : Int} (habove : ∀ r ∈ old, r.bottom ≤ y) (hle : y ≤ y') :
    line (points (old ++ tail)) y' = line (points tail) y' := by
  have hempty : line (points old) y' = ∅ :=
    line_eq_empty fun r hr => .inr ((habove r hr).trans hle)
  rw [line_points_append, hempty, Set.empty_union]

lemma Stack.line_ne (h : Stack old prev y) (htail : Banded tail) (hbelow : ∀ r ∈ tail, y ≤ r.top)
    {r : Rect} (hr : r ∈ band tail) (hjoins : ¬Joins (old.drop prev) (band tail)) :
    line (points (old ++ tail)) (r.top - 1) ≠ line (points (old ++ tail)) r.top := by
  cases tail with
  | nil => simp [band] at hr
  | cons c tail =>
    obtain ⟨hcur, hrest, _⟩ := htail.first_band
    obtain ⟨top, bottom, hlast, hdone⟩ := h.last_band
    have htop : r.top = c.top := mem_band_top hr
    have hy := hbelow c mem_cons_self
    have hhigh := htail.high c mem_cons_self
    have hcolumns : line (points (old ++ c :: tail)) c.top = columns (band (c :: tail)) := by
      have hempty : line (points (bandEnd (c :: tail))) c.top = ∅ :=
        line_eq_empty fun r' hr' => .inl (hhigh.trans_le (hrest r' hr'))
      rw [line_append_below h.above hy]
      conv_lhs => rw [← band_append_bandEnd (c :: tail)]
      rw [line_points_append, hempty, Set.union_empty, hcur.line_eq le_rfl hhigh]
    have hnone : line (points (c :: tail)) (c.top - 1) = ∅ := by
      apply line_eq_empty
      intro r' hr'
      left
      rw [← band_append_bandEnd (c :: tail)] at hr'
      obtain hr' | hr' := mem_append.mp hr'
      · have heq := mem_band_top hr'
        omega
      · have hle := hrest r' hr'
        omega
    rw [htop, hcolumns, line_points_append, hnone, Set.union_empty]
    intro heq
    -- the columns of the row above are those of the last band, which then ends here
    have hmem : c.left ∈ line (points old) (c.top - 1) := by
      rw [heq]
      exact hcur.toXOrdered.left_mem mem_cons_self
    obtain ⟨o, ho, _, _, hotop, hobottom⟩ := hmem
    have hoy := h.above o ho
    have holast : o ∈ old.drop prev := by
      have hsplit : o ∈ old.take prev ++ old.drop prev := by rwa [take_append_drop]
      obtain hmem | hmem := mem_append.mp hsplit
      · have hne : old ≠ [] := ne_nil_of_mem ho
        obtain ⟨l, hl⟩ := exists_mem_of_ne_nil (old.drop prev) (by simpa using h.start hne)
        have hlold := mem_of_mem_drop hl
        have hdle := hdone o hmem
        have hltop := hlast.top_eq l hl
        have hlhigh := h.banded.high l hlold
        have hlabove := h.above l hlold
        omega
      · exact hmem
    have hotop' := hlast.top_eq o holast
    have hobottom' := hlast.bottom_eq o holast
    have hlastline : line (points old) (c.top - 1) = columns (old.drop prev) := by
      have hempty : line (points (old.take prev)) (c.top - 1) = ∅ := by
        apply line_eq_empty
        intro d hd
        right
        have hle := hdone d hd
        omega
      conv_lhs => rw [← take_append_drop prev old]
      rw [line_points_append, hempty, Set.empty_union]
      exact hlast.line_eq (by omega) (by omega)
    apply hjoins
    refine ⟨⟨o, holast, c, mem_cons_self, by omega⟩, ?_⟩
    apply hlast.toXOrdered.sides_unique hcur.toXOrdered
    rw [← hlastline, heq]

/-- The list of the coalesced bands. -/
structure Joined (old tail reg : List Rect) : Prop where
  banded : Banded reg
  points_eq : points reg = points (old ++ tail)
  coalesced : Coalesced tail → Coalesced reg

lemma Stack.line_ne_old (h : Stack old prev y) (hbelow : ∀ r ∈ tail, y ≤ r.top) {o : Rect}
    (ho : o ∈ old) :
    line (points (old ++ tail)) (o.top - 1) ≠ line (points (old ++ tail)) o.top := by
  have hhigh := h.banded.high o ho
  have hle := h.above o ho
  rw [line_append_above hbelow (by omega), line_append_above hbelow (by omega)]
  exact h.coalesced o ho

lemma Stack.line_ne_rest (h : Stack old prev y) (htail : Banded tail)
    (hbelow : ∀ r ∈ tail, y ≤ r.top) (hcoalesced : Coalesced tail) {r : Rect}
    (hr : r ∈ bandEnd tail) :
    line (points (old ++ tail)) (r.top - 1) ≠ line (points (old ++ tail)) r.top := by
  cases tail with
  | nil => simp [bandEnd] at hr
  | cons c tail =>
    have hrest := htail.first_band.2.1 r hr
    have hy := hbelow c mem_cons_self
    have hhigh := htail.high c mem_cons_self
    rw [line_append_below h.above (by omega), line_append_below h.above (by omega)]
    apply hcoalesced r
    rw [← band_append_bandEnd (c :: tail)]
    exact mem_append_right _ hr

variable {top bottom bottom' : Int}

lemma Row.lengthen {rects : List Rect} (h : Row top bottom rects) :
    Row top bottom' (rects.map fun p => { p with bottom := bottom' }) where
  wide := by simpa using h.wide
  ordered := by
    rw [pairwise_map]
    exact h.ordered
  top_eq := by simpa using h.top_eq
  bottom_eq := by simp

lemma columns_lengthen (rects : List Rect) :
    columns (rects.map fun p => { p with bottom := bottom' }) = columns rects := by
  apply columns_eq_of_sides
  simp [Rect.sides, Function.comp_def]

lemma Stack.joined (h : Stack old prev y) (htail : Banded tail) (hbelow : ∀ r ∈ tail, y ≤ r.top)
    {top' : Int} (hlast : Row top bottom (old.drop prev))
    (hdone : ∀ r ∈ old.take prev, r.bottom ≤ top) (hcur : Row top' bottom' (band tail))
    (hrest : ∀ r ∈ bandEnd tail, bottom' ≤ r.top) (hjoins : Joins (old.drop prev) (band tail)) :
    Joined old tail (old.take prev ++
      (old.drop prev).map (fun p => { p with bottom := bottom' }) ++ bandEnd tail) := by
  obtain ⟨⟨p, hp, c, hc, htouch⟩, hsides⟩ := hjoins
  have hpold := mem_of_mem_drop hp
  have hctail : c ∈ tail := by
    rw [← band_append_bandEnd tail]
    exact mem_append_left _ hc
  have hmid : bottom = top' := by
    rw [← hlast.bottom_eq p hp, ← hcur.top_eq c hc, htouch]
  have hlt : top < bottom := by
    rw [← hlast.bottom_eq p hp, ← hlast.top_eq p hp]
    exact h.banded.high p hpold
  have hlt' : top' < bottom' := by
    rw [← hcur.bottom_eq c hc, ← hcur.top_eq c hc]
    exact htail.high c hctail
  have hmerged := @Row.lengthen _ _ bottom' _ hlast
  have hpoints : points (old.take prev ++
      (old.drop prev).map (fun p => { p with bottom := bottom' }) ++ bandEnd tail) =
      points (old ++ tail) := by
    ext p
    have hold : p ∈ points old ↔ p ∈ points (old.take prev) ∨ p ∈ points (old.drop prev) := by
      rw [← mem_points_append, take_append_drop]
    have hnew : p ∈ points tail ↔ p ∈ points (band tail) ∨ p ∈ points (bandEnd tail) := by
      rw [← mem_points_append, band_append_bandEnd]
    rw [mem_points_append, mem_points_append, mem_points_append, hold, hnew, hmerged.mem_points,
      hlast.mem_points, hcur.mem_points, columns_lengthen, ← columns_eq_of_sides hsides]
    grind
  refine ⟨?_, hpoints, fun hcoalesced => ?_⟩
  · have hdoneBanded := h.banded.sublist (take_sublist prev old)
    have hrestBanded : Banded (bandEnd tail) := by
      rw [← band_append_bandEnd tail] at htail
      exact (banded_append.mp htail).2.1
    rw [banded_append, banded_append]
    refine ⟨⟨hdoneBanded, hmerged.banded (by omega), ?_⟩, hrestBanded, ?_⟩
    · intro r hr r' hr'
      right
      rw [hmerged.top_eq r' hr']
      exact hdone r hr
    intro r hr r' hr'
    right
    have hle := hrest r' hr'
    obtain hr | hr := mem_append.mp hr
    · have hle' := hdone r hr
      omega
    · rw [hmerged.bottom_eq r hr]
      exact hle
  · intro r hr
    rw [hpoints]
    obtain hr | hr := mem_append.mp hr
    · obtain hr | hr := mem_append.mp hr
      · exact h.line_ne_old hbelow (mem_of_mem_take hr)
      · rw [hmerged.top_eq r hr, ← hlast.top_eq p hp]
        exact h.line_ne_old hbelow hpold
    · exact h.line_ne_rest htail hbelow hcoalesced hr

lemma Stack.apart (h : Stack old prev y) (htail : Banded tail) (hbelow : ∀ r ∈ tail, y ≤ r.top)
    (hjoins : ¬Joins (old.drop prev) (band tail)) : Joined old tail (old ++ tail) where
  banded := h.append_banded htail hbelow
  points_eq := rfl
  coalesced hcoalesced := by
    intro r hr
    obtain hr | hr := mem_append.mp hr
    · exact h.line_ne_old hbelow hr
    rw [← band_append_bandEnd tail] at hr
    obtain hr | hr := mem_append.mp hr
    · exact h.line_ne htail hbelow hr hjoins
    · exact h.line_ne_rest htail hbelow hcoalesced hr

theorem Stack.coalesce (h : Stack old prev y) (htail : Banded tail)
    (hbelow : ∀ r ∈ tail, y ≤ r.top) :
    Joined old tail (coalesceNew (old ++ tail) prev old.length).1 := by
  obtain ⟨top, bottom, hlast, hdone⟩ := h.last_band
  cases tail with
  | nil =>
    rw [coalesceNew, if_neg (by simp)]
    exact ⟨h.append_banded htail hbelow, rfl, fun _ => by simpa using h.coalesced⟩
  | cons c tail =>
    obtain ⟨hcur, hrest, _⟩ := htail.first_band
    obtain ⟨hyes, hno⟩ := coalesceRegion_append hlast hcur h.start_le
    rw [coalesceNew, if_pos (by simp)]
    by_cases hjoins : Joins (old.drop prev) (band (c :: tail))
    · rw [(hyes hjoins).1]
      exact h.joined htail hbelow hlast hdone hcur hrest hjoins
    · rw [(hno hjoins).1]
      exact h.apart htail hbelow hjoins

/-- After a single row the list is again one that the sweep can go on with. -/
theorem Stack.add_row {S : Int → Prop} {out : List Rect} (h : Stack old prev y)
    (hle : y ≤ top) (hlt : top < bottom) (hrow : IsRow top bottom S out) :
    Stack (coalesceNew (old ++ out) prev old.length).1
      (coalesceNew (old ++ out) prev old.length).2 bottom := by
  have hout := hrow.toRow.banded hlt
  have hbelow : ∀ r ∈ out, y ≤ r.top := fun r hr => (hrow.top_eq r hr).symm ▸ hle
  have hjoined := h.coalesce hout hbelow
  have hcoalesced := hjoined.coalesced (hrow.toRow.coalesced hlt)
  obtain ⟨top', bottom', hlast, hdone⟩ := h.last_band
  cases out with
  | nil =>
    rw [coalesceNew, if_neg (by simp), append_nil]
    exact h.mono (hle.trans hlt.le)
  | cons c out =>
    obtain ⟨hband, hend⟩ := hrow.toRow.band_eq
    have hcur : Row top bottom (band (c :: out)) := hband.symm ▸ hrow.toRow
    obtain ⟨hyes, hno⟩ := coalesceRegion_append hlast hcur h.start_le
    have hnew : coalesceNew (old ++ c :: out) prev old.length =
        coalesceRegion (old ++ c :: out) prev old.length := by
      rw [coalesceNew, if_pos (by simp)]
    rw [hnew] at hjoined hcoalesced ⊢
    by_cases hjoins : Joins (old.drop prev) (band (c :: out))
    · obtain ⟨heq, hstart⟩ := hyes hjoins
      have hmerged := @Row.lengthen _ _ bottom _ hlast
      have hlen : (old.take prev).length = prev := length_take_of_le h.start_le
      rw [hend, append_nil] at heq
      rw [heq] at hjoined hcoalesced ⊢
      rw [hstart hend]
      obtain ⟨⟨p, hp, _⟩, _⟩ := hjoins
      have hlt' : prev < old.length := h.start (ne_nil_of_mem (mem_of_mem_drop hp))
      have hsum : (old.take prev ++
          (old.drop prev).map (fun p : Rect => { p with bottom := bottom })).length = old.length := by
        rw [length_append, length_map, hlen, length_drop]
        omega
      refine ⟨hjoined.banded, ?_, hsum ▸ h.start_le, fun _ => hsum ▸ hlt', ?_, hcoalesced⟩
      · intro r hr
        obtain hr | hr := mem_append.mp hr
        · have hle' := h.above r (mem_of_mem_take hr)
          omega
        · rw [hmerged.bottom_eq r hr]
      refine ⟨top', bottom, ?_, ?_⟩
      · rw [drop_left' hlen]
        exact hmerged
      · rw [take_left' hlen]
        exact hdone
    · obtain ⟨heq, hstart⟩ := hno hjoins
      rw [heq] at hjoined hcoalesced ⊢
      rw [hstart hend]
      refine ⟨hjoined.banded, ?_, by simp, fun _ => by simp, ?_, hcoalesced⟩
      · intro r hr
        obtain hr | hr := mem_append.mp hr
        · have hle' := h.above r hr
          omega
        · rw [hrow.bottom_eq r hr]
      refine ⟨top, bottom, ?_, ?_⟩
      · rw [drop_left]
        exact hrow.toRow
      · rw [take_left]
        exact fun r hr => (h.above r hr).trans hle

end Append

end WineForge.Regions
