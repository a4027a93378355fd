import WineForge.Regions.Coalesce

/-!
# The sweep computes the set operation

The main loop goes from top to bottom. What it has added is the result above the current height,
and what it has not used yet of the two regions is all that they have below.
-/

namespace WineForge.Regions

open List

/-- A callback for the rows of one region, present when the operation keeps these rows. -/
def Passes (non : Option NonOverlapFunc) (keep : Prop) : Prop :=
  (keep ∧ ∃ func : NonOverlapFunc, non = some func ∧
    ∀ reg rects top bottom, func reg rects top bottom = reg ++ rects.map (cut top bottom)) ∨
  (¬keep ∧ non = none)

/-- Callbacks that fit a set operation, which is given on the membership in the two regions. -/
structure Computes (op : Prop → Prop → Prop) (overlap : OverlapFunc)
    (non1 non2 : Option NonOverlapFunc) : Prop where
  neither : ¬op False False
  passes1 : Passes non1 (op True False)
  passes2 : Passes non2 (op False True)
  overlaps : ∀ {reg r1s r2s : List Rect} {top bottom : Int}, top < bottom →
    (∀ r ∈ reg, r.bottom ≤ top) → XOrdered r1s → XOrdered r2s →
    ∃ out, overlap reg r1s r2s top bottom = reg ++ out ∧
      IsRow top bottom (fun x => op (x ∈ columns r1s) (x ∈ columns r2s)) out

def target (op : Prop → Prop → Prop) (rects1 rects2 : List Rect) : Set (Int × Int) :=
  {p | op (p ∈ points rects1) (p ∈ points rects2)}

/-- `reg` is the result above `y`. -/
structure Swept (T : Set (Int × Int)) (reg : List Rect) (prev : Nat) (y : Int) : Prop
    extends Stack reg prev y where
  mem : ∀ p, p ∈ points reg ↔ p ∈ T ∧ p.2 < y

/-- `r` is what `rects` has from `y` on. Its first band may start above. -/
structure Rest (rects r : List Rect) (y : Int) : Prop where
  banded : Banded r
  ahead : ∀ q ∈ r, y < q.bottom
  sub : ∀ q ∈ r, q ∈ rects
  mem : ∀ p : Int × Int, y ≤ p.2 → (p ∈ points rects ↔ p ∈ points r)

section Height

variable {T : Set (Int × Int)} {reg : List Rect} {prev : Nat} {y : Int}

lemma Swept.skip (h : Swept T reg prev y) {y' : Int} (hle : y ≤ y')
    (hgap : ∀ p : Int × Int, y ≤ p.2 → p.2 < y' → p ∉ T) : Swept T reg prev y' where
  toStack := h.toStack.mono hle
  mem p := by
    rw [h.mem]
    constructor
    · rintro ⟨hp, hlt⟩
      exact ⟨hp, hlt.trans_le hle⟩
    · rintro ⟨hp, hlt⟩
      refine ⟨hp, not_le.mp fun hyp => hgap p hyp hlt hp⟩

lemma Swept.add_row (h : Swept T reg prev y) {S : Int → Prop} {top bottom : Int} {out : List Rect}
    (hle : y ≤ top) (hlt : top < bottom) (hrow : IsRow top bottom S out)
    (hgap : ∀ p : Int × Int, y ≤ p.2 → p.2 < top → p ∉ T)
    (hT : ∀ p : Int × Int, top ≤ p.2 → p.2 < bottom → (p ∈ T ↔ S p.1)) :
    Swept T (coalesceNew (reg ++ out) prev reg.length).1
      (coalesceNew (reg ++ out) prev reg.length).2 bottom where
  toStack := h.toStack.add_row hle hlt hrow
  mem p := by
    have hout := hrow.toRow.banded hlt
    have hbelow : ∀ r ∈ out, y ≤ r.top := fun r hr => (hrow.top_eq r hr).symm ▸ hle
    rw [(h.toStack.coalesce hout hbelow).points_eq, mem_points_append, hrow.toRow.mem_points,
      hrow.mem_columns, (h.skip hle hgap).mem]
    grind

lemma coalesceNew_self (reg : List Rect) (prev : Nat) :
    coalesceNew reg prev reg.length = (reg, prev) := by
  simp [coalesceNew]

end Height

section Rest

variable {rects r : List Rect} {y : Int} {h : Rect} {t : List Rect}

lemma Rest.not_mem (hrest : Rest rects (h :: t) y) {p : Int × Int}
    (hy : y ≤ p.2) (hp : p.2 < h.top) : p ∉ points rects := by
  rw [hrest.mem p hy, ← band_append_bandEnd (h :: t), mem_points_append]
  obtain ⟨hband, hbelow, _⟩ := hrest.banded.first_band
  have hhigh := hrest.banded.high h mem_cons_self
  rintro (hmem | ⟨q, hq, _, _, htop, _⟩)
  · have htop := (hband.mem_points.mp hmem).2.1
    omega
  · have hle := hbelow q hq
    omega

lemma Rest.mem_band (hrest : Rest rects (h :: t) y) {p : Int × Int}
    (hy : y ≤ p.2) (htop : h.top ≤ p.2) (hbottom : p.2 < h.bottom) :
    p ∈ points rects ↔ p.1 ∈ columns (band (h :: t)) := by
  obtain ⟨hband, hbelow, _⟩ := hrest.banded.first_band
  rw [hrest.mem p hy]
  conv_lhs => rw [← band_append_bandEnd (h :: t)]
  rw [mem_points_append, hband.mem_points]
  constructor
  · rintro (⟨hx, _⟩ | ⟨q, hq, _, _, hqtop, _⟩)
    · exact hx
    · have hle := hbelow q hq
      omega
  · intro hx
    exact .inl ⟨hx, htop, hbottom⟩

lemma Rest.advance (hrest : Rest rects (h :: t) y) {y' : Int}
    (hle : y ≤ y') (hbottom : y' ≤ h.bottom) :
    Rest rects (if h.bottom = y' then bandEnd (h :: t) else h :: t) y' := by
  obtain ⟨hband, hbelow, hend⟩ := hrest.banded.first_band
  have hsub : ∀ q ∈ bandEnd (h :: t), q ∈ h :: t := by
    intro q hq
    rw [← band_append_bandEnd (h :: t)]
    exact mem_append_right _ hq
  by_cases heq : h.bottom = y'
  · rw [if_pos heq]
    refine ⟨hend, ?_, fun q hq => hrest.sub q (hsub q hq), ?_⟩
    · intro q hq
      have hqtop := hbelow q hq
      have hqhigh := hend.high q hq
      omega
    intro p hp
    rw [hrest.mem p (hle.trans hp)]
    conv_lhs => rw [← band_append_bandEnd (h :: t)]
    rw [mem_points_append, hband.mem_points]
    constructor
    · rintro (⟨_, _, hlt⟩ | hmem)
      · omega
      · exact hmem
    · exact .inr
  · rw [if_neg heq]
    refine ⟨hrest.banded, ?_, hrest.sub, fun p hp => hrest.mem p (hle.trans hp)⟩
    intro q hq
    rw [← band_append_bandEnd (h :: t)] at hq
    obtain hq | hq := mem_append.mp hq
    · rw [hband.bottom_eq q hq]
      omega
    · have hqtop := hbelow q hq
      have hqhigh := hend.high q hq
      omega

end Rest

variable {y : Int} {op : Prop → Prop → Prop}

lemma Swept.add_passed {T : Set (Int × Int)} {reg rects : List Rect} {prev : Nat} {bot : Int}
    {h : Rect} {t : List Rect} {non : Option NonOverlapFunc} {keep : Prop}
    (hswept : Swept T reg prev y) (hrest : Rest rects (h :: t) y) (hnon : Passes non keep)
    (htop : h.top < bot) (hy : y < bot) (hbottom : bot ≤ h.bottom)
    (hT : ∀ p : Int × Int, y ≤ p.2 → p.2 < bot → (p ∈ T ↔ p ∈ points rects ∧ keep)) :
    Swept T
      (coalesceNew (callNonOverlap non reg (band (h :: t)) (max h.top y) bot) prev reg.length).1
      (coalesceNew (callNonOverlap non reg (band (h :: t)) (max h.top y) bot) prev reg.length).2
      bot := by
  obtain ⟨hkeep, func, rfl, hfunc⟩ | ⟨hkeep, rfl⟩ := hnon
  · rw [callNonOverlap, hfunc]
    apply hswept.add_row (le_max_right _ _) (max_lt htop hy)
      hrest.banded.first_band.1.toXOrdered.isRow_cut
    · intro p hp hlt
      have hnot : p ∉ points rects := hrest.not_mem hp (by omega)
      rw [hT p hp (by omega)]
      exact fun hmem => hnot hmem.1
    · intro p hp hlt
      rw [hT p (by omega) hlt, hrest.mem_band (by omega) (by omega) (by omega)]
      exact and_iff_left hkeep
  rw [callNonOverlap, coalesceNew_self]
  apply hswept.skip hy.le
  intro p hp hlt
  rw [hT p hp hlt]
  exact fun hmem => hkeep hmem.2

/-- What the main loop keeps. -/
structure Sweeping (op : Prop → Prop → Prop) (rects1 rects2 : List Rect) (s : Sweep) : Prop where
  swept : Swept (target op rects1 rects2) s.reg s.prevBand s.ybot
  rest1 : Rest rects1 s.r1 s.ybot
  rest2 : Rest rects2 s.r2 s.ybot
  fresh : (∀ r ∈ s.r1, s.ybot ≤ r.top) ∨ ∀ r ∈ s.r2, s.ybot ≤ r.top

section Round

variable {op : Prop → Prop → Prop} {overlap : OverlapFunc} {non1 non2 : Option NonOverlapFunc}
  {rects1 rects2 : List Rect} {s : Sweep} {h1 h2 : Rect} {t1 t2 : List Rect}

variable {p : Int × Int}

lemma mem_target :
    p ∈ target op rects1 rects2 ↔ op (p ∈ points rects1) (p ∈ points rects2) := Iff.rfl

lemma mem_target_left (hneither : ¬op False False) (hp : p ∉ points rects2) :
    p ∈ target op rects1 rects2 ↔ p ∈ points rects1 ∧ op True False := by
  rw [mem_target, eq_false hp]
  by_cases hp1 : p ∈ points rects1
  · rw [eq_true hp1, true_and]
  · rw [eq_false hp1, false_and]
    exact iff_false_intro hneither

lemma mem_target_right (hneither : ¬op False False) (hp : p ∉ points rects1) :
    p ∈ target op rects1 rects2 ↔ p ∈ points rects2 ∧ op False True := by
  rw [mem_target, eq_false hp]
  by_cases hp2 : p ∈ points rects2
  · rw [eq_true hp2, true_and]
  · rw [eq_false hp2, false_and]
    exact iff_false_intro hneither

section

variable (hop : Computes op overlap non1 non2)

include hop

lemma sweep_nonOverlap
    (hs : Sweeping op rects1 rects2 s) (hr1 : s.r1 = h1 :: t1) (hr2 : s.r2 = h2 :: t2) :
    (sweepNonOverlap non1 non2 s h1 h2).2 = max h1.top h2.top ∧
      Swept (target op rects1 rects2)
        (coalesceNew (sweepNonOverlap non1 non2 s h1 h2).1 s.prevBand s.reg.length).1
        (coalesceNew (sweepNonOverlap non1 non2 s h1 h2).1 s.prevBand s.reg.length).2
        (min (max h1.top h2.top) (min h1.bottom h2.bottom)) := by
  have hrest1 := hs.rest1
  have hrest2 := hs.rest2
  have hfresh := hs.fresh
  rw [hr1] at hrest1 hfresh
  rw [hr2] at hrest2 hfresh
  have hhigh1 := hrest1.banded.high h1 mem_cons_self
  have hhigh2 := hrest2.banded.high h2 mem_cons_self
  have hahead1 := hrest1.ahead h1 mem_cons_self
  have hahead2 := hrest2.ahead h2 mem_cons_self
  have hfresh' : s.ybot ≤ h1.top ∨ s.ybot ≤ h2.top :=
    hfresh.imp (fun h => h h1 mem_cons_self) (fun h => h h2 mem_cons_self)
  rw [sweepNonOverlap]
  by_cases hlt : h1.top < h2.top
  · -- only the first region has the rows down to the second one
    have hmax : max h1.top h2.top = h2.top := max_eq_right hlt.le
    have hmin : min h2.top (min h1.bottom h2.bottom) = min h1.bottom h2.top := by
      rw [min_left_comm, min_eq_left hhigh2.le]
    simp only [if_pos hlt]
    rw [hmax, hmin]
    refine ⟨rfl, ?_⟩
    by_cases heq : max h1.top s.ybot = min h1.bottom h2.top
    · have hy : min h1.bottom h2.top = s.ybot := by omega
      rw [if_neg (not_not.mpr heq), coalesceNew_self, hy]
      exact hs.swept
    rw [if_pos heq, hr1]
    apply hs.swept.add_passed hrest1 hop.passes1 (by omega) (by omega) (by omega)
    intro p hp hpbot
    exact mem_target_left hop.neither (hrest2.not_mem hp (by omega))
  · by_cases hgt : h2.top < h1.top
    · have hmax : max h1.top h2.top = h1.top := max_eq_left hgt.le
      have hmin : min h1.top (min h1.bottom h2.bottom) = min h2.bottom h1.top := by
        rw [← min_assoc, min_eq_left hhigh1.le, min_comm]
      simp only [if_neg hlt, if_pos hgt]
      rw [hmax, hmin]
      refine ⟨rfl, ?_⟩
      by_cases heq : max h2.top s.ybot = min h2.bottom h1.top
      · have hy : min h2.bottom h1.top = s.ybot := by omega
        rw [if_neg (not_not.mpr heq), coalesceNew_self, hy]
        exact hs.swept
      rw [if_pos heq, hr2]
      apply hs.swept.add_passed hrest2 hop.passes2 (by omega) (by omega) (by omega)
      intro p hp hpbot
      exact mem_target_right hop.neither (hrest1.not_mem hp (by omega))
    · -- both start here, and there is nothing above
      have heq : max h1.top h2.top = h1.top := by omega
      have hmin : min h1.top (min h1.bottom h2.bottom) = h1.top := by omega
      simp only [if_neg hlt, if_neg hgt]
      rw [heq, hmin, coalesceNew_self]
      refine ⟨rfl, hs.swept.skip (by omega) ?_⟩
      intro p hp hptop hmem
      rw [mem_target_left hop.neither (hrest2.not_mem hp (by omega))] at hmem
      exact hrest1.not_mem hp hptop hmem.1

lemma sweep_overlap {reg : List Rect} {prev : Nat}
    (hrest1 : Rest rects1 (h1 :: t1) s.ybot) (hrest2 : Rest rects2 (h2 :: t2) s.ybot)
    (hy : s.ybot ≤ max h1.top h2.top)
    (hswept : Swept (target op rects1 rects2) reg prev
      (min (max h1.top h2.top) (min h1.bottom h2.bottom))) :
    let reg' :=
      if min h1.bottom h2.bottom > max h1.top h2.top then
        overlap reg (band (h1 :: t1)) (band (h2 :: t2)) (max h1.top h2.top)
          (min h1.bottom h2.bottom)
      else reg
    Swept (target op rects1 rects2) (coalesceNew reg' prev reg.length).1
      (coalesceNew reg' prev reg.length).2 (min h1.bottom h2.bottom) := by
  dsimp only
  by_cases hlt : min h1.bottom h2.bottom > max h1.top h2.top
  · rw [min_eq_left hlt.le] at hswept
    obtain ⟨out, heq, hrow⟩ := hop.overlaps hlt hswept.above
      hrest1.banded.first_band.1.toXOrdered hrest2.banded.first_band.1.toXOrdered
    rw [if_pos hlt, heq]
    apply hswept.add_row le_rfl hlt hrow
    · intro p hp hp'
      omega
    · intro p hp hp'
      rw [mem_target, hrest1.mem_band (by omega) (by omega) (by omega),
        hrest2.mem_band (by omega) (by omega) (by omega)]
  · rw [min_eq_right (not_lt.mp hlt)] at hswept
    rw [if_neg hlt, coalesceNew_self]
    exact hswept

theorem sweepStep_keeps
    (hs : Sweeping op rects1 rects2 s) (hr1 : s.r1 = h1 :: t1) (hr2 : s.r2 = h2 :: t2) :
    Sweeping op rects1 rects2 (sweepStep overlap non1 non2 s h1 h2) := by
  obtain ⟨hytop, hswept⟩ := sweep_nonOverlap hop hs hr1 hr2
  have hrest1 := hs.rest1
  have hrest2 := hs.rest2
  have hfresh := hs.fresh
  rw [hr1] at hrest1 hfresh
  rw [hr2] at hrest2 hfresh
  have hahead1 := hrest1.ahead h1 mem_cons_self
  have hahead2 := hrest2.ahead h2 mem_cons_self
  have hy : s.ybot ≤ max h1.top h2.top := by
    obtain h | h := hfresh
    · exact (h h1 mem_cons_self).trans (le_max_left _ _)
    · exact (h h2 mem_cons_self).trans (le_max_right _ _)
  have hover := sweep_overlap hop hrest1 hrest2 hy hswept
  refine ⟨?_, ?_, ?_, ?_⟩
  · simp only [sweepStep, hytop, hr1, hr2]
    exact hover
  · simp only [sweepStep, hr1]
    exact hrest1.advance (le_min hahead1.le hahead2.le) (min_le_left _ _)
  · simp only [sweepStep, hr2]
    exact hrest2.advance (le_min hahead1.le hahead2.le) (min_le_right _ _)
  -- the region whose band ends first goes on with a band below
  simp only [sweepStep, hr1, hr2]
  obtain hle | hle := le_total h1.bottom h2.bottom
  · left
    rw [min_eq_left hle, if_pos rfl]
    exact hrest1.banded.first_band.2.1
  · right
    rw [min_eq_right hle, if_pos rfl]
    exact hrest2.banded.first_band.2.1

/-- The loop stops when one region is used up, with the result above the height it reached. -/
theorem sweepLoop_keeps (hs : Sweeping op rects1 rects2 s) :
    Sweeping op rects1 rects2 (sweepLoop overlap non1 non2 s) ∧
      ((sweepLoop overlap non1 non2 s).r1 = [] ∨ (sweepLoop overlap non1 non2 s).r2 = []) := by
  fun_induction sweepLoop overlap non1 non2 s with
  | case1 s h1 t1 h2 t2 hr1 hr2 ih => exact ih (sweepStep_keeps hop hs hr1 hr2)
  | case2 s hnot =>
    refine ⟨hs, ?_⟩
    cases hr1 : s.r1 with
    | nil => exact .inl rfl
    | cons h1 t1 =>
      cases hr2 : s.r2 with
      | nil => exact .inr rfl
      | cons h2 t2 => exact absurd hr2 (hnot h1 t1 h2 t2 hr1)

end

end Round

/-- The part of a rectangle from `y` on. -/
def clip (y : Int) (r : Rect) : Rect := { r with top := max r.top y }

lemma map_cut_band {h : Rect} {t : List Rect} (hb : Banded (h :: t)) :
    (band (h :: t)).map (cut (max h.top y) h.bottom) = (band (h :: t)).map (clip y) := by
  apply map_congr_left
  intro r hr
  rw [cut, clip, ← hb.first_band.1.top_eq r hr, ← hb.first_band.1.bottom_eq r hr]

lemma sweepRest_eq {func : NonOverlapFunc} {reg r : List Rect} (hb : Banded r)
    (hfunc : ∀ reg rects top bottom, func reg rects top bottom =
      reg ++ rects.map (cut top bottom)) :
    sweepRest func y reg r = reg ++ r.map (clip y) := by
  fun_induction sweepRest func y reg r with
  | case1 reg => simp
  | case2 reg h t ih =>
    rw [ih hb.first_band.2.2, hfunc, map_cut_band hb, append_assoc, ← map_append,
      band_append_bandEnd]

section Clip

variable {rects r : List Rect} {y : Int}

lemma Rest.clip_banded (hrest : Rest rects r y) : Banded (r.map (clip y)) where
  wide := by simpa [clip] using hrest.banded.wide
  high := by
    simp only [mem_map, forall_exists_index, and_imp, forall_apply_eq_imp_iff₂]
    intro q hq
    exact max_lt (hrest.banded.high q hq) (hrest.ahead q hq)
  ordered := by
    rw [pairwise_map]
    apply hrest.banded.ordered.imp
    intro q q' hbefore
    obtain ⟨htop, hbottom, hgap⟩ | hle := hbefore
    · exact .inl ⟨congrArg (max · y) htop, hbottom, hgap⟩
    · exact .inr (hle.trans (le_max_left _ _))

lemma Rest.mem_clip (hrest : Rest rects r y) {p : Int × Int} :
    p ∈ points (r.map (clip y)) ↔ p ∈ points rects ∧ y ≤ p.2 := by
  constructor
  · rintro ⟨q', hq', hleft, hright, htop, hbottom⟩
    obtain ⟨q, hq, rfl⟩ := mem_map.mp hq'
    have hy : y ≤ p.2 := (le_max_right _ _).trans htop
    rw [hrest.mem p hy]
    exact ⟨⟨q, hq, hleft, hright, (le_max_left _ _).trans htop, hbottom⟩, hy⟩
  · rintro ⟨hmem, hy⟩
    rw [hrest.mem p hy] at hmem
    obtain ⟨q, hq, hleft, hright, htop, hbottom⟩ := hmem
    exact ⟨clip y q, mem_map_of_mem hq, hleft, hright, max_le htop hy, hbottom⟩

lemma Rest.clip_coalesced (hrest : Rest rects r y) (hcoalesced : Coalesced rects) :
    Coalesced (r.map (clip y)) := by
  have hline : ∀ y', y ≤ y' → line (points (r.map (clip y))) y' = line (points rects) y' := by
    intro y' hy
    ext x
    rw [mem_line, hrest.mem_clip]
    exact and_iff_left hy
  intro q' hq'
  obtain ⟨q, hq, rfl⟩ := mem_map.mp hq'
  by_cases hlt : y < q.top
  · have htop : (clip y q).top = q.top := max_eq_left hlt.le
    rw [htop, hline q.top hlt.le, hline (q.top - 1) (by omega)]
    exact hcoalesced q (hrest.sub q hq)
  have htop : (clip y q).top = y := max_eq_right (not_lt.mp hlt)
  have hempty : line (points (r.map (clip y))) (y - 1) = ∅ := by
    rw [Set.eq_empty_iff_forall_notMem]
    intro x hx
    rw [mem_line, hrest.mem_clip] at hx
    omega
  have hnonempty := hrest.clip_banded.line_nonempty hq'
  rw [htop] at hnonempty ⊢
  rw [hempty]
  exact hnonempty.ne_empty.symm

lemma Swept.finish {T : Set (Int × Int)} {reg : List Rect} {prev : Nat}
    {non : Option NonOverlapFunc} {keep : Prop} (hswept : Swept T reg prev y)
    (hrest : Rest rects r y) (hnon : Passes non keep)
    (hT : ∀ p : Int × Int, y ≤ p.2 → (p ∈ T ↔ p ∈ points rects ∧ keep)) :
    Banded (coalesceNew (callRest non y reg r) prev reg.length).1 ∧
      points (coalesceNew (callRest non y reg r) prev reg.length).1 = T ∧
      ((keep → Coalesced rects) →
        Coalesced (coalesceNew (callRest non y reg r) prev reg.length).1) := by
  obtain ⟨hkeep, func, rfl, hfunc⟩ | ⟨hkeep, rfl⟩ := hnon
  · have hbelow : ∀ q ∈ r.map (clip y), y ≤ q.top := by
      simp only [mem_map, forall_exists_index, and_imp, forall_apply_eq_imp_iff₂]
      exact fun q _ => le_max_right _ _
    have hjoined := hswept.toStack.coalesce hrest.clip_banded hbelow
    rw [callRest, sweepRest_eq hrest.banded hfunc]
    refine ⟨hjoined.banded, ?_, fun hcoalesced =>
      hjoined.coalesced (hrest.clip_coalesced (hcoalesced hkeep))⟩
    rw [hjoined.points_eq]
    ext p
    rw [mem_points_append, hswept.mem, hrest.mem_clip]
    grind
  · rw [callRest, coalesceNew_self]
    refine ⟨hswept.banded, ?_, fun _ => hswept.coalesced⟩
    ext p
    rw [hswept.mem]
    constructor
    · exact fun hp => hp.1
    · intro hp
      refine ⟨hp, not_le.mp fun hy => ?_⟩
      exact hkeep ((hT p hy).mp hp).2

end Clip

lemma sweep_start {rects1 rects2 : List Rect} {ybot : Int}
    (hneither : ¬op False False) (h1 : Banded rects1) (h2 : Banded rects2)
    (hy1 : ∀ r ∈ rects1, ybot ≤ r.top) (hy2 : ∀ r ∈ rects2, ybot ≤ r.top) :
    Sweeping op rects1 rects2 ⟨[], 0, ybot, rects1, rects2⟩ := by
  have hwhole : ∀ {rects : List Rect}, Banded rects → (∀ r ∈ rects, ybot ≤ r.top) →
      Rest rects rects ybot ∧ ∀ p : Int × Int, p.2 < ybot → p ∉ points rects := by
    intro rects hb hy
    refine ⟨⟨hb, fun q hq => (hy q hq).trans_lt (hb.high q hq), fun q hq => hq,
      fun _ _ => Iff.rfl⟩, ?_⟩
    rintro p hp ⟨r, hr, _, _, htop, _⟩
    have hle := hy r hr
    omega
  refine ⟨⟨stack_nil ybot, fun p => ?_⟩, (hwhole h1 hy1).1, (hwhole h2 hy2).1, .inl hy1⟩
  have hnone : p ∈ target op rects1 rects2 → ¬p.2 < ybot := by
    intro hmem hlt
    rw [mem_target, eq_false ((hwhole h1 hy1).2 p hlt), eq_false ((hwhole h2 hy2).2 p hlt)] at hmem
    exact hneither hmem
  rw [points_nil]
  exact ⟨fun h => h.elim, fun h => absurd h.2 (hnone h.1)⟩

lemma sweep_finish {overlap : OverlapFunc}
    {non1 non2 : Option NonOverlapFunc} {rects1 rects2 : List Rect} {s : Sweep}
    (hop : Computes op overlap non1 non2) (hs : Sweeping op rects1 rects2 s)
    (hend : s.r1 = [] ∨ s.r2 = []) :
    let reg :=
      if s.r1 ≠ [] then callRest non1 s.ybot s.reg s.r1
      else if s.r2 ≠ [] then callRest non2 s.ybot s.reg s.r2
      else s.reg
    let final := (coalesceNew reg s.prevBand s.reg.length).1
    Banded final ∧ points final = target op rects1 rects2 ∧
      ((op True False → Coalesced rects1) → (op False True → Coalesced rects2) →
        Coalesced final) := by
  have hnone : ∀ {rects : List Rect}, Rest rects [] s.ybot → ∀ p : Int × Int, s.ybot ≤ p.2 →
      p ∉ points rects := by
    intro rects hrest p hp
    rw [hrest.mem p hp, points_nil]
    exact Set.notMem_empty p
  have hrest1 := hs.rest1
  have hrest2 := hs.rest2
  by_cases hr1 : s.r1 = []
  · have hreg : (if s.r1 ≠ [] then callRest non1 s.ybot s.reg s.r1
        else if s.r2 ≠ [] then callRest non2 s.ybot s.reg s.r2 else s.reg) =
        callRest non2 s.ybot s.reg s.r2 := by
      rw [if_neg (not_not.mpr hr1)]
      by_cases hr2 : s.r2 = []
      · rw [if_neg (not_not.mpr hr2), hr2]
        cases non2 with
        | none => rfl
        | some func => rw [callRest, sweepRest]
      · rw [if_pos hr2]
    rw [hr1] at hrest1
    have hfinish := hs.swept.finish hrest2 hop.passes2
      (fun p hp => mem_target_right hop.neither (hnone hrest1 p hp))
    rw [hreg]
    exact ⟨hfinish.1, hfinish.2.1, fun _ h2 => hfinish.2.2 h2⟩
  · have hr2 : s.r2 = [] := hend.resolve_left hr1
    rw [hr2] at hrest2
    have hfinish := hs.swept.finish hrest1 hop.passes1
      (fun p hp => mem_target_left hop.neither (hnone hrest2 p hp))
    rw [if_pos hr1]
    exact ⟨hfinish.1, hfinish.2.1, fun h1 _ => hfinish.2.2 h1⟩

/-- The rectangles that are computed are a valid list of the points that the operation keeps. It is
coalesced when the regions whose rows are passed on are. -/
theorem regionOp_spec {overlap : OverlapFunc}
    {non1 non2 : Option NonOverlapFunc} {reg1 reg2 : Region} (hop : Computes op overlap non1 non2)
    (h1 : Banded reg1.rects) (h2 : Banded reg2.rects)
    (hext1 : ∀ r ∈ reg1.rects, reg1.extents.top ≤ r.top)
    (hext2 : ∀ r ∈ reg2.rects, reg2.extents.top ≤ r.top) :
    Banded (regionOp reg1 reg2 overlap non1 non2) ∧
      points (regionOp reg1 reg2 overlap non1 non2) = target op reg1.rects reg2.rects ∧
      ((op True False → Coalesced reg1.rects) → (op False True → Coalesced reg2.rects) →
        Coalesced (regionOp reg1 reg2 overlap non1 non2)) := by
  set ybot :=
    if reg1.extents.top < reg2.extents.top then reg1.extents.top else reg2.extents.top with hybot
  have hy1 : ∀ r ∈ reg1.rects, ybot ≤ r.top := by
    intro r hr
    have hle := hext1 r hr
    omega
  have hy2 : ∀ r ∈ reg2.rects, ybot ≤ r.top := by
    intro r hr
    have hle := hext2 r hr
    omega
  have hstart := @sweep_start op _ _ _ hop.neither h1 h2 hy1 hy2
  obtain ⟨hs, hend⟩ := sweepLoop_keeps hop hstart
  exact sweep_finish hop hs hend

lemma intersect_computes : Computes And intersectOverlapping none none where
  neither h := h.1
  passes1 := .inr ⟨fun h => h.2, rfl⟩
  passes2 := .inr ⟨fun h => h.1, rfl⟩
  overlaps _ _ h1 h2 := intersectOverlapping_spec _ h1 h2

lemma subtract_computes : Computes (fun a b => a ∧ ¬b) subtractOverlapping
    (some subtractNonOverlapping) none where
  neither h := h.1
  passes1 := .inl ⟨⟨trivial, not_false⟩, _, rfl, subtractNonOverlapping_eq⟩
  passes2 := .inr ⟨fun h => h.1, rfl⟩
  overlaps _ _ h1 h2 := subtractOverlapping_spec _ h1 h2

lemma union_computes : Computes Or unionOverlapping (some unionNonOverlapping)
    (some unionNonOverlapping) where
  neither h := h.elim id id
  passes1 := .inl ⟨.inl trivial, _, rfl, unionNonOverlapping_eq⟩
  passes2 := .inl ⟨.inr trivial, _, rfl, unionNonOverlapping_eq⟩
  overlaps hlt hpre h1 h2 := by
    obtain ⟨out, heq, hrow⟩ := unionOverlapping_spec hlt (append_nil _).symm hpre
      (IsRow.nil fun _ => not_false) h1 h2 (by simp) (by simp)
    exact ⟨out, heq, hrow.congr fun x => by rw [false_or]⟩

end WineForge.Regions
