import Mathlib.Algebra.Order.Ring.Int

/-!
# Regions

A region is a list of rectangles in bands, from top to bottom, and from left to right inside a
band, together with its extents. The set operations walk two such lists with one callback for the
rows that both regions have and one for the rows that only one of them has. Coordinates are only
compared here, so the integers of the source are integers. All allocations succeed.
-/

namespace WineForge.Regions

open Function

structure Rect where
  left : Int
  top : Int
  right : Int
  bottom : Int
  deriving DecidableEq, Repr

def emptyRect : Rect := ⟨0, 0, 0, 0⟩

structure Region where
  rects : List Rect
  extents : Rect
  deriving DecidableEq, Repr

def isRectEmpty (rect : Rect) : Bool :=
  decide (rect.left ≥ rect.right) || decide (rect.top ≥ rect.bottom)

def extentCheck (r1 r2 : Rect) : Bool :=
  decide (r1.right > r2.left) && decide (r1.left < r2.right) && decide (r1.bottom > r2.top) &&
    decide (r1.top < r2.bottom)

def validateRectangles : List Rect → Bool
  | [] => true
  | [rect] => !isRectEmpty rect
  | rect :: next :: rects =>
    if isRectEmpty rect then false
    else if rect.top = next.top then
      if rect.bottom ≠ next.bottom then false
      else if rect.right ≥ next.left then false
      else validateRectangles (next :: rects)
    else if rect.bottom > next.top then false
    else validateRectangles (next :: rects)

/-- The rectangles before `r1BandEnd`: the ones at the top of the first. -/
def band : List Rect → List Rect
  | [] => []
  | rect :: rects => rect :: rects.takeWhile fun r => r.top = rect.top

def bandEnd : List Rect → List Rect
  | [] => []
  | rect :: rects => rects.dropWhile fun r => r.top = rect.top

def lastBandStart (rects : List Rect) : Nat :=
  rects.length - (band rects.reverse).length

def sameSides : List Rect → List Rect → Bool
  | [], [] => true
  | prev :: prevs, cur :: curs =>
    if prev.left ≠ cur.left ∨ prev.right ≠ cur.right then false else sameSides prevs curs
  | _, _ => false

/-- Merges the band at `curStart` into the one at `prevStart`, when they touch and have the same
sides. The second component is the start of the last band. -/
def coalesceRegion (rects : List Rect) (prevStart curStart : Nat) : List Rect × Nat :=
  let cur := band (rects.drop curStart)
  let rest := bandEnd (rects.drop curStart)
  let prev := (rects.take curStart).drop prevStart
  let lastStart := if rest = [] then curStart else lastBandStart rects
  if cur.length = prev.length then
    match prev, cur with
    | p :: _, c :: _ =>
      if p.bottom = c.top then
        if sameSides prev cur then
          (rects.take prevStart ++ List.zipWith (fun p c => { p with bottom := c.bottom }) prev cur ++
            rest, if rest = [] then prevStart else lastStart)
        else (rects, lastStart)
      else (rects, lastStart)
    | _, _ => (rects, lastStart)
  else (rects, lastStart)

abbrev OverlapFunc := List Rect → List Rect → List Rect → Int → Int → List Rect
abbrev NonOverlapFunc := List Rect → List Rect → Int → Int → List Rect

/-- `add_rect`, and the assignments behind it. -/
def addRect (reg : List Rect) (left top right bottom : Int) : List Rect :=
  reg ++ [⟨left, top, right, bottom⟩]

def intersectOverlapping (reg : List Rect) : List Rect → List Rect → Int → Int → List Rect
  | r1 :: r1s, r2 :: r2s, top, bottom =>
    let left := max r1.left r2.left
    let right := min r1.right r2.right
    let reg := if left < right then addRect reg left top right bottom else reg
    if r1.right < r2.right then intersectOverlapping reg r1s (r2 :: r2s) top bottom
    else if r2.right < r1.right then intersectOverlapping reg (r1 :: r1s) r2s top bottom
    else intersectOverlapping reg r1s r2s top bottom
  | _, _, _, _ => reg
  termination_by r1s r2s => r1s.length + r2s.length

def subtractNonOverlapping (reg : List Rect) : List Rect → Int → Int → List Rect
  | [], _, _ => reg
  | r :: rs, top, bottom =>
    subtractNonOverlapping (addRect reg r.left top r.right bottom) rs top bottom

/-- `left` after `r1++`: it moves to the next rectangle, if there is one. -/
def nextLeft : List Rect → Int → Int
  | [], left => left
  | r :: _, _ => r.left

/-- The last loop of `subtract_overlapping`. -/
def subtractRest (reg : List Rect) : Int → List Rect → Int → Int → List Rect
  | _, [], _, _ => reg
  | left, r1 :: r1s, top, bottom =>
    subtractRest (addRect reg left top r1.right bottom) (nextLeft r1s left) r1s top bottom

def subtractLoop (reg : List Rect) : Int → List Rect → List Rect → Int → Int → List Rect
  | left, r1 :: r1s, r2 :: r2s, top, bottom =>
    if r2.right ≤ left then subtractLoop reg left (r1 :: r1s) r2s top bottom
    else if r2.left ≤ left then
      if r2.right ≥ r1.right then
        subtractLoop reg (nextLeft r1s r2.right) r1s (r2 :: r2s) top bottom
      else subtractLoop reg r2.right (r1 :: r1s) r2s top bottom
    else if r2.left < r1.right then
      let reg := addRect reg left top r2.left bottom
      if r2.right ≥ r1.right then
        subtractLoop reg (nextLeft r1s r2.right) r1s (r2 :: r2s) top bottom
      else subtractLoop reg r2.right (r1 :: r1s) r2s top bottom
    else
      let reg := if r1.right > left then addRect reg left top r1.right bottom else reg
      subtractLoop reg (nextLeft r1s left) r1s (r2 :: r2s) top bottom
  | left, r1s, _, top, bottom => subtractRest reg left r1s top bottom
  termination_by _ r1s r2s => r1s.length + r2s.length

def subtractOverlapping (reg r1s r2s : List Rect) (top bottom : Int) : List Rect :=
  subtractLoop reg (nextLeft r1s 0) r1s r2s top bottom

def unionNonOverlapping (reg : List Rect) : List Rect → Int → Int → List Rect
  | [], _, _ => reg
  | r :: rs, top, bottom =>
    unionNonOverlapping (addRect reg r.left top r.right bottom) rs top bottom

def mergeRect (reg : List Rect) (r : Rect) (top bottom : Int) : List Rect :=
  match reg.getLast? with
  | none => addRect reg r.left top r.right bottom
  | some last =>
    if last.top = top ∧ last.bottom = bottom ∧ last.right ≥ r.left then
      if last.right < r.right then reg.dropLast ++ [{ last with right := r.right }] else reg
    else addRect reg r.left top r.right bottom

def unionRest (reg : List Rect) : List Rect → Int → Int → List Rect
  | [], _, _ => reg
  | r :: rs, top, bottom => unionRest (mergeRect reg r top bottom) rs top bottom

def unionOverlapping (reg : List Rect) : List Rect → List Rect → Int → Int → List Rect
  | r1 :: r1s, r2 :: r2s, top, bottom =>
    if r1.left < r2.left then
      unionOverlapping (mergeRect reg r1 top bottom) r1s (r2 :: r2s) top bottom
    else unionOverlapping (mergeRect reg r2 top bottom) (r1 :: r1s) r2s top bottom
  | [], r2s, top, bottom => unionRest reg r2s top bottom
  | r1s, [], top, bottom => unionRest reg r1s top bottom
  termination_by r1s r2s => r1s.length + r2s.length

/-- The variables of the main loop. -/
structure Sweep where
  reg : List Rect
  prevBand : Nat
  ybot : Int
  r1 : List Rect
  r2 : List Rect

/-- Coalesces the band at `curBand`, if anything was added. -/
def coalesceNew (reg : List Rect) (prevBand curBand : Nat) : List Rect × Nat :=
  if reg.length ≠ curBand then coalesceRegion reg prevBand curBand else (reg, prevBand)

def callNonOverlap (func : Option NonOverlapFunc) (reg r : List Rect) (top bottom : Int) :
    List Rect :=
  match func with
  | none => reg
  | some func => func reg r top bottom

/-- The rows above the ones that both bands have. Also returns `ytop`. -/
def sweepNonOverlap (non1 non2 : Option NonOverlapFunc) (s : Sweep) (h1 h2 : Rect) :
    List Rect × Int :=
  if h1.top < h2.top then
    let top := max h1.top s.ybot
    let bot := min h1.bottom h2.top
    (if top ≠ bot then callNonOverlap non1 s.reg (band s.r1) top bot else s.reg, h2.top)
  else if h2.top < h1.top then
    let top := max h2.top s.ybot
    let bot := min h2.bottom h1.top
    (if top ≠ bot then callNonOverlap non2 s.reg (band s.r2) top bot else s.reg, h1.top)
  else (s.reg, h1.top)

/-- One round of the main loop, on the first rectangles `h1` and `h2` of what is left. -/
def sweepStep (overlap : OverlapFunc) (non1 non2 : Option NonOverlapFunc) (s : Sweep)
    (h1 h2 : Rect) : Sweep :=
  let (reg, ytop) := sweepNonOverlap non1 non2 s h1 h2
  let (reg, prevBand) := coalesceNew reg s.prevBand s.reg.length
  let ybot := min h1.bottom h2.bottom
  let curBand := reg.length
  let reg := if ybot > ytop then overlap reg (band s.r1) (band s.r2) ytop ybot else reg
  let (reg, prevBand) := coalesceNew reg prevBand curBand
  { reg := reg
    prevBand := prevBand
    ybot := ybot
    r1 := if h1.bottom = ybot then bandEnd s.r1 else s.r1
    r2 := if h2.bottom = ybot then bandEnd s.r2 else s.r2 }

lemma length_bandEnd_lt {rects : List Rect} (h : rects ≠ []) :
    (bandEnd rects).length < rects.length := by
  cases rects with
  | nil => exact absurd rfl h
  | cons rect rects =>
    have hle := (@List.dropWhile_suffix _ rects fun r => decide (r.top = rect.top)).length_le
    simp only [bandEnd, List.length_cons]
    omega

lemma sweepStep_shorter (overlap : OverlapFunc) (non1 non2 : Option NonOverlapFunc) (s : Sweep)
    {h1 h2 : Rect} {t1 t2 : List Rect} (hr1 : s.r1 = h1 :: t1) (hr2 : s.r2 = h2 :: t2) :
    (sweepStep overlap non1 non2 s h1 h2).r1.length +
      (sweepStep overlap non1 non2 s h1 h2).r2.length < s.r1.length + s.r2.length := by
  have hlt1 := @length_bandEnd_lt s.r1 (by simp [hr1])
  have hlt2 := @length_bandEnd_lt s.r2 (by simp [hr2])
  simp only [sweepStep]
  split <;> split <;> omega

def sweepLoop (overlap : OverlapFunc) (non1 non2 : Option NonOverlapFunc) (s : Sweep) : Sweep :=
  match _hr1 : s.r1, _hr2 : s.r2 with
  | h1 :: _, h2 :: _ => sweepLoop overlap non1 non2 (sweepStep overlap non1 non2 s h1 h2)
  | _, _ => s
  termination_by s.r1.length + s.r2.length
  decreasing_by exact sweepStep_shorter overlap non1 non2 s _hr1 _hr2

def sweepRest (func : NonOverlapFunc) (ybot : Int) (reg : List Rect) : List Rect → List Rect
  | [] => reg
  | h :: t =>
    sweepRest func ybot (func reg (band (h :: t)) (max h.top ybot) h.bottom) (bandEnd (h :: t))
  termination_by r => r.length
  decreasing_by exact length_bandEnd_lt (by simp)

def callRest (func : Option NonOverlapFunc) (ybot : Int) (reg r : List Rect) : List Rect :=
  match func with
  | none => reg
  | some func => sweepRest func ybot reg r

/-- The rectangles that `region_op` computes. -/
def regionOp (reg1 reg2 : Region) (overlap : OverlapFunc) (non1 non2 : Option NonOverlapFunc) :
    List Rect :=
  let ybot :=
    if reg1.extents.top < reg2.extents.top then reg1.extents.top else reg2.extents.top
  let s := sweepLoop overlap non1 non2 ⟨[], 0, ybot, reg1.rects, reg2.rects⟩
  let curBand := s.reg.length
  let reg :=
    if s.r1 ≠ [] then callRest non1 s.ybot s.reg s.r1
    else if s.r2 ≠ [] then callRest non2 s.ybot s.reg s.r2
    else s.reg
  (coalesceNew reg s.prevBand curBand).1

def growExtents (extents rect : Rect) : Rect :=
  let extents := if rect.left < extents.left then { extents with left := rect.left } else extents
  if rect.right > extents.right then { extents with right := rect.right } else extents

def regionExtents (rects : List Rect) : Rect :=
  match rects.head?, rects.getLast? with
  | some first, some last =>
    rects.foldl growExtents ⟨first.left, first.top, last.right, last.bottom⟩
  | _, _ => emptyRect

def setRegionExtents (region : Region) : Region :=
  { region with extents := regionExtents region.rects }

abbrev Store (L : Type*) := L → Region

variable {L : Type*} [DecidableEq L]

def copyRegion (st : Store L) (dst src : L) : Store L :=
  if dst = src then st else update st dst (st src)

def intersectRegion (st : Store L) (dst src1 src2 : L) : Store L :=
  if (st src1).rects = [] ∨ (st src2).rects = [] ∨
      extentCheck (st src1).extents (st src2).extents = false then
    update st dst ⟨[], emptyRect⟩
  else
    let rects := regionOp (st src1) (st src2) intersectOverlapping none none
    update st dst (setRegionExtents { st dst with rects := rects })

def subtractRegion (st : Store L) (dst src1 src2 : L) : Store L :=
  if (st src1).rects = [] ∨ (st src2).rects = [] ∨
      extentCheck (st src1).extents (st src2).extents = false then
    copyRegion st dst src1
  else
    let rects := regionOp (st src1) (st src2) subtractOverlapping (some subtractNonOverlapping) none
    update st dst (setRegionExtents { st dst with rects := rects })

def covers (region : Region) (extents : Rect) : Bool :=
  decide (region.rects.length = 1) && decide (region.extents.left ≤ extents.left) &&
    decide (region.extents.top ≤ extents.top) && decide (region.extents.right ≥ extents.right) &&
    decide (region.extents.bottom ≥ extents.bottom)

def setExtents (st : Store L) (dst : L) (f : Rect → Rect) : Store L :=
  update st dst { st dst with extents := f (st dst).extents }

/-- The extents are set one by one, and `dst` may be one of the sources. -/
def unionExtents (st : Store L) (dst src1 src2 : L) : Store L :=
  let st := setExtents st dst fun e =>
    { e with left := min (st src1).extents.left (st src2).extents.left }
  let st := setExtents st dst fun e =>
    { e with top := min (st src1).extents.top (st src2).extents.top }
  let st := setExtents st dst fun e =>
    { e with right := max (st src1).extents.right (st src2).extents.right }
  setExtents st dst fun e =>
    { e with bottom := max (st src1).extents.bottom (st src2).extents.bottom }

def unionRegion (st : Store L) (dst src1 src2 : L) : Store L :=
  if src1 = src2 then copyRegion st dst src1
  else if (st src1).rects = [] then copyRegion st dst src2
  else if (st src2).rects = [] then copyRegion st dst src1
  else if covers (st src1) (st src2).extents then copyRegion st dst src1
  else if covers (st src2) (st src1).extents then copyRegion st dst src2
  else
    let rects := regionOp (st src1) (st src2) unionOverlapping (some unionNonOverlapping)
      (some unionNonOverlapping)
    unionExtents (update st dst { st dst with rects := rects }) dst src1 src2

/-- The temporary region of `xor_region` is a new one: it stands at `none`. -/
def xorRegion (st : Store L) (dst src1 src2 : L) : Store L :=
  let st0 : Store (Option L) := fun l =>
    match l with
    | none => ⟨[], emptyRect⟩
    | some l => st l
  let st1 := subtractRegion st0 none (some src1) (some src2)
  let st2 := subtractRegion st1 (some dst) (some src2) (some src1)
  let st3 := unionRegion st2 (some dst) (some dst) none
  fun l => st3 (some l)

end WineForge.Regions
