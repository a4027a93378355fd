import WineForge.Regions.State

/-!
# Moving, mirroring and scaling

The operations that change the coordinates of a region. Their arithmetic is that of 32-bit
integers.
-/

namespace WineForge.Regions

open Function

def toInt32 (x : Int) : Int := (x + 2147483648) % 4294967296 - 2147483648

def toUint32 (x : Int) : Int := x % 4294967296

def InInt32 (x : Int) : Prop := -2147483648 ≤ x ∧ x < 2147483648

instance (x : Int) : Decidable (InInt32 x) := inferInstanceAs (Decidable (_ ∧ _))

lemma toInt32_of_inInt32 {x : Int} (h : InInt32 x) : toInt32 x = x := by
  obtain ⟨hlo, hhi⟩ := h
  rw [toInt32, Int.emod_eq_of_lt (by omega) (by omega)]
  omega

def createEmptyRegion : Region := ⟨[], emptyRect⟩

/-- The whole rectangles of the request data. A single all-zero one stands for no rectangle. -/
def createRegionFromReqData (data : List Rect) : Option Region :=
  let rects := if data = [emptyRect] then [] else data
  if validateRectangles rects then some (setRegionExtents ⟨rects, emptyRect⟩) else none

def setRegionRect (rect : Rect) : Region :=
  if !isRectEmpty rect then ⟨[rect], rect⟩ else ⟨[], emptyRect⟩

def isRectEqual (rect1 rect2 : Rect) : Bool :=
  decide (rect1.left = rect2.left) && decide (rect1.right = rect2.right) &&
    decide (rect1.top = rect2.top) && decide (rect1.bottom = rect2.bottom)

/-- The loop of `is_region_equal`. -/
def rectsEqual : List Rect → List Rect → Bool
  | rect1 :: rects1, rect2 :: rects2 =>
    if !isRectEqual rect1 rect2 then false else rectsEqual rects1 rects2
  | _, _ => true

def isRegionEqual (region1 region2 : Region) : Bool :=
  if region1.rects.length ≠ region2.rects.length then false
  else if region1.rects.length = 0 then true
  else if !isRectEqual region1.extents region2.extents then false
  else rectsEqual region1.rects region2.rects

def offsetRect (rect : Rect) (x y : Int) : Rect where
  left := toInt32 (rect.left + x)
  top := toInt32 (rect.top + y)
  right := toInt32 (rect.right + x)
  bottom := toInt32 (rect.bottom + y)

def offsetRegion (region : Region) (x y : Int) : Region :=
  if region.rects = [] then region
  else ⟨region.rects.map (offsetRect · x y), offsetRect region.extents x y⟩

def mirrorRect (client rect : Rect) : Rect :=
  let width := toInt32 (client.right - client.left)
  { rect with left := toInt32 (width - rect.right), right := toInt32 (width - rect.left) }

/-- The inner loop of `mirror_region` on one band. The assignments are those of the source: `rect`
is read from the rectangle that it is written back to. -/
def mirrorBand (client : Rect) (rects : List Rect) (i j : Nat) : List Rect :=
  if i < j then
    let rect := rects.getD j emptyRect
    let rects := rects.set i (rects.getD j emptyRect)
    let rects := rects.set j rect
    let rects := rects.modify j (mirrorRect client)
    mirrorBand client (rects.modify i (mirrorRect client)) (i + 1) (j - 1)
  else if i = j then rects.modify i (mirrorRect client)
  else rects
  termination_by j - i

def mirrorBands (client : Rect) : List Rect → List Rect
  | [] => []
  | h :: t =>
    mirrorBand client (band (h :: t)) 0 ((band (h :: t)).length - 1) ++
      mirrorBands client (bandEnd (h :: t))
  termination_by rects => rects.length
  decreasing_by exact length_bandEnd_lt (by simp)

def mirrorRegion (client : Rect) (region : Region) : Region :=
  ⟨mirrorBands client region.rects, mirrorRect client region.extents⟩

structure Ratio where
  num : BitVec 16
  den : BitVec 16
  deriving DecidableEq, Repr

/-- `num` and `den` of `scale_dpi`. -/
def scaleNum (dpiFrom dpiTo : Ratio) : Int := toUint32 (dpiTo.num.toNat * dpiFrom.den.toNat)

def scaleDen (dpiFrom dpiTo : Ratio) : Int := toUint32 (dpiFrom.num.toNat * dpiTo.den.toNat)

/-- The result for a divisor other than zero. The operands are converted to unsigned. -/
def scaleDpi (val : Int) (dpiFrom dpiTo : Ratio) : Int :=
  let num := scaleNum dpiFrom dpiTo
  let den := scaleDen dpiFrom dpiTo
  if val ≥ 0 then toInt32 (toUint32 (val * num + den / 2) / den)
  else toInt32 (toUint32 (val * num - den / 2) / den)

def scaleDpiRect (rect : Rect) (dpiFrom dpiTo : Ratio) : Rect where
  left := scaleDpi rect.left dpiFrom dpiTo
  top := scaleDpi rect.top dpiFrom dpiTo
  right := scaleDpi rect.right dpiFrom dpiTo
  bottom := scaleDpi rect.bottom dpiFrom dpiTo

def scaleRegion (region : Region) (dpiFrom dpiTo : Ratio) : Option Region :=
  if region.rects = [] then some region
  else if scaleDen dpiFrom dpiTo = 0 then none
  else some ⟨region.rects.map (scaleDpiRect · dpiFrom dpiTo),
    scaleDpiRect region.extents dpiFrom dpiTo⟩

inductive RegionOp (L : Type*)
  | createEmpty (dst : L)
  | createFromReqData (dst : L) (data : List Rect)
  | setRect (dst : L) (rect : Rect)
  | offset (dst : L) (x y : Int)
  | mirror (dst : L) (client : Rect)
  | scale (dst : L) (dpiFrom dpiTo : Ratio)
  | copy (dst src : L)
  | intersect (dst src1 src2 : L)
  | subtract (dst src1 src2 : L)
  | union (dst src1 src2 : L)
  | xor (dst src1 src2 : L)

def regionStep {L : Type*} [DecidableEq L] (st : Store L) : RegionOp L → Option (Store L)
  | .createEmpty dst => some (update st dst createEmptyRegion)
  | .createFromReqData dst data =>
    match createRegionFromReqData data with
    | some region => some (update st dst region)
    | none => some st
  | .setRect dst rect => some (update st dst (setRegionRect rect))
  | .offset dst x y => some (update st dst (offsetRegion (st dst) x y))
  | .mirror dst client => some (update st dst (mirrorRegion client (st dst)))
  | .scale dst dpiFrom dpiTo =>
    (scaleRegion (st dst) dpiFrom dpiTo).map fun region => update st dst region
  | .copy dst src => some (copyRegion st dst src)
  | .intersect dst src1 src2 => some (intersectRegion st dst src1 src2)
  | .subtract dst src1 src2 => some (subtractRegion st dst src1 src2)
  | .union dst src1 src2 => some (unionRegion st dst src1 src2)
  | .xor dst src1 src2 => some (xorRegion st dst src1 src2)

end WineForge.Regions
