import Mathlib.Algebra.Order.Ring.Int

/-!
# Run searches in bitmaps

The searches for set and for clear bits read the bytes of the buffer one by one and differ in
whether they complement them first, so both are one search with a `view` of a byte. Positions and
lengths are 32-bit numbers and wrap. Where a search reads behind the buffer its result is `none`.
-/

namespace WineForge.Bitmaps

abbrev Byte := BitVec 8

def ulongRange : Nat := 2 ^ 32

def noRun : Nat := ulongRange - 1

/-- The buffer consists of whole ULONGs. -/
structure RtlBitmap where
  sizeOfBitMap : Nat
  buffer : List Byte
  size_lt : sizeOfBitMap < ulongRange
  length_buffer : buffer.length = 4 * ((sizeOfBitMap + 31) / 32)

def leastSignificant : List Nat := [0, 0, 1, 0, 2, 0, 1, 0, 3, 0, 1, 0, 2, 0, 1, 0]

def lowestOffset (first : Byte) : Nat :=
  if first &&& 0x0f != 0 then leastSignificant.getD (first &&& 0x0f).toNat 0
  else 4 + leastSignificant.getD (first >>> 4).toNat 0

/-- How many of `n` bits from `offset` on are set before the first one that is not. -/
def countBits (b : Byte) : Nat → Nat → Nat
  | 0, _ => 0
  | n + 1, offset => if b.getLsbD offset then countBits b n (offset + 1) + 1 else 0

/-- How the loop over the bytes without a bit of the run ends. -/
inductive Scan
  /-- it reads behind the buffer -/
  | fault
  /-- it reaches the end of the bitmap -/
  | absent
  /-- the run starts and ends in one byte -/
  | whole (foundAt count : Nat)
  /-- the run goes on in the bytes `out` -/
  | partly (out : List Byte) (start foundAt count : Nat)
  deriving DecidableEq, Repr

variable (view : Byte → Byte)

def nextByte (start : Nat) : Nat := (start / 8 * 8 + 8) % ulongRange

def findFirst (size : Nat) : List Byte → Nat → Scan
  | [], _ => .fault
  | b :: out, start =>
    let mask : Byte := 0xff#8 <<< (start % 8)
    let first := view b &&& mask
    if first != 0 then
      if first != mask then
        -- the offset counts from the start of the byte, also where the search starts inside it
        let offset := lowestOffset first
        let foundAt := (start + offset) % ulongRange
        let count := countBits first (8 - offset) offset
        if count < 8 - offset then .whole foundAt count
        else .partly out ((foundAt + count) % ulongRange) foundAt count
      else .partly out (nextByte start) start (8 - start % 8)
    else if size ≤ nextByte start then .absent
    else findFirst size out (nextByte start)

/-- The length of a run that reached position `start` behind the end of the bitmap. -/
def clipped (size start count : Nat) : Nat := (count + ulongRange - (start - size)) % ulongRange

def countBlocks (size foundAt : Nat) : List Byte → Nat → Nat → Option (Nat × Option Nat)
  | [], _, _ => none
  | b :: out, start, count =>
    if view b == 0xff then
      let count := (count + 8) % ulongRange
      let start := (start + 8) % ulongRange
      if size ≤ start then some (foundAt, some (clipped size start count))
      else countBlocks size foundAt out start count
    else some (foundAt, some ((count + countBits (view b) 7 0) % ulongRange))

def findRun (bits : RtlBitmap) (start : Nat) : Option (Nat × Option Nat) :=
  match findFirst view bits.sizeOfBitMap (bits.buffer.drop (start / 8)) start with
  | .fault => none
  | .absent => some (noRun, none)
  | .whole foundAt count => some (foundAt, some count)
  | .partly out start foundAt count =>
    if bits.sizeOfBitMap ≤ start then
      some (foundAt, some (clipped bits.sizeOfBitMap start count))
    else countBlocks view bits.sizeOfBitMap foundAt out start count

def setView (b : Byte) : Byte := b

def clearView (b : Byte) : Byte := ~~~b

def findSetRun (bits : RtlBitmap) (start : Nat) : Option (Nat × Option Nat) :=
  findRun setView bits start

def findClearRun (bits : RtlBitmap) (start : Nat) : Option (Nat × Option Nat) :=
  findRun clearView bits start

variable (fn : RtlBitmap → Nat → Option (Nat × Option Nat))

def findNextForwardRun (bits : RtlBitmap) (start : Nat) : Option (Nat × Option Nat) :=
  if start < bits.sizeOfBitMap then
    (fn bits start).map fun (pos, size) => (size.getD 0, some pos)
  else some (0, none)

def rtlFindNextForwardRunSet (bits : RtlBitmap) (start : Nat) : Option (Nat × Option Nat) :=
  findNextForwardRun findSetRun bits start

def rtlFindNextForwardRunClear (bits : RtlBitmap) (start : Nat) : Option (Nat × Option Nat) :=
  findNextForwardRun findClearRun bits start

structure RtlBitmapRun where
  startingIndex : Nat
  numberOfBits : Nat
  deriving DecidableEq, Repr

/-- `qsort` with `NTDLL_RunSortFn` permutes the runs such that no later one is longer. -/
structure RunSort where
  qsort : List RtlBitmapRun → List RtlBitmapRun
  perm : ∀ series, (qsort series).Perm series
  sorted : ∀ series, (qsort series).Pairwise fun lhs rhs => rhs.numberOfBits ≤ lhs.numberOfBits

variable (sort : RunSort)

def replaceLast (needSort : Bool) (series : List RtlBitmapRun) (run : RtlBitmapRun) :
    Bool × List RtlBitmapRun :=
  let series := if needSort then sort.qsort series else series
  match series.getLast? with
  | none => (needSort, series)
  | some last =>
    if last.numberOfBits < run.numberOfBits then
      let rest := series.dropLast
      let before := rest.getLast?.map (·.numberOfBits)
      (needSort || before.any (· < run.numberOfBits), rest ++ [run])
    else (needSort, series)

/-- At most `fuel` turns of the loop, from position `pos` with the runs found so far. -/
def findRunsLoop (bits : RtlBitmap) (count : Nat) (longest : Bool) :
    Nat → Bool → Nat → List RtlBitmapRun → Option (List RtlBitmapRun)
  | 0, _, _, _ => none
  | fuel + 1, needSort, pos, series =>
    if bits.sizeOfBitMap ≤ pos then some series
    else
      match fn bits pos with
      | none => none
      | some (nextPos, size?) =>
        let size := size?.getD 0
        if nextPos = noRun then some series
        else if longest && series.length == count then
          let (needSort, series) := replaceLast sort needSort series ⟨nextPos, size⟩
          findRunsLoop bits count longest fuel needSort ((nextPos + size) % ulongRange) series
        else
          let series := series ++ [⟨nextPos, size⟩]
          if !longest && series.length == count then some series
          else findRunsLoop bits count longest fuel needSort ((nextPos + size) % ulongRange) series

/-- The returned number and the runs that are written, with `fuel` turns of the loop. -/
def findRuns (fuel : Nat) (bits : RtlBitmap) (count : Nat) (longest : Bool) :
    Option (Nat × List RtlBitmapRun) :=
  if count = 0 then some (noRun, [])
  else
    (findRunsLoop fn sort bits count longest fuel (1 < count) 0 []).map fun series =>
      (series.length, series)

def rtlFindSetRuns (fuel : Nat) (bits : RtlBitmap) (count : Nat) (longest : Bool) :
    Option (Nat × List RtlBitmapRun) :=
  findRuns findSetRun sort fuel bits count longest

def rtlFindClearRuns (fuel : Nat) (bits : RtlBitmap) (count : Nat) (longest : Bool) :
    Option (Nat × List RtlBitmapRun) :=
  findRuns findClearRun sort fuel bits count longest

end WineForge.Bitmaps
