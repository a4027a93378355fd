import WineForge.Bitmaps.Search

/-!
# Ranges of bits

The routines that set, clear and test the bits of a range, and the one that counts set bits, access
the buffer by ULONGs. Where they would access memory behind the buffer the result is `none`.
-/

namespace WineForge.Bitmaps

open List

abbrev Ulong := BitVec 32

/-- `Buffer[pos]`, whose lowest bits are in the first of its four bytes. -/
def readUlong (bits : RtlBitmap) (pos : Nat) : Option Ulong :=
  if 4 * pos + 3 < bits.buffer.length then
    some (bits.buffer.getD (4 * pos + 3) 0 ++ bits.buffer.getD (4 * pos + 2) 0 ++
      bits.buffer.getD (4 * pos + 1) 0 ++ bits.buffer.getD (4 * pos) 0)
  else none

/-- `Buffer[pos] = value`. -/
def writeUlong (bits : RtlBitmap) (pos : Nat) (value : Ulong) : Option RtlBitmap :=
  if 4 * pos + 3 < bits.buffer.length then
    some
      { bits with
        buffer := (((bits.buffer.set (4 * pos) (value.extractLsb' 0 8)).set (4 * pos + 1)
          (value.extractLsb' 8 8)).set (4 * pos + 2) (value.extractLsb' 16 8)).set (4 * pos + 3)
          (value.extractLsb' 24 8)
        length_buffer := by
          simp only [length_set]
          exact bits.length_buffer }
  else none

def updateUlong (bits : RtlBitmap) (pos : Nat) (f : Ulong → Ulong) : Option RtlBitmap :=
  (readUlong bits pos).bind fun word => writeUlong bits pos (f word)

def maskbits (idx : Nat) : Ulong := BitVec.allOnes 32 <<< (idx % 32)

/-- The loops that write one value to the `n` ULONGs from `pos` on. -/
def fillUlongs (value : Ulong) : Nat → Nat → RtlBitmap → Option RtlBitmap
  | 0, _, bits => some bits
  | n + 1, pos, bits => (writeUlong bits pos value).bind (fillUlongs value n (pos + 1))

/-- The loops that compare the `n` ULONGs from `pos` on with one value. -/
def checkUlongs (bits : RtlBitmap) (value : Ulong) : Nat → Nat → Option Bool
  | 0, _ => some true
  | n + 1, pos =>
    (readUlong bits pos).bind fun word =>
      if word != value then some false else checkUlongs bits value n (pos + 1)

def outside (bits : RtlBitmap) (start count : Nat) : Bool :=
  count = 0 || bits.sizeOfBitMap ≤ start || bits.sizeOfBitMap - start < count

def rangeEnd (start count : Nat) : Nat := (start + count) % ulongRange

def rtlSetBits (bits : RtlBitmap) (start count : Nat) : Option RtlBitmap :=
  let stop := rangeEnd start count
  let pos := start / 32
  let endPos := stop / 32
  if outside bits start count then some bits
  else if pos < endPos then
    (updateUlong bits pos fun word => word ||| maskbits start).bind fun bits =>
    (fillUlongs (BitVec.allOnes 32) (endPos - (pos + 1)) (pos + 1) bits).bind fun bits =>
    if stop % 32 ≠ 0 then updateUlong bits endPos fun word => word ||| ~~~maskbits stop
    else some bits
  else updateUlong bits pos fun word => word ||| (maskbits start &&& ~~~maskbits stop)

def rtlClearBits (bits : RtlBitmap) (start count : Nat) : Option RtlBitmap :=
  let stop := rangeEnd start count
  let pos := start / 32
  let endPos := stop / 32
  if outside bits start count then some bits
  else if pos < endPos then
    (updateUlong bits pos fun word => word &&& ~~~maskbits start).bind fun bits =>
    (fillUlongs 0 (endPos - (pos + 1)) (pos + 1) bits).bind fun bits =>
    if stop % 32 ≠ 0 then updateUlong bits endPos fun word => word &&& maskbits stop
    else some bits
  else updateUlong bits pos fun word => word &&& (~~~maskbits start ||| maskbits stop)

def rtlAreBitsSet (bits : RtlBitmap) (start count : Nat) : Option Bool :=
  let stop := rangeEnd start count
  let pos := start / 32
  let endPos := stop / 32
  if outside bits start count then some false
  else if endPos = pos then
    (readUlong bits pos).map fun word =>
      word ||| ~~~maskbits start ||| maskbits stop == BitVec.allOnes 32
  else
    (readUlong bits pos).bind fun word =>
    if word ||| ~~~maskbits start != BitVec.allOnes 32 then some false
    else
      (checkUlongs bits (BitVec.allOnes 32) (endPos - (pos + 1)) (pos + 1)).bind fun whole =>
      if !whole then some false
      else if stop % 32 = 0 then some true
      else (readUlong bits endPos).map fun word => word ||| maskbits stop == BitVec.allOnes 32

def rtlAreBitsClear (bits : RtlBitmap) (start count : Nat) : Option Bool :=
  let stop := rangeEnd start count
  let pos := start / 32
  let endPos := stop / 32
  if outside bits start count then some false
  else if endPos = pos then
    (readUlong bits pos).map fun word => word &&& maskbits start &&& ~~~maskbits stop == 0
  else
    (readUlong bits pos).bind fun word =>
    if word &&& maskbits start != 0 then some false
    else
      (checkUlongs bits 0 (endPos - (pos + 1)) (pos + 1)).bind fun whole =>
      if !whole then some false
      else if stop % 32 = 0 then some true
      else (readUlong bits endPos).map fun word => word &&& ~~~maskbits stop == 0

def popcnt (word : Ulong) : Nat := (List.range 32).countP word.getLsbD

/-- The loop over the `n` whole ULONGs from `pos` on. -/
def countUlongs (bits : RtlBitmap) : Nat → Nat → Option Nat
  | 0, _ => some 0
  | n + 1, pos =>
    (readUlong bits pos).bind fun word =>
      (countUlongs bits n (pos + 1)).map fun ret => popcnt word + ret

def rtlNumberOfSetBits (bits : RtlBitmap) : Option Nat :=
  (countUlongs bits (bits.sizeOfBitMap / 32) 0).bind fun ret =>
  if bits.sizeOfBitMap % 32 ≠ 0 then
    (readUlong bits (bits.sizeOfBitMap / 32)).map fun word =>
      ret + popcnt (word &&& ~~~maskbits bits.sizeOfBitMap)
  else some ret

variable {bits bits' : RtlBitmap} {pos i j : Nat} {word value : Ulong}

abbrev setBit (bits : RtlBitmap) (i : Nat) : Bool := bit setView bits i

lemma readUlong_eq (h : 4 * pos + 3 < bits.buffer.length) : ∃ word, readUlong bits pos = some word ∧
      ∀ j < 32, word.getLsbD j = setBit bits (32 * pos + j) := by
  refine ⟨_, if_pos h, fun j hj => ?_⟩
  unfold setBit bit setView
  have hindex : (32 * pos + j) / 8 = 4 * pos + j / 8 := by omega
  have hoffset : (32 * pos + j) % 8 = j % 8 := by omega
  rw [hindex, hoffset]
  simp only [BitVec.getLsbD_append]
  by_cases h0 : j < 8
  · rw [if_pos h0]
    have hq : j / 8 = 0 := by omega
    rw [hq, Nat.mod_eq_of_lt h0, Nat.add_zero]
  rw [if_neg h0]
  by_cases h1 : j - 8 < 8
  · rw [if_pos h1]
    have hq : j / 8 = 1 := by omega
    have hr : j % 8 = j - 8 := by omega
    rw [hq, hr]
  rw [if_neg h1]
  by_cases h2 : j - 8 - 8 < 8
  · rw [if_pos h2]
    have hq : j / 8 = 2 := by omega
    have hr : j % 8 = j - 8 - 8 := by omega
    rw [hq, hr]
  rw [if_neg h2]
  have hq : j / 8 = 3 := by omega
  have hr : j % 8 = j - 8 - 8 - 8 := by omega
  rw [hq, hr]

lemma getD_write (h : 4 * pos + 3 < bits.buffer.length) (value : Ulong) (k : Nat) :
    ((((bits.buffer.set (4 * pos) (value.extractLsb' 0 8)).set (4 * pos + 1)
      (value.extractLsb' 8 8)).set (4 * pos + 2) (value.extractLsb' 16 8)).set (4 * pos + 3)
      (value.extractLsb' 24 8)).getD k 0 =
      if k / 4 = pos then value.extractLsb' (8 * (k % 4)) 8 else bits.buffer.getD k 0 := by
  have hlen (n : Nat) (hn : n < 4) : 4 * pos + n < bits.buffer.length := by omega
  simp only [getD_eq_getElem?_getD, getElem?_set, length_set]
  by_cases hword : k / 4 = pos
  · rw [if_pos hword]
    have hk : k = 4 * pos + k % 4 := by omega
    generalize hr : k % 4 = r at hk
    subst hk
    have hr : r < 4 := by omega
    match r with
    | 0 =>
      have h0 : 4 * pos < bits.buffer.length := by omega
      simp [h0]
    | 1 => simp [hlen 1]
    | 2 => simp [hlen 2]
    | 3 => simp [h]
  · rw [if_neg hword, if_neg (by omega), if_neg (by omega), if_neg (by omega), if_neg (by omega)]

lemma writeUlong_eq (h : 4 * pos + 3 < bits.buffer.length) (value : Ulong) :
    ∃ bits', writeUlong bits pos value = some bits' ∧
      bits'.sizeOfBitMap = bits.sizeOfBitMap ∧
      ∀ i, setBit bits' i =
        if i / 32 = pos then value.getLsbD (i % 32) else setBit bits i := by
  refine ⟨_, if_pos h, rfl, fun i => ?_⟩
  unfold setBit bit setView
  rw [getD_write h]
  by_cases hword : i / 32 = pos
  · have hbyte : i / 8 / 4 = pos := by omega
    have hlt : i % 8 < 8 := Nat.mod_lt _ (by decide)
    have hindex : 8 * (i / 8 % 4) + i % 8 = i % 32 := by omega
    rw [if_pos hbyte, if_pos hword, BitVec.getLsbD_extractLsb', hindex]
    simp [hlt]
  · have hbyte : ¬i / 8 / 4 = pos := by omega
    rw [if_neg hbyte, if_neg hword]

end WineForge.Bitmaps
