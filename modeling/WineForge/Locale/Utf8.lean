import WineForge.Library.Buffers
import WineForge.Locale.Utf16

/-!
# UTF-8

The two converters and the two functions that compute the size of their results.
-/

namespace WineForge.Locale

open Library List

inductive Status
  | success | someNotMapped | bufferTooSmall
  deriving DecidableEq, Repr

/-- The results of a converter, with the contents of the buffer. -/
structure Conversion (α : Type) where
  status : Status
  reslen : Nat
  dst : List α
  deriving DecidableEq, Repr

def utf8Length : List Nat := [ 0,0,0,0,0,0,0,0,0,0,0,0,0,0,0,0, 0,0,0,0,0,0,0,0,0,0,0,0,0,0,0,0,
  0,0,0,0,0,0,0,0,0,0,0,0,0,0,0,0,
  0,0,0,0,0,0,0,0,0,0,0,0,0,0,0,0,
  0,0,1,1,1,1,1,1,1,1,1,1,1,1,1,1,
  1,1,1,1,1,1,1,1,1,1,1,1,1,1,1,1,
  2,2,2,2,2,2,2,2,2,2,2,2,2,2,2,2,
  3,3,3,3,3,0,0,0,0,0,0,0,0,0,0,0]

def utf8Mask : List Nat := [0x7f, 0x1f, 0x0f, 0x07]

/-- `~0`. -/
def invalid : Nat := 0xffffffff

/-- `case 1` of the switch in `decode_utf8_char`, with what is left of the string. -/
def decodeLast (res : Nat) : List UInt8 → Nat × List UInt8
  | [] => (invalid, [])
  | b :: str =>
    let ch := (b ^^^ 0x80).toNat
    if ch ≥ 0x40 then (invalid, b :: str)
    else
      let res := (res <<< 6) ||| ch
      if res < 0x80 then (invalid, str) else (res, str)

/-- `case 2`, which falls through. -/
def decodeSecond (res : Nat) : List UInt8 → Nat × List UInt8
  | [] => (invalid, [])
  | b :: str =>
    let ch := (b ^^^ 0x80).toNat
    if ch ≥ 0x40 then (invalid, b :: str)
    else
      let res := (res <<< 6) ||| ch
      if res ≥ 0x110000 >>> 6 then (invalid, b :: str)
      else if res < 0x20 then (invalid, str)
      else if res ≥ 0xd800 >>> 6 ∧ res ≤ 0xdfff >>> 6 then (invalid, str)
      else decodeLast res str

/-- `case 3`, which falls through. -/
def decodeThird (res : Nat) : List UInt8 → Nat × List UInt8
  | [] => (invalid, [])
  | b :: str =>
    let ch := (b ^^^ 0x80).toNat
    if ch ≥ 0x40 then (invalid, b :: str)
    else
      let res := (res <<< 6) ||| ch
      if res < 0x10 then (invalid, str) else decodeSecond res str

/-- `decode_utf8_char`. Where it moves past the end of the string, nothing is left of it. -/
def decodeUtf8Char (ch : UInt8) (str : List UInt8) : Nat × List UInt8 :=
  let len := utf8Length.getD (ch.toNat - 0x80) 0
  let res := ch.toNat &&& utf8Mask.getD len 0
  if len > str.length then (invalid, [])
  else match len with
    | 3 => decodeThird res str
    | 2 => decodeSecond res str
    | 1 => decodeLast res str
    | _ => (invalid, str)

lemma length_decodeLast_le (res : Nat) (str : List UInt8) :
    (decodeLast res str).2.length ≤ str.length := by
  cases str with
  | nil => exact le_refl 0
  | cons b str =>
    simp only [decodeLast, length_cons]
    split
    · exact Nat.le_refl _
    · split <;> exact Nat.le_succ _

lemma length_decodeSecond_le (res : Nat) (str : List UInt8) :
    (decodeSecond res str).2.length ≤ str.length := by
  cases str with
  | nil => exact le_refl 0
  | cons b str =>
    simp only [decodeSecond, length_cons]
    have hlast := length_decodeLast_le ((res <<< 6) ||| (b ^^^ 0x80).toNat) str
    split
    · exact le_refl _
    split
    · exact le_refl _
    split
    · exact Nat.le_succ _
    · split
      · exact Nat.le_succ _
      · omega

lemma length_decodeThird_le (res : Nat) (str : List UInt8) :
    (decodeThird res str).2.length ≤ str.length := by
  cases str with
  | nil => exact le_refl 0
  | cons b str =>
    simp only [decodeThird, length_cons]
    have hsecond := length_decodeSecond_le ((res <<< 6) ||| (b ^^^ 0x80).toNat) str
    split
    · exact le_refl _
    · split
      · exact Nat.le_succ _
      · omega

lemma length_decodeUtf8Char_le (ch : UInt8) (str : List UInt8) :
    (decodeUtf8Char ch str).2.length ≤ str.length := by
  unfold decodeUtf8Char
  dsimp only
  split
  · exact Nat.zero_le _
  split
  · exact length_decodeThird_le _ str
  · exact length_decodeSecond_le _ str
  · exact length_decodeLast_le _ str
  · exact le_refl _

/-- The loop of `utf8_wcstombs_size`, with its 32-bit counter. -/
def wcstombsSizeLoop (src : List UInt16) (len : Nat) (status : Status) : Status × Nat :=
  match src with
  | [] => (status, len)
  | ch :: src =>
    if ch < 0x80 then wcstombsSizeLoop src ((len + 1) % 2 ^ 32) status
    else if ch < 0x800 then wcstombsSizeLoop src ((len + 2) % 2 ^ 32) status
    else match getUtf16 (ch :: src) with
      | none => wcstombsSizeLoop src ((len + 3) % 2 ^ 32) .someNotMapped
      | some (_, val) =>
        if val < 0x10000 then wcstombsSizeLoop src ((len + 3) % 2 ^ 32) status
        else wcstombsSizeLoop src.tail ((len + 4) % 2 ^ 32) status
termination_by src.length
decreasing_by all_goals simp only [length_cons, length_tail]; omega

def utf8WcstombsSize (src : List UInt16) : Status × Nat := wcstombsSizeLoop src 0 .success

/-- The loop of `utf8_mbstowcs_size`. -/
def mbstowcsSizeLoop (src : List UInt8) (len : Nat) (status : Status) : Status × Nat :=
  match src with
  | [] => (status, len)
  | ch :: src =>
    if ch < 0x80 then mbstowcsSizeLoop src ((len + 1) % 2 ^ 32) status
    else
      let res := decodeUtf8Char ch src
      if res.1 > 0x10ffff then mbstowcsSizeLoop res.2 ((len + 1) % 2 ^ 32) .someNotMapped
      else if res.1 > 0xffff then mbstowcsSizeLoop res.2 ((len + 1 + 1) % 2 ^ 32) status
      else mbstowcsSizeLoop res.2 ((len + 1) % 2 ^ 32) status
termination_by src.length
decreasing_by
  · exact Nat.lt_succ_self _
  all_goals exact Nat.lt_succ_of_le (length_decodeUtf8Char_le _ _)

def utf8MbstowcsSize (src : List UInt8) : Status × Nat := mbstowcsSizeLoop src 0 .success

/-- The loop of `utf8_mbstowcs`. A write past the end of the buffer has no result. -/
def mbstowcsLoop (dst : List UInt16) (pos : Nat) (src : List UInt8) (status : Status) :
    Option (Conversion UInt16) :=
  if pos < dst.length then
    match src with
    | [] => some ⟨status, pos, dst⟩
    | ch :: src =>
      if ch < 0x80 then do
        let dst ← put dst pos [ch.toUInt16]
        mbstowcsLoop dst (pos + 1) src status
      else
        let res := decodeUtf8Char ch src
        if res.1 ≤ 0xffff then do
          let dst ← put dst pos [UInt16.ofNat res.1]
          mbstowcsLoop dst (pos + 1) res.2 status
        else if res.1 ≤ 0x10ffff then do
          let ch := res.1 - 0x10000
          let dst ← put dst pos [UInt16.ofNat (0xd800 ||| (ch >>> 10))]
          if pos + 1 = dst.length then some ⟨.bufferTooSmall, pos + 1, dst⟩
          else
            let dst ← put dst (pos + 1) [UInt16.ofNat (0xdc00 ||| (ch &&& 0x3ff))]
            mbstowcsLoop dst (pos + 2) res.2 status
        else do
          let dst ← put dst pos [0xfffd]
          mbstowcsLoop dst (pos + 1) res.2 .someNotMapped
  else some ⟨if src = [] then status else .bufferTooSmall, pos, dst⟩
termination_by src.length
decreasing_by
  · exact Nat.lt_succ_self _
  all_goals exact Nat.lt_succ_of_le (length_decodeUtf8Char_le _ _)

def utf8Mbstowcs (dst : List UInt16) (src : List UInt8) : Option (Conversion UInt16) :=
  mbstowcsLoop dst 0 src .success

/-- The loop of `utf8_wcstombs`. -/
def wcstombsLoop (dst : List UInt8) (pos : Nat) (src : List UInt16) (status : Status) :
    Option (Conversion UInt8) :=
  match src with
  | [] => some ⟨status, pos, dst⟩
  | ch :: src =>
    if ch < 0x80 then
      if pos + 1 > dst.length then some ⟨.bufferTooSmall, pos, dst⟩
      else do
        let dst ← put dst pos [ch.toUInt8]
        wcstombsLoop dst (pos + 1) src status
    else if ch < 0x800 then
      if pos + 2 > dst.length then some ⟨.bufferTooSmall, pos, dst⟩
      else do
        let val := ch.toNat
        let dst ← put dst pos [UInt8.ofNat (0xc0 ||| (val >>> 6)), UInt8.ofNat (0x80 ||| (val &&& 0x3f))]
        wcstombsLoop dst (pos + 2) src status
    else
      let (val, status) := match getUtf16 (ch :: src) with
        | none => (0xfffd, .someNotMapped)
        | some (_, val) => (val, status)
      if val < 0x10000 then
        if pos + 3 > dst.length then some ⟨.bufferTooSmall, pos, dst⟩
        else do
          let dst ← put dst pos [UInt8.ofNat (0xe0 ||| (val >>> 6 >>> 6)),
            UInt8.ofNat (0x80 ||| ((val >>> 6) &&& 0x3f)), UInt8.ofNat (0x80 ||| (val &&& 0x3f))]
          wcstombsLoop dst (pos + 3) src status
      else
        if pos + 4 > dst.length then some ⟨.bufferTooSmall, pos, dst⟩
        else do
          let dst ← put dst pos [UInt8.ofNat (0xf0 ||| (val >>> 6 >>> 6 >>> 6)),
            UInt8.ofNat (0x80 ||| ((val >>> 6 >>> 6) &&& 0x3f)),
            UInt8.ofNat (0x80 ||| ((val >>> 6) &&& 0x3f)), UInt8.ofNat (0x80 ||| (val &&& 0x3f))]
          wcstombsLoop dst (pos + 4) src.tail status
termination_by src.length
decreasing_by all_goals simp only [length_cons, length_tail]; omega

def utf8Wcstombs (dst : List UInt8) (src : List UInt16) : Option (Conversion UInt8) :=
  wcstombsLoop dst 0 src .success

end WineForge.Locale
