import Mathlib.Algebra.Order.Ring.Int

/-!
# UTF-16

The functions that read and write one code point, and the encoding of a character.
-/

namespace WineForge.Locale

def isHighSurrogate (ch : UInt16) : Bool := ch ≥ 0xd800 && ch ≤ 0xdbff

def isLowSurrogate (ch : UInt16) : Bool := ch ≥ 0xdc00 && ch ≤ 0xdfff

/-- `get_utf16`: the length of the code point and the code point, or nothing for the length 0. -/
def getUtf16 : List UInt16 → Option (Nat × Nat)
  | [] => none
  | hi :: src =>
    if isHighSurrogate hi then
      match src with
      | [] => none
      | lo :: _ =>
        if !isLowSurrogate lo then none
        else some (2, 0x10000 + ((hi.toNat &&& 0x3ff) <<< 10) + (lo.toNat &&& 0x3ff))
    else if isLowSurrogate hi then none
    else some (1, hi.toNat)

/-- `put_utf16`, with what it writes. -/
def putUtf16 (ch : Nat) : List UInt16 :=
  if ch ≥ 0x10000 then
    let ch := ch - 0x10000
    [UInt16.ofNat (0xd800 ||| (ch >>> 10)), UInt16.ofNat (0xdc00 ||| (ch &&& 0x3ff))]
  else [UInt16.ofNat ch]

def utf16EncodeChar (c : Char) : List UInt16 :=
  if c.toNat < 0x10000 then [UInt16.ofNat c.toNat]
  else [UInt16.ofNat (0xd800 + (c.toNat - 0x10000) / 0x400),
    UInt16.ofNat (0xdc00 + (c.toNat - 0x10000) % 0x400)]

lemma char_range (c : Char) : c.toNat < 0xd800 ∨ 0xdfff < c.toNat ∧ c.toNat < 0x110000 := c.valid

lemma low_bits (n : Nat) : n &&& 0x3ff = n % 0x400 := Nat.and_two_pow_sub_one_eq_mod n 10

lemma shifted_or {n bits : Nat} (k : Nat) (h : bits < 2 ^ k) : n <<< k ||| bits = n * 2 ^ k + bits := by
  rw [← Nat.shiftLeft_add_eq_or_of_lt h, Nat.shiftLeft_eq]

lemma high_surrogate_or {n : Nat} (h : n < 0x400) : 0xd800 ||| n = 0xd800 + n :=
  shifted_or (n := 54) 10 h

lemma low_surrogate_or {n : Nat} (h : n < 0x400) : 0xdc00 ||| n = 0xdc00 + n :=
  shifted_or (n := 55) 10 h

lemma toNat_ofNat {n : Nat} (h : n < 0x10000) : (UInt16.ofNat n).toNat = n :=
  UInt16.toNat_ofNat_of_lt' h

lemma isHighSurrogate_iff {ch : UInt16} :
    isHighSurrogate ch = true ↔ 0xd800 ≤ ch.toNat ∧ ch.toNat ≤ 0xdbff := by
  simp [isHighSurrogate, UInt16.le_iff_toNat_le]

lemma isLowSurrogate_iff {ch : UInt16} :
    isLowSurrogate ch = true ↔ 0xdc00 ≤ ch.toNat ∧ ch.toNat ≤ 0xdfff := by
  simp [isLowSurrogate, UInt16.le_iff_toNat_le]

lemma putUtf16_small {ch : Nat} (h : ch ≤ 0xffff) : putUtf16 ch = [UInt16.ofNat ch] :=
  if_neg (Nat.not_le.mpr (Nat.lt_succ_of_le h))

lemma putUtf16_large {ch : Nat} (h : ¬ ch ≤ 0xffff) :
    putUtf16 ch = [UInt16.ofNat (0xd800 ||| ((ch - 0x10000) >>> 10)),
      UInt16.ofNat (0xdc00 ||| ((ch - 0x10000) &&& 0x3ff))] :=
  if_pos (Nat.lt_of_not_le h)

lemma putUtf16_char (c : Char) : putUtf16 c.toNat = utf16EncodeChar c := by
  have hrange := char_range c
  unfold putUtf16 utf16EncodeChar
  by_cases h : c.toNat < 0x10000
  · rw [if_neg (by omega), if_pos h]
  rw [if_pos (by omega), if_neg h]
  dsimp only
  rw [low_bits, high_surrogate_or (by rw [Nat.shiftRight_eq_div_pow]; omega),
    low_surrogate_or (by omega), Nat.shiftRight_eq_div_pow]

/-- A code point that `get_utf16` has read is a character. -/
lemma getUtf16_eq_some {src : List UInt16} {len val : Nat} (h : getUtf16 src = some (len, val)) :
    ∃ c : Char, c.toNat = val ∧ src.take len = utf16EncodeChar c ∧
      len = (utf16EncodeChar c).length := by
  cases src with
  | nil => exact absurd h (by simp [getUtf16])
  | cons hi src =>
    unfold getUtf16 at h
    dsimp only at h
    have hhi := hi.toNat_lt
    split at h
    · rename_i hhigh
      have hhigh := isHighSurrogate_iff.mp hhigh
      split at h
      · simp at h
      rename_i lo src
      split at h
      · simp at h
      rename_i hlow
      have hlow := isLowSurrogate_iff.mp (by simpa using hlow)
      rw [Option.some.injEq, Prod.mk.injEq, low_bits, low_bits, Nat.shiftLeft_eq] at h
      obtain ⟨rfl, rfl⟩ := h
      have hvalid : Nat.isValidChar (0x10000 + hi.toNat % 1024 * 2 ^ 10 + lo.toNat % 1024) := by
        right
        omega
      refine ⟨Char.ofNatAux _ hvalid, rfl, ?_, ?_⟩
      · have hval : (Char.ofNatAux _ hvalid).toNat =
          0x10000 + hi.toNat % 1024 * 2 ^ 10 + lo.toNat % 1024 := rfl
        rw [utf16EncodeChar, hval, if_neg (by omega)]
        have hhi : 0xd800 + (0x10000 + hi.toNat % 1024 * 2 ^ 10 + lo.toNat % 1024 - 0x10000) / 0x400 =
            hi.toNat := by omega
        have hlo : 0xdc00 + (0x10000 + hi.toNat % 1024 * 2 ^ 10 + lo.toNat % 1024 - 0x10000) % 0x400 =
            lo.toNat := by omega
        rw [hhi, hlo, UInt16.ofNat_toNat, UInt16.ofNat_toNat]
        rfl
      rw [utf16EncodeChar, if_neg]
      · rfl
      · change ¬ (0x10000 + hi.toNat % 1024 * 2 ^ 10 + lo.toNat % 1024 < 0x10000)
        omega
    · rename_i hhigh
      have hhigh := mt isHighSurrogate_iff.mpr hhigh
      split at h
      · simp at h
      rename_i hlow
      have hlow := mt isLowSurrogate_iff.mpr hlow
      obtain ⟨rfl, rfl⟩ := h
      have hvalid : Nat.isValidChar hi.toNat := by
        omega
      have hval : (Char.ofNatAux _ hvalid).toNat = hi.toNat := rfl
      refine ⟨Char.ofNatAux _ hvalid, rfl, ?_, ?_⟩
      · rw [utf16EncodeChar, hval, if_pos hhi, UInt16.ofNat_toNat]
        rfl
      · rw [utf16EncodeChar, hval, if_pos hhi]
        rfl

lemma getUtf16_char (c : Char) (src : List UInt16) :
    getUtf16 (utf16EncodeChar c ++ src) = some ((utf16EncodeChar c).length, c.toNat) := by
  have hrange := char_range c
  unfold utf16EncodeChar
  split
  · rename_i hc
    have hval := toNat_ofNat hc
    rw [List.singleton_append]
    unfold getUtf16
    dsimp only
    rw [if_neg, if_neg, hval]
    · rfl
    · rw [isLowSurrogate_iff, hval]
      omega
    · rw [isHighSurrogate_iff, hval]
      omega
  · have hhi : (UInt16.ofNat (0xd800 + (c.toNat - 0x10000) / 0x400)).toNat =
      0xd800 + (c.toNat - 0x10000) / 0x400 := toNat_ofNat (by omega)
    have hlo : (UInt16.ofNat (0xdc00 + (c.toNat - 0x10000) % 0x400)).toNat =
      0xdc00 + (c.toNat - 0x10000) % 0x400 := toNat_ofNat (by omega)
    have hhigh : isHighSurrogate (UInt16.ofNat (0xd800 + (c.toNat - 0x10000) / 0x400)) = true := by
      rw [isHighSurrogate_iff, hhi]
      omega
    have hlow : isLowSurrogate (UInt16.ofNat (0xdc00 + (c.toNat - 0x10000) % 0x400)) = true := by
      rw [isLowSurrogate_iff, hlo]
      omega
    rw [List.cons_append, List.singleton_append]
    unfold getUtf16
    dsimp only
    rw [if_pos hhigh, hlow, if_neg (by decide), hhi, hlo, low_bits, low_bits, Nat.shiftLeft_eq]
    have hval : 0x10000 + (0xd800 + (c.toNat - 0x10000) / 0x400) % 0x400 * 2 ^ 10 +
        (0xdc00 + (c.toNat - 0x10000) % 0x400) % 0x400 = c.toNat := by omega
    rw [hval]
    rfl

end WineForge.Locale
