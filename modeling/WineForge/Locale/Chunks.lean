import WineForge.Locale.Utf8

/-!
# One turn of the loops

What the loops read and write in one turn. Both functions for one direction take the same turns.
-/

namespace WineForge.Locale

open Library List

/-- What one turn writes, and whether it has been mapped. -/
structure Chunk (α : Type) where
  out : List α
  mapped : Bool
  deriving DecidableEq, Repr

def Chunk.status {α : Type} (chunk : Chunk α) (status : Status) : Status :=
  if chunk.mapped then status else .someNotMapped

def replacement : Char := Char.ofNat 0xfffd

/-- A turn of the loops of `utf8_wcstombs` and `utf8_wcstombs_size`. -/
def wcChunk (ch : UInt16) (src : List UInt16) : Chunk UInt8 × List UInt16 :=
  match getUtf16 (ch :: src) with
  | none => (⟨String.utf8EncodeChar replacement, false⟩, src)
  | some (len, val) => (⟨String.utf8EncodeChar (Char.ofNat val), true⟩, src.drop (len - 1))

/-- A turn of the loops of `utf8_mbstowcs` and `utf8_mbstowcs_size`. -/
def mbChunk (ch : UInt8) (src : List UInt8) : Chunk UInt16 × List UInt8 :=
  if ch < 0x80 then (⟨[ch.toUInt16], true⟩, src)
  else
    let res := decodeUtf8Char ch src
    if res.1 ≤ 0x10ffff then (⟨putUtf16 res.1, true⟩, res.2) else (⟨[0xfffd], false⟩, res.2)

lemma ofNat_toNat (c : Char) : Char.ofNat c.toNat = c := Char.ofNat_toNat c

lemma tail_byte (n : Nat) : 0x80 ||| (n &&& 0x3f) = n % 0x40 + 0x80 := by
  have hmod : n &&& 0x3f = n % 0x40 := Nat.and_two_pow_sub_one_eq_mod n 6
  have hor : 0x80 ||| n % 0x40 = 2 * 2 ^ 6 + n % 0x40 :=
    shifted_or (n := 2) 6 (Nat.mod_lt n (by decide))
  rw [hmod, hor]
  omega

variable {c : Char} {ch : UInt8} {src : List UInt8}

lemma encode_one (h : c.toNat < 0x80) : String.utf8EncodeChar c = [UInt8.ofNat c.toNat] :=
  if_pos (Nat.le_of_lt_succ h)

lemma encode_two (h : ¬ c.toNat < 0x80) (h' : c.toNat < 0x800) : String.utf8EncodeChar c =
      [UInt8.ofNat (0xc0 ||| (c.toNat >>> 6)), UInt8.ofNat (0x80 ||| (c.toNat &&& 0x3f))] := by
  have hor : 0xc0 ||| (c.toNat >>> 6) = c.toNat / 64 % 0x20 + 0xc0 := by
    rw [Nat.shiftRight_eq_div_pow]
    have hbits : c.toNat / 2 ^ 6 < 2 ^ 5 := by omega
    have hshift : 0xc0 ||| (c.toNat / 2 ^ 6) = 6 * 2 ^ 5 + c.toNat / 2 ^ 6 := shifted_or (n := 6) 5 hbits
    omega
  have hval : c.val.toNat = c.toNat := rfl
  rw [tail_byte, hor]
  exact (if_neg (by omega)).trans (if_pos (Nat.le_of_lt_succ h'))

lemma encode_three (h : ¬ c.toNat < 0x800) (h' : c.toNat < 0x10000) :
    String.utf8EncodeChar c = [UInt8.ofNat (0xe0 ||| (c.toNat >>> 6 >>> 6)),
      UInt8.ofNat (0x80 ||| ((c.toNat >>> 6) &&& 0x3f)),
      UInt8.ofNat (0x80 ||| (c.toNat &&& 0x3f))] := by
  have hor : 0xe0 ||| (c.toNat >>> 6 >>> 6) = c.toNat / 4096 % 0x10 + 0xe0 := by
    rw [← Nat.shiftRight_add, Nat.shiftRight_eq_div_pow]
    have hbits : c.toNat / 2 ^ (6 + 6) < 2 ^ 4 := by omega
    have hshift : 0xe0 ||| (c.toNat / 2 ^ (6 + 6)) = 14 * 2 ^ 4 + c.toNat / 2 ^ (6 + 6) :=
      shifted_or (n := 14) 4 hbits
    omega
  have hval : c.val.toNat = c.toNat := rfl
  rw [tail_byte, tail_byte, hor, Nat.shiftRight_eq_div_pow]
  exact (if_neg (by omega)).trans ((if_neg (by omega)).trans (if_pos (Nat.le_of_lt_succ h')))

lemma encode_four (h : ¬ c.toNat < 0x10000) :
    String.utf8EncodeChar c = [UInt8.ofNat (0xf0 ||| (c.toNat >>> 6 >>> 6 >>> 6)),
      UInt8.ofNat (0x80 ||| ((c.toNat >>> 6 >>> 6) &&& 0x3f)),
      UInt8.ofNat (0x80 ||| ((c.toNat >>> 6) &&& 0x3f)),
      UInt8.ofNat (0x80 ||| (c.toNat &&& 0x3f))] := by
  have hrange := char_range c
  have hor : 0xf0 ||| (c.toNat >>> 6 >>> 6 >>> 6) = c.toNat / 262144 % 0x08 + 0xf0 := by
    rw [← Nat.shiftRight_add, ← Nat.shiftRight_add, Nat.shiftRight_eq_div_pow]
    have hbits : c.toNat / 2 ^ (6 + 6 + 6) < 2 ^ 3 := by omega
    have hshift : 0xf0 ||| (c.toNat / 2 ^ (6 + 6 + 6)) = 30 * 2 ^ 3 + c.toNat / 2 ^ (6 + 6 + 6) :=
      shifted_or (n := 30) 3 hbits
    rw [hshift]
    omega
  have hval : c.val.toNat = c.toNat := rfl
  rw [tail_byte, tail_byte, tail_byte, hor, ← Nat.shiftRight_add, Nat.shiftRight_eq_div_pow,
    Nat.shiftRight_eq_div_pow]
  exact (if_neg (by omega)).trans ((if_neg (by omega)).trans (if_neg (by omega)))

lemma getUtf16_none {ch : UInt16} {src : List UInt16} (h : getUtf16 (ch :: src) = none) :
    0xd800 ≤ ch.toNat := by
  by_contra hlt
  unfold getUtf16 at h
  dsimp only at h
  rw [if_neg, if_neg] at h
  · simp at h
  · rw [isLowSurrogate_iff]
    omega
  · rw [isHighSurrogate_iff]
    omega

lemma getUtf16_cases {ch : UInt16} {src : List UInt16} {len val : Nat}
    (h : getUtf16 (ch :: src) = some (len, val)) :
    ∃ c : Char, c.toNat = val ∧
      (len = 1 ∧ val = ch.toNat ∨ len = 2 ∧ 0x10000 ≤ val ∧ 0xd800 ≤ ch.toNat ∧ src ≠ []) := by
  obtain ⟨c, hc, htake, hlen⟩ := getUtf16_eq_some h
  refine ⟨c, hc, ?_⟩
  have hrange := char_range c
  unfold utf16EncodeChar at htake hlen
  split at hlen
  · rename_i hsmall
    rw [if_pos hsmall, hlen] at htake
    refine .inl ⟨hlen, ?_⟩
    have hch : ch = UInt16.ofNat c.toNat := head_eq_of_cons_eq htake
    rw [hch, toNat_ofNat hsmall, hc]
  rename_i hlarge
  rw [if_neg hlarge, hlen] at htake
  have hch : ch = UInt16.ofNat (0xd800 + (c.toNat - 0x10000) / 0x400) :=
    head_eq_of_cons_eq htake
  refine .inr ⟨hlen, by omega, ?_, ?_⟩
  · rw [hch, toNat_ofNat (by omega)]
    omega
  · rintro rfl
    simp at htake

lemma wcstombsSizeLoop_cons (ch : UInt16) (src : List UInt16) (len : Nat) (status : Status) :
    wcstombsSizeLoop (ch :: src) len status =
      wcstombsSizeLoop (wcChunk ch src).2 ((len + (wcChunk ch src).1.out.length) % 2 ^ 32)
        ((wcChunk ch src).1.status status) := by
  rw [wcstombsSizeLoop, wcChunk]
  simp only [UInt16.lt_iff_toNat_lt]
  cases hget : getUtf16 (ch :: src) with
  | none =>
    have hch := getUtf16_none hget
    rw [if_neg (by simp; omega), if_neg (by simp; omega)]
    rfl
  | some p =>
    obtain ⟨n, val⟩ := p
    obtain ⟨c, rfl, hcases⟩ := getUtf16_cases hget
    have hlt := ch.toNat_lt
    simp only [ofNat_toNat]
    obtain ⟨rfl, hval⟩ | ⟨rfl, hval, hch, _⟩ := hcases
    · rw [← hval]
      split
      · rename_i hc
        rw [encode_one hc]
        rfl
      rename_i hc
      split
      · rename_i hc'
        rw [encode_two hc hc']
        rfl
      · rename_i hc'
        rw [if_pos (by omega), encode_three hc' (by omega)]
        rfl
    · rw [if_neg (by simp; omega), if_neg (by simp; omega), if_neg (by omega), encode_four (by omega),
        drop_one]
      rfl

lemma wcstombsLoop_cons (dst : List UInt8) (pos : Nat) (ch : UInt16) (src : List UInt16)
    (status : Status) :
    wcstombsLoop dst pos (ch :: src) status =
      if pos + (wcChunk ch src).1.out.length > dst.length then some ⟨.bufferTooSmall, pos, dst⟩
      else (put dst pos (wcChunk ch src).1.out).bind fun dst =>
        wcstombsLoop dst (pos + (wcChunk ch src).1.out.length) (wcChunk ch src).2
          ((wcChunk ch src).1.status status) := by
  rw [wcstombsLoop, wcChunk]
  simp only [UInt16.lt_iff_toNat_lt]
  cases hget : getUtf16 (ch :: src) with
  | none =>
    have hch := getUtf16_none hget
    have hval : replacement.toNat = 0xfffd := by decide
    rw [if_neg (by simp; omega), if_neg (by simp; omega), encode_three (by rw [hval]; decide)
      (by rw [hval]; decide), hval]
    rfl
  | some p =>
    obtain ⟨n, val⟩ := p
    obtain ⟨c, rfl, hcases⟩ := getUtf16_cases hget
    have hlt := ch.toNat_lt
    simp only [ofNat_toNat]
    obtain ⟨rfl, hval⟩ | ⟨rfl, hval, hch, _⟩ := hcases
    · have hbyte : ch.toUInt8 = UInt8.ofNat c.toNat := by
        rw [hval]
        rfl
      rw [← hval, hbyte]
      split
      · rename_i hc
        rw [encode_one hc]
        rfl
      rename_i hc
      split
      · rename_i hc'
        rw [encode_two hc hc']
        rfl
      · rename_i hc'
        rw [if_pos (by omega), encode_three hc' (by omega)]
        rfl
    · rw [if_neg (by simp; omega), if_neg (by simp; omega), if_neg (by omega), encode_four (by omega),
        drop_one]
      rfl

lemma length_mbChunk_le (ch : UInt8) (src : List UInt8) :
    (mbChunk ch src).2.length ≤ src.length := by
  unfold mbChunk
  dsimp only
  split
  · exact le_refl _
  split
  · dsimp only
    exact length_decodeUtf8Char_le ch src
  · dsimp only
    exact length_decodeUtf8Char_le ch src

lemma mbChunk_ascii (src : List UInt8) (h : ch < 0x80) :
    mbChunk ch src = (⟨[ch.toUInt16], true⟩, src) := if_pos h

lemma mbChunk_small (h : ¬ ch < 0x80) (hres : (decodeUtf8Char ch src).1 ≤ 0xffff) : mbChunk ch src =
      (⟨[UInt16.ofNat (decodeUtf8Char ch src).1], true⟩, (decodeUtf8Char ch src).2) := by
  have hle : (decodeUtf8Char ch src).1 ≤ 0x10ffff := hres.trans (by decide)
  rw [mbChunk, if_neg h]
  rw [if_pos hle, putUtf16_small hres]

lemma mbChunk_large (h : ¬ ch < 0x80)
    (hsmall : ¬ (decodeUtf8Char ch src).1 ≤ 0xffff) (hres : (decodeUtf8Char ch src).1 ≤ 0x10ffff) :
    mbChunk ch src = (⟨[UInt16.ofNat (0xd800 ||| (((decodeUtf8Char ch src).1 - 0x10000) >>> 10)),
      UInt16.ofNat (0xdc00 ||| (((decodeUtf8Char ch src).1 - 0x10000) &&& 0x3ff))], true⟩,
      (decodeUtf8Char ch src).2) := by
  rw [mbChunk, if_neg h]
  rw [if_pos hres, putUtf16_large hsmall]

lemma mbChunk_invalid (h : ¬ ch < 0x80) (hres : ¬ (decodeUtf8Char ch src).1 ≤ 0x10ffff) :
    mbChunk ch src = (⟨[0xfffd], false⟩, (decodeUtf8Char ch src).2) := by
  rw [mbChunk, if_neg h]
  rw [if_neg hres]

lemma mbChunk_out (ch : UInt8) (src : List UInt8) :
    (mbChunk ch src).1.out.length = 1 ∨ (mbChunk ch src).1.out.length = 2 := by
  by_cases hch : ch < 0x80
  · rw [mbChunk_ascii src hch]
    exact .inl rfl
  by_cases hsmall : (decodeUtf8Char ch src).1 ≤ 0xffff
  · rw [mbChunk_small hch hsmall]
    exact .inl rfl
  by_cases hres : (decodeUtf8Char ch src).1 ≤ 0x10ffff
  · rw [mbChunk_large hch hsmall hres]
    exact .inr rfl
  · rw [mbChunk_invalid hch hres]
    exact .inl rfl

lemma mbstowcsSizeLoop_cons (ch : UInt8) (src : List UInt8) (len : Nat) (status : Status) :
    mbstowcsSizeLoop (ch :: src) len status =
      mbstowcsSizeLoop (mbChunk ch src).2 ((len + (mbChunk ch src).1.out.length) % 2 ^ 32)
        ((mbChunk ch src).1.status status) := by
  rw [mbstowcsSizeLoop]
  by_cases hch : ch < 0x80
  · rw [if_pos hch, mbChunk_ascii src hch]
    rfl
  rw [if_neg hch]
  by_cases hres : (decodeUtf8Char ch src).1 ≤ 0x10ffff
  · rw [if_neg (Nat.not_lt.mpr hres)]
    by_cases hsmall : (decodeUtf8Char ch src).1 ≤ 0xffff
    · rw [if_neg (Nat.not_lt.mpr hsmall), mbChunk_small hch hsmall]
      dsimp only
      rfl
    · rw [if_pos (Nat.lt_of_not_le hsmall), mbChunk_large hch hsmall hres]
      dsimp only
      rfl
  · rw [if_pos (Nat.lt_of_not_le hres), mbChunk_invalid hch hres]
    dsimp only
    rfl

lemma mbstowcsLoop_cons (dst : List UInt16) (pos : Nat) (ch : UInt8) (src : List UInt8)
    (status : Status) (hpos : pos < dst.length) :
    mbstowcsLoop dst pos (ch :: src) status =
      if pos + (mbChunk ch src).1.out.length ≤ dst.length then
        (put dst pos (mbChunk ch src).1.out).bind fun dst =>
          mbstowcsLoop dst (pos + (mbChunk ch src).1.out.length) (mbChunk ch src).2
            ((mbChunk ch src).1.status status)
      else (put dst pos ((mbChunk ch src).1.out.take 1)).map fun dst =>
        ⟨.bufferTooSmall, pos + 1, dst⟩ := by
  have hone : ∀ x : UInt16, pos + [x].length ≤ dst.length := fun _ => hpos
  rw [mbstowcsLoop, if_pos hpos]
  dsimp only
  by_cases hch : ch < 0x80
  · rw [if_pos hch, mbChunk_ascii src hch]
    rw [if_pos (hone _)]
    rfl
  rw [if_neg hch]
  by_cases hsmall : (decodeUtf8Char ch src).1 ≤ 0xffff
  · rw [if_pos hsmall, mbChunk_small hch hsmall]
    dsimp only
    rw [if_pos (hone _)]
    rfl
  rw [if_neg hsmall]
  by_cases hres : (decodeUtf8Char ch src).1 ≤ 0x10ffff
  · rw [if_pos hres, mbChunk_large hch hsmall hres]
    generalize UInt16.ofNat (0xd800 ||| (((decodeUtf8Char ch src).1 - 0x10000) >>> 10)) = hi
    generalize UInt16.ofNat (0xdc00 ||| (((decodeUtf8Char ch src).1 - 0x10000) &&& 0x3ff)) = lo
    have hfirst := put_eq (hone hi)
    have hlength := length_of_put hfirst
    have htake : [hi, lo].take 1 = [hi] := rfl
    dsimp only
    rw [htake, hfirst, Option.bind_eq_bind, Option.bind_some, hlength]
    by_cases hfit : pos + 2 ≤ dst.length
    · have hsecond : put _ (pos + 1) [lo] = put dst pos [hi, lo] := put_put hfirst hfit
      rw [if_pos (show pos + [hi, lo].length ≤ dst.length from hfit), if_neg (by omega)]
      exact congrArg (fun o => Option.bind o fun dst => mbstowcsLoop dst (pos + 2)
        (decodeUtf8Char ch src).2 status) hsecond
    · rw [if_neg (show ¬ pos + [hi, lo].length ≤ dst.length from hfit), if_pos (by omega)]
      rfl
  · rw [if_neg hres, mbChunk_invalid hch hres]
    dsimp only
    rw [if_pos (hone _)]
    rfl

end WineForge.Locale
