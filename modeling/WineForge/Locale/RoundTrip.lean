import WineForge.Locale.Conversions

/-!
# Well-formed strings

A well-formed string is the encoding of some characters. The conversions take one turn for each
character of it, and every turn of a conversion to UTF-8 writes a character.
-/

namespace WineForge.Locale

open Library List

def Utf8WellFormed (src : List UInt8) : Prop := ∃ cs : List Char, src = cs.flatMap String.utf8EncodeChar

def Utf16WellFormed (src : List UInt16) : Prop := ∃ cs : List Char, src = cs.flatMap utf16EncodeChar

lemma utf8Length_eq : ∀ n < 128, utf8Length.getD n 0 =
    if n < 0x42 then 0 else if n < 0x60 then 1 else if n < 0x70 then 2 else if n < 0x75 then 3
    else 0 := by decide

lemma tail_xor : ∀ x < 64, (UInt8.ofNat (x + 0x80) ^^^ 0x80).toNat = x := by decide

variable {res x n : Nat}

lemma decodeLast_tail (h : x < 64) (hres : 0x80 ≤ res * 64 + x) (str : List UInt8) :
    decodeLast res (UInt8.ofNat (x + 0x80) :: str) = (res * 64 + x, str) := by
  have hor : res <<< 6 ||| x = res * 64 + x := shifted_or 6 h
  rw [decodeLast, tail_xor x h]
  rw [if_neg (by omega), hor, if_neg (by omega)]

lemma decodeSecond_tail (h : x < 64) (hlow : 0x20 ≤ res * 64 + x)
    (hhigh : res * 64 + x < 0x4400) (hrange : res * 64 + x < 0x360 ∨ 0x37f < res * 64 + x)
    (str : List UInt8) :
    decodeSecond res (UInt8.ofNat (x + 0x80) :: str) = decodeLast (res * 64 + x) str := by
  have hor : res <<< 6 ||| x = res * 64 + x := shifted_or 6 h
  have hmax : 0x110000 >>> 6 = 0x4400 := by decide
  have hfirst : 0xd800 >>> 6 = 0x360 := by decide
  have hlast : 0xdfff >>> 6 = 0x37f := by decide
  rw [decodeSecond, tail_xor x h]
  rw [if_neg (by omega), hor, hmax, hfirst, hlast, if_neg (by omega), if_neg (by omega),
    if_neg (by omega)]

lemma decodeThird_tail (h : x < 64) (hlow : 0x10 ≤ res * 64 + x) (str : List UInt8) :
    decodeThird res (UInt8.ofNat (x + 0x80) :: str) = decodeSecond (res * 64 + x) str := by
  have hor : res <<< 6 ||| x = res * 64 + x := shifted_or 6 h
  rw [decodeThird, tail_xor x h]
  rw [if_neg (by omega), hor, if_neg (by omega)]

lemma toNat_byte (h : n < 256) : (UInt8.ofNat n).toNat = n := UInt8.toNat_ofNat_of_lt' h

lemma decode_two (h : 0x80 ≤ n) (h' : n < 0x800) (str : List UInt8) :
    decodeUtf8Char (UInt8.ofNat (n / 64 % 0x20 + 0xc0)) (UInt8.ofNat (n % 64 + 0x80) :: str) =
      (n, str) := by
  have hbyte : (UInt8.ofNat (n / 64 % 0x20 + 0xc0)).toNat = n / 64 % 0x20 + 0xc0 :=
    toNat_byte (by omega)
  have hlen : utf8Length.getD (n / 64 % 0x20 + 0xc0 - 0x80) 0 = 1 := by
    rw [utf8Length_eq _ (by omega), if_neg (by omega), if_pos (by omega)]
  have hmask : (n / 64 % 0x20 + 0xc0) &&& utf8Mask.getD 1 0 = n / 64 := by
    have hmod : (n / 64 % 0x20 + 0xc0) &&& 0x1f = (n / 64 % 0x20 + 0xc0) % 2 ^ 5 :=
      Nat.and_two_pow_sub_one_eq_mod _ 5
    rw [show utf8Mask.getD 1 0 = 0x1f from rfl, hmod]
    omega
  rw [decodeUtf8Char, hbyte, hlen, hmask, if_neg (by simp),
    decodeLast_tail (Nat.mod_lt n (by decide)) (by omega)]
  have hn : n / 64 * 64 + n % 64 = n := by omega
  rw [hn]
  rfl

lemma decode_three (h : 0x800 ≤ n) (h' : n < 0x10000) (hrange : n < 0xd800 ∨ 0xdfff < n)
    (str : List UInt8) :
    decodeUtf8Char (UInt8.ofNat (n / 4096 % 0x10 + 0xe0))
      (UInt8.ofNat (n / 64 % 64 + 0x80) :: UInt8.ofNat (n % 64 + 0x80) :: str) = (n, str) := by
  have hbyte : (UInt8.ofNat (n / 4096 % 0x10 + 0xe0)).toNat = n / 4096 % 0x10 + 0xe0 :=
    toNat_byte (by omega)
  have hlen : utf8Length.getD (n / 4096 % 0x10 + 0xe0 - 0x80) 0 = 2 := by
    rw [utf8Length_eq _ (by omega), if_neg (by omega), if_neg (by omega), if_pos (by omega)]
  have hmask : (n / 4096 % 0x10 + 0xe0) &&& utf8Mask.getD 2 0 = n / 4096 := by
    have hmod : (n / 4096 % 0x10 + 0xe0) &&& 0x0f = (n / 4096 % 0x10 + 0xe0) % 2 ^ 4 :=
      Nat.and_two_pow_sub_one_eq_mod _ 4
    rw [show utf8Mask.getD 2 0 = 0x0f from rfl, hmod]
    omega
  have hsecond : n / 4096 * 64 + n / 64 % 64 = n / 64 := by omega
  rw [decodeUtf8Char, hbyte, hlen, hmask, if_neg (by simp),
    decodeSecond_tail (Nat.mod_lt _ (by decide)) (by omega) (by omega) (by omega),
    hsecond, decodeLast_tail (Nat.mod_lt n (by decide)) (by omega)]
  have hn : n / 64 * 64 + n % 64 = n := by omega
  rw [hn]
  rfl

lemma decode_four (h : 0x10000 ≤ n) (h' : n < 0x110000) (str : List UInt8) :
    decodeUtf8Char (UInt8.ofNat (n / 262144 % 0x08 + 0xf0))
      (UInt8.ofNat (n / 4096 % 64 + 0x80) :: UInt8.ofNat (n / 64 % 64 + 0x80) ::
        UInt8.ofNat (n % 64 + 0x80) :: str) = (n, str) := by
  have hbyte : (UInt8.ofNat (n / 262144 % 0x08 + 0xf0)).toNat = n / 262144 % 0x08 + 0xf0 :=
    toNat_byte (by omega)
  have hlen : utf8Length.getD (n / 262144 % 0x08 + 0xf0 - 0x80) 0 = 3 := by
    rw [utf8Length_eq _ (by omega), if_neg (by omega), if_neg (by omega), if_neg (by omega),
      if_pos (by omega)]
  have hmask : (n / 262144 % 0x08 + 0xf0) &&& utf8Mask.getD 3 0 = n / 262144 := by
    have hmod : (n / 262144 % 0x08 + 0xf0) &&& 0x07 = (n / 262144 % 0x08 + 0xf0) % 2 ^ 3 :=
      Nat.and_two_pow_sub_one_eq_mod _ 3
    rw [show utf8Mask.getD 3 0 = 0x07 from rfl, hmod]
    omega
  have hthird : n / 262144 * 64 + n / 4096 % 64 = n / 4096 := by omega
  have hsecond : n / 4096 * 64 + n / 64 % 64 = n / 64 := by omega
  rw [decodeUtf8Char, hbyte, hlen, hmask, if_neg (by simp),
    decodeThird_tail (Nat.mod_lt _ (by decide)) (by omega), hthird,
    decodeSecond_tail (Nat.mod_lt _ (by decide)) (by omega) (by omega) (by omega), hsecond,
    decodeLast_tail (Nat.mod_lt n (by decide)) (by omega)]
  have hn : n / 64 * 64 + n % 64 = n := by omega
  rw [hn]
  rfl

lemma not_ascii (h : 0x80 ≤ n) (h' : n < 256) : ¬ UInt8.ofNat n < 0x80 := by
  rw [UInt8.lt_iff_toNat_lt, toNat_byte h']
  exact Nat.not_lt.mpr h

lemma mbChunk_decoded {ch : UInt8} {src rest : List UInt8} (hch : ¬ ch < 0x80) (c : Char)
    (hdecode : decodeUtf8Char ch src = (c.toNat, rest)) :
    mbChunk ch src = (⟨utf16EncodeChar c, true⟩, rest) := by
  have hrange := char_range c
  rw [mbChunk, if_neg hch, hdecode]
  rw [if_pos (by omega), putUtf16_char]

lemma mbChunks_char (c : Char) (src : List UInt8) :
    mbChunks (String.utf8EncodeChar c ++ src) = ⟨utf16EncodeChar c, true⟩ :: mbChunks src := by
  have hrange := char_range c
  have hval : c.val.toNat = c.toNat := rfl
  unfold String.utf8EncodeChar
  dsimp only
  rw [hval]
  split
  · rename_i h
    have hascii : UInt8.ofNat c.toNat < 0x80 := by
      rw [UInt8.lt_iff_toNat_lt, toNat_byte (by omega)]
      exact Nat.lt_succ_of_le h
    have hunit : (UInt8.ofNat c.toNat).toUInt16 = UInt16.ofNat c.toNat := by
      apply UInt16.toNat_inj.mp
      rw [toNat_ofNat (by omega), UInt8.toNat_toUInt16, toNat_byte (by omega)]
    rw [singleton_append, mbChunks, mbChunk_ascii src hascii, hunit, utf16EncodeChar,
      if_pos (by omega)]
  split
  · rw [cons_append, singleton_append, mbChunks,
      mbChunk_decoded (not_ascii (by omega) (by omega)) c (decode_two (by omega) (by omega) src)]
  split
  · rw [cons_append, cons_append, singleton_append, mbChunks,
      mbChunk_decoded (not_ascii (by omega) (by omega)) c
        (decode_three (by omega) (by omega) (by omega) src)]
  · rw [cons_append, cons_append, cons_append, singleton_append, mbChunks,
      mbChunk_decoded (not_ascii (by omega) (by omega)) c (decode_four (by omega) (by omega) src)]

lemma wcChunks_char (c : Char) (src : List UInt16) :
    wcChunks (utf16EncodeChar c ++ src) = ⟨String.utf8EncodeChar c, true⟩ :: wcChunks src := by
  have hget := getUtf16_char c src
  have hlen : 0 < (utf16EncodeChar c).length := by
    unfold utf16EncodeChar
    split
    · exact Nat.one_pos
    · exact Nat.two_pos
  generalize utf16EncodeChar c = units at hget hlen ⊢
  cases units with
  | nil => simp at hlen
  | cons ch units =>
    rw [cons_append] at hget ⊢
    rw [wcChunks, wcChunk, hget]
    dsimp only
    rw [ofNat_toNat, length_cons, Nat.add_sub_cancel, drop_left]

lemma wcChunks_chars (cs : List Char) : wcChunks (cs.flatMap utf16EncodeChar) =
    cs.map fun c => ⟨String.utf8EncodeChar c, true⟩ := by
  induction cs with
  | nil => rw [flatMap_nil, wcChunks, map_nil]
  | cons c cs ih => rw [flatMap_cons, wcChunks_char, ih, map_cons]

lemma mbChunks_chars (cs : List Char) : mbChunks (cs.flatMap String.utf8EncodeChar) =
    cs.map fun c => ⟨utf16EncodeChar c, true⟩ := by
  induction cs with
  | nil => rw [flatMap_nil, mbChunks, map_nil]
  | cons c cs ih => rw [flatMap_cons, mbChunks_char, ih, map_cons]

lemma output_chars {α : Type} (encode : Char → List α) (cs : List Char) :
    output (cs.map fun c => (⟨encode c, true⟩ : Chunk α)) = cs.flatMap encode := by
  induction cs with
  | nil => rfl
  | cons c cs ih => rw [map_cons, output_cons, ih, flatMap_cons]

lemma output_roundTrip_utf16 {src : List UInt16} (h : Utf16WellFormed src) :
    output (mbChunks (output (wcChunks src))) = src := by
  obtain ⟨cs, rfl⟩ := h
  rw [wcChunks_chars, output_chars, mbChunks_chars, output_chars]

lemma output_roundTrip_utf8 {src : List UInt8} (h : Utf8WellFormed src) :
    output (wcChunks (output (mbChunks src))) = src := by
  obtain ⟨cs, rfl⟩ := h
  rw [mbChunks_chars, output_chars, wcChunks_chars, output_chars]

lemma pieces_wcChunks (src : List UInt16) :
    ∃ cs : List Char, pieces (wcChunks src) = cs.map String.utf8EncodeChar := by
  induction src using wcChunks.induct with
  | case1 => exact ⟨[], by rw [wcChunks]; rfl⟩
  | case2 ch src ih =>
    obtain ⟨cs, hcs⟩ := ih
    rw [wcChunks, pieces_cons, hcs]
    unfold wcChunk
    split
    · exact ⟨replacement :: cs, rfl⟩
    · rename_i len val _
      exact ⟨Char.ofNat val :: cs, rfl⟩

lemma wellFormed_of_front {src : List UInt16} {xs : List (List UInt8)}
    (h : xs <+: pieces (wcChunks src)) : Utf8WellFormed xs.flatten := by
  obtain ⟨cs, hcs⟩ := pieces_wcChunks src
  rw [hcs] at h
  obtain ⟨cs', hfront, hmap⟩ := prefix_map_iff.mp h
  exact ⟨cs', by rw [hmap, flatMap_def]⟩

end WineForge.Locale
