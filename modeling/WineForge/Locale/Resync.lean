import WineForge.Locale.RoundTrip

/-!
# Malformed strings

Where a turn finds no character it drops the first byte and those of the announced bytes that can
follow one, and none of them starts a character. At the end of the string it drops the bytes that
are announced and missing too.
-/

namespace WineForge.Locale

open Library List

def StartsChar (src : List UInt8) : Prop := ∃ c : Char, String.utf8EncodeChar c <+: src

/-- The characters of a string, and the bytes that are no part of one. -/
inductive Segments : List UInt8 → List (Option Char) → Prop
  | nil : Segments [] []
  | char (c : Char) {src : List UInt8} {items : List (Option Char)} (h : Segments src items) :
    Segments (String.utf8EncodeChar c ++ src) (some c :: items)
  | skip {b : UInt8} {src : List UInt8} {items : List (Option Char)} (hb : ¬ StartsChar (b :: src))
    (h : Segments src items) : Segments (b :: src) (none :: items)

/-- Bytes in a row that are no part of a character may become a single item. -/
inductive Merges : List (Option Char) → List (Option Char) → Prop
  | nil : Merges [] []
  | cons (item : Option Char) {items items' : List (Option Char)} (h : Merges items items') :
    Merges (item :: items) (item :: items')
  | merge {items items' : List (Option Char)} (h : Merges (none :: items) items') :
    Merges (none :: none :: items) items'

/-- The characters, and `U+FFFD` for everything else. -/
def units (items : List (Option Char)) : List UInt16 :=
  items.flatMap fun
    | some c => utf16EncodeChar c
    | none => [0xfffd]

def announced (ch : UInt8) : Nat := utf8Length.getD (ch.toNat - 0x80) 0

/-- How far `decode_utf8_char` moves, the bytes past the end of the string included. -/
def decodeUtf8Cursor (ch : UInt8) (str : List UInt8) : Nat :=
  if announced ch > str.length then announced ch
  else str.length - (decodeUtf8Char ch str).2.length

def CursorInside : List UInt8 → Prop
  | [] => True
  | ch :: src => (0x80 ≤ ch → decodeUtf8Cursor ch src ≤ src.length) ∧ CursorInside (mbChunk ch src).2
termination_by src => src.length
decreasing_by exact Nat.lt_succ_of_le (length_mbChunk_le ch src)

def Untruncated (src : List UInt8) : Prop :=
  ∀ front ch rest, src = front ++ ch :: rest → 0x80 ≤ ch → announced ch ≤ rest.length

def IsTail (b : UInt8) : Prop := (b ^^^ 0x80).toNat < 0x40

variable {b ch : UInt8} {str src : List UInt8} {n res : Nat}

lemma isTail_bounds (h : IsTail b) : 0x80 ≤ b ∧ announced b = 0 := by
  have hbytes : ∀ n < 256, (UInt8.ofNat n ^^^ 0x80).toNat < 0x40 →
      0x80 ≤ UInt8.ofNat n ∧ announced (UInt8.ofNat n) = 0 := by decide +kernel
  have hb := hbytes b.toNat b.toNat_lt
  rw [UInt8.ofNat_toNat] at hb
  exact hb h

lemma isTail_eq (h : IsTail b) : b = UInt8.ofNat ((b ^^^ 0x80).toNat + 0x80) := by
  have hbytes : ∀ n < 256, (UInt8.ofNat n ^^^ 0x80).toNat < 0x40 →
      UInt8.ofNat n = UInt8.ofNat ((UInt8.ofNat n ^^^ 0x80).toNat + 0x80) := by decide +kernel
  have hb := hbytes b.toNat b.toNat_lt
  rw [UInt8.ofNat_toNat] at hb
  exact hb h

def Follows (str rest : List UInt8) : Prop := ∃ tails, str = tails ++ rest ∧ ∀ b ∈ tails, IsTail b

lemma Follows.refl (str : List UInt8) : Follows str str := ⟨[], rfl, by simp⟩

lemma Follows.cons {rest : List UInt8} (hb : IsTail b) (h : Follows str rest) :
    Follows (b :: str) rest := by
  obtain ⟨tails, rfl, htails⟩ := h
  refine ⟨b :: tails, rfl, ?_⟩
  simpa using ⟨hb, htails⟩

lemma decodeLast_follows (res : Nat) (str : List UInt8) : Follows str (decodeLast res str).2 := by
  cases str with
  | nil => exact Follows.refl []
  | cons b str =>
    unfold decodeLast
    dsimp only
    split
    · exact Follows.refl _
    · rename_i hb
      have htail : IsTail b := Nat.lt_of_not_le hb
      split <;> exact Follows.cons htail (Follows.refl str)

lemma decodeSecond_follows (res : Nat) (str : List UInt8) : Follows str (decodeSecond res str).2 := by
  cases str with
  | nil => exact Follows.refl []
  | cons b str =>
    unfold decodeSecond
    dsimp only
    split
    · exact Follows.refl _
    rename_i hb
    have htail : IsTail b := Nat.lt_of_not_le hb
    split
    · exact Follows.refl _
    split
    · exact Follows.cons htail (Follows.refl str)
    · split
      · exact Follows.cons htail (Follows.refl str)
      · exact Follows.cons htail (decodeLast_follows _ str)

lemma decodeThird_follows (res : Nat) (str : List UInt8) : Follows str (decodeThird res str).2 := by
  cases str with
  | nil => exact Follows.refl []
  | cons b str =>
    unfold decodeThird
    dsimp only
    split
    · exact Follows.refl _
    rename_i hb
    have htail : IsTail b := Nat.lt_of_not_le hb
    split
    · exact Follows.cons htail (Follows.refl str)
    · exact Follows.cons htail (decodeSecond_follows _ str)

def decodeTails (n res : Nat) (str : List UInt8) : Nat × List UInt8 :=
  match n with
  | 3 => decodeThird res str
  | 2 => decodeSecond res str
  | 1 => decodeLast res str
  | _ => (invalid, str)

lemma decodeUtf8Char_of_announced (hn : announced ch = n) (h : n ≤ str.length) :
    decodeUtf8Char ch str = decodeTails n (ch.toNat &&& utf8Mask.getD n 0) str := by
  have hlen : ¬ n > str.length := Nat.not_lt.mpr h
  unfold announced at hn
  rw [decodeUtf8Char, hn, if_neg hlen]
  rfl

lemma decodeUtf8Char_follows (h : announced ch ≤ str.length) :
    Follows str (decodeUtf8Char ch str).2 := by
  rw [decodeUtf8Char_of_announced rfl h]
  unfold decodeTails
  split
  · exact decodeThird_follows _ str
  · exact decodeSecond_follows _ str
  · exact decodeLast_follows _ str
  · exact Follows.refl str

lemma invalid_not_le : ¬ invalid ≤ 0x10ffff := by decide

lemma not_of_ite_le {c : Prop} [Decidable c] {decoded : Nat × List UInt8}
    (h : (if c then (invalid, str) else decoded).1 ≤ 0x10ffff) : ¬ c := by
  intro hc
  rw [if_pos hc] at h
  exact invalid_not_le h

lemma tail_or {b : UInt8} (hb : ¬ 0x40 ≤ (b ^^^ 0x80).toNat) (res : Nat) :
    (b ^^^ 0x80).toNat < 64 ∧
      res <<< 6 ||| (b ^^^ 0x80).toNat = res * 64 + (b ^^^ 0x80).toNat :=
  ⟨Nat.lt_of_not_le hb, shifted_or 6 (Nat.lt_of_not_le hb)⟩

lemma decodeLast_some (h : (decodeLast res str).1 ≤ 0x10ffff) :
    ∃ x < 64, str = UInt8.ofNat (x + 0x80) :: (decodeLast res str).2 ∧
      (decodeLast res str).1 = res * 64 + x ∧ 0x80 ≤ res * 64 + x := by
  cases str with
  | nil => exact absurd h invalid_not_le
  | cons b str =>
    unfold decodeLast at h ⊢
    dsimp only at h ⊢
    have hb := not_of_ite_le h
    rw [if_neg hb] at h ⊢
    obtain ⟨htail, hor⟩ := tail_or hb res
    rw [hor] at h ⊢
    have hlow := not_of_ite_le h
    rw [if_neg hlow]
    exact ⟨_, htail, congrArg (· :: str) (isTail_eq htail), rfl, Nat.le_of_not_lt hlow⟩

lemma decodeSecond_some (h : (decodeSecond res str).1 ≤ 0x10ffff) : ∃ x < 64, ∃ y < 64,
      str = UInt8.ofNat (x + 0x80) :: UInt8.ofNat (y + 0x80) :: (decodeSecond res str).2 ∧
      (decodeSecond res str).1 = (res * 64 + x) * 64 + y ∧ 0x20 ≤ res * 64 + x ∧
      res * 64 + x < 0x4400 ∧ (res * 64 + x < 0x360 ∨ 0x37f < res * 64 + x) := by
  cases str with
  | nil => exact absurd h invalid_not_le
  | cons b str =>
    unfold decodeSecond at h ⊢
    dsimp only at h ⊢
    have hb := not_of_ite_le h
    rw [if_neg hb] at h ⊢
    obtain ⟨htail, hor⟩ := tail_or hb res
    have hmax : 0x110000 >>> 6 = 0x4400 := by decide
    have hfirst : 0xd800 >>> 6 = 0x360 := by decide
    have hlast : 0xdfff >>> 6 = 0x37f := by decide
    rw [hor, hmax, hfirst, hlast] at h ⊢
    generalize hval : res * 64 + (b ^^^ 0x80).toNat = val at h ⊢
    have hhigh := not_of_ite_le h
    rw [if_neg hhigh] at h ⊢
    have hlow := not_of_ite_le h
    rw [if_neg hlow] at h ⊢
    have hrange := not_of_ite_le h
    rw [if_neg hrange] at h ⊢
    obtain ⟨y, hy, hstr, hres, _⟩ := decodeLast_some h
    refine ⟨_, htail, y, hy, ?_, ?_⟩
    · rw [← hstr, ← isTail_eq htail]
    · rw [hval]
      exact ⟨hres, by omega, by omega, by omega⟩

lemma decodeThird_some (h : (decodeThird res str).1 ≤ 0x10ffff) :
    ∃ x < 64, ∃ y < 64, ∃ z < 64, str = UInt8.ofNat (x + 0x80) :: UInt8.ofNat (y + 0x80) ::
        UInt8.ofNat (z + 0x80) :: (decodeThird res str).2 ∧
      (decodeThird res str).1 = ((res * 64 + x) * 64 + y) * 64 + z ∧ 0x10 ≤ res * 64 + x ∧
      (res * 64 + x) * 64 + y < 0x4400 := by
  cases str with
  | nil => exact absurd h invalid_not_le
  | cons b str =>
    unfold decodeThird at h ⊢
    dsimp only at h ⊢
    have hb := not_of_ite_le h
    rw [if_neg hb] at h ⊢
    obtain ⟨htail, hor⟩ := tail_or hb res
    rw [hor] at h ⊢
    generalize hval : res * 64 + (b ^^^ 0x80).toNat = val at h ⊢
    have hlow := not_of_ite_le h
    rw [if_neg hlow] at h ⊢
    obtain ⟨y, hy, z, hz, hstr, hres, _, hhigh, _⟩ := decodeSecond_some h
    refine ⟨_, htail, y, hy, z, hz, ?_, ?_⟩
    · rw [← hstr, ← isTail_eq htail]
    · rw [hval]
      exact ⟨hres, by omega, hhigh⟩

lemma decodeUtf8Char_truncated (h : str.length < announced ch) :
    decodeUtf8Char ch str = (invalid, []) := by
  have hlen : utf8Length.getD (ch.toNat - 0x80) 0 > str.length := h
  rw [decodeUtf8Char, if_pos hlen]

lemma utf8EncodeChar_two (hvalid : n.isValidChar) (h : 0x80 ≤ n) (h' : n < 0x800) :
    String.utf8EncodeChar (Char.ofNatAux n hvalid) =
      [UInt8.ofNat (n / 64 % 0x20 + 0xc0), UInt8.ofNat (n % 64 + 0x80)] := by
  have hval : (Char.ofNatAux n hvalid).val.toNat = n := rfl
  exact (if_neg (by omega)).trans (if_pos (by omega))

lemma utf8EncodeChar_three (hvalid : n.isValidChar) (h : 0x800 ≤ n) (h' : n < 0x10000) :
    String.utf8EncodeChar (Char.ofNatAux n hvalid) =
      [UInt8.ofNat (n / 4096 % 0x10 + 0xe0), UInt8.ofNat (n / 64 % 64 + 0x80),
        UInt8.ofNat (n % 64 + 0x80)] := by
  have hval : (Char.ofNatAux n hvalid).val.toNat = n := rfl
  exact (if_neg (by omega)).trans ((if_neg (by omega)).trans (if_pos (by omega)))

lemma utf8EncodeChar_four (hvalid : n.isValidChar) (h : 0x10000 ≤ n) :
    String.utf8EncodeChar (Char.ofNatAux n hvalid) =
      [UInt8.ofNat (n / 262144 % 0x08 + 0xf0), UInt8.ofNat (n / 4096 % 64 + 0x80),
        UInt8.ofNat (n / 64 % 64 + 0x80), UInt8.ofNat (n % 64 + 0x80)] := by
  have hval : (Char.ofNatAux n hvalid).val.toNat = n := rfl
  exact (if_neg (by omega)).trans ((if_neg (by omega)).trans (if_neg (by omega)))

lemma decodeUtf8Char_some (hch : 0x80 ≤ ch) (h : (decodeUtf8Char ch str).1 ≤ 0x10ffff) :
    ∃ c : Char, c.toNat = (decodeUtf8Char ch str).1 ∧
      ch :: str = String.utf8EncodeChar c ++ (decodeUtf8Char ch str).2 := by
  have hhigh := ch.toNat_lt
  by_cases hlen : str.length < announced ch
  · rw [decodeUtf8Char_truncated hlen] at h
    exact absurd h invalid_not_le
  have hlen : announced ch ≤ str.length := Nat.le_of_not_lt hlen
  have hlength : announced ch = _ := utf8Length_eq (ch.toNat - 0x80) (by omega)
  have hbyte : UInt8.ofNat ch.toNat = ch := UInt8.ofNat_toNat
  split_ifs at hlength with h0 h1 h2 h3
  · rw [decodeUtf8Char_of_announced hlength (Nat.zero_le _)] at h
    exact absurd h invalid_not_le
  · rw [decodeUtf8Char_of_announced hlength (hlength ▸ hlen)] at h ⊢
    have hmask : ch.toNat &&& utf8Mask.getD 1 0 = ch.toNat % 2 ^ 5 :=
      Nat.and_two_pow_sub_one_eq_mod _ 5
    rw [hmask] at h ⊢
    obtain ⟨x, hx, hstr, hres, hmin⟩ := decodeLast_some h
    generalize hval : ch.toNat % 2 ^ 5 * 64 + x = val at hres hmin
    have hvalid : Nat.isValidChar val := .inl (by omega)
    refine ⟨Char.ofNatAux val hvalid, hres.symm, ?_⟩
    have hlead : val / 64 % 0x20 + 0xc0 = ch.toNat := by omega
    have hlast : val % 64 = x := by omega
    rw [utf8EncodeChar_two hvalid hmin (by omega), hlead, hlast, hbyte]
    exact congrArg (ch :: ·) hstr
  · rw [decodeUtf8Char_of_announced hlength (hlength ▸ hlen)] at h ⊢
    have hmask : ch.toNat &&& utf8Mask.getD 2 0 = ch.toNat % 2 ^ 4 :=
      Nat.and_two_pow_sub_one_eq_mod _ 4
    rw [hmask] at h ⊢
    obtain ⟨x, hx, y, hy, hstr, hres, hmin, _, hrange⟩ := decodeSecond_some h
    generalize hval : (ch.toNat % 2 ^ 4 * 64 + x) * 64 + y = val at hres
    have hvalid : Nat.isValidChar val := by
      omega
    refine ⟨Char.ofNatAux val hvalid, hres.symm, ?_⟩
    have hlead : val / 4096 % 0x10 + 0xe0 = ch.toNat := by omega
    have hsecond : val / 64 % 64 = x := by omega
    have hlast : val % 64 = y := by omega
    rw [utf8EncodeChar_three hvalid (by omega) (by omega), hlead, hsecond, hlast, hbyte]
    exact congrArg (ch :: ·) hstr
  · rw [decodeUtf8Char_of_announced hlength (hlength ▸ hlen)] at h ⊢
    have hmask : ch.toNat &&& utf8Mask.getD 3 0 = ch.toNat % 2 ^ 3 :=
      Nat.and_two_pow_sub_one_eq_mod _ 3
    rw [hmask] at h ⊢
    obtain ⟨x, hx, y, hy, z, hz, hstr, hres, hmin, hmax⟩ := decodeThird_some h
    generalize hval : ((ch.toNat % 2 ^ 3 * 64 + x) * 64 + y) * 64 + z = val at hres
    have hvalid : Nat.isValidChar val := .inr (by omega)
    refine ⟨Char.ofNatAux val hvalid, hres.symm, ?_⟩
    have hlead : val / 262144 % 0x08 + 0xf0 = ch.toNat := by omega
    have hthird : val / 4096 % 64 = x := by omega
    have hsecond : val / 64 % 64 = y := by omega
    have hlast : val % 64 = z := by omega
    rw [utf8EncodeChar_four hvalid (by omega), hlead, hthird, hsecond, hlast, hbyte]
    exact congrArg (ch :: ·) hstr
  · rw [decodeUtf8Char_of_announced hlength (Nat.zero_le _)] at h
    exact absurd h invalid_not_le

lemma mbChunk_char {rest : List UInt8} {c : Char}
    (h : String.utf8EncodeChar c ++ rest = ch :: str) :
    (mbChunk ch str).1 = ⟨utf16EncodeChar c, true⟩ := by
  have hchunks := mbChunks_char c rest
  rw [h, mbChunks] at hchunks
  exact head_eq_of_cons_eq hchunks

lemma not_startsChar (h : (mbChunk ch str).1.mapped = false) : ¬ StartsChar (ch :: str) := by
  rintro ⟨c, rest, hsrc⟩
  rw [mbChunk_char hsrc] at h
  exact Bool.noConfusion h

lemma isTail_not_startsChar (hb : IsTail b) (str : List UInt8) : ¬ StartsChar (b :: str) := by
  obtain ⟨hlow, hlen⟩ := isTail_bounds hb
  have hlow : ¬ b < 0x80 := UInt8.not_lt.mpr hlow
  have hdecode := decodeUtf8Char_of_announced hlen (Nat.zero_le str.length)
  apply not_startsChar
  rw [mbChunk_invalid hlow (by rw [hdecode]; exact invalid_not_le)]

lemma mbChunk_follows (h : 0x80 ≤ ch → announced ch ≤ str.length) :
    Follows str (mbChunk ch str).2 := by
  by_cases hch : ch < 0x80
  · rw [mbChunk_ascii str hch]
    exact Follows.refl str
  have hfollows := decodeUtf8Char_follows (h (UInt8.not_lt.mp hch))
  rw [mbChunk, if_neg hch]
  generalize decodeUtf8Char ch str = res at hfollows ⊢
  dsimp only
  split <;> exact hfollows

lemma mbChunk_cases (ch : UInt8) (str : List UInt8) :
    (∃ c, (mbChunk ch str).1 = ⟨utf16EncodeChar c, true⟩ ∧
        ch :: str = String.utf8EncodeChar c ++ (mbChunk ch str).2) ∨
      (mbChunk ch str).1 = ⟨[0xfffd], false⟩ ∧ ¬ StartsChar (ch :: str) := by
  by_cases hch : ch < 0x80
  · have hlow : ch.toNat < 0x80 := UInt8.lt_iff_toNat_lt.mp hch
    have hvalid : Nat.isValidChar ch.toNat := .inl (by omega)
    have hencode : String.utf8EncodeChar (Char.ofNatAux ch.toNat hvalid) = [ch] := by
      have hone : String.utf8EncodeChar (Char.ofNatAux ch.toNat hvalid) = [UInt8.ofNat ch.toNat] :=
        encode_one hlow
      rw [hone, UInt8.ofNat_toNat]
    have hstr : String.utf8EncodeChar (Char.ofNatAux ch.toNat hvalid) ++ str = ch :: str := by
      rw [hencode, singleton_append]
    left
    refine ⟨Char.ofNatAux ch.toNat hvalid, mbChunk_char hstr, ?_⟩
    rw [mbChunk_ascii str hch, hstr]
  · have hlow : 0x80 ≤ ch := UInt8.not_lt.mp hch
    by_cases hres : (decodeUtf8Char ch str).1 ≤ 0x10ffff
    · left
      obtain ⟨c, hc, hstr⟩ := decodeUtf8Char_some hlow hres
      have hdecode : decodeUtf8Char ch str = (c.toNat, (decodeUtf8Char ch str).2) := by rw [hc]
      refine ⟨c, mbChunk_char hstr.symm, ?_⟩
      rw [mbChunk_decoded hch c hdecode, hstr]
    right
    have hturn := mbChunk_invalid hch hres
    refine ⟨?_, not_startsChar ?_⟩
    · rw [hturn]
    · rw [hturn]

lemma Untruncated.tail (h : Untruncated (ch :: src)) : Untruncated src := by
  rintro front b rest rfl hb
  exact h (ch :: front) b rest rfl hb

lemma Untruncated.append {front : List UInt8} (h : Untruncated (front ++ src)) :
    Untruncated src := by
  induction front with
  | nil => exact h
  | cons ch front ih => exact ih h.tail

lemma Segments.skips {tails : List UInt8} {items : List (Option Char)} (h : Segments src items)
    (htails : ∀ b ∈ tails, IsTail b) :
    Segments (tails ++ src) (List.replicate tails.length none ++ items) := by
  induction tails with
  | nil => exact h
  | cons b tails ih =>
    have hb := htails b mem_cons_self
    have hrest := ih fun b' hb' => htails b' (mem_cons_of_mem b hb')
    exact Segments.skip (isTail_not_startsChar hb _) hrest

lemma Merges.skips {items items' : List (Option Char)} (n : Nat) (h : Merges items items') :
    Merges (none :: (List.replicate n none ++ items)) (none :: items') := by
  induction n with
  | zero => exact Merges.cons none h
  | succ n ih => exact Merges.merge ih

lemma output_segments (h : Untruncated src) :
    ∃ items decoded, Segments src items ∧ Merges items decoded ∧
      output (mbChunks src) = units decoded := by
  induction src using mbChunks.induct with
  | case1 => exact ⟨[], [], Segments.nil, Merges.nil, by rw [mbChunks]; rfl⟩
  | case2 ch str ih =>
    obtain ⟨tails, htails, hbytes⟩ := mbChunk_follows (h [] ch str rfl)
    obtain ⟨items, decoded, hitems, hmerges, houtput⟩ := ih (htails ▸ h.tail).append
    rw [mbChunks, output_cons]
    obtain ⟨c, hchunk, hstr⟩ | ⟨hchunk, hstart⟩ := mbChunk_cases ch str
    · refine ⟨some c :: items, some c :: decoded, ?_, Merges.cons _ hmerges, ?_⟩
      · rw [hstr]
        exact Segments.char c hitems
      · rw [hchunk, houtput]
        rfl
    refine ⟨none :: (List.replicate tails.length none ++ items), none :: decoded, ?_,
      hmerges.skips tails.length, ?_⟩
    · have hskips := hitems.skips hbytes
      rw [← htails] at hskips
      exact Segments.skip hstart hskips
    · rw [hchunk, houtput]
      rfl

lemma decodeUtf8Cursor_le (h : announced ch ≤ str.length) :
    decodeUtf8Cursor ch str ≤ str.length := by
  unfold decodeUtf8Cursor
  rw [if_neg (Nat.not_lt.mpr h)]
  exact Nat.sub_le _ _

lemma announced_le_of_cursor
    (h : decodeUtf8Cursor ch str ≤ str.length) : announced ch ≤ str.length := by
  by_contra hlen
  have hcursor : decodeUtf8Cursor ch str = announced ch := if_pos (Nat.lt_of_not_le hlen)
  exact hlen (hcursor ▸ h)

lemma cursorInside_of_untruncated (h : Untruncated src) : CursorInside src := by
  induction src using mbChunks.induct with
  | case1 => rw [CursorInside]; trivial
  | case2 ch str ih =>
    rw [CursorInside]
    obtain ⟨tails, htails, _⟩ := mbChunk_follows (h [] ch str rfl)
    exact ⟨fun hch => decodeUtf8Cursor_le (h [] ch str rfl hch), ih (htails ▸ h.tail).append⟩

lemma untruncated_of_cursorInside (h : CursorInside src) : Untruncated src := by
  induction src using mbChunks.induct with
  | case1 => exact fun front ch rest hsrc => absurd hsrc (by simp)
  | case2 ch str ih =>
    rw [CursorInside] at h
    obtain ⟨hcursor, hrest⟩ := h
    have hlen : 0x80 ≤ ch → announced ch ≤ str.length :=
      fun hch => announced_le_of_cursor (hcursor hch)
    obtain ⟨tails, htails, hbytes⟩ := mbChunk_follows hlen
    generalize (mbChunk ch str).2 = src at ih hrest htails
    intro front b rest hsrc hb
    obtain ⟨rfl, heq⟩ | ⟨front, rfl, heq⟩ := cons_eq_append_iff.mp hsrc
    · obtain ⟨rfl, rfl⟩ := heq
      exact hlen hb
    -- behind the first byte, a byte has been moved over or it is read in a later turn
    rw [heq, append_eq_append_iff] at htails
    obtain ⟨later, rfl, htails⟩ | ⟨later, rfl, htails⟩ := htails
    · cases later with
      | nil => exact ih hrest [] b rest htails.symm hb
      | cons b' later =>
        obtain ⟨rfl, _⟩ := htails
        have htail := hbytes b (mem_append_right front mem_cons_self)
        rw [(isTail_bounds htail).2]
        exact Nat.zero_le _
    · exact ih hrest later b rest htails hb

def Resynchronises (src : List UInt8) : Prop :=
  CursorInside src ∧ ∃ items decoded, Segments src items ∧ Merges items decoded ∧
    ∀ dst, ∃ res, utf8Mbstowcs dst src = some res ∧
      res.dst.take res.reslen = (units decoded).take dst.length

/-- A string is decoded without a loss iff no announced byte is missing at its end. -/
theorem utf8_resync (src : List UInt8) : Resynchronises src ↔ Untruncated src := by
  constructor
  · exact fun h => untruncated_of_cursorInside h.1
  · intro h
    obtain ⟨items, decoded, hitems, hmerges, houtput⟩ := output_segments h
    refine ⟨cursorInside_of_untruncated h, items, decoded, hitems, hmerges, fun dst => ?_⟩
    have hroom : 0 + ((units decoded).take dst.length).length ≤ dst.length := by
      rw [Nat.zero_add, length_take]
      exact min_le_left _ _
    obtain ⟨dst', hput, _⟩ := put_spec hroom
    have hwritten := (put_zero hput).1
    rw [utf8Mbstowcs_eq, houtput, hput]
    exact ⟨_, rfl, hwritten⟩

/-- A byte that announces two more swallows the character behind it. -/
theorem truncated_swallows : ¬ Resynchronises [0xe2, 0x41] ∧
    (utf8Mbstowcs [0, 0] [0xe2, 0x41]).map (fun res => res.dst.take res.reslen) = some [0xfffd] := by
  constructor
  · intro h
    have hcursor := h.1
    rw [CursorInside] at hcursor
    exact absurd (hcursor.1 (by decide)) (by decide)
  · have hdecode : decodeUtf8Char 0xe2 [0x41] = (invalid, []) := by decide
    have hchunks : mbChunks [0xe2, 0x41] = [⟨[0xfffd], false⟩] := by
      rw [mbChunks, mbChunk_invalid (by decide) (by rw [hdecode]; exact invalid_not_le), hdecode, mbChunks]
    rw [utf8Mbstowcs_eq, hchunks]
    decide

end WineForge.Locale
