import WineForge.Locale.Utf8Conversions

/-!
# Upper case in UTF-8

The encoder for upper case maps each unit, but it takes the code point of three or four bytes from
the string that is not mapped.
-/

namespace WineForge.Locale

open Library List

/-- `casemap`; the table holds offsets of 16 bits. -/
def casemap (table : Nat → UInt16) (ch : UInt16) : UInt16 :=
  ch + table ((table ((table (ch >>> 8).toNat).toNat + ((ch >>> 4) &&& 0x0f).toNat)).toNat +
    (ch &&& 0x0f).toNat)

/-- The loop of `upcase_unicode_to_utf8`. A write past the end of the buffer has no result. -/
def upcaseLoop (table : Nat → UInt16) (dst : List UInt8) (pos : Nat) (src : List UInt16)
    (status : Status) : Option (Conversion UInt8) :=
  match src with
  | [] => some ⟨status, pos, dst⟩
  | unit :: src =>
    let ch := casemap table unit
    if ch < 0x80 then
      if pos + 1 > dst.length then some ⟨.bufferTooSmall, pos, dst⟩
      else do
        let dst ← put dst pos [ch.toUInt8]
        upcaseLoop table dst (pos + 1) src status
    else if ch < 0x800 then
      if pos + 2 > dst.length then some ⟨.bufferTooSmall, pos, dst⟩
      else do
        let val := ch.toNat
        let dst ← put dst pos [UInt8.ofNat (0xc0 ||| (val >>> 6)), UInt8.ofNat (0x80 ||| (val &&& 0x3f))]
        upcaseLoop table dst (pos + 2) src status
    else
      -- the code point is read from the source and not from `ch`
      let (val, status) := match getUtf16 (unit :: src) with
        | none => (0xfffd, .someNotMapped)
        | some (_, val) => (val, status)
      if val < 0x10000 then
        if pos + 3 > dst.length then some ⟨.bufferTooSmall, pos, dst⟩
        else do
          let dst ← put dst pos [UInt8.ofNat (0xe0 ||| (val >>> 6 >>> 6)),
            UInt8.ofNat (0x80 ||| ((val >>> 6) &&& 0x3f)), UInt8.ofNat (0x80 ||| (val &&& 0x3f))]
          upcaseLoop table dst (pos + 3) src status
      else
        if pos + 4 > dst.length then some ⟨.bufferTooSmall, pos, dst⟩
        else do
          let dst ← put dst pos [UInt8.ofNat (0xf0 ||| (val >>> 6 >>> 6 >>> 6)),
            UInt8.ofNat (0x80 ||| ((val >>> 6 >>> 6) &&& 0x3f)),
            UInt8.ofNat (0x80 ||| ((val >>> 6) &&& 0x3f)), UInt8.ofNat (0x80 ||| (val &&& 0x3f))]
          upcaseLoop table dst (pos + 4) src.tail status
termination_by src.length
decreasing_by all_goals simp only [length_cons, length_tail]; omega

def upcaseUnicodeToUtf8 (table : Nat → UInt16) (dst : List UInt8) (src : List UInt16) :
    Option (Conversion UInt8) :=
  upcaseLoop table dst 0 src .success

def isSurrogate (ch : UInt16) : Bool := isHighSurrogate ch || isLowSurrogate ch

/-- Surrogates are mapped to themselves, and no other unit to a surrogate. -/
structure KeepsSurrogates (table : Nat → UInt16) : Prop where
  surrogate : ∀ {ch}, isSurrogate ch = true → casemap table ch = ch
  other : ∀ {ch}, ¬ isSurrogate ch = true → ¬ isSurrogate (casemap table ch) = true

def threeBytes (val : Nat) : List UInt8 :=
  [UInt8.ofNat (0xe0 ||| (val >>> 6 >>> 6)), UInt8.ofNat (0x80 ||| ((val >>> 6) &&& 0x3f)),
    UInt8.ofNat (0x80 ||| (val &&& 0x3f))]

/-- A turn of the loop of `upcase_unicode_to_utf8`. -/
def upcaseChunk (table : Nat → UInt16) (unit : UInt16) (src : List UInt16) :
    Chunk UInt8 × List UInt16 :=
  if isSurrogate unit then wcChunk unit src
  else if (casemap table unit).toNat < 0x800 then
    (⟨String.utf8EncodeChar (Char.ofNat (casemap table unit).toNat), true⟩, src)
  else (⟨threeBytes unit.toNat, true⟩, src)

variable {table : Nat → UInt16} {unit : UInt16} {src : List UInt16}

lemma isSurrogate_iff {ch : UInt16} :
    isSurrogate ch = true ↔ 0xd800 ≤ ch.toNat ∧ ch.toNat ≤ 0xdfff := by
  rw [isSurrogate, Bool.or_eq_true, isHighSurrogate_iff, isLowSurrogate_iff]
  omega

lemma getUtf16_other (h : ¬ isSurrogate unit = true) (src : List UInt16) :
    getUtf16 (unit :: src) = some (1, unit.toNat) := by
  rw [isSurrogate, Bool.or_eq_true, not_or] at h
  unfold getUtf16
  dsimp only
  rw [if_neg h.1, if_neg h.2]

variable {src' : List UInt16} {n : Nat} {chunks chunks' : List (Chunk UInt8)}

lemma getUtf16_congr (h : src.head? = src'.head?) :
    getUtf16 (unit :: src) = getUtf16 (unit :: src') := by
  unfold getUtf16
  cases src with
  | nil =>
    cases src' with
    | nil => rfl
    | cons lo' src' => simp at h
  | cons lo src =>
    cases src' with
    | nil => simp at h
    | cons lo' src' =>
      rw [head?_cons, head?_cons, Option.some.injEq] at h
      rw [h]

lemma char_toNat_ofNat (h : n.isValidChar) : (Char.ofNat n).toNat = n := by
  have hchar : Char.ofNat n = Char.ofNatAux n h := dif_pos h
  rw [hchar]
  rfl

lemma isLowSurrogate_casemap (h : KeepsSurrogates table) (ch : UInt16) :
    isLowSurrogate (casemap table ch) = isLowSurrogate ch := by
  by_cases hch : isSurrogate ch = true
  · rw [h.surrogate hch]
  · have hmapped := h.other hch
    rw [isSurrogate, Bool.or_eq_true, not_or, Bool.not_eq_true, Bool.not_eq_true] at hch hmapped
    rw [hch.2, hmapped.2]

lemma getUtf16_map (h : KeepsSurrogates table) (unit : UInt16) (src : List UInt16) :
    getUtf16 (unit :: src.map (casemap table)) = getUtf16 (unit :: src) := by
  unfold getUtf16
  cases src with
  | nil => rfl
  | cons lo src =>
    rw [map_cons]
    dsimp only
    rw [isLowSurrogate_casemap h]
    by_cases hlo : isLowSurrogate lo = true
    · have hsurrogate : isSurrogate lo = true := by rw [isSurrogate, hlo, Bool.or_true]
      rw [h.surrogate hsurrogate]
    · rw [Bool.not_eq_true] at hlo
      rw [hlo]
      rfl

lemma length_upcaseChunk_le (table : Nat → UInt16) (unit : UInt16) (src : List UInt16) :
    (upcaseChunk table unit src).2.length ≤ src.length := by
  unfold upcaseChunk
  split
  · exact length_wcChunk_le unit src
  · split <;> exact le_refl _

lemma upcaseLoop_surrogate (h : KeepsSurrogates table) (hunit : isSurrogate unit = true)
    (dst : List UInt8) (pos : Nat) (src : List UInt16) (status : Status) :
    upcaseLoop table dst pos (unit :: src) status =
      if pos + (wcChunk unit src).1.out.length > dst.length then some ⟨.bufferTooSmall, pos, dst⟩
      else (put dst pos (wcChunk unit src).1.out).bind fun dst =>
        upcaseLoop table dst (pos + (wcChunk unit src).1.out.length) (wcChunk unit src).2
          ((wcChunk unit src).1.status status) := by
  have hrange := isSurrogate_iff.mp hunit
  rw [upcaseLoop, wcChunk, h.surrogate hunit]
  simp only [UInt16.lt_iff_toNat_lt]
  rw [if_neg (by simp; omega), if_neg (by simp; omega)]
  cases hget : getUtf16 (unit :: src) with
  | none =>
    have hval : replacement.toNat = 0xfffd := by decide
    rw [encode_three (by rw [hval]; decide) (by rw [hval]; decide), hval]
    rfl
  | some p =>
    obtain ⟨n, val⟩ := p
    obtain ⟨c, rfl, hcases⟩ := getUtf16_cases hget
    simp only [ofNat_toNat]
    obtain ⟨rfl, hval⟩ | ⟨rfl, hval, _, _⟩ := hcases
    · rw [if_pos (by omega), encode_three (by omega) (by omega)]
      rfl
    · rw [if_neg (by omega), encode_four (by omega), drop_one]
      rfl

lemma upcaseLoop_cons (h : KeepsSurrogates table) (dst : List UInt8) (pos : Nat) (unit : UInt16)
    (src : List UInt16) (status : Status) :
    upcaseLoop table dst pos (unit :: src) status =
      if pos + (upcaseChunk table unit src).1.out.length > dst.length then
        some ⟨.bufferTooSmall, pos, dst⟩
      else (put dst pos (upcaseChunk table unit src).1.out).bind fun dst =>
        upcaseLoop table dst (pos + (upcaseChunk table unit src).1.out.length)
          (upcaseChunk table unit src).2 ((upcaseChunk table unit src).1.status status) := by
  by_cases hunit : isSurrogate unit = true
  · rw [upcaseChunk, if_pos hunit]
    exact upcaseLoop_surrogate h hunit dst pos src status
  have hlt := unit.toNat_lt
  have hvalid : (casemap table unit).toNat < 0x800 →
      (Char.ofNat (casemap table unit).toNat).toNat = (casemap table unit).toNat :=
    fun hsmall => char_toNat_ofNat (.inl (by omega))
  rw [upcaseLoop, upcaseChunk, if_neg hunit, getUtf16_other hunit]
  simp only [UInt16.lt_iff_toNat_lt]
  generalize casemap table unit = ch at hvalid ⊢
  have hbyte : ch.toUInt8 = UInt8.ofNat ch.toNat := rfl
  split
  · rename_i hone
    have hone : ch.toNat < 0x80 := hone
    have hch := hvalid (by omega)
    have hsmall : ch.toNat < 0x800 := by omega
    rw [if_pos hsmall, encode_one (by omega), hch, hbyte]
    rfl
  rename_i hone
  have hone : ¬ ch.toNat < 0x80 := hone
  split
  · rename_i htwo
    have htwo : ch.toNat < 0x800 := htwo
    have hch := hvalid htwo
    rw [if_pos htwo, encode_two (by omega) (by omega), hch]
    rfl
  rename_i htwo
  have htwo : ¬ ch.toNat < 0x800 := htwo
  rw [if_neg htwo]
  rfl

def upcaseChunks (table : Nat → UInt16) : List UInt16 → List (Chunk UInt8)
  | [] => []
  | unit :: src =>
    (upcaseChunk table unit src).1 :: upcaseChunks table (upcaseChunk table unit src).2
termination_by src => src.length
decreasing_by exact Nat.lt_succ_of_le (length_upcaseChunk_le table unit src)

/-! ### Comparison with the encoder of the mapped string -/

def Alike (chunk chunk' : Chunk UInt8) : Prop :=
  chunk.mapped = chunk'.mapped ∧ chunk.out.length = chunk'.out.length

lemma threeBytes_eq (h : n < 0x10000) : threeBytes n =
    [UInt8.ofNat (n / 4096 + 0xe0), UInt8.ofNat (n / 64 % 64 + 0x80), UInt8.ofNat (n % 64 + 0x80)] := by
  have hor : 0xe0 ||| (n >>> 6 >>> 6) = n / 4096 + 0xe0 := by
    rw [← Nat.shiftRight_add, Nat.shiftRight_eq_div_pow]
    have hshift : 0xe0 ||| (n / 2 ^ (6 + 6)) = 14 * 2 ^ 4 + n / 2 ^ (6 + 6) :=
      shifted_or (n := 14) 4 (by omega)
    omega
  rw [threeBytes, hor, tail_byte, tail_byte, Nat.shiftRight_eq_div_pow]

lemma threeBytes_inj {m : Nat} (hm : m < 0x10000) (hn : n < 0x10000)
    (h : threeBytes m = threeBytes n) : m = n := by
  rw [threeBytes_eq hm, threeBytes_eq hn] at h
  simp only [List.cons.injEq, and_true] at h
  obtain ⟨hfirst, hsecond, hthird⟩ := h
  have hfirst := congrArg UInt8.toNat hfirst
  have hsecond := congrArg UInt8.toNat hsecond
  have hthird := congrArg UInt8.toNat hthird
  rw [toNat_byte (by omega), toNat_byte (by omega)] at hfirst hsecond hthird
  omega

lemma upcaseChunk_map (h : KeepsSurrogates table) (unit : UInt16) (src : List UInt16) :
    (wcChunk (casemap table unit) (src.map (casemap table))).2 =
        (upcaseChunk table unit src).2.map (casemap table) ∧
      Alike (upcaseChunk table unit src).1
        (wcChunk (casemap table unit) (src.map (casemap table))).1 ∧
      ((upcaseChunk table unit src).1 = (wcChunk (casemap table unit) (src.map (casemap table))).1 ↔
        (0x800 ≤ casemap table unit → casemap table unit = unit)) := by
  have hlt := unit.toNat_lt
  have hlt' := (casemap table unit).toNat_lt
  by_cases hunit : isSurrogate unit = true
  · rw [upcaseChunk, if_pos hunit, h.surrogate hunit, wcChunk, wcChunk, getUtf16_map h]
    cases getUtf16 (unit :: src) with
    | none => exact ⟨rfl, ⟨rfl, rfl⟩, iff_of_true rfl fun _ => rfl⟩
    | some p => exact ⟨(map_drop).symm, ⟨rfl, rfl⟩, iff_of_true rfl fun _ => rfl⟩
  have hmapped := h.other hunit
  have hrange := mt isSurrogate_iff.mpr hmapped
  have hchar : (Char.ofNat (casemap table unit).toNat).toNat = (casemap table unit).toNat :=
    char_toNat_ofNat (by unfold Nat.isValidChar; omega)
  rw [upcaseChunk, if_neg hunit, wcChunk, getUtf16_other hmapped]
  dsimp only
  by_cases hsmall : (casemap table unit).toNat < 0x800
  · rw [if_pos hsmall]
    refine ⟨rfl, ⟨rfl, rfl⟩, iff_of_true rfl fun hlarge => ?_⟩
    exact absurd hsmall (Nat.not_lt.mpr hlarge)
  have hlarge : 0x800 ≤ casemap table unit := by
    exact Nat.le_of_not_lt hsmall
  have hthree : String.utf8EncodeChar (Char.ofNat (casemap table unit).toNat) =
      threeBytes (casemap table unit).toNat := by
    rw [encode_three (by omega) (by omega), hchar]
    rfl
  rw [if_neg hsmall, hthree]
  refine ⟨rfl, ⟨rfl, rfl⟩, fun heq _ => ?_, fun heq => ?_⟩
  · exact UInt16.toNat_inj.mp (threeBytes_inj hlt hlt' (congrArg Chunk.out heq)).symm
  · rw [heq hlarge]

lemma Alike.eq_iff {chunk chunk' : Chunk UInt8} (h : Alike chunk chunk') :
    chunk = chunk' ↔ chunk.out = chunk'.out := by
  obtain ⟨out, mapped⟩ := chunk
  obtain ⟨out', mapped'⟩ := chunk'
  have hmapped : mapped = mapped' := h.1
  rw [hmapped, Chunk.mk.injEq, and_iff_left rfl]

lemma upcaseChunks_alike (h : KeepsSurrogates table) (src : List UInt16) :
    List.Forall₂ Alike (upcaseChunks table src) (wcChunks (src.map (casemap table))) := by
  induction src using (upcaseChunks.induct table) with
  | case1 =>
    rw [upcaseChunks, map_nil, wcChunks]
    exact .nil
  | case2 unit src ih =>
    obtain ⟨hrest, halike, _⟩ := upcaseChunk_map h unit src
    rw [upcaseChunks, map_cons, wcChunks, hrest]
    exact .cons halike ih

lemma Alike.statusFrom (h : List.Forall₂ Alike chunks chunks')
    (status : Status) : statusFrom chunks status = statusFrom chunks' status := by
  induction h generalizing status with
  | nil => rfl
  | cons halike _ ih => rw [statusFrom_cons, statusFrom_cons, ih, Chunk.status, Chunk.status, halike.1]

lemma Alike.length_output
    (h : List.Forall₂ Alike chunks chunks') : (output chunks).length = (output chunks').length := by
  induction h with
  | nil => rfl
  | cons halike _ ih => rw [output_cons, output_cons, length_append, length_append, ih, halike.2]

lemma Alike.length_fitting (h : List.Forall₂ Alike chunks chunks') (room : Nat) :
    (fitting room (pieces chunks)).flatten.length = (fitting room (pieces chunks')).flatten.length := by
  induction h generalizing room with
  | nil => rfl
  | cons halike _ ih =>
    rw [pieces_cons, pieces_cons, fitting, fitting, halike.2]
    split
    · rw [flatten_cons, flatten_cons, length_append, length_append, ih, halike.2]
    · rfl

/-! ### The units that are written as they are -/

/-- No unit that has room in the buffer is changed to one of three bytes: the upper case of the
string up to a unit that is changed is longer than the buffer. -/
def UnchangedWithin (table : Nat → UInt16) (room : Nat) (src : List UInt16) : Prop :=
  ∀ before unit after, src = before ++ unit :: after → 0x800 ≤ casemap table unit →
    casemap table unit ≠ unit →
    room < (output (wcChunks ((before ++ [unit]).map (casemap table)))).length

lemma wcChunk_congr (unit : UInt16) (h : src.head? = src'.head?) :
    (wcChunk unit src).1 = (wcChunk unit src').1 := by
  rw [wcChunk, wcChunk, getUtf16_congr h]
  cases getUtf16 (unit :: src') <;> rfl

lemma wcChunk_rest (unit : UInt16) (h : src.head? = src'.head?) :
    (wcChunk unit src).2 = src ∧ (wcChunk unit src').2 = src' ∨
      ∃ lo t t', src = lo :: t ∧ src' = lo :: t' ∧ isSurrogate lo = true ∧
        (wcChunk unit src).2 = t ∧ (wcChunk unit src').2 = t' := by
  by_cases hhigh : isHighSurrogate unit = true
  · cases src with
    | nil =>
      have hnil : src' = [] := head?_eq_none_iff.mp h.symm
      refine .inl ⟨?_, ?_⟩
      · rw [wcChunk, getUtf16, if_pos hhigh]
      · rw [hnil, wcChunk, getUtf16, if_pos hhigh]
    | cons lo t =>
      obtain ⟨t', rfl⟩ : ∃ t', src' = lo :: t' := head?_eq_some_iff.mp h.symm
      by_cases hlo : isLowSurrogate lo = true
      · have hsurrogate : isSurrogate lo = true := by rw [isSurrogate, hlo, Bool.or_true]
        refine .inr ⟨lo, t, t', rfl, rfl, hsurrogate, ?_, ?_⟩ <;>
          rw [wcChunk, getUtf16, if_pos hhigh, hlo] <;> rfl
      · rw [Bool.not_eq_true] at hlo
        refine .inl ⟨?_, ?_⟩ <;> rw [wcChunk, getUtf16, if_pos hhigh, hlo] <;> rfl
  · have hone : ∀ src, (wcChunk unit src).2 = src := by
      intro src
      rw [wcChunk, getUtf16.eq_def]
      dsimp only
      rw [if_neg hhigh]
      by_cases hlow : isLowSurrogate unit = true
      · rw [if_pos hlow]
      · rw [if_neg hlow]
        rfl
    exact .inl ⟨hone src, hone src'⟩

lemma length_output_cons (ch : UInt16) (src : List UInt16) : (output (wcChunks (ch :: src))).length =
    (wcChunk ch src).1.out.length + (output (wcChunks (wcChunk ch src).2)).length := by
  rw [wcChunks, output_cons, length_append]

lemma upcaseChunk_rest (table : Nat → UInt16) (unit : UInt16) (src : List UInt16) :
    (upcaseChunk table unit src).2 = src ∨
      ∃ lo, isSurrogate lo = true ∧ src = lo :: (upcaseChunk table unit src).2 := by
  unfold upcaseChunk
  split
  · obtain ⟨hsame, _⟩ | ⟨lo, t, _, hsrc, _, hlo, ht, _⟩ := wcChunk_rest unit (Eq.refl src.head?)
    · exact .inl hsame
    · exact .inr ⟨lo, hlo, by rw [ht, hsrc]⟩
  · split <;> exact .inl rfl

lemma length_output_behind (h : KeepsSurrogates table) (unit : UInt16)
    {before after : List UInt16} {c : UInt16} (hsrc : src = before ++ c :: after) (hc : ¬ isSurrogate c = true) :
    ∃ before', (upcaseChunk table unit src).2 = before' ++ c :: after ∧
      (output (wcChunks ((unit :: before ++ [c]).map (casemap table)))).length =
        (upcaseChunk table unit src).1.out.length +
          (output (wcChunks ((before' ++ [c]).map (casemap table)))).length := by
  obtain ⟨hrest, ⟨_, hlength⟩, _⟩ := upcaseChunk_map h unit src
  have hhead : (src.map (casemap table)).head? = ((before ++ [c]).map (casemap table)).head? := by
    rw [hsrc]
    cases before <;> rfl
  have hfirst := wcChunk_congr (casemap table unit) hhead
  have hturn := wcChunk_rest (casemap table unit) hhead
  rw [cons_append, map_cons, length_output_cons, ← hfirst, ← hlength]
  obtain hsame | ⟨lo, hlo, hpair⟩ := upcaseChunk_rest table unit src
  · refine ⟨before, hsame.trans hsrc, ?_⟩
    obtain ⟨_, hgo⟩ | ⟨lo, t, t', ht, _, _, hgo, _⟩ := hturn
    · rw [hgo]
    · rw [hrest, hsame, ht] at hgo
      exact absurd (congrArg List.length hgo) (by simp)
  cases before with
  | nil =>
    rw [hpair] at hsrc
    exact absurd ((head_eq_of_cons_eq hsrc) ▸ hlo) hc
  | cons lo' before =>
    refine ⟨before, tail_eq_of_cons_eq (hpair.symm.trans hsrc), ?_⟩
    obtain ⟨hgo, _⟩ | ⟨_, t, t', _, ht', _, _, hgo⟩ := hturn
    · rw [hrest] at hgo
      have hlen := congrArg List.length hgo
      have hlen' := congrArg List.length hpair
      simp only [length_map, length_cons] at hlen hlen'
      omega
    · have ht : (before ++ [c]).map (casemap table) = t' := tail_eq_of_cons_eq ht'
      rw [hgo, ← ht]

lemma unchangedWithin_cons (h : KeepsSurrogates table) (room : Nat) (unit : UInt16)
    (src : List UInt16) :
    UnchangedWithin table room (unit :: src) ↔
      ((upcaseChunk table unit src).1.out.length ≤ room →
        (0x800 ≤ casemap table unit → casemap table unit = unit) ∧
        UnchangedWithin table (room - (upcaseChunk table unit src).1.out.length)
          (upcaseChunk table unit src).2) := by
  have hother : ∀ {c}, casemap table c ≠ c → ¬ isSurrogate c = true :=
    fun hc hsurrogate => hc (h.surrogate hsurrogate)
  have hunit : casemap table unit ≠ unit →
      (output (wcChunks (([] ++ [unit]).map (casemap table)))).length =
        (upcaseChunk table unit src).1.out.length := by
    intro hc
    obtain ⟨_, ⟨_, hlength⟩, _⟩ := upcaseChunk_map h unit src
    rw [hlength, nil_append, map_singleton, length_output_cons, wcChunk, wcChunk,
      getUtf16_other (h.other (hother hc)), getUtf16_other (h.other (hother hc))]
    simp [wcChunks]
  constructor
  · intro hunchanged hfit
    refine ⟨fun hlarge => ?_, fun before c after hrest hlarge hc => ?_⟩
    · by_contra hc
      have hlt := hunchanged [] unit src rfl hlarge hc
      rw [hunit hc] at hlt
      omega
    obtain ⟨before', hsrc⟩ : ∃ before', src = before' ++ c :: after := by
      obtain hsame | ⟨lo, _, hpair⟩ := upcaseChunk_rest table unit src
      · exact ⟨before, hsame.symm.trans hrest⟩
      · exact ⟨lo :: before, by rw [hpair, hrest, cons_append]⟩
    obtain ⟨before'', hrest', hlength⟩ := length_output_behind h unit hsrc (hother hc)
    have hbefore : before'' = before := append_cancel_right (hrest'.symm.trans hrest)
    have hlt := hunchanged (unit :: before') c after (by rw [hsrc, cons_append]) hlarge hc
    rw [hlength, hbefore] at hlt
    omega
  · intro hturn before c after hsrc hlarge hc
    cases before with
    | nil =>
      have heq : unit = c := head_eq_of_cons_eq hsrc
      rw [← heq] at hlarge hc ⊢
      rw [hunit hc]
      by_contra hfit
      exact hc ((hturn (Nat.le_of_not_lt hfit)).1 hlarge)
    | cons unit' before =>
      have heq : unit = unit' := head_eq_of_cons_eq hsrc
      have htail : src = before ++ c :: after := tail_eq_of_cons_eq hsrc
      obtain ⟨before', hrest, hlength⟩ := length_output_behind h unit htail (hother hc)
      rw [← heq, hlength]
      by_cases hfit : (upcaseChunk table unit src).1.out.length ≤ room
      · have hlt := (hturn hfit).2 before' c after hrest hlarge hc
        omega
      · omega

lemma fitting_eq_iff (h : KeepsSurrogates table) (src : List UInt16) (room : Nat) :
    (fitting room (pieces (upcaseChunks table src))).flatten =
        (fitting room (pieces (wcChunks (src.map (casemap table))))).flatten ↔
      UnchangedWithin table room src := by
  induction src using (upcaseChunks.induct table) generalizing room with
  | case1 =>
    rw [upcaseChunks, map_nil, wcChunks]
    refine iff_of_true rfl fun before c after hsrc => ?_
    exact absurd hsrc.symm (by simp)
  | case2 unit src ih =>
    obtain ⟨hrest, halike, hsame⟩ := upcaseChunk_map h unit src
    rw [unchangedWithin_cons h, upcaseChunks, map_cons, wcChunks, hrest, pieces_cons, pieces_cons,
      fitting, fitting, ← halike.2, ← hsame, halike.eq_iff, ← ih]
    by_cases hfit : (upcaseChunk table unit src).1.out.length ≤ room
    · rw [if_pos hfit, if_pos hfit, flatten_cons, flatten_cons]
      refine ⟨fun heq _ => append_inj heq halike.2, fun heq => ?_⟩
      obtain ⟨hout, htail⟩ := heq hfit
      rw [htail, hout]
    · rw [if_neg hfit, if_neg hfit]
      exact iff_of_true rfl fun hle => absurd hle hfit

lemma upcaseUnicodeToUtf8_eq (h : KeepsSurrogates table) (dst : List UInt8) (src : List UInt16) :
    upcaseUnicodeToUtf8 table dst src =
      (put dst 0 (fitting dst.length (pieces (upcaseChunks table src))).flatten).map fun dst' =>
        ⟨if (output (upcaseChunks table src)).length ≤ dst.length then
            statusFrom (upcaseChunks table src) .success
          else .bufferTooSmall,
          (fitting dst.length (pieces (upcaseChunks table src))).flatten.length, dst'⟩ := by
  have hnil : upcaseChunks table [] = [] := by rw [upcaseChunks]
  have hturns : ∀ unit src, upcaseChunks table (unit :: src) =
      (upcaseChunk table unit src).1 :: upcaseChunks table (upcaseChunk table unit src).2 :=
    fun unit src => by rw [upcaseChunks]
  have hloop : ∀ (dst : List UInt8) pos status,
      upcaseLoop table dst pos [] status = some ⟨status, pos, dst⟩ :=
    fun dst pos status => by rw [upcaseLoop]
  rw [upcaseUnicodeToUtf8, encodeLoop_spec (length_upcaseChunk_le table) hnil hturns hloop
    (upcaseLoop_cons h) src.length src (Nat.le_refl _) (Nat.zero_le _)]
  simp only [Nat.sub_zero, Nat.zero_add]

/-- The encoder for upper case is the encoder of the mapped string exactly when no unit that has room
in the buffer is changed to one of three bytes. -/
theorem upcase_unicode_to_utf8 (h : KeepsSurrogates table) (dst : List UInt8) (src : List UInt16) :
    (upcaseUnicodeToUtf8 table dst src = utf8Wcstombs dst (src.map (casemap table)) ∧
        ∀ r, upcaseUnicodeToUtf8 table dst src = some r → Utf8WellFormed r.result) ↔
      UnchangedWithin table dst.length src := by
  have halike := upcaseChunks_alike h src
  rw [← fitting_eq_iff h]
  constructor
  · rintro ⟨heq, -⟩
    rw [upcaseUnicodeToUtf8_eq h, utf8Wcstombs_eq] at heq
    have hup : put dst 0 (fitting dst.length (pieces (upcaseChunks table src))).flatten = _ :=
      put_eq (by rw [Nat.zero_add]; exact length_fitting_le _ _)
    have hwc : put dst 0
        (fitting dst.length (pieces (wcChunks (src.map (casemap table))))).flatten = _ :=
      put_eq (by rw [Nat.zero_add]; exact length_fitting_le _ _)
    have hlength := Alike.length_fitting halike dst.length
    rw [hup, hwc, Option.map_some, Option.map_some, Option.some.injEq, Conversion.mk.injEq] at heq
    rw [← (put_zero hup).1, ← (put_zero hwc).1, heq.2.2, hlength]
  · intro hsame
    have heq : upcaseUnicodeToUtf8 table dst src = utf8Wcstombs dst (src.map (casemap table)) := by
      rw [upcaseUnicodeToUtf8_eq h, utf8Wcstombs_eq, hsame, Alike.statusFrom halike,
        Alike.length_output halike]
    refine ⟨heq, fun r hr => ?_⟩
    rw [heq] at hr
    exact utf8Wcstombs_wellFormed hr

/-- A table that maps U+0250 to U+2C6F and nothing else: one page, row and column of its own. -/
def turnedA : Nat → UInt16 := fun n =>
  if n < 0x100 then (if n = 0x02 then 0x110 else 0x100)
  else if n < 0x120 then (if n = 0x115 then 0x130 else 0x120)
  else if n = 0x130 then 0x2c6f - 0x0250 else 0

lemma turnedA_other {ch : UInt16} (h : ch ≠ 0x0250) : casemap turnedA ch = ch := by
  have hne : ch.toNat ≠ 0x0250 := fun heq => h (UInt16.toNat_inj.mp heq)
  have hlt := ch.toNat_lt
  have hpage : (ch >>> 8).toNat = ch.toNat / 256 := by
    exact Nat.shiftRight_eq_div_pow ch.toNat 8
  have hrow : ((ch >>> 4) &&& 0x0f).toNat = ch.toNat / 16 % 16 := by
    exact (Nat.and_two_pow_sub_one_eq_mod _ 4).trans
      (congrArg (· % 2 ^ 4) (Nat.shiftRight_eq_div_pow ch.toNat 4))
  have hcolumn : (ch &&& 0x0f).toNat = ch.toNat % 16 := by
    exact Nat.and_two_pow_sub_one_eq_mod ch.toNat 4
  have hfirst : (turnedA (ch.toNat / 256)).toNat = if ch.toNat / 256 = 2 then 0x110 else 0x100 := by
    rw [turnedA, if_pos (by omega)]
    split <;> rfl
  have hsecond : (turnedA ((turnedA (ch.toNat / 256)).toNat + ch.toNat / 16 % 16)).toNat =
      if ch.toNat / 16 = 0x25 then 0x130 else 0x120 := by
    rw [hfirst]
    split
    · rw [turnedA, if_neg (by omega), if_pos (by omega)]
      by_cases hsame : ch.toNat / 16 = 0x25
      · rw [if_pos (by omega), if_pos hsame]
        rfl
      · rw [if_neg (by omega), if_neg hsame]
        rfl
    · rw [turnedA, if_neg (by omega), if_pos (by omega), if_neg (by omega), if_neg (by omega)]
      rfl
  have hzero : casemap turnedA ch = ch + 0 := by
    rw [casemap, hpage, hrow, hcolumn, hsecond]
    congr 1
    split
    · rw [turnedA, if_neg (by omega), if_neg (by omega), if_neg (by omega)]
    · rw [turnedA, if_neg (by omega), if_neg (by omega), if_neg (by omega)]
  rw [hzero, UInt16.add_zero]

lemma turnedA_keepsSurrogates : KeepsSurrogates turnedA where
  surrogate := by
    intro ch hch
    refine turnedA_other fun heq => ?_
    rw [heq] at hch
    exact absurd hch (by decide)
  other := by
    intro ch hch
    by_cases heq : ch = 0x0250
    · rw [heq]
      decide
    · rwa [turnedA_other heq]

/-- The encoder at work on a letter that the table does not change. -/
theorem upcase_unicode_to_utf8_letter : KeepsSurrogates turnedA ∧
      ((upcaseUnicodeToUtf8 turnedA [0] [0x61] =
            utf8Wcstombs [0] (List.map (casemap turnedA) [0x61]) ∧
          ∀ r, upcaseUnicodeToUtf8 turnedA [0] [0x61] = some r → Utf8WellFormed r.result) ↔
        UnchangedWithin turnedA 1 [0x61]) :=
  ⟨turnedA_keepsSurrogates, upcase_unicode_to_utf8 turnedA_keepsSurrogates [0] [0x61]⟩

/-- U+0250 is written in three bytes that are not those of U+2C6F. -/
theorem upcase_overlong : ∃ table dst src, KeepsSurrogates table ∧
    upcaseUnicodeToUtf8 table dst src = some ⟨.success, 3, [0xe0, 0x89, 0x90]⟩ ∧
    utf8Wcstombs dst (src.map (casemap table)) = some ⟨.success, 3, [0xe2, 0xb1, 0xaf]⟩ := by
  refine ⟨turnedA, [0, 0, 0], [0x0250], turnedA_keepsSurrogates, ?_, ?_⟩
  · have hturn : upcaseChunk turnedA 0x0250 [] = (⟨[0xe0, 0x89, 0x90], true⟩, []) := by decide
    rw [upcaseUnicodeToUtf8, upcaseLoop_cons turnedA_keepsSurrogates, hturn]
    simp [put, upcaseLoop, Chunk.status]
  · have hletter : List.map (casemap turnedA) [0x0250] = [0x2c6f] := by decide
    have hturn : wcChunk 0x2c6f [] = (⟨[0xe2, 0xb1, 0xaf], true⟩, []) := by decide
    rw [utf8Wcstombs, hletter, wcstombsLoop_cons, hturn]
    simp [put, wcstombsLoop, Chunk.status]

end WineForge.Locale
