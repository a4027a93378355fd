import WineForge.Locale.RoundTrip

/-!
# The conversions agree

The conversions are inverse to each other on well-formed strings, and the sizes and the truncated
conversions agree with the full ones.
-/

namespace WineForge.Locale

open Library List

variable {α : Type}

def Conversion.result (r : Conversion α) : List α := r.dst.take r.reslen

def Whole (full : List α) (size : Status × Nat) (r : Conversion α) : Prop :=
  (r.status, r.reslen) = size ∧ r.result = full

def Truncated (full dst : List α) (r : Conversion α) : Prop :=
  r.status = .bufferTooSmall ∧ r.reslen ≤ dst.length ∧ r.dst.length = dst.length ∧
    r.dst.drop r.reslen = dst.drop r.reslen ∧ r.result <+: full

lemma map_put_spec {xs full dst : List α} {st : Status} {o : Option (Conversion α)}
    (h : o = (put dst 0 xs).map fun dst' => ⟨st, xs.length, dst'⟩) (hlength : xs.length ≤ dst.length)
    (hfront : xs <+: full) :
    ∃ r, o = some r ∧ r.status = st ∧ r.reslen = xs.length ∧ r.result = xs ∧
      r.reslen ≤ dst.length ∧ r.dst.length = dst.length ∧
      r.dst.drop r.reslen = dst.drop r.reslen ∧ r.result <+: full := by
  have hput : put dst 0 xs = _ := put_eq (by omega)
  obtain ⟨htake, hdrop⟩ := put_zero hput
  rw [hput, Option.map_some] at h
  refine ⟨_, h, rfl, rfl, htake, hlength, length_of_put hput, hdrop, ?_⟩
  unfold Conversion.result
  rw [htake]
  exact hfront

lemma utf8Wcstombs_spec (dst : List UInt8) (src : List UInt16) :
    ∃ r, utf8Wcstombs dst src = some r ∧
      r.result = (fitting dst.length (pieces (wcChunks src))).flatten ∧
      r.reslen = (fitting dst.length (pieces (wcChunks src))).flatten.length ∧
      r.status = (if (output (wcChunks src)).length ≤ dst.length then
        statusFrom (wcChunks src) .success else .bufferTooSmall) ∧
      r.reslen ≤ dst.length ∧ r.dst.length = dst.length ∧
      r.dst.drop r.reslen = dst.drop r.reslen ∧ r.result <+: output (wcChunks src) := by
  have hfront : (fitting dst.length (pieces (wcChunks src))).flatten <+: output (wcChunks src) := by
    obtain ⟨rest, hrest⟩ := fitting_front dst.length (pieces (wcChunks src))
    refine ⟨rest.flatten, ?_⟩
    rw [output, ← hrest, flatten_append, hrest]
  obtain ⟨r, hr, hstatus, hreslen, hresult, hrest⟩ :=
    map_put_spec (utf8Wcstombs_eq dst src) (length_fitting_le _ _) hfront
  exact ⟨r, hr, hresult, hreslen, hstatus, hrest⟩

lemma utf8Mbstowcs_spec (dst : List UInt16) (src : List UInt8) :
    ∃ r, utf8Mbstowcs dst src = some r ∧ r.result = (output (mbChunks src)).take dst.length ∧
      r.reslen = ((output (mbChunks src)).take dst.length).length ∧
      r.status = (if (output (mbChunks src)).length ≤ dst.length then
        statusFrom (mbChunks src) .success else .bufferTooSmall) ∧
      r.reslen ≤ dst.length ∧ r.dst.length = dst.length ∧
      r.dst.drop r.reslen = dst.drop r.reslen ∧ r.result <+: output (mbChunks src) := by
  obtain ⟨r, hr, hstatus, hreslen, hresult, hrest⟩ :=
    map_put_spec (utf8Mbstowcs_eq dst src) (length_take_le _ _) ( take_prefix _ _)
  exact ⟨r, hr, hresult, hreslen, hstatus, hrest⟩

variable {dst str : List UInt8} {src : List UInt16} {r : Conversion UInt8} {res : Nat}

lemma utf8Wcstombs_wellFormed (hr : utf8Wcstombs dst src = some r) : Utf8WellFormed r.result := by
  obtain ⟨r', hr', hresult, _⟩ := utf8Wcstombs_spec dst src
  rw [hr, Option.some.injEq] at hr'
  rw [hr', hresult]
  exact wellFormed_of_front (fitting_front _ _)

lemma utf8Wcstombs_whole (h : (output (wcChunks src)).length ≤ dst.length) :
    ∃ r, utf8Wcstombs dst src = some r ∧ r.status = statusFrom (wcChunks src) .success ∧
      r.reslen = (output (wcChunks src)).length ∧ r.result = output (wcChunks src) := by
  obtain ⟨r, hr, hresult, hreslen, hstatus, _⟩ := utf8Wcstombs_spec dst src
  rw [fitting_eq_self h] at hresult hreslen
  rw [if_pos h] at hstatus
  exact ⟨r, hr, hstatus, hreslen, hresult⟩

lemma utf8Mbstowcs_whole {dst : List UInt16} {src : List UInt8}
    (h : (output (mbChunks src)).length ≤ dst.length) :
    ∃ r, utf8Mbstowcs dst src = some r ∧ r.status = statusFrom (mbChunks src) .success ∧
      r.reslen = (output (mbChunks src)).length ∧ r.result = output (mbChunks src) := by
  obtain ⟨r, hr, hresult, hreslen, hstatus, _⟩ := utf8Mbstowcs_spec dst src
  rw [take_of_length_le h] at hresult hreslen
  rw [if_pos h] at hstatus
  exact ⟨r, hr, hstatus, hreslen, hresult⟩

lemma utf8Wcstombs_fits
    (hr : utf8Wcstombs dst src = some r) (hstatus : r.status ≠ .bufferTooSmall) :
    (output (wcChunks src)).length ≤ dst.length := by
  obtain ⟨r', hr', _, _, hstatus', _⟩ := utf8Wcstombs_spec dst src
  rw [hr, Option.some.injEq] at hr'
  by_contra hlong
  rw [if_neg hlong, ← hr'] at hstatus'
  exact hstatus hstatus'

lemma utf8Mbstowcs_fits {dst : List UInt16} {src : List UInt8} {r : Conversion UInt16}
    (hr : utf8Mbstowcs dst src = some r) (hstatus : r.status ≠ .bufferTooSmall) :
    (output (mbChunks src)).length ≤ dst.length := by
  obtain ⟨r', hr', _, _, hstatus', _⟩ := utf8Mbstowcs_spec dst src
  rw [hr, Option.some.injEq] at hr'
  by_contra hlong
  rw [if_neg hlong, ← hr'] at hstatus'
  exact hstatus hstatus'

lemma utf8Wcstombs_result
    (hr : utf8Wcstombs dst src = some r) (hstatus : r.status ≠ .bufferTooSmall) :
    r.result = output (wcChunks src) := by
  obtain ⟨r', hr', _, _, hresult⟩ := utf8Wcstombs_whole (utf8Wcstombs_fits hr hstatus)
  rw [hr, Option.some.injEq] at hr'
  rw [hr', hresult]

lemma utf8Mbstowcs_result {dst : List UInt16} {src : List UInt8} {r : Conversion UInt16}
    (hr : utf8Mbstowcs dst src = some r) (hstatus : r.status ≠ .bufferTooSmall) :
    r.result = output (mbChunks src) := by
  obtain ⟨r', hr', _, _, hresult⟩ := utf8Mbstowcs_whole (utf8Mbstowcs_fits hr hstatus)
  rw [hr, Option.some.injEq] at hr'
  rw [hr', hresult]

lemma decodeLast_shorter (h : (decodeLast res str).1 ≠ invalid) :
    (decodeLast res str).2.length < str.length := by
  cases str with
  | nil => exact absurd rfl h
  | cons b str =>
    unfold decodeLast at h ⊢
    dsimp only at h ⊢
    split at h
    · exact absurd rfl h
    · rename_i hch
      rw [if_neg hch]
      split <;> exact Nat.lt_succ_self _

lemma decodeSecond_shorter (h : (decodeSecond res str).1 ≠ invalid) :
    (decodeSecond res str).2.length < str.length := by
  cases str with
  | nil => exact absurd rfl h
  | cons b str =>
    have hlast := length_decodeLast_le ((res <<< 6) ||| (b ^^^ 0x80).toNat) str
    unfold decodeSecond at h ⊢
    dsimp only at h ⊢
    split at h
    · exact absurd rfl h
    rename_i hch
    split at h
    · exact absurd rfl h
    rename_i hhigh
    rw [if_neg hch, if_neg hhigh]
    split
    · exact Nat.lt_succ_self _
    · split
      · exact Nat.lt_succ_self _
      · exact Nat.lt_succ_of_le hlast

lemma decodeThird_shorter (h : (decodeThird res str).1 ≠ invalid) :
    (decodeThird res str).2.length < str.length := by
  cases str with
  | nil => exact absurd rfl h
  | cons b str =>
    have hsecond := length_decodeSecond_le ((res <<< 6) ||| (b ^^^ 0x80).toNat) str
    unfold decodeThird at h ⊢
    dsimp only at h ⊢
    split at h
    · exact absurd rfl h
    rename_i hch
    rw [if_neg hch]
    split
    · exact Nat.lt_succ_self _
    · exact Nat.lt_succ_of_le hsecond

lemma decodeUtf8Char_shorter {ch : UInt8}
    (h : (decodeUtf8Char ch str).1 ≠ invalid) : (decodeUtf8Char ch str).2.length < str.length := by
  unfold decodeUtf8Char at h ⊢
  dsimp only at h ⊢
  split at h
  · exact absurd rfl h
  rename_i hlen
  rw [if_neg hlen]
  split at h
  · exact decodeThird_shorter h
  · exact decodeSecond_shorter h
  · exact decodeLast_shorter h
  · exact absurd rfl h

lemma length_mbChunk_out_le (ch : UInt8) (src : List UInt8) :
    (mbChunk ch src).1.out.length + (mbChunk ch src).2.length ≤ src.length + 1 := by
  have hle := length_mbChunk_le ch src
  by_cases hch : ch < 0x80
  · rw [mbChunk_ascii src hch, length_singleton]
    dsimp only
    omega
  by_cases hsmall : (decodeUtf8Char ch src).1 ≤ 0xffff
  · rw [mbChunk_small hch hsmall] at hle ⊢
    rw [length_singleton]
    omega
  by_cases hres : (decodeUtf8Char ch src).1 ≤ 0x10ffff
  · have hvalid : (decodeUtf8Char ch src).1 ≠ invalid := by
      unfold invalid
      omega
    have hlt := decodeUtf8Char_shorter hvalid
    rw [mbChunk_large hch hsmall hres]
    dsimp only [length_cons, length_nil]
    omega
  · rw [mbChunk_invalid hch hres] at hle ⊢
    rw [length_singleton]
    omega

lemma length_output_mbChunks_le (src : List UInt8) :
    (output (mbChunks src)).length ≤ src.length := by
  induction src using mbChunks.induct with
  | case1 =>
    rw [mbChunks]
    exact le_refl 0
  | case2 ch src ih =>
    have hout := length_mbChunk_out_le ch src
    rw [mbChunks, output_cons, length_append, length_cons]
    omega

/-- The two conversions of a well-formed string lead back to it. Where the full conversion is
shorter than 2^32, the size functions describe it, and every converter writes it or, into a shorter
buffer, a part of it. -/
theorem utf8_conversions : (∀ src, Utf16WellFormed src → ∀ dst r, utf8Wcstombs dst src = some r →
      r.status ≠ .bufferTooSmall → ∀ dst' r', utf8Mbstowcs dst' r.result = some r' →
      r'.status ≠ .bufferTooSmall → r'.result = src) ∧
    (∀ src, Utf8WellFormed src → ∀ dst r, utf8Mbstowcs dst src = some r →
      r.status ≠ .bufferTooSmall → ∀ dst' r', utf8Wcstombs dst' r.result = some r' →
      r'.status ≠ .bufferTooSmall → r'.result = src) ∧
    (∀ src, (output (wcChunks src)).length < 2 ^ 32 → ∀ dst,
      ((utf8WcstombsSize src).2 ≤ dst.length → ∃ r, utf8Wcstombs dst src = some r ∧
        Whole (output (wcChunks src)) (utf8WcstombsSize src) r) ∧
      (dst.length < (utf8WcstombsSize src).2 → ∃ r, utf8Wcstombs dst src = some r ∧
        Truncated (output (wcChunks src)) dst r)) ∧
    (∀ src : List UInt8, src.length < 2 ^ 32 → ∀ dst,
      ((utf8MbstowcsSize src).2 ≤ dst.length → ∃ r, utf8Mbstowcs dst src = some r ∧
        Whole (output (mbChunks src)) (utf8MbstowcsSize src) r) ∧
      (dst.length < (utf8MbstowcsSize src).2 → ∃ r, utf8Mbstowcs dst src = some r ∧
        Truncated (output (mbChunks src)) dst r)) ∧
    (∀ dst src r, utf8Wcstombs dst src = some r → Utf8WellFormed r.result) := by
  refine ⟨fun src hsrc dst r hr hstatus dst' r' hr' hstatus' => ?_,
    fun src hsrc dst r hr hstatus dst' r' hr' hstatus' => ?_,
    fun src hsrc dst => ⟨fun hlong => ?_, fun hshort => ?_⟩,
    fun src hsrc dst => ⟨fun hlong => ?_, fun hshort => ?_⟩, fun dst src r hr => ?_⟩
  · rw [utf8Mbstowcs_result hr' hstatus', utf8Wcstombs_result hr hstatus]
    exact output_roundTrip_utf16 hsrc
  · rw [utf8Wcstombs_result hr' hstatus', utf8Mbstowcs_result hr hstatus]
    exact output_roundTrip_utf8 hsrc
  · rw [utf8WcstombsSize_eq, Nat.mod_eq_of_lt hsrc] at hlong ⊢
    obtain ⟨r, hr, hstatus, hreslen, hresult⟩ := utf8Wcstombs_whole hlong
    exact ⟨r, hr, by rw [hstatus, hreslen], hresult⟩
  · rw [utf8WcstombsSize_eq, Nat.mod_eq_of_lt hsrc] at hshort
    obtain ⟨r, hr, _, _, hstatus, hrest⟩ := utf8Wcstombs_spec dst src
    rw [if_neg (Nat.not_le.mpr hshort)] at hstatus
    exact ⟨r, hr, hstatus, hrest⟩
  · have hlt := (length_output_mbChunks_le src).trans_lt hsrc
    rw [utf8MbstowcsSize_eq, Nat.mod_eq_of_lt hlt] at hlong ⊢
    obtain ⟨r, hr, hstatus, hreslen, hresult⟩ := utf8Mbstowcs_whole hlong
    exact ⟨r, hr, by rw [hstatus, hreslen], hresult⟩
  · have hlt := (length_output_mbChunks_le src).trans_lt hsrc
    rw [utf8MbstowcsSize_eq, Nat.mod_eq_of_lt hlt] at hshort
    obtain ⟨r, hr, _, _, hstatus, hrest⟩ := utf8Mbstowcs_spec dst src
    rw [if_neg (Nat.not_le.mpr hshort)] at hstatus
    exact ⟨r, hr, hstatus, hrest⟩
  · exact utf8Wcstombs_wellFormed hr

lemma length_output_replicate (n : Nat) :
    (output (wcChunks (List.replicate n 0x800))).length = 3 * n := by
  have hchar : utf16EncodeChar (Char.ofNat 0x800) = [0x800] := by decide
  have hbytes : (String.utf8EncodeChar (Char.ofNat 0x800)).length = 3 := by decide
  induction n with
  | zero =>
    rw [replicate_zero, wcChunks]
    rfl
  | succ n ih =>
    have hcons : List.replicate (n + 1) 0x800 =
        utf16EncodeChar (Char.ofNat 0x800) ++ List.replicate n 0x800 := by
      exact replicate_succ
    rw [hcons, wcChunks_char, output_cons, length_append, ih, hbytes]
    omega

/-- The size of 4294967298 bytes is 2, and a buffer of 2 bytes is too small. -/
theorem utf8_size_wraps : ∃ (src : List UInt16) (dst : List UInt8) (r : Conversion UInt8),
    src.length < 2 ^ 31 ∧ (utf8WcstombsSize src).2 ≤ dst.length ∧ utf8Wcstombs dst src = some r ∧
      (r.status, r.reslen) ≠ utf8WcstombsSize src := by
  have hlength := length_output_replicate 1431655766
  have hfull : 3 * 1431655766 = 4294967298 := by omega
  have hshort : ¬ (output (wcChunks (List.replicate 1431655766 0x800))).length ≤
      ([0, 0] : List UInt8).length := by
    rw [hlength]
    decide
  obtain ⟨r, hr, _, _, hstatus, _⟩ := utf8Wcstombs_spec [0, 0] (List.replicate 1431655766 0x800)
  rw [if_neg hshort] at hstatus
  refine ⟨List.replicate 1431655766 0x800, [0, 0], r, ?_, ?_, hr, fun heq => ?_⟩
  · rw [length_replicate]
    omega
  · rw [utf8WcstombsSize_eq, hlength]
    decide
  · rw [utf8WcstombsSize_eq] at heq
    have hne : statusFrom (wcChunks (List.replicate 1431655766 0x800)) .success ≠ .bufferTooSmall :=
      statusFrom_ne _ (by decide)
    rw [← (Prod.mk.inj heq).1] at hne
    exact hne hstatus

end WineForge.Locale
