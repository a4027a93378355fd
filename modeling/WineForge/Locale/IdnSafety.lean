import WineForge.Locale.IdnToUnicode

/-!
# Safety of `RtlIdnToUnicode`

The numbers of the decoding loop are those of an unbounded decoder as long as they are below the
limit of an `int`. So the function is safe exactly where the decoder stays below it.
-/

namespace WineForge.Locale

open Library Library.Bootstring List

/-- The number of code points that the label buffer has room for, without the last one. -/
def bufferRoom : ℕ := 63

def lastCodePoint : ℕ := 0x10ffff

/-- The digits of a label, behind `count` literals, keep all numbers in range. -/
def DigitsSafe (count : ℕ) (ds : List (Option ℕ)) : Prop :=
  (⟨0x80, 72, 0, count⟩ : Decoder).Safe punycode bufferRoom intLimit lastCodePoint ds

/-- A label is safe: it is not the null character alone, where the flags ask for a look at its ends,
and its digits keep all numbers in range. -/
def LabelSafe (flags : UInt32) (src : List UInt16) (start : ℕ) : Prop :=
  ∀ stop ch delim, scanLabel flags src.length (src.drop start) start 0 0 = some (stop, ch, delim) →
    ¬ (start = stop ∧ ch ≠ 0) →
    if hasAcePrefix src start stop then
      DigitsSafe (literals src start delim).length ((labelDigits src start stop delim).map digitOf)
    else ¬ (idnUseStd3AsciiRules flags = true ∧ stop = 0)

/-- The labels that the loop comes to. -/
inductive Labels (info : NormTable) (flags : UInt32) (src : List UInt16) (dstlen : ℤ) :
    ℕ → IdnOutput → ℕ → IdnOutput → Prop
  | refl (start : ℕ) (o : IdnOutput) : Labels info flags src dstlen start o start o
  | step {start start' last : ℕ} {o o' o'' : IdnOutput} : start < src.length →
      idnLabel info flags src dstlen start o = .ok (.next start' o') →
      Labels info flags src dstlen start' o' last o'' → Labels info flags src dstlen start o last o''

def IdnSafe (table : Except ℕ NormTable) (flags : UInt32) (src : Option (List UInt16))
    (srclen dstlen : ℤ) : Prop :=
  ∀ info units, src = some units → -1 ≤ srclen → table = .ok info →
    ∀ start o, Labels info flags (sourceUnits units srclen) dstlen 0 ⟨0, []⟩ start o →
      start < (sourceUnits units srclen).length → LabelSafe flags (sourceUnits units srclen) start

/-- The position and the largest weight behind the digits of an integer are those of an `int`. -/
def IntegerFits (bias k w pos : ℕ) (digits : List ℕ) (complete : Bool) : Prop :=
  pos + w * punycode.value bias k digits < intLimit ∧
    w * punycode.weight bias k (digits.length - if complete then 1 else 0) < intLimit

/-- The loop over the digits of an integer has the value of the digits that it reads. -/
structure ReadsInteger (bias k w pos : ℕ) (digits : List ℕ) (o : Option (List (Option ℕ)))
    (o' : Option (ℕ × List UInt16)) : Prop where
  rest : o = o'.map fun r => r.2.map digitOf
  value : ∀ r, o' = some r → r.1 = pos + w * punycode.value bias k digits

lemma value_cons (bias k w pos d : ℕ) (digits : List ℕ) :
    pos + w * punycode.value bias k (d :: digits) =
      pos + d * w + w * punycode.factor bias k * punycode.value bias (k + 36) digits := by
  rw [value, Nat.mul_add, Nat.mul_comm w d, Nat.mul_assoc, Nat.add_assoc]
  rfl

lemma factor_eq (bias k : ℕ) : 36 - punycode.threshold bias k = punycode.factor bias k := rfl

variable {bias k w pos next : ℕ} {digits : List ℕ} {s : DecodeState} {d : Decoder} {ch : UInt16}
  {ds : List UInt16} {o' : IdnOutput}

lemma integerFits_cons {d : ℕ} {complete : Bool} (hne : complete = true → digits ≠ []) :
    IntegerFits bias k w pos (d :: digits) complete ↔
      pos + d * w < intLimit ∧ w * punycode.factor bias k < intLimit ∧
        IntegerFits bias (k + 36) (w * punycode.factor bias k) (pos + d * w) digits complete := by
  have hcount : ((d :: digits).length - if complete then 1 else 0) =
      (digits.length - if complete then 1 else 0) + 1 := by
    cases complete with
    | false => rfl
    | true =>
      have hpos := length_pos_of_ne_nil (hne rfl)
      simp only [length_cons, if_true]
      omega
  have hweight : w * punycode.weight bias k ((d :: digits).length - if complete then 1 else 0) =
      w * punycode.factor bias k *
        punycode.weight bias (k + 36) (digits.length - if complete then 1 else 0) := by
    rw [hcount, weight, mul_assoc]
    rfl
  have hle : w * punycode.factor bias k ≤ w * punycode.factor bias k *
      punycode.weight bias (k + 36) (digits.length - if complete then 1 else 0) :=
    Nat.le_mul_of_pos_right _ (weight_pos _ _ _)
  unfold IntegerFits
  rw [value_cons, hweight]
  constructor
  · rintro ⟨hpos, hw⟩
    exact ⟨Nat.lt_of_le_of_lt (Nat.le_add_right _ _) hpos, Nat.lt_of_le_of_lt hle hw, hpos, hw⟩
  · exact fun h => h.2.2

lemma integerFits_nil (hw : w < intLimit) (hpos : pos < intLimit) :
    IntegerFits bias k w pos [] false := by
  have hweight : punycode.weight bias k (([] : List ℕ).length - if false then 1 else 0) = 1 := rfl
  rw [IntegerFits, hweight, mul_one]
  exact ⟨hpos, hw⟩

lemma integerFits_last {d : ℕ} (hw : w < intLimit) :
    IntegerFits bias k w pos [d] true ↔ pos + d * w < intLimit := by
  have hvalue : punycode.value bias k [d] = d := by
    rw [value, value, Nat.mul_zero, Nat.add_zero]
  have hweight : punycode.weight bias k ([d].length - if true then 1 else 0) = 1 := rfl
  rw [IntegerFits, hvalue, hweight, mul_one, mul_comm w d]
  exact and_iff_left hw

lemma decodeInteger_spec (bias : ℕ) (ds : List UInt16) (hw : w < intLimit)
    (hpos : pos < intLimit) {o : Option (List (Option ℕ))}
    (hread : punycode.readInteger bias k (ds.map digitOf) = (digits, o)) :
    (IntegerFits bias k w pos digits o.isSome →
      ∃ o', decodeInteger bias ds k w pos = .ok o' ∧ ReadsInteger bias k w pos digits o o') ∧
    (¬ IntegerFits bias k w pos digits o.isSome →
      decodeInteger bias ds k w pos = .error .overflow) := by
  induction ds generalizing k w pos digits o with
  | nil =>
    cases hread
    exact ⟨fun _ => ⟨none, rfl, rfl, nofun⟩, fun h => absurd (integerFits_nil hw hpos) h⟩
  | cons ch ds ih =>
    rw [map_cons] at hread
    cases hdigit : digitOf ch with
    | none =>
      rw [hdigit] at hread
      cases hread
      rw [decodeInteger, hdigit]
      exact ⟨fun _ => ⟨none, rfl, rfl, nofun⟩, fun h => absurd (integerFits_nil hw hpos) h⟩
    | some d =>
      rw [hdigit, readInteger] at hread
      rw [decodeInteger, hdigit]
      dsimp only
      rw [checked_bind]
      split at hread
      · rename_i hlast
        cases hread
        rw [if_pos hlast, Option.isSome_some, integerFits_last hw]
        refine ⟨fun hfits => ⟨some (pos + d * w, ds), if_pos hfits, rfl, ?_⟩,
          fun hover => if_neg hover⟩
        rintro r ⟨⟩
        rw [value, value, Nat.mul_zero, Nat.add_zero, Nat.mul_comm w d]
      rename_i hlast
      obtain ⟨hdigits, hrest⟩ := Prod.mk.inj hread
      have hne : o.isSome = true →
          (punycode.readInteger bias (k + punycode.base) (ds.map digitOf)).1 ≠ [] := by
        intro hcomplete
        obtain ⟨rest, rfl⟩ := Option.isSome_iff_exists.mp hcomplete
        exact readInteger_ne_nil (Prod.ext rfl hrest)
      rw [← hdigits, if_neg hlast, checked_bind, factor_eq, integerFits_cons hne]
      by_cases hpos' : pos + d * w < intLimit
      · rw [if_pos hpos', and_iff_right hpos']
        by_cases hw' : w * punycode.factor bias k < intLimit
        · rw [if_pos hw', and_iff_right hw']
          have hread' : punycode.readInteger bias (k + 36) (ds.map digitOf) = (_, o) :=
            Prod.ext rfl hrest
          obtain ⟨hfits, hover⟩ := ih hw' hpos' hread'
          refine ⟨fun h => ?_, hover⟩
          obtain ⟨o', ho', hreads⟩ := hfits h
          exact ⟨o', ho', hreads.rest, fun r hr => (hreads.value r hr).trans
            (value_cons bias k w pos d _).symm⟩
        · rw [if_neg hw']
          exact ⟨fun h => absurd h.1 hw', fun _ => rfl⟩
      · rw [if_neg hpos']
        exact ⟨fun h => absurd h.1 hpos', fun _ => rfl⟩

/-- The loop and the decoder stand at the same place. -/
structure SamePlace (s : DecodeState) (d : Decoder) : Prop where
  n : s.n = d.n
  bias : s.bias = d.bias
  pos : s.pos = d.pos
  count : s.buffer.length = d.count

/-- No entry of the buffer is behind the last code point, which is in the buffer if it matters. -/
structure Ascending (s : DecodeState) : Prop where
  le : ∀ ch ∈ s.buffer, ch ≤ s.n
  last : s.n ∈ s.buffer ∨ s.n ≤ lastCodePoint

lemma insertCodePoint_spec (h : SamePlace s d) (htarget : d.target punycode digits < intLimit) :
    insertCodePoint s (d.target punycode digits) =
      if d.codePoint punycode digits < intLimit then
        if d.count < bufferRoom then
          .ok (some ⟨d.codePoint punycode digits, (d.insert punycode digits).bias,
            (d.insert punycode digits).pos,
            s.buffer.insertIdx (d.target punycode digits % (d.count + 1))
              (d.codePoint punycode digits)⟩)
        else .ok none
      else .error .overflow := by
  have hscale : 2 ≤ if d.pos = 0 then 700 else 2 := by
    split
    · decide
    · exact le_refl 2
  have hbias : ∀ delta, delta = (d.target punycode digits - d.pos) / (if d.pos = 0 then 700 else 2) →
      (punycode.adaptLoop (delta + delta / (d.count + 1)) 0).2 +
        36 * (punycode.adaptLoop (delta + delta / (d.count + 1)) 0).1 /
          ((punycode.adaptLoop (delta + delta / (d.count + 1)) 0).1 + 38) =
        (d.insert punycode digits).bias := by
    rintro delta rfl
    by_cases hfirst : d.pos = 0
    · rw [if_pos hfirst, Decoder.insert, adapt, hfirst]
      rfl
    · have hbeq : (d.pos == 0) = false := beq_false_of_ne hfirst
      rw [if_neg hfirst, Decoder.insert, adapt, hbeq]
      rfl
  generalize hdelta : (d.target punycode digits - d.pos) / (if d.pos = 0 then 700 else 2) = delta
    at hbias
  have hhalf : delta ≤ (d.target punycode digits - d.pos) / 2 :=
    hdelta ▸ Nat.div_le_div_left hscale Nat.two_pos
  have hpart : delta / (d.count + 1) ≤ delta := Nat.div_le_self _ _
  have hwrapped : d.target punycode digits % (d.count + 1) ≤ d.count :=
    Nat.le_of_lt_succ (Nat.mod_lt _ (Nat.succ_pos _))
  unfold insertCodePoint
  rw [h.n, h.pos, h.count, hdelta]
  rw [checked_bind, if_pos (by omega), checked_bind, if_pos (by omega), checked_bind]
  unfold Decoder.codePoint bufferRoom
  split
  · by_cases hroom : d.count < 63
    · rw [if_neg (by omega), if_neg (by omega), if_pos hroom, hbias delta rfl]
      rfl
    · rw [if_pos (by omega), if_neg hroom]
  · rfl

/-- The decoding of a label goes wrong, or its buffer has a code point that the table has not. -/
def Faulty : Except IdnFault (Option (List ℕ)) → Prop
  | .error _ => True
  | .ok none => False
  | .ok (some buffer) => ¬ buffer.all validCodePoint = true

lemma Ascending.valid_iff (h : Ascending s) :
    s.buffer.all validCodePoint = true ↔ s.n ≤ lastCodePoint := by
  rw [all_eq_true]
  constructor
  · intro hall
    obtain hmem | hle := h.last
    · exact of_decide_eq_true (hall s.n hmem)
    · exact hle
  · exact fun hle ch hch => decide_eq_true ((h.le ch hch).trans hle)

lemma Ascending.insert {n : ℕ} (h : Ascending s) (hn : s.n ≤ n) (bias pos i : ℕ)
    (hi : i ≤ s.buffer.length) : Ascending ⟨n, bias, pos, s.buffer.insertIdx i n⟩ := by
  constructor
  · intro ch hch
    obtain rfl | hch := eq_or_mem_of_mem_insertIdx hch
    · exact le_refl _
    · exact (h.le ch hch).trans hn
  · exact .inl (mem_insertIdx hi |>.mpr (.inl rfl))

lemma integerFits_iff (d : Decoder) (digits : List ℕ) (complete : Bool) :
    IntegerFits d.bias 36 1 d.pos digits complete ↔ d.target punycode digits < intLimit ∧
      punycode.weight d.bias punycode.base (digits.length - if complete then 1 else 0) <
        intLimit := by
  rw [IntegerFits, one_mul, one_mul]
  rfl

lemma fits_iff {ds : List (Option ℕ)}
    {o : Option (List (Option ℕ))}
    (hread : punycode.readInteger d.bias punycode.base ds = (digits, o)) :
    d.Fits punycode intLimit ds ↔ IntegerFits d.bias 36 1 d.pos digits o.isSome ∧
      (o.isSome = true → d.codePoint punycode digits < intLimit) := by
  rw [integerFits_iff]
  constructor
  · rintro ⟨htarget, hweight, hcodePoint⟩
    rw [hread] at htarget hweight hcodePoint
    exact ⟨⟨htarget, hweight⟩, hcodePoint⟩
  · rintro ⟨⟨htarget, hweight⟩, hcodePoint⟩
    constructor
    · rw [hread]
      exact htarget
    · rw [hread]
      exact hweight
    · rw [hread]
      exact hcodePoint

lemma decodeLoop_error {fault : IdnFault}
    (h : decodeInteger s.bias (ch :: ds) 36 1 s.pos = .error fault) :
    decodeLoop (ch :: ds) s = .error fault := by
  rw [decodeLoop]
  split
  · rename_i hresult
    rw [h] at hresult
    cases hresult
    rfl
  · rename_i hresult
    rw [h] at hresult
    cases hresult
  · rename_i hresult
    rw [h] at hresult
    cases hresult

lemma decodeLoop_none (h : decodeInteger s.bias (ch :: ds) 36 1 s.pos = .ok none) :
    decodeLoop (ch :: ds) s = .ok none := by
  rw [decodeLoop]
  split
  · rename_i hresult
    rw [h] at hresult
    cases hresult
  · rfl
  · rename_i hresult
    rw [h] at hresult
    cases hresult

lemma decodeLoop_some {rest : List UInt16}
    (h : decodeInteger s.bias (ch :: ds) 36 1 s.pos = .ok (some (pos, rest))) :
    decodeLoop (ch :: ds) s =
      match insertCodePoint s pos with
      | .error fault => .error fault
      | .ok none => .ok none
      | .ok (some s') => decodeLoop rest s' := by
  rw [decodeLoop]
  split
  · rename_i hresult
    rw [h] at hresult
    cases hresult
  · rename_i hresult
    rw [h] at hresult
    cases hresult
  rename_i hresult
  rw [h] at hresult
  cases hresult
  rfl

lemma decodeLoop_faulty (ds : List UInt16) (h : SamePlace s d)
    (hascending : Ascending s) (hpos : d.pos ≤ d.count) (hcount : d.count ≤ 64) :
    Faulty (decodeLoop ds s) ↔
      ¬ d.Safe punycode bufferRoom intLimit lastCodePoint (ds.map digitOf) := by
  induction hlength : ds.length using Nat.strong_induction_on generalizing ds s d with
  | _ length ih =>
    cases ds with
    | nil =>
      rw [decodeLoop, map_nil, Decoder.safe_nil, ← h.n, ← hascending.valid_iff]
      rfl
    | cons ch ds =>
      have hlimit : (64 : ℕ) < intLimit := by decide
      generalize hread : punycode.readInteger d.bias punycode.base ((ch :: ds).map digitOf) = r
      obtain ⟨digits, o⟩ := r
      rw [Decoder.safe_iff (by simp), fits_iff hread]
      have hone : 1 < intLimit := by decide
      have hpos' : d.pos < intLimit := by omega
      obtain ⟨hfits, hover⟩ := decodeInteger_spec d.bias (ch :: ds) hone hpos' hread
      rw [← h.bias, ← h.pos] at hfits hover
      by_cases hinteger : IntegerFits s.bias 36 1 s.pos digits o.isSome
      · obtain ⟨o', hdecode, hreads⟩ := hfits hinteger
        rw [h.bias, h.pos] at hinteger
        rw [and_iff_right hinteger]
        cases o' with
        | none =>
          have hnone : o = none := hreads.rest
          rw [decodeLoop_none hdecode, hnone]
          refine iff_of_false id (not_not.mpr ⟨(by rintro ⟨⟩), fun digits' rest _ hread' => ?_⟩)
          rw [hread, hnone] at hread'
          cases hread'
        | some r =>
          obtain ⟨pos, rest⟩ := r
          have hsome : o = some (rest.map digitOf) := hreads.rest
          have htarget : pos = d.target punycode digits := by
            have hvalue : pos = _ := hreads.value _ rfl
            rw [hvalue, h.pos, h.bias, one_mul]
            rfl
          rw [decodeLoop_some hdecode, htarget,
            insertCodePoint_spec h ((integerFits_iff d digits _).mp hinteger).1]
          have hwrapped : d.target punycode digits % (d.count + 1) ≤ d.count :=
            Nat.le_of_lt_succ (Nat.mod_lt _ (Nat.succ_pos _))
          have hnext : (∀ digits' rest', d.count < bufferRoom →
              punycode.readInteger d.bias punycode.base ((ch :: ds).map digitOf) =
                (digits', some rest') →
              (d.insert punycode digits').Safe punycode bufferRoom intLimit lastCodePoint rest') ↔
              (d.count < bufferRoom → (d.insert punycode digits).Safe punycode bufferRoom intLimit
                lastCodePoint (rest.map digitOf)) := by
            rw [hread, hsome]
            constructor
            · exact fun hall hroom => hall digits _ hroom rfl
            · rintro hone digits' rest' hroom ⟨⟩
              exact hone hroom
          rw [hnext, hsome, Option.isSome_some]
          by_cases hcodePoint : d.codePoint punycode digits < intLimit
          · rw [if_pos hcodePoint]
            by_cases hroom : d.count < bufferRoom
            · have hlt := decodeInteger_shorter hdecode
              have hn : s.n ≤ d.codePoint punycode digits := h.n ▸ Nat.le_add_right _ _
              have hroom' : d.count < 63 := hroom
              have hsame : SamePlace ⟨d.codePoint punycode digits,
                  (d.insert punycode digits).bias, (d.insert punycode digits).pos,
                  s.buffer.insertIdx (d.target punycode digits % (d.count + 1))
                    (d.codePoint punycode digits)⟩ (d.insert punycode digits) := by
                refine ⟨rfl, rfl, rfl, ?_⟩
                rw [length_insertIdx_of_le_length (h.count ▸ hwrapped), h.count]
                rfl
              have hcount' : (d.insert punycode digits).count ≤ 64 := le_of_lt
                (Nat.succ_lt_succ hroom')
              rw [if_pos hroom, ih rest.length (hlength ▸ hlt) rest hsame
                (hascending.insert hn _ _ _ (h.count ▸ hwrapped)) (Nat.succ_le_succ hwrapped)
                hcount' rfl]
              refine not_congr ⟨fun hsafe => ⟨fun _ => hcodePoint, fun _ => hsafe⟩,
                fun hsafe => hsafe.2 hroom⟩
            · rw [if_neg hroom]
              exact iff_of_false id (not_not.mpr ⟨fun _ => hcodePoint, fun h => absurd h hroom⟩)
          · rw [if_neg hcodePoint]
            exact iff_of_true trivial fun hsafe => hcodePoint (hsafe.1 rfl)
      · rw [decodeLoop_error (hover hinteger)]
        rw [h.bias, h.pos] at hinteger
        exact iff_of_true trivial fun hsafe => hinteger hsafe.1.1

/-- What the loop that finds the end of a label tells about it. -/
structure Scanned (rest : List UInt16) (i stop : ℕ) (ch : UInt16) (delim : ℕ) : Prop where
  le : i ≤ stop
  inside : stop ≤ i + rest.length
  ascii : ∀ c ∈ rest.take (stop - i), c ≤ 0x7f
  first : stop = i → rest ≠ [] → rest.head? = some ch
  delim : delim ≤ stop

lemma scanLabel_spec {flags : UInt32} {srclen : ℕ} {rest : List UInt16} {i delim₀ : ℕ}
    {ch₀ : UInt16} {stop : ℕ} {delim : ℕ} (hdelim : delim₀ ≤ i)
    (h : scanLabel flags srclen rest i ch₀ delim₀ = some (stop, ch, delim)) :
    Scanned rest i stop ch delim := by
  induction rest generalizing i ch₀ delim₀ with
  | nil =>
    cases h
    exact ⟨le_refl _, le_refl _, by simp, fun _ h => absurd rfl h, hdelim⟩
  | cons c rest ih =>
    have hnext : ∀ delim₁, delim₁ ≤ i + 1 → ¬ c > 0x7f →
        scanLabel flags srclen rest (i + 1) c delim₁ = some (stop, ch, delim) →
        Scanned (c :: rest) i stop ch delim := by
      intro delim₁ hdelim₁ hascii hscan
      have hscanned := ih hdelim₁ hscan
      have hle := hscanned.le
      have hstop := hscanned.inside
      have hcount : stop - i = (stop - (i + 1)) + 1 := by omega
      refine ⟨by omega, by rw [length_cons]; omega, fun d hd => ?_,
        fun heq => absurd heq (by omega), hscanned.delim⟩
      rw [hcount, take_succ_cons] at hd
      obtain rfl | hd := mem_cons.mp hd
      · exact UInt16.not_lt.mp hascii
      · exact hscanned.ascii d hd
    rw [scanLabel] at h
    split at h
    · nomatch h
    rename_i hvalid
    have hascii : ¬ c > 0x7f := fun h => hvalid (.inl h)
    split at h
    · cases h
      refine ⟨Nat.le_refl _, Nat.le_add_right _ _, by simp, fun _ _ => rfl, hdelim⟩
    have hdelim₁ : (if c = 0x2d then i else delim₀) ≤ i + 1 := by
      split
      · exact Nat.le_succ i
      · exact Nat.le_succ_of_le hdelim
    dsimp only at h
    split at h
    · exact hnext _ hdelim₁ hascii h
    · split at h
      · exact hnext _ hdelim₁ hascii h
      · nomatch h

lemma readSource_ok {src : List UInt16} {i : ℕ} (h : i < src.length) :
    readSource src i = .ok (src.get ⟨i, h⟩) := by
  rw [readSource, if_pos (Int.natCast_nonneg i), Int.toNat_natCast, getElem?_eq_getElem h]
  rfl

variable {flags : UInt32} {src : List UInt16} {start stop delim : ℕ} {ch : UInt16}

lemma hyphenAtEnd_error (hstart : start < src.length)
    (h : Scanned (src.drop start) start stop ch delim) (hkept : ¬ (start = stop ∧ ch ≠ 0)) :
    (∃ fault, hyphenAtEnd flags src start stop = .error fault) ↔
      idnUseStd3AsciiRules flags = true ∧ stop = 0 := by
  unfold hyphenAtEnd
  split
  · rename_i hrules
    rw [and_iff_right hrules, readSource_ok hstart]
    have hbind : ∀ f : UInt16 → Except IdnFault Bool,
        ((Except.ok (src.get ⟨start, hstart⟩) : Except IdnFault UInt16) >>= f) =
          f (src.get ⟨start, hstart⟩) := fun _ => rfl
    have hle := h.le
    have hinside := h.inside
    rw [length_drop] at hinside
    rw [hbind]
    by_cases hzero : stop = 0
    · have hempty : start = stop := by omega
      have hnull : ch = 0 := by
        by_contra hne
        exact hkept ⟨hempty, hne⟩
      have hfirst : src.get ⟨start, hstart⟩ = 0 := by
        have hhead := h.first hempty.symm (ne_nil_of_length_pos (by
          rw [length_drop]
          omega))
        rw [head?_drop, getElem?_eq_getElem hstart, hnull] at hhead
        exact Option.some.inj hhead
      rw [hfirst, if_neg (by decide), hzero]
      exact iff_of_true ⟨.read, rfl⟩ rfl
    · have hlast : (stop : ℤ) - 1 = ((stop - 1 : ℕ) : ℤ) := by omega
      refine iff_of_false ?_ hzero
      split
      · exact nofun
      · rw [hlast, readSource_ok (by omega : stop - 1 < src.length)]
        exact nofun
  · rename_i hrules
    exact iff_of_false nofun fun h => hrules h.1

variable {info : NormTable} {dstlen : ℤ} {o : IdnOutput}

lemma copyLabel_error (hstart : start < src.length)
    (h : Scanned (src.drop start) start stop ch delim) (hkept : ¬ (start = stop ∧ ch ≠ 0)) :
    (∃ fault, copyLabel flags src dstlen start stop o = .error fault) ↔
      idnUseStd3AsciiRules flags = true ∧ stop = 0 := by
  rw [← hyphenAtEnd_error hstart h hkept]
  unfold copyLabel
  split
  · refine iff_of_false nofun fun herror => ?_
    have hzero := ((hyphenAtEnd_error hstart h hkept).mp herror).2
    omega
  cases hyphenAtEnd flags src start stop with
  | error fault => exact iff_of_true ⟨fault, rfl⟩ ⟨fault, rfl⟩
  | ok found =>
    refine iff_of_false ?_ (fun ⟨_, h⟩ => nomatch h)
    rintro ⟨fault, herror⟩
    cases found with
    | true => nomatch herror
    | false =>
      dsimp only at herror
      split_ifs at herror

lemma writeLabel_error (buffer : List ℕ) :
    (∃ fault, writeLabel info flags src dstlen stop o buffer = .error fault) ↔
      ¬ buffer.all validCodePoint = true := by
  unfold writeLabel
  cases buffer.all validCodePoint with
  | false => exact iff_of_true ⟨.codePoint, rfl⟩ Bool.false_ne_true
  | true =>
    refine iff_of_false ?_ (not_not.mpr rfl)
    rw [Bool.not_true, if_neg Bool.false_ne_true]
    dsimp only
    split_ifs
    all_goals exact fun ⟨_, h⟩ => nomatch h

lemma literals_ascii (h : Scanned (src.drop start) start stop ch delim)
    (hace : hasAcePrefix src start stop = true) :
    ∀ c ∈ literals src start delim, c ≤ 0x7f := by
  have hlong : stop - start ≥ 4 := (of_decide_eq_true hace).1
  have hdelim := h.delim
  intro c hc
  apply h.ascii
  have hmem := mem_of_mem_take hc
  generalize hbound : (if delim = start + 3 then delim + 1 else delim) = bound at hmem
  have hle : bound ≤ stop := by
    rw [← hbound]
    split
    · omega
    · exact hdelim
  rw [drop_take, ← drop_drop, take_drop] at hmem
  have hmem := mem_of_mem_drop hmem
  have hwithin : 4 + (bound - (start + 4)) ≤ stop - start := by omega
  rw [← min_eq_left hwithin, ← take_take] at hmem
  exact mem_of_mem_take hmem

lemma decodeLabel_error (h : Scanned (src.drop start) start stop ch delim)
    (hace : hasAcePrefix src start stop = true) :
    (∃ fault, decodeLabel info flags src dstlen start stop delim o = .error fault) ↔
      ¬ DigitsSafe (literals src start delim).length
        ((labelDigits src start stop delim).map digitOf) := by
  have hsame : SamePlace ⟨0x80, 72, 0, (literals src start delim).map UInt16.toNat⟩
      ⟨0x80, 72, 0, (literals src start delim).length⟩ :=
    ⟨rfl, rfl, rfl, length_map _⟩
  have hascending : Ascending ⟨0x80, 72, 0, (literals src start delim).map UInt16.toNat⟩ := by
    have hfirst : (0x80 : ℕ) ≤ lastCodePoint := by decide
    have hascii : (0x7f : UInt16).toNat ≤ 0x80 := by decide
    refine ⟨fun c hc => ?_, .inr hfirst⟩
    obtain ⟨u, hu, rfl⟩ := mem_map.mp hc
    exact (UInt16.le_iff_toNat_le.mp (literals_ascii h hace u hu)).trans hascii
  have hcount : (literals src start delim).length ≤ 64 := length_take_le _ _
  have hfaulty := decodeLoop_faulty (labelDigits src start stop delim) hsame hascending
    (Nat.zero_le _) hcount
  rw [DigitsSafe, ← hfaulty]
  unfold decodeLabel
  cases decodeLoop (labelDigits src start stop delim)
      ⟨0x80, 72, 0, (literals src start delim).map UInt16.toNat⟩ with
  | error fault => exact iff_of_true ⟨fault, rfl⟩ trivial
  | ok result =>
    cases result with
    | none => exact iff_of_false (fun ⟨_, h⟩ => nomatch h) id
    | some buffer => exact writeLabel_error buffer

lemma idnLabel_error (hstart : start < src.length) :
    (∃ fault, idnLabel info flags src dstlen start o = .error fault) ↔
      ¬ LabelSafe flags src start := by
  unfold idnLabel LabelSafe
  cases hscan : scanLabel flags src.length (src.drop start) start 0 0 with
  | none => exact iff_of_false (fun ⟨_, h⟩ => nomatch h) (not_not.mpr nofun)
  | some r =>
    obtain ⟨stop, ch, delim⟩ := r
    have hscanned := scanLabel_spec (Nat.zero_le _) hscan
    dsimp only
    by_cases hkept : start = stop ∧ ch ≠ 0
    · rw [if_pos hkept]
      refine iff_of_false (fun ⟨_, h⟩ => nomatch h) (not_not.mpr ?_)
      rintro _ _ _ ⟨⟩ h
      exact absurd hkept h
    rw [if_neg hkept]
    have hall : ∀ p : ℕ → UInt16 → ℕ → Prop, (∀ stop' ch' delim',
        some (stop, ch, delim) = some (stop', ch', delim') → ¬ (start = stop' ∧ ch' ≠ 0) →
          p stop' ch' delim') ↔ p stop ch delim := by
      intro p
      constructor
      · exact fun h => h stop ch delim rfl hkept
      · rintro h _ _ _ ⟨⟩ _
        exact h
    rw [hall]
    by_cases hace : hasAcePrefix src start stop = true
    · rw [if_pos hace, if_pos hace]
      exact decodeLabel_error hscanned hace
    · rw [if_neg hace, if_neg hace, not_not]
      exact copyLabel_error hstart hscanned hkept

lemma writeLabel_next {buffer : List ℕ}
    (h : writeLabel info flags src dstlen stop o buffer = .ok (.next next o')) :
    next = stop + 1 := by
  unfold writeLabel at h
  dsimp only at h
  split_ifs at h
  all_goals cases h
  all_goals rfl

lemma idnLabel_next (hstart : start < src.length)
    (h : idnLabel info flags src dstlen start o = .ok (.next next o')) : start < next := by
  unfold idnLabel at h
  cases hscan : scanLabel flags src.length (src.drop start) start 0 0 with
  | none =>
    rw [hscan] at h
    nomatch h
  | some r =>
    have hle := (scanLabel_spec (Nat.zero_le _) hscan).le
    rw [hscan] at h
    dsimp only at h
    split at h
    · nomatch h
    split at h
    · unfold decodeLabel at h
      split at h
      · nomatch h
      · nomatch h
      · have hnext := writeLabel_next h
        omega
    unfold copyLabel at h
    split at h
    · nomatch h
    split at h
    · nomatch h
    · nomatch h
    dsimp only at h
    split_ifs at h
    all_goals cases h
    all_goals omega

def SafeFrom (info : NormTable) (flags : UInt32) (src : List UInt16) (dstlen : ℤ) (start : ℕ)
    (o : IdnOutput) : Prop :=
  ∀ last o', Labels info flags src dstlen start o last o' → last < src.length →
    LabelSafe flags src last

lemma safeFrom_done {status : IdnStatus} (hstart : start < src.length)
    (h : idnLabel info flags src dstlen start o = .ok (.done status o')) :
    SafeFrom info flags src dstlen start o := by
  rintro last o'' (_ | ⟨_, hnext, _⟩) hlast
  · by_contra hunsafe
    obtain ⟨fault, herror⟩ := (idnLabel_error hstart).mpr hunsafe
    rw [herror] at h
    nomatch h
  · rw [h] at hnext
    nomatch hnext

lemma safeFrom_next (hstart : start < src.length)
    (h : idnLabel info flags src dstlen start o = .ok (.next next o')) :
    SafeFrom info flags src dstlen start o ↔ SafeFrom info flags src dstlen next o' := by
  constructor
  · exact fun hsafe last o'' hlabels => hsafe last o'' (.step hstart h hlabels)
  · rintro hsafe last o'' (_ | ⟨_, hnext, hlabels⟩) hlast
    · by_contra hunsafe
      obtain ⟨fault, herror⟩ := (idnLabel_error hstart).mpr hunsafe
      rw [herror] at h
      nomatch h
    · rw [h] at hnext
      cases hnext
      exact hsafe last o'' hlabels hlast

lemma idnLoop_safe {fuel : ℕ} (hfuel : src.length - start < fuel) :
    (∃ r, idnLoop info flags src dstlen fuel start o = .ok (some r)) ↔
      SafeFrom info flags src dstlen start o := by
  induction fuel generalizing start o with
  | zero => exact absurd hfuel (Nat.not_lt_zero _)
  | succ fuel ih =>
    rw [idnLoop]
    split
    · rename_i hstart
      cases hlabel : idnLabel info flags src dstlen start o with
      | error fault =>
        refine iff_of_false (fun ⟨_, h⟩ => nomatch h) fun hsafe => ?_
        exact (idnLabel_error hstart).mp ⟨fault, hlabel⟩ (hsafe start o (.refl start o) hstart)
      | ok result =>
        cases result with
        | done status o' => exact iff_of_true ⟨_, rfl⟩ (safeFrom_done hstart hlabel)
        | next next o' =>
          have hforward := idnLabel_next hstart hlabel
          rw [safeFrom_next hstart hlabel]
          exact ih (by omega)
    · rename_i hend
      refine iff_of_true ⟨_, rfl⟩ ?_
      rintro last o' (_ | ⟨hstart, _, _⟩) hlast
      · exact absurd hlast hend
      · exact absurd hstart hend

/-- `RtlIdnToUnicode` makes none of the mistakes exactly where all labels that it comes to are safe. -/
theorem idn_to_unicode_safe (table : Except ℕ NormTable) (flags : UInt32)
    (src : Option (List UInt16)) (srclen dstlen : ℤ) :
    (∃ r, rtlIdnToUnicode table flags src srclen dstlen = .ok (some r)) ↔
      IdnSafe table flags src srclen dstlen := by
  unfold rtlIdnToUnicode IdnSafe
  cases src with
  | none => exact iff_of_true ⟨_, rfl⟩ nofun
  | some src =>
    dsimp only
    split
    · rename_i hlength
      exact iff_of_true ⟨_, rfl⟩ fun _ _ _ hvalid => absurd hlength (by omega)
    cases table with
    | error status => exact iff_of_true ⟨_, rfl⟩ nofun
    | ok info =>
      dsimp only
      have hall : (∀ info' units, some src = some units → -1 ≤ srclen →
          (Except.ok info : Except ℕ NormTable) = .ok info' → ∀ start o,
          Labels info' flags (sourceUnits units srclen) dstlen 0 ⟨0, []⟩ start o →
            start < (sourceUnits units srclen).length →
            LabelSafe flags (sourceUnits units srclen) start) ↔
          SafeFrom info flags (sourceUnits src srclen) dstlen 0 ⟨0, []⟩ := by
        constructor
        · exact fun h => h info src rfl (by omega) rfl
        · rintro h _ _ ⟨⟩ _ ⟨⟩
          exact h
      have hfuel : (sourceUnits src srclen).length - 0 < (sourceUnits src srclen).length + 1 :=
        Nat.lt_succ_self _
      rw [hall, ← idnLoop_safe hfuel]
      cases idnLoop info flags (sourceUnits src srclen) dstlen
          ((sourceUnits src srclen).length + 1) 0 ⟨0, []⟩ with
      | error fault =>
        exact iff_of_false (fun ⟨_, h⟩ => nomatch h) (fun ⟨_, h⟩ => nomatch h)
      | ok result =>
        cases result with
        | none => exact iff_of_false (fun ⟨_, h⟩ => nomatch h) (fun ⟨_, h⟩ => nomatch h)
        | some r => exact iff_of_true ⟨_, rfl⟩ ⟨_, rfl⟩

/-- `xn--` and eight of the largest digit. -/
def nines : List UInt16 :=
  [0x78, 0x6e, 0x2d, 0x2d, 0x39, 0x39, 0x39, 0x39, 0x39, 0x39, 0x39, 0x39]

/-- The digits of `xn--99999999` overflow the position, whatever the table and the destination. -/
theorem idn_nines_overflow :
    ∃ src, ∀ info dstlen, rtlIdnToUnicode (.ok info) 0 (some src) 12 dstlen = .error .overflow := by
  refine ⟨nines, fun info dstlen => ?_⟩
  have hdecode : decodeLoop (labelDigits nines 0 12 3)
      ⟨0x80, 72, 0, (literals nines 0 3).map UInt16.toNat⟩ = .error .overflow :=
    decodeLoop_error (by decide)
  have hlabel : idnLabel info 0 nines dstlen 0 ⟨0, []⟩ = .error .overflow := by
    have hscan : scanLabel 0 nines.length (nines.drop 0) 0 0 0 = some (12, 0x39, 3) := by decide
    have hkept : ¬ (0 = 12 ∧ (0x39 : UInt16) ≠ 0) := by decide
    have hace : hasAcePrefix nines 0 12 = true := by decide
    rw [idnLabel, hscan]
    dsimp only
    rw [if_neg hkept, if_pos hace, decodeLabel, hdecode]
  have hunits : sourceUnits nines 12 = nines := by decide
  have hstart : 0 < nines.length := by decide
  rw [rtlIdnToUnicode]
  dsimp only
  rw [if_neg (by decide), hunits, idnLoop, if_pos hstart, hlabel]

end WineForge.Locale
