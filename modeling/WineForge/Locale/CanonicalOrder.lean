import WineForge.Library.Buffers
import WineForge.Library.Composition
import WineForge.Locale.NormTable

/-!
# Canonical ordering

The functions work on the units of a string in place. A substring is a list of its own here.
-/

namespace WineForge.Locale

open Library List Option

/-- The exchange of two neighbours of `len1` and `len2` units. -/
def exchange (str : List UInt16) (i len1 len2 : ℕ) : Option (List UInt16) := do
  let tmp := (str.drop i).take len1
  let str' ← put str i ((str.drop (i + len1)).take len2)
  put str' (i + len2) tmp

/-- The loop over the pairs of neighbours. The position is an unsigned number: the correction after
an exchange may wrap around. -/
def orderPass (info : NormTable) : ℕ → List UInt16 → ℕ → Bool → Option (List UInt16 × Bool)
  | 0, _, _, _ => none
  | fuel + 1, str, i, swapped =>
    if i < str.length - 1 then
      match getUtf16 (str.drop i) with
      | none => some (str, swapped)
      | some (len1, ch1) =>
        if i + len1 ≥ str.length then some (str, swapped)
        else
          match getUtf16 (str.drop (i + len1)) with
          | none => some (str, swapped)
          | some (len2, ch2) =>
            if reorderablePair info ch1 ch2 then
              match exchange str i len1 len2 with
              | none => none
              | some str' =>
                orderPass info fuel str' (((i + len2 + 2 ^ 32 - len1) % 2 ^ 32 + len1) % 2 ^ 32) true
            else orderPass info fuel str (i + len1) swapped
    else some (str, swapped)

/-- `canonical_order_substring`; the fuel bounds the passes. -/
def canonicalOrderSubstring (info : NormTable) : ℕ → List UInt16 → Option (List UInt16)
  | 0, _ => none
  | fuel + 1, str =>
    match orderPass info (str.length + 1) str 0 false with
    | none => none
    | some (str', swapped) =>
      if swapped then canonicalOrderSubstring info fuel str' else some str'

/-- The call for the part of a string from `next` to `i`, if it has at least two units. -/
def orderPart (info : NormTable) (fuel : ℕ) (str : List UInt16) (next i : ℕ) :
    Option (List UInt16) :=
  if i > next + 1 then
    (canonicalOrderSubstring info fuel ((str.drop next).take (i - next))).map fun sub =>
      str.take next ++ sub ++ str.drop i
  else some str

/-- The loop of `canonical_order_string`. -/
def orderStringLoop (info : NormTable) (fuel : ℕ) : ℕ → List UInt16 → ℕ → ℕ → Option (List UInt16)
  | 0, _, _, _ => none
  | steps + 1, str, i, next =>
    if i < str.length then
      match getUtf16 (str.drop i) with
      | none => some str
      | some (r, ch) =>
        if i ≠ 0 ∧ getCombiningClass info ch = 0 then
          match orderPart info fuel str next i with
          | none => none
          | some str' => orderStringLoop info fuel steps str' (i + r) (i + r)
        else orderStringLoop info fuel steps str (i + r) next
    else orderPart info fuel str next i

def canonicalOrderString (info : NormTable) (fuel : ℕ) (str : List UInt16) : Option (List UInt16) :=
  orderStringLoop info fuel (str.length + 1) str 0 0

def encode (cs : List Char) : List UInt16 :=
  cs.flatMap utf16EncodeChar

lemma encode_cons (c : Char) (cs : List Char) :
    encode (c :: cs) = utf16EncodeChar c ++ encode cs := flatMap_cons

lemma encode_append (cs ds : List Char) : encode (cs ++ ds) = encode cs ++ encode ds :=
  flatMap_append

lemma length_utf16EncodeChar (c : Char) :
    1 ≤ (utf16EncodeChar c).length ∧ (utf16EncodeChar c).length ≤ 2 := by
  unfold utf16EncodeChar
  split
  · exact ⟨Nat.le_refl 1, Nat.le_succ 1⟩
  · exact ⟨Nat.le_succ 1, Nat.le_refl 2⟩

lemma length_le_length_encode (cs : List Char) : cs.length ≤ (encode cs).length := by
  induction cs with
  | nil => exact le_refl 0
  | cons c cs ih =>
    have hc := length_utf16EncodeChar c
    rw [encode_cons, length_append, length_cons]
    omega

lemma exchange_eq (front back x y : List UInt16) :
    exchange (front ++ (x ++ (y ++ back))) front.length x.length y.length =
      some (front ++ (y ++ (x ++ back))) := by
  have hfirst : (front ++ (x ++ (y ++ back))).drop front.length = x ++ (y ++ back) :=
    drop_left
  have hsecond : (front ++ (x ++ (y ++ back))).drop (front.length + x.length) = y ++ back := by
    rw [← drop_drop, hfirst, drop_left]
  have hlength : (front ++ (x ++ (y ++ back))).length =
      front.length + (x.length + (y.length + back.length)) := by
    simp only [length_append]
  have hput : put (front ++ (x ++ (y ++ back))) front.length y = _ := put_eq (by omega)
  unfold exchange
  rw [hfirst, hsecond, take_left, take_left, hput]
  rw [bind_eq_bind, bind_some, put_put hput (by omega),
    put_eq (by simp only [length_append]; omega), take_left]
  have hback : (front ++ (x ++ (y ++ back))).drop (front.length + (y ++ x).length) = back := by
    rw [length_append, add_comm y.length, ← add_assoc, ← drop_drop, hsecond, drop_left]
  rw [hback]
  simp only [append_assoc]

lemma drop_encode (front back : List Char) :
    (encode (front ++ back)).drop (encode front).length = encode back := by
  rw [encode_append, drop_left]

lemma getUtf16_encode (c : Char) (cs : List Char) :
    getUtf16 (encode (c :: cs)) = some ((utf16EncodeChar c).length, c.toNat) := by
  rw [encode_cons]
  exact getUtf16_char c _

lemma reorderablePair_iff {info : NormTable} {a b : Char} (hb : info.classOf b ≠ 0) :
    reorderablePair info a.toNat b.toNat = true ↔ info.classOf b < info.classOf a := by
  unfold NormTable.classOf at *
  have hsmall : getCombiningClass info a.toNat < 2 ↔ (getCombiningClass info a.toNat).toNat < 2 :=
    UInt8.lt_iff_toNat_lt
  have hgreater : getCombiningClass info a.toNat > getCombiningClass info b.toNat ↔
      (getCombiningClass info b.toNat).toNat < (getCombiningClass info a.toNat).toNat :=
    UInt8.lt_iff_toNat_lt
  have hzero : getCombiningClass info b.toNat ≠ 0 := by
    intro h
    rw [h] at hb
    exact hb rfl
  unfold reorderablePair
  dsimp only
  split
  · rename_i h
    rw [hsmall] at h
    exact iff_of_false Bool.false_ne_true (by omega)
  · rw [decide_eq_true_eq, hgreater, and_iff_right hzero]

variable {fuel : ℕ}

/-- Where a pass stands: the characters in front are in place, and it looks at `a` next. -/
lemma orderPass_eq (info : NormTable) (front : List Char) (a : Char) (l : List Char)
    (hl : ∀ c ∈ l, info.classOf c ≠ 0) (hfuel : l.length < fuel) (swapped : Bool)
    (hlength : (encode (front ++ a :: l)).length < 2 ^ 32) :
    orderPass info fuel (encode (front ++ a :: l)) (encode front).length swapped =
      some (encode (front ++ (bubble info.classOf a l).1),
        swapped || (bubble info.classOf a l).2) := by
  induction l generalizing front a fuel swapped with
  | nil =>
    obtain ⟨fuel, rfl⟩ := Nat.exists_eq_add_one_of_ne_zero (Nat.ne_zero_of_lt hfuel)
    have htotal : (encode (front ++ [a])).length =
        (encode front).length + (utf16EncodeChar a).length := by
      rw [encode_append, length_append, encode_cons, length_append]
      rfl
    rw [orderPass, drop_encode, getUtf16_encode, bubble, Bool.or_false]
    dsimp only
    rw [if_pos (Nat.le_of_eq htotal), ite_self]
  | cons b l ih =>
    obtain ⟨fuel, rfl⟩ := Nat.exists_eq_add_one_of_ne_zero (Nat.ne_zero_of_lt hfuel)
    have hfuel' : l.length < fuel := Nat.lt_of_succ_lt_succ hfuel
    have hl' : ∀ c ∈ l, info.classOf c ≠ 0 := fun c hc => hl c (mem_cons_of_mem b hc)
    have ha := length_utf16EncodeChar a
    have hb := length_utf16EncodeChar b
    have hposition : ∀ c, (encode (front ++ [c])).length =
        (encode front).length + (utf16EncodeChar c).length := by
      intro c
      rw [encode_append, length_append, encode_cons, length_append]
      rfl
    have htotal : (encode (front ++ a :: b :: l)).length = (encode front).length +
        (utf16EncodeChar a).length + (utf16EncodeChar b).length + (encode l).length := by
      simp only [encode_append, encode_cons, length_append, add_assoc]
    have hsecond : (encode (front ++ a :: b :: l)).drop
        ((encode front).length + (utf16EncodeChar a).length) = encode (b :: l) := by
      rw [← hposition, append_cons front a (b :: l), drop_encode]
    rw [orderPass, drop_encode, getUtf16_encode, if_pos (by omega)]
    dsimp only
    rw [if_neg (by omega), hsecond, getUtf16_encode]
    dsimp only
    rw [bubble]
    have hclass := reorderablePair_iff (a := a) (hl b (mem_cons_self ..))
    by_cases hswap : info.classOf b < info.classOf a
    · have hexchange : exchange (encode (front ++ a :: b :: l)) (encode front).length
          (utf16EncodeChar a).length (utf16EncodeChar b).length =
            some (encode (front ++ b :: a :: l)) := by
        simp only [encode_append, encode_cons]
        exact exchange_eq _ _ _ _
      have hnext : (((encode front).length + (utf16EncodeChar b).length + 2 ^ 32 -
          (utf16EncodeChar a).length) % 2 ^ 32 + (utf16EncodeChar a).length) % 2 ^ 32 =
            (encode (front ++ [b])).length := by
        rw [hposition]
        omega
      have hlength' : (encode ((front ++ [b]) ++ a :: l)).length < 2 ^ 32 := by
        rw [← append_cons]
        simp only [encode_append, encode_cons, length_append] at hlength ⊢
        omega
      rw [if_pos (hclass.mpr hswap), hexchange, if_pos hswap]
      dsimp only
      rw [hnext, append_cons front b, ih (front ++ [b]) a hl' hfuel' true hlength',
        Bool.true_or, Bool.or_true, append_assoc]
      rfl
    · rw [if_neg (mt hclass.mp hswap), if_neg hswap, ← hposition, append_cons front a,
        ih (front ++ [a]) b hl' hfuel' swapped (by rw [← append_cons]; exact hlength),
        append_assoc]
      rfl

lemma length_encode_perm {cs ds : List Char} (h : cs.Perm ds) :
    (encode cs).length = (encode ds).length := by
  unfold encode
  rw [length_flatMap, length_flatMap]
  exact (h.map _).sum_eq

lemma canonicalOrderSubstring_eq (info : NormTable) {a : Char} {l : List Char}
    (hl : ∀ c ∈ l, info.classOf c ≠ 0) (hlength : (encode (a :: l)).length < 2 ^ 32) (fuel : ℕ) :
    canonicalOrderSubstring info fuel (encode (a :: l)) =
      (bubbleSort info.classOf fuel (a :: l)).map encode := by
  induction fuel generalizing a l with
  | zero => rfl
  | succ fuel ih =>
    have hfuel : l.length < (encode (a :: l)).length + 1 :=
      Nat.lt_succ_of_lt (length_le_length_encode (a :: l))
    have hpass := orderPass_eq info [] a l hl hfuel false hlength
    rw [nil_append, nil_append, Bool.false_or] at hpass
    rw [canonicalOrderSubstring, bubbleSort, bubblePass]
    have hpass' : orderPass info ((encode (a :: l)).length + 1) (encode (a :: l)) 0 false = _ :=
      hpass
    rw [hpass']
    dsimp only
    split
    · obtain ⟨b, m, hbm, hm⟩ := bubble_tail (a := a) hl
      have hperm := bubble_perm info.classOf a l
      rw [hbm] at hperm ⊢
      exact ih hm (length_encode_perm hperm ▸ hlength)
    · rfl

lemma canonicalOrderSubstring_sorts (info : NormTable) {a : Char} {l : List Char}
    (hl : ∀ c ∈ l, info.classOf c ≠ 0) (hlength : (encode (a :: l)).length < 2 ^ 32)
    (hfuel : inversions info.classOf (a :: l) < fuel) :
    canonicalOrderSubstring info fuel (encode (a :: l)) =
      some (encode (stableSort info.classOf (a :: l))) := by
  rw [canonicalOrderSubstring_eq info hl hlength, bubbleSort_eq hfuel]
  rfl

lemma orderPart_eq (info : NormTable) (done run rest : List Char)
    (hrun : ∀ c ∈ run.tail, info.classOf c ≠ 0)
    (hlength : (encode (done ++ run ++ rest)).length < 2 ^ 32)
    (hfuel : run.length * run.length < fuel) :
    orderPart info fuel (encode (done ++ run ++ rest)) (encode done).length
        (encode (done ++ run)).length =
      some (encode (done ++ stableSort info.classOf run ++ rest)) := by
  have hfront : (encode (done ++ run ++ rest)).take (encode done).length = encode done := by
    rw [encode_append, encode_append, append_assoc, take_left]
  have hback : (encode (done ++ run ++ rest)).drop (encode (done ++ run)).length = encode rest :=
    drop_encode _ _
  have hposition : (encode (done ++ run)).length = (encode done).length + (encode run).length := by
    rw [encode_append, length_append]
  have hsub : ((encode (done ++ run ++ rest)).drop (encode done).length).take
      ((encode (done ++ run)).length - (encode done).length) = encode run := by
    rw [append_assoc, drop_encode, hposition, Nat.add_sub_cancel_left, encode_append, take_left]
  unfold orderPart
  cases run with
  | nil =>
    have hnone : stableSort info.classOf [] = [] := rfl
    rw [hnone, append_nil, if_neg (Nat.not_lt.mpr (Nat.le_succ _))]
  | cons a l =>
    split
    · have hless : (encode (a :: l)).length < 2 ^ 32 := by
        rw [encode_append, encode_append, length_append, length_append] at hlength
        omega
      have hmarks : ∀ c ∈ l, info.classOf c ≠ 0 := hrun
      rw [hsub, hfront, hback, canonicalOrderSubstring_sorts info hmarks hless
        (lt_of_le_of_lt (inversions_le _ _) hfuel)]
      simp only [map_some, encode_append]
    have hshort : l = [] := by
      have hle := length_le_length_encode l
      have hone := (length_utf16EncodeChar a).1
      rw [hposition, encode_cons, length_append] at *
      apply eq_nil_of_length_eq_zero
      omega
    rw [hshort]
    rfl

lemma class_eq_zero (info : NormTable) (c : Char) :
    getCombiningClass info c.toNat = 0 ↔ info.classOf c = 0 := by
  rw [NormTable.classOf, ← UInt8.toNat_inj]
  rfl

lemma length_encode_snoc (cs : List Char) (c : Char) :
    (encode (cs ++ [c])).length = (encode cs).length + (utf16EncodeChar c).length := by
  rw [encode_append, length_append, encode_cons, length_append]
  rfl

lemma orderStringLoop_cons (info : NormTable) (fuel steps : ℕ) (front : List Char) (c : Char)
    (rest : List Char) (next : ℕ) :
    orderStringLoop info fuel (steps + 1) (encode (front ++ c :: rest)) (encode front).length next =
      if (encode front).length ≠ 0 ∧ info.classOf c = 0 then
        (orderPart info fuel (encode (front ++ c :: rest)) next (encode front).length).bind fun str =>
          orderStringLoop info fuel steps str (encode (front ++ [c])).length
            (encode (front ++ [c])).length
      else
        orderStringLoop info fuel steps (encode (front ++ c :: rest)) (encode (front ++ [c])).length
          next := by
  have hone := (length_utf16EncodeChar c).1
  have hlt : (encode front).length < (encode (front ++ c :: rest)).length := by
    rw [encode_append, length_append, encode_cons, length_append]
    omega
  rw [orderStringLoop, if_pos hlt, drop_encode, getUtf16_encode, length_encode_snoc]
  dsimp only
  by_cases hstop : (encode front).length ≠ 0 ∧ info.classOf c = 0
  · rw [if_pos hstop, if_pos ⟨hstop.1, (class_eq_zero info c).mpr hstop.2⟩]
    cases orderPart info fuel (encode (front ++ c :: rest)) next (encode front).length with
    | none => rfl
    | some str => rfl
  · rw [if_neg hstop, if_neg fun h => hstop ⟨h.1, (class_eq_zero info c).mp h.2⟩]

lemma orderStringLoop_eq (info : NormTable) (done run rest : List Char)
    (hstarted : done ++ run ≠ []) (hrun : ∀ c ∈ run.tail, info.classOf c ≠ 0)
    (hlength : (encode (done ++ run ++ rest)).length < 2 ^ 32)
    (hfuel : ∀ n ≤ run.length + rest.length, n * n < fuel) {steps : ℕ}
    (hsteps : rest.length < steps) :
    orderStringLoop info fuel steps (encode (done ++ run ++ rest)) (encode (done ++ run)).length
        (encode done).length = some (encode (done ++ orderRuns info.classOf run rest)) := by
  induction rest generalizing done run steps with
  | nil =>
    obtain ⟨steps, rfl⟩ := Nat.exists_eq_add_one_of_ne_zero (Nat.ne_zero_of_lt hsteps)
    have hpart := orderPart_eq info done run [] hrun hlength (hfuel _ (Nat.le_add_right _ _))
    rw [append_nil] at hpart ⊢
    rw [orderStringLoop, if_neg (Nat.lt_irrefl _), hpart, orderRuns, append_nil]
  | cons c rest ih =>
    obtain ⟨steps, rfl⟩ := Nat.exists_eq_add_one_of_ne_zero (Nat.ne_zero_of_lt hsteps)
    have hpart := orderPart_eq info done run (c :: rest) hrun hlength
      (hfuel _ (Nat.le_add_right _ _))
    have hsize : run.length + (c :: rest).length = run.length + rest.length + 1 := rfl
    have hstart : (encode (done ++ run)).length ≠ 0 := by
      have hle := length_le_length_encode (done ++ run)
      have hpos := length_pos_of_ne_nil hstarted
      omega
    have hsteps' : rest.length < steps := Nat.lt_of_succ_lt_succ hsteps
    rw [orderStringLoop_cons, orderRuns]
    by_cases hstarter : info.classOf c = 0
    · have hperm : (run ++ c :: rest).Perm ((stableSort info.classOf run ++ [c]) ++ rest) := by
        rw [append_assoc]
        exact ((perm_insertionSort _ run).symm).append_right _
      have hfront : (encode (done ++ run ++ [c])).length =
          (encode (done ++ stableSort info.classOf run ++ [c])).length := by
        apply length_encode_perm
        exact (((perm_insertionSort _ run).symm).append_left done).append_right [c]
      have hnext := ih (done ++ stableSort info.classOf run ++ [c]) [] (by simp) (by rintro _ ⟨⟩)
        (by
          rw [append_nil, ← append_cons, append_assoc]
          rw [append_assoc, length_encode_perm (hperm.append_left done)] at hlength
          rwa [append_assoc] at hlength)
        (fun n hn => hfuel n (by rw [length_nil] at hn; omega)) hsteps'
      rw [if_pos ⟨hstart, hstarter⟩, if_pos hstarter, hpart, bind_some, hfront]
      rw [append_nil, ← append_cons] at hnext
      rw [hnext]
      simp only [append_assoc, singleton_append]
    · have hnext := ih done (run ++ [c]) (by simp)
        (by
          intro d hd
          cases run with
          | nil => cases hd
          | cons a l =>
            obtain hd | hd := mem_append.mp hd
            · exact hrun d hd
            · rw [mem_singleton.mp hd]
              exact hstarter)
        (by rw [← append_assoc, ← append_cons]; exact hlength)
        (fun n hn => hfuel n (by rw [length_append, length_singleton] at hn; omega))
        hsteps'
      rw [if_neg fun h => hstarter h.2, if_neg hstarter]
      rw [← append_assoc, ← append_cons] at hnext
      exact hnext

/-- The stable sort of every run, for every string of characters. -/
theorem canonicalOrderString_eq (info : NormTable) (cs : List Char)
    (hlength : (encode cs).length < 2 ^ 32) (hfuel : ∀ n ≤ cs.length, n * n < fuel) :
    canonicalOrderString info fuel (encode cs) =
      some (encode (canonicalOrder info.classOf cs)) := by
  cases cs with
  | nil => rfl
  | cons c rest =>
    have hsteps : rest.length < (encode (c :: rest)).length :=
      length_le_length_encode (c :: rest)
    have hfirst := orderStringLoop_cons info fuel (encode (c :: rest)).length [] c rest 0
    have hloop := orderStringLoop_eq info [] [c] rest (by simp) nofun hlength
      (fun n hn => hfuel n (by
        rw [length_singleton] at hn
        rw [length_cons]
        omega)) hsteps
    rw [if_neg fun h => h.1 rfl] at hfirst
    have horder : orderRuns info.classOf [c] rest = canonicalOrder info.classOf (c :: rest) := by
      rw [canonicalOrder, orderRuns]
      split
      · rename_i hstarter
        exact orderRuns_starter hstarter [] rest
      · rfl
    rw [canonicalOrderString, ← horder]
    exact hfirst.trans hloop

end WineForge.Locale
