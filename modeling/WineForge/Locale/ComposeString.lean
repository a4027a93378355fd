import WineForge.Locale.CanonicalOrder

/-!
# Composition

`compose_string` merges a character into the last starter in place and looks again at what is
behind it.
-/

namespace WineForge.Locale

open Library List Option

/-- `memmove`, in units. -/
def memmove (str : List UInt16) (dst src n : ℕ) : Option (List UInt16) :=
  put str dst ((str.drop src).take n)

def unitsOf (ch : ℕ) : ℕ :=
  if ch ≥ 0x10000 then 2 else 1

/-- The characters between the starter and the position `i` follow the end of the starter. -/
def moveBetween (str : List UInt16) (i lastStarter compLen startLen : ℕ) : Option (List UInt16) :=
  if compLen ≠ startLen then
    memmove str (lastStarter + compLen) (lastStarter + startLen) (i - (lastStarter + startLen))
  else some str

/-- The string after `comp` has taken the place of the starter, and the `len` units at `i` are
gone. -/
def mergeInto (str : List UInt16) (srclen i len lastStarter startCh comp : ℕ) :
    Option (List UInt16) := do
  let str ← moveBetween str i lastStarter (unitsOf comp) (unitsOf startCh)
  let str ← memmove str (i + unitsOf comp - unitsOf startCh) (i + len) (srclen - i - len)
  put str lastStarter (putUtf16 comp)

/-- The variables of `compose_string`. -/
structure ComposeState where
  str : List UInt16
  srclen : ℕ
  i : ℕ
  lastStarter : ℕ
  startCh : ℕ
  prevClass : UInt8

namespace ComposeState

def pass (s : ComposeState) (info : NormTable) (len ch : ℕ) : ComposeState :=
  { s with
    i := s.i + len
    lastStarter := if getCombiningClass info ch = 0 then s.i else s.lastStarter
    startCh := if getCombiningClass info ch = 0 then ch else s.startCh
    prevClass := getCombiningClass info ch }

def merged (s : ComposeState) (len comp : ℕ) (str : List UInt16) : ComposeState :=
  { s with
    str := str
    srclen := s.srclen + unitsOf comp - unitsOf s.startCh - len
    i := s.lastStarter + unitsOf comp
    startCh := comp
    prevClass := 0 }

end ComposeState

/-- The loop of `compose_string`; the fuel bounds the turns of `compose_chars`. -/
def composeLoop (info : NormTable) (fuel : ℕ) : ℕ → ComposeState → Option (List UInt16 × ℕ)
  | 0, _ => none
  | steps + 1, s =>
    if s.i < s.srclen then
      match getUtf16 ((s.str.take s.srclen).drop s.i) with
      | none => some (s.str, 0)
      | some (len, ch) =>
        if s.lastStarter = s.srclen ∨
            s.prevClass ≠ 0 ∧ s.prevClass ≥ getCombiningClass info ch then
          composeLoop info fuel steps (s.pass info len ch)
        else
          match findComposite info fuel s.startCh ch with
          | none => none
          | some comp =>
            if comp = 0 then composeLoop info fuel steps (s.pass info len ch)
            else
              match mergeInto s.str s.srclen s.i len s.lastStarter s.startCh comp with
              | none => none
              | some str => composeLoop info fuel steps (s.merged len comp str)
    else some (s.str, s.srclen)

/-- `compose_string`: what is left of the string. -/
def composeString (info : NormTable) (fuel : ℕ) (str : List UInt16) : Option (List UInt16) :=
  (composeLoop info fuel fuel ⟨str, str.length, 0, str.length, 0, 0⟩).map fun r => r.1.take r.2

lemma unitsOf_char (c : Char) : unitsOf c.toNat = (utf16EncodeChar c).length := by
  unfold unitsOf utf16EncodeChar
  split
  · rw [if_neg (by omega)]
    rfl
  · rw [if_pos (by omega)]
    rfl

lemma memmove_spec {str : List UInt16} {dst src n : ℕ} (hdst : dst + n ≤ str.length)
    (hsrc : src + n ≤ str.length) :
    ∃ str', memmove str dst src n = some str' ∧ str'.length = str.length ∧
      str'.take (dst + n) = str.take dst ++ (str.drop src).take n ∧
      ∀ k, dst + n ≤ k → str'.drop k = str.drop k := by
  have hlength : ((str.drop src).take n).length = n := by
    rw [length_take, length_drop]
    omega
  have hput := @put_spec _ str dst ((str.drop src).take n) (by omega)
  rw [hlength] at hput
  exact hput

lemma moveBetween_spec {str A S M tail : List UInt16} {srclen d : ℕ}
    (hstr : str.take srclen = A ++ (S ++ (M ++ tail))) (hsrclen : srclen ≤ str.length)
    (hd : d ≤ S.length + tail.length) :
    ∃ str', moveBetween str (A.length + S.length + M.length) A.length d S.length = some str' ∧
      str'.length = str.length ∧
      str'.take (A.length + d + M.length) = str.take (A.length + d) ++ M ∧
      ∀ k, A.length + d + M.length ≤ k → str'.drop k = str.drop k := by
  have hlength := congrArg List.length hstr
  simp only [length_take, length_append, min_eq_left hsrclen] at hlength
  have hread : ∀ k n, k + n ≤ srclen → (str.drop k).take n = ((str.take srclen).drop k).take n := by
    intro k n hk
    rw [drop_take, take_take, min_eq_left (by omega)]
  unfold moveBetween
  split
  · have hM : (str.drop (A.length + S.length)).take M.length = M := by
      rw [hread _ _ (by omega), hstr, ← drop_drop, drop_left, drop_left, take_left]
    rw [Nat.add_sub_cancel_left]
    have hmove := @memmove_spec str (A.length + d) (A.length + S.length) M.length (by omega)
      (by omega)
    rw [hM] at hmove
    exact hmove
  rename_i heq
  rw [not_not] at heq
  refine ⟨str, rfl, rfl, ?_, fun _ _ => rfl⟩
  have hfront : ∀ n, n ≤ srclen → str.take n = (str.take srclen).take n := by
    intro n hn
    rw [take_take, min_eq_left hn]
  rw [heq, hfront _ (by omega), hfront (A.length + S.length) (by omega), hstr,
    ← append_assoc, ← length_append, take_left, ← append_assoc,
    ← length_append, take_left]

lemma mergeInto_spec {str A M R : List UInt16} {s c d : Char} {srclen : ℕ}
    (hstr : str.take srclen = A ++ (utf16EncodeChar s ++ (M ++ (utf16EncodeChar c ++ R))))
    (hsrclen : srclen ≤ str.length) :
    ∃ str', mergeInto str srclen (A.length + (utf16EncodeChar s).length + M.length)
        (utf16EncodeChar c).length A.length s.toNat d.toNat = some str' ∧
      str'.length = str.length ∧
      str'.take (A.length + (utf16EncodeChar d).length + M.length + R.length) =
        A ++ (utf16EncodeChar d ++ (M ++ R)) := by
  have hs := length_utf16EncodeChar s
  have hc := length_utf16EncodeChar c
  have hd := length_utf16EncodeChar d
  have hlength := congrArg List.length hstr
  simp only [length_take, length_append, min_eq_left hsrclen] at hlength
  obtain ⟨str₁, hmove₁, hlength₁, htake₁, hdrop₁⟩ :=
    @moveBetween_spec _ _ _ _ _ _ (utf16EncodeChar d).length hstr hsrclen (by
      rw [length_append]
      omega)
  have hdst : A.length + (utf16EncodeChar s).length + M.length + (utf16EncodeChar d).length -
      (utf16EncodeChar s).length = A.length + (utf16EncodeChar d).length + M.length := by omega
  have hcount : srclen - (A.length + (utf16EncodeChar s).length + M.length) -
      (utf16EncodeChar c).length = R.length := by omega
  have hR : (str₁.drop (A.length + (utf16EncodeChar s).length + M.length +
      (utf16EncodeChar c).length)).take R.length = R := by
    have hread := congrArg (List.drop (A.length + (utf16EncodeChar s).length + M.length +
      (utf16EncodeChar c).length)) hstr
    rw [drop_take] at hread
    simp only [← drop_drop, drop_left] at hread
    rw [hdrop₁ _ (by omega), ← hread]
    simp only [drop_drop, length_take, length_drop]
    congr 1
    omega
  obtain ⟨str₂, hmove₂, hlength₂, htake₂, -⟩ := @memmove_spec str₁
    (A.length + (utf16EncodeChar d).length + M.length)
    (A.length + (utf16EncodeChar s).length + M.length + (utf16EncodeChar c).length) R.length
    (by omega) (by omega)
  obtain ⟨str₃, hput, hlength₃, htake₃, hdrop₃⟩ := @put_spec _ str₂ A.length (utf16EncodeChar d)
    (by omega)
  rw [htake₁, hR] at htake₂
  refine ⟨str₃, ?_, by omega, ?_⟩
  · unfold mergeInto
    rw [unitsOf_char, unitsOf_char, putUtf16_char, hdst, hcount]
    exact bind_eq_some_iff.mpr ⟨str₁, hmove₁,
      bind_eq_some_iff.mpr ⟨str₂, hmove₂, hput⟩⟩
  have hfront : (str.take (A.length + (utf16EncodeChar d).length)).length =
      A.length + (utf16EncodeChar d).length := by
    rw [length_take]
    omega
  have hA : str₂.take A.length = A := by
    have htake := congrArg (List.take A.length) htake₂
    have hold := congrArg (List.take A.length) hstr
    rw [take_take, min_eq_left (by omega), append_assoc,
      take_append_of_le_length (by omega), take_take, min_eq_left (by omega)]
      at htake
    rw [take_take, min_eq_left (by omega), take_left] at hold
    exact htake.trans hold
  have hMR : (str₂.drop (A.length + (utf16EncodeChar d).length)).take (M.length + R.length) =
      M ++ R := by
    have hdrop := congrArg (List.drop (A.length + (utf16EncodeChar d).length)) htake₂
    rw [drop_take, append_assoc, drop_left' hfront] at hdrop
    rw [← hdrop]
    congr 1
    omega
  rw [add_assoc, take_add, htake₃, hdrop₃ _ (le_refl _), hA, hMR]
  simp only [append_assoc]

/-- Where the loop stands: `done` is composed, `mid` has been passed since the starter `c`. -/
structure Composing (info : NormTable) (done : List Char) (c : Char) (mid rest : List Char)
    (s : ComposeState) : Prop where
  str : s.str.take s.srclen = encode (done ++ c :: (mid ++ rest))
  srclen : s.srclen ≤ s.str.length
  i : s.i = (encode (done ++ c :: mid)).length
  lastStarter : s.lastStarter = (encode done).length
  startCh : s.startCh = c.toNat
  prevClass : s.prevClass.toNat = lastClass info.classOf mid
  marks : ∀ d ∈ mid, info.classOf d ≠ 0
  order : InOrder info.classOf (mid ++ rest)

def Composes (r : Option (List UInt16 × ℕ)) (cs : List Char) : Prop :=
  r.map (fun r => r.1.take r.2) = some (encode cs)

variable {info : NormTable} {fuel steps : ℕ} {done mid rest : List Char} {c d : Char}
  {s : ComposeState}

lemma Composing.length (h : Composing info done c mid rest s) :
    s.srclen = (encode (done ++ c :: (mid ++ rest))).length := by
  rw [← h.str, length_take, min_eq_left h.srclen]

lemma Composing.ahead (h : Composing info done c mid rest s) :
    (s.str.take s.srclen).drop s.i = encode rest := by
  have hsplit : done ++ c :: (mid ++ rest) = (done ++ c :: mid) ++ rest := by simp
  rw [h.str, h.i, hsplit, drop_encode]

lemma Composing.started (h : Composing info done c mid rest s) : s.lastStarter ≠ s.srclen := by
  have hone := (length_utf16EncodeChar c).1
  rw [h.lastStarter, h.length, encode_append, encode_cons, length_append, length_append]
  omega

section

variable (h : (s.str.take s.srclen).drop s.i = encode (d :: rest))

include h

lemma lt_of_ahead : s.i < s.srclen := by
  have hone := (length_utf16EncodeChar d).1
  have hlength := congrArg List.length h
  rw [length_drop, length_take, encode_cons, length_append] at hlength
  omega

lemma composeLoop_pass (hpass : (s.lastStarter = s.srclen ∨
        s.prevClass ≠ 0 ∧ s.prevClass ≥ getCombiningClass info d.toNat) ∨
      findComposite info fuel s.startCh d.toNat = some 0) :
    composeLoop info fuel (steps + 1) s =
      composeLoop info fuel steps (s.pass info (utf16EncodeChar d).length d.toNat) := by
  rw [composeLoop, if_pos (lt_of_ahead h), h, getUtf16_encode]
  dsimp only
  split
  · rfl
  · rename_i hfree
    rw [hpass.resolve_left hfree]
    rfl

lemma composeLoop_merge {comp : ℕ} {str : List UInt16} (hstarted : s.lastStarter ≠ s.srclen)
    (hfree : ¬ (s.prevClass ≠ 0 ∧ s.prevClass ≥ getCombiningClass info d.toNat))
    (hcomp : findComposite info fuel s.startCh d.toNat = some comp) (hne : comp ≠ 0)
    (hmerge : mergeInto s.str s.srclen s.i (utf16EncodeChar d).length s.lastStarter s.startCh comp =
      some str) :
    composeLoop info fuel (steps + 1) s =
      composeLoop info fuel steps (s.merged (utf16EncodeChar d).length comp str) := by
  rw [composeLoop, if_pos (lt_of_ahead h), h, getUtf16_encode]
  dsimp only
  rw [if_neg (not_or.mpr ⟨hstarted, hfree⟩), hcomp]
  dsimp only
  rw [if_neg hne, hmerge]

end

section

variable (h : Composing info done c mid (d :: rest) s)

include h

lemma Composing.blocked_iff : s.prevClass ≠ 0 ∧ s.prevClass ≥ getCombiningClass info d.toNat ↔
      Blocked info.classOf mid d := by
  have hmid : InOrder info.classOf mid := (isChain_append.mp h.order).1
  rw [Library.blocked_iff h.marks hmid, ← h.prevClass, ne_eq, ne_eq, ← UInt8.toNat_inj, ge_iff_le,
    UInt8.le_iff_toNat_le]
  rfl

lemma Composing.pass (hmark : info.classOf d ≠ 0) :
    Composing info done c (mid ++ [d]) rest (s.pass info (utf16EncodeChar d).length d.toNat) := by
  have hclass : ¬ getCombiningClass info d.toNat = 0 := mt (class_eq_zero info d).mp hmark
  have hsame : (mid ++ [d]) ++ rest = mid ++ d :: rest := append_assoc ..
  refine ⟨by rw [hsame]; exact h.str, h.srclen, ?_, ?_, ?_, ?_, fun e he => ?_, hsame ▸ h.order⟩
  · have hfront : done ++ c :: (mid ++ [d]) = (done ++ c :: mid) ++ [d] := by simp
    rw [hfront, length_encode_snoc, ← h.i]
    rfl
  · exact (if_neg hclass).trans h.lastStarter
  · exact (if_neg hclass).trans h.startCh
  · simp [lastClass, ComposeState.pass, NormTable.classOf]
  obtain he | he := mem_append.mp he
  · exact h.marks e he
  · rw [mem_singleton.mp he]
    exact hmark

lemma Composing.next (hstarter : info.classOf d = 0) : Composing info (done ++ c :: mid) d [] rest
      (s.pass info (utf16EncodeChar d).length d.toNat) := by
  have hclass : getCombiningClass info d.toNat = 0 := (class_eq_zero info d).mpr hstarter
  have hsame : (done ++ c :: mid) ++ d :: ([] ++ rest) = done ++ c :: (mid ++ d :: rest) := by simp
  refine ⟨by rw [hsame]; exact h.str, h.srclen, ?_, ?_, ?_, ?_, nofun, ?_⟩
  · rw [length_encode_snoc, ← h.i]
    rfl
  · exact (if_pos hclass).trans h.i
  · exact if_pos hclass
  · exact congrArg UInt8.toNat hclass
  · exact (isChain_append.mp h.order).2.1.tail

lemma Composing.merge {e : Char} (hfree : ¬ Blocked info.classOf mid d) :
    ∃ str, mergeInto s.str s.srclen s.i (utf16EncodeChar d).length s.lastStarter s.startCh e.toNat =
        some str ∧
      Composing info done e [] (mid ++ rest) (s.merged (utf16EncodeChar d).length e.toNat str) := by
  have hc := length_utf16EncodeChar c
  have hd := length_utf16EncodeChar d
  have he := length_utf16EncodeChar e
  have hstr : s.str.take s.srclen = encode done ++ (utf16EncodeChar c ++ (encode mid ++
      (utf16EncodeChar d ++ encode rest))) := by
    rw [h.str]
    simp only [encode_append, encode_cons]
  have hi : s.i = (encode done).length + (utf16EncodeChar c).length + (encode mid).length := by
    rw [h.i, encode_append, encode_cons, length_append, length_append, add_assoc]
  have hlength := congrArg List.length hstr
  simp only [length_take, length_append, min_eq_left h.srclen] at hlength
  obtain ⟨str, hmerge, hkept, htake⟩ := @mergeInto_spec _ _ _ _ _ _ e _ hstr h.srclen
  have hsrclen : (s.merged (utf16EncodeChar d).length e.toNat str).srclen =
      (encode done).length + (utf16EncodeChar e).length + (encode mid).length +
        (encode rest).length := by
    have hunits : (s.merged (utf16EncodeChar d).length e.toNat str).srclen =
        s.srclen + unitsOf e.toNat - unitsOf s.startCh - (utf16EncodeChar d).length := rfl
    rw [hunits, h.startCh, unitsOf_char, unitsOf_char]
    omega
  refine ⟨str, ?_, ?_, ?_, ?_, rfl.trans h.lastStarter, rfl, rfl, nofun, h.order.merge hfree⟩
  · rw [hi, h.lastStarter, h.startCh]
    exact hmerge
  · rw [hsrclen]
    refine htake.trans ?_
    simp only [encode_append, encode_cons, nil_append]
  · have hstr' : (s.merged (utf16EncodeChar d).length e.toNat str).str = str := rfl
    have hle := h.srclen
    rw [hstr', hkept]
    omega
  · have hnext : (s.merged (utf16EncodeChar d).length e.toNat str).i =
        s.lastStarter + unitsOf e.toNat := rfl
    rw [hnext, h.lastStarter, unitsOf_char, length_encode_snoc]

end

/-- How many turns are left behind a starter with `n` characters, of which `r` are ahead. -/
def turnsLeft (n r : ℕ) : ℕ :=
  n * (n + 1) + r

lemma turnsLeft_lt {n n' r r' : ℕ} (h : n' < n ∧ r' ≤ n' ∨ n' = n ∧ r' < r) :
    turnsLeft n' r' < turnsLeft n r := by
  unfold turnsLeft
  obtain ⟨hn, hr⟩ | ⟨rfl, hr⟩ := h
  · have hmul : (n' + 1) * (n' + 1 + 1) ≤ n * (n + 1) :=
      Nat.mul_le_mul hn (Nat.succ_le_succ hn)
    have hexpand : (n' + 1) * (n' + 1 + 1) = n' * (n' + 1) + 2 * (n' + 1) := by
      rw [Nat.mul_succ, Nat.succ_mul]
      omega
    omega
  · exact Nat.add_lt_add_left hr _

lemma composeLoop_starter (b : info.Buckets) (hfuel : 2 ^ 16 ≤ fuel)
    (h : Composing info done c mid rest s)
    (hsteps : turnsLeft (mid.length + rest.length) rest.length < steps) :
    Composes (composeLoop info fuel steps s)
      (done ++ composedFrom info.classOf b.composite c mid rest) := by
  induction steps generalizing done c mid rest s with
  | zero => exact absurd hsteps (Nat.not_lt_zero _)
  | succ steps ih =>
    cases rest with
    | nil =>
      have hall := h.str
      rw [append_nil] at hall
      rw [composeLoop, if_neg, composedFrom_end h.marks, Composes, map_some, hall]
      rw [h.i, h.length, append_nil]
      exact lt_irrefl _
    | cons d rest =>
      have hless : ∀ {n r : ℕ}, n < mid.length + (rest.length + 1) ∧ r ≤ n ∨
          n = mid.length + (rest.length + 1) ∧ r < rest.length + 1 → turnsLeft n r < steps :=
        fun h => Nat.lt_of_lt_of_le (turnsLeft_lt h) (Nat.le_of_lt_succ hsteps)
      by_cases hpass : Blocked info.classOf mid d ∨ b.composite c d = none
      · have hturn : composeLoop info fuel (steps + 1) s =
            composeLoop info fuel steps (s.pass info (utf16EncodeChar d).length d.toNat) := by
          refine composeLoop_pass h.ahead (hpass.imp (fun hblocked => ?_) fun hnone => ?_)
          · exact Or.inr (h.blocked_iff.mpr hblocked)
          · rw [h.startCh, b.findComposite_eq hfuel, hnone]
            rfl
        rw [hturn]
        by_cases hstarter : info.classOf d = 0
        · rw [composedFrom_starter hpass hstarter h.marks]
          have hnext := ih (h.next hstarter) (hless (Or.inl (by
            rw [length_nil]
            omega)))
          rw [append_assoc] at hnext
          exact hnext
        rw [composedFrom_pass hpass]
        exact ih (h.pass hstarter) (hless (Or.inr (by
          rw [length_append, length_singleton]
          omega)))
      · rw [not_or] at hpass
        obtain ⟨e, he⟩ := ne_none_iff_exists'.mp hpass.2
        obtain ⟨str, hmerge, hnext⟩ := h.merge (e := e) hpass.1
        rw [composedFrom_merge hpass.1 he]
        have hcomp : findComposite info fuel s.startCh d.toNat = some e.toNat := by
          rw [h.startCh, b.findComposite_eq hfuel, he]
          rfl
        rw [composeLoop_merge h.ahead h.started (mt h.blocked_iff.mp hpass.1) hcomp
          (b.composite_ne_zero he) hmerge]
        exact ih hnext (hless (Or.inl (by
          rw [length_nil, length_append]
          omega)))

/-- No starter has been found. -/
structure Leading (done rest : List Char) (s : ComposeState) : Prop where
  str : s.str.take s.srclen = encode (done ++ rest)
  srclen : s.srclen = s.str.length
  i : s.i = (encode done).length
  lastStarter : s.lastStarter = s.srclen

lemma Leading.ahead (h : Leading done rest s) : (s.str.take s.srclen).drop s.i = encode rest := by
  rw [h.str, h.i, drop_encode]

lemma composeLoop_leading (b : info.Buckets) (hfuel : 2 ^ 16 ≤ fuel) (h : Leading done rest s)
    (horder : InOrder info.classOf rest) (hsteps : turnsLeft rest.length rest.length < steps) :
    Composes (composeLoop info fuel steps s)
      (done ++ composed info.classOf b.composite none rest) := by
  induction rest generalizing done s steps with
  | nil =>
    obtain ⟨steps, rfl⟩ := Nat.exists_eq_add_one_of_ne_zero (Nat.ne_zero_of_lt hsteps)
    have hall := h.str
    rw [composeLoop, if_neg, Composes, Option.map_some, hall, composed]
    have hlength := congrArg List.length hall
    rw [length_take, ← h.srclen, min_self, append_nil] at hlength
    rw [h.i, hlength]
    exact Nat.lt_irrefl _
  | cons d rest ih =>
    obtain ⟨steps, rfl⟩ := Nat.exists_eq_add_one_of_ne_zero (Nat.ne_zero_of_lt hsteps)
    have hless : turnsLeft rest.length rest.length < steps :=
      Nat.lt_of_lt_of_le (turnsLeft_lt (.inl ⟨Nat.lt_succ_self _, Nat.le_refl _⟩))
        (Nat.le_of_lt_succ hsteps)
    have hsame : done ++ d :: rest = (done ++ [d]) ++ rest := append_cons ..
    rw [composeLoop_pass h.ahead (.inl (.inl h.lastStarter))]
    by_cases hstarter : info.classOf d = 0
    · have hclass : getCombiningClass info d.toNat = 0 := (class_eq_zero info d).mpr hstarter
      rw [composed_starter hstarter]
      refine composeLoop_starter b hfuel ⟨h.str, le_of_eq h.srclen, ?_, ?_, ?_, ?_, (by rintro _ ⟨⟩),
        horder.tail⟩ ?_
      · rw [length_encode_snoc, ← h.i]
        rfl
      · exact (if_pos hclass).trans h.i
      · exact if_pos hclass
      · exact congrArg UInt8.toNat hclass
      · rw [length_nil, zero_add]
        exact hless
    · have hclass : ¬ getCombiningClass info d.toNat = 0 := mt (class_eq_zero info d).mp hstarter
      have hnext : Leading (done ++ [d]) rest (s.pass info (utf16EncodeChar d).length d.toNat) := by
        refine ⟨by rw [← hsame]; exact h.str, h.srclen, ?_, ?_⟩
        · rw [length_encode_snoc, ← h.i]
          rfl
        · exact (if_neg hclass).trans h.lastStarter
      rw [composed_mark hstarter, append_cons]
      exact ih hnext horder.tail hless

lemma composeString_eq (b : info.Buckets) {cs : List Char} (horder : InOrder info.classOf cs)
    (hfuel : 2 ^ 16 ≤ fuel) (hsteps : turnsLeft cs.length cs.length < fuel) :
    composeString info fuel (encode cs) =
      some (encode (composed info.classOf b.composite none cs)) := by
  have hleading : Leading [] cs ⟨encode cs, (encode cs).length, 0, (encode cs).length, 0, 0⟩ :=
    ⟨take_length, rfl, rfl, rfl⟩
  exact composeLoop_leading b hfuel hleading horder hsteps

lemma length_composed_le (b : info.Buckets) (cs : List Char) :
    (encode (composed info.classOf b.composite none cs)).length ≤ (encode cs).length := by
  have hsize : ∀ s c d, b.composite s c = some d → (utf16EncodeChar d).length ≤
      (utf16EncodeChar s).length + (utf16EncodeChar c).length := by
    intro s c d _
    have hs := length_utf16EncodeChar s
    have hc := length_utf16EncodeChar c
    have hd := length_utf16EncodeChar d
    omega
  have hle : ((composed info.classOf b.composite none cs).map _).sum ≤ _ :=
    composed_size hsize none cs
  unfold encode
  rw [length_flatMap, length_flatMap]
  exact hle

/-- Both functions end, for every table and every string of characters: the first with the stable
sort of each run of marks, and the second, where the buckets of the table are made of characters,
with the composition of a string in order, which is not longer. -/
theorem order_and_compose (info : NormTable) (cs : List Char)
    (hlength : (encode cs).length < 2 ^ 32) :
    (∃ n, ∀ fuel ≥ n, canonicalOrderString info fuel (encode cs) =
      some (encode (canonicalOrder info.classOf cs))) ∧
    ∀ b : info.Buckets, InOrder info.classOf cs →
      (∃ n, ∀ fuel ≥ n, composeString info fuel (encode cs) =
        some (encode (composed info.classOf b.composite none cs))) ∧
      (encode (composed info.classOf b.composite none cs)).length ≤ (encode cs).length := by
  constructor
  · refine ⟨cs.length * cs.length + 1, fun fuel hfuel => ?_⟩
    refine canonicalOrderString_eq info cs hlength fun n hn => ?_
    exact Nat.lt_of_le_of_lt (Nat.mul_le_mul hn hn) hfuel
  · intro b horder
    refine ⟨⟨2 ^ 16 + turnsLeft cs.length cs.length + 1, fun fuel hfuel => ?_⟩,
      length_composed_le b cs⟩
    exact composeString_eq b horder (by omega) (by omega)

def ringTable : NormTable where
  propsLevel1 n := if n = 6 then 1 else 0
  propsLevel2 _ := 1
  classes n := if n = 1 then 230 else 0
  compSize := 1
  compHash n := if n = 0 then 0 else 3
  compSeq n := if n = 0 then 0x41 else if n = 1 then 0x30a else 0xc5

def ringBuckets : ringTable.Buckets where
  triples _ := [('A', Char.ofNat 0x30a, Char.ofNat 0xc5)]
  size := by decide
  units hash hhash := by
    rw [Nat.lt_one_iff.mp hhash]
    decide

theorem order_and_compose_ring :
    ∃ n, ∀ fuel ≥ n, composeString ringTable fuel (encode ['A', Char.ofNat 0x30a]) =
      some (encode [Char.ofNat 0xc5]) := by
  have horder : InOrder ringTable.classOf ['A', Char.ofNat 0x30a] := by
    refine isChain_cons_cons.mpr ⟨.inr (by decide), ?_⟩
    exact isChain_singleton _
  have hcomposed : composed ringTable.classOf ringBuckets.composite none
      ['A', Char.ofNat 0x30a] = [Char.ofNat 0xc5] := by
    rw [composed_starter (by decide), composedFrom_merge (d := Char.ofNat 0xc5) (by decide)
      (by decide), append_nil, composedFrom_end nofun]
  have hcompose := (order_and_compose ringTable ['A', Char.ofNat 0x30a] (by decide)).2 ringBuckets
    horder
  rw [hcomposed] at hcompose
  exact hcompose.1

def cutTable : NormTable where
  propsLevel1 _ := 0
  propsLevel2 _ := 0
  classes _ := 0
  compSize := 1
  compHash n := if n = 0 then 0 else 1
  compSeq _ := 0xdc00

/-- The lookup of a composite stays where it is, and the composition never ends. -/
theorem compose_cut_bucket : ∃ (info : NormTable) (cs : List Char), InOrder info.classOf cs ∧
      ∀ fuel, composeString info fuel (encode cs) = none := by
  refine ⟨cutTable, ['a', 'b'], ?_, fun fuel => ?_⟩
  · refine isChain_cons_cons.mpr ⟨.inl (by decide), ?_⟩
    exact isChain_singleton _
  · match fuel with
    | 0 => rfl
    | 1 => rfl
    | _ + 2 => rfl

end WineForge.Locale
