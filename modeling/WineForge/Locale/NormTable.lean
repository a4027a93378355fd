import Mathlib.Algebra.BigOperators.Group.List.Basic
import WineForge.Locale.Utf16

/-!
# Normalization tables

The property bytes and the combining classes of the code points, and the primary composites. The
parts of a table are memory from their start on, so that a read past the end of one has a value.
-/

namespace WineForge.Locale

open List Option

/-- What the functions below use of `struct norm_table`. -/
structure NormTable where
  propsLevel1 : ℕ → UInt8
  propsLevel2 : ℕ → UInt8
  classes : ℕ → UInt8
  compSize : ℕ
  compHash : ℕ → UInt16
  compSeq : ℕ → UInt16

def rol (val count : UInt8) : UInt8 :=
  (val <<< count) ||| (val >>> (8 - count))

def getCharProps (info : NormTable) (ch : ℕ) : UInt8 :=
  let off := info.propsLevel1 (ch / 128)
  if off = 0 ∨ off ≥ 0xfb then rol off 5
  else info.propsLevel2 ((off.toNat - 1) * 128 + ch % 128)

def getCombiningClass (info : NormTable) (c : ℕ) : UInt8 :=
  let class' := getCharProps info c &&& 0x3f
  if class' = 0x3f then 0 else info.classes class'.toNat

def reorderablePair (info : NormTable) (c1 c2 : ℕ) : Bool :=
  let ccc1 := getCombiningClass info c1
  if ccc1 < 2 then false
  else
    let ccc2 := getCombiningClass info c2
    decide (ccc2 ≠ 0 ∧ ccc1 > ccc2)

def hangulSBase : ℕ := 0xac00
def hangulLBase : ℕ := 0x1100
def hangulVBase : ℕ := 0x1161
def hangulTBase : ℕ := 0x11a7
def hangulLCount : ℕ := 19
def hangulVCount : ℕ := 21
def hangulTCount : ℕ := 28
def hangulNCount : ℕ := hangulVCount * hangulTCount
def hangulSCount : ℕ := hangulLCount * hangulNCount

/-- `compose_hangul`, where 0 stands for no composite. -/
def composeHangul (ch1 ch2 : ℕ) : ℕ :=
  if ch1 ≥ hangulLBase ∧ ch1 < hangulLBase + hangulLCount ∧ ch2 ≥ hangulVBase ∧
      ch2 - hangulVBase < hangulVCount then
    hangulSBase + ((ch1 - hangulLBase) * hangulVCount + (ch2 - hangulVBase)) * hangulTCount
  else if ch1 ≥ hangulSBase ∧ ch1 < hangulSBase + hangulSCount ∧
      (ch1 - hangulSBase) % hangulTCount = 0 ∧ ch2 > hangulTBase ∧
      ch2 - hangulTBase < hangulTCount then
    ch1 + (ch2 - hangulTBase)
  else 0

/-- `get_utf16( chars + start, end - start, ch )`. The length is unsigned: it is at most 1 at the
end and one before, and large behind the end. -/
def readSeq (info : NormTable) (stop start : ℕ) : Option (ℕ × ℕ) :=
  if stop = start ∨ stop = start + 1 then getUtf16 [info.compSeq start]
  else getUtf16 [info.compSeq start, info.compSeq (start + 1)]

def readTriple (info : NormTable) (stop start : ℕ) : Option (ℕ × ℕ × ℕ × ℕ) := do
  let (len0, c0) ← readSeq info stop start
  let (len1, c1) ← readSeq info stop (start + len0)
  let (len2, c2) ← readSeq info stop (start + len0 + len1)
  some (start + len0 + len1 + len2, c0, c1, c2)

/-- The loop of `compose_chars`. There is no result where a code point cannot be read: the position
stays the same, and the code points are compared without a value. -/
def composeCharsLoop (info : NormTable) (ch1 ch2 stop : ℕ) : ℕ → ℕ → Option ℕ
  | 0, _ => none
  | fuel + 1, start =>
    if start < stop then
      match readTriple info stop start with
      | none => none
      | some (next, c0, c1, c2) =>
        if c0 = ch1 ∧ c1 = ch2 then some c2
        else composeCharsLoop info ch1 ch2 stop fuel next
    else some 0

def compHashOf (info : NormTable) (ch1 ch2 : ℕ) : ℕ :=
  (ch1 + 95 * ch2) % info.compSize

/-- `compose_chars`; the division by a size of 0 has no result. -/
def composeChars (info : NormTable) (fuel ch1 ch2 : ℕ) : Option ℕ :=
  if info.compSize = 0 then none
  else
    let hash := compHashOf info ch1 ch2
    composeCharsLoop info ch1 ch2 (info.compHash (hash + 1)).toNat fuel (info.compHash hash).toNat

/-- The composite that `compose_string` looks for. -/
def findComposite (info : NormTable) (fuel ch1 ch2 : ℕ) : Option ℕ :=
  if composeHangul ch1 ch2 ≠ 0 then some (composeHangul ch1 ch2)
  else composeChars info fuel ch1 ch2

namespace NormTable

def classOf (info : NormTable) (c : Char) : ℕ :=
  (getCombiningClass info c.toNat).toNat

def unitsFrom (info : NormTable) (stop start : ℕ) : List UInt16 :=
  (List.range' start (stop - start)).map info.compSeq

def encodeTriple (t : Char × Char × Char) : List UInt16 :=
  utf16EncodeChar t.1 ++ (utf16EncodeChar t.2.1 ++ utf16EncodeChar t.2.2)

/-- The buckets of the composition table, each a sequence of two characters and their composite. -/
structure Buckets (info : NormTable) where
  triples : ℕ → List (Char × Char × Char)
  size : info.compSize ≠ 0
  units : ∀ hash < info.compSize,
    info.unitsFrom (info.compHash (hash + 1)).toNat (info.compHash hash).toNat =
      (triples hash).flatMap encodeTriple

variable {info : NormTable}

def isPair (c1 c2 : Char) (t : Char × Char × Char) : Bool :=
  decide (t.1 = c1 ∧ t.2.1 = c2)

def Buckets.pair (b : info.Buckets) (c1 c2 : Char) : Option Char :=
  (((b.triples (compHashOf info c1.toNat c2.toNat)).find? (isPair c1 c2)).map fun t =>
    t.2.2).filter fun c => decide (c.toNat ≠ 0)

def Buckets.composite (b : info.Buckets) (c1 c2 : Char) : Option Char :=
  if composeHangul c1.toNat c2.toNat ≠ 0 then
    some (Char.ofNat (composeHangul c1.toNat c2.toNat))
  else b.pair c1 c2

variable {stop start : ℕ}

lemma unitsFrom_cons (h : start < stop) :
    info.unitsFrom stop start = info.compSeq start :: info.unitsFrom stop (start + 1) := by
  unfold unitsFrom
  have hlength : stop - start = (stop - (start + 1)) + 1 := by omega
  rw [hlength, range'_succ, map_cons]

lemma unitsFrom_of_le (h : stop ≤ start) : info.unitsFrom stop start = [] := by
  rw [unitsFrom, Nat.sub_eq_zero_of_le h]
  rfl

lemma lt_of_unitsFrom {u : UInt16} {rest : List UInt16}
    (h : info.unitsFrom stop start = u :: rest) : start < stop := by
  by_contra hle
  rw [unitsFrom_of_le (Nat.le_of_not_lt hle)] at h
  exact nomatch h

lemma readSeq_char {c : Char} {rest : List UInt16}
    (h : info.unitsFrom stop start = utf16EncodeChar c ++ rest) :
    start < stop ∧ readSeq info stop start = some ((utf16EncodeChar c).length, c.toNat) ∧
      info.unitsFrom stop (start + (utf16EncodeChar c).length) = rest := by
  have hread : ∀ tail, getUtf16 (utf16EncodeChar c ++ tail) = _ := getUtf16_char c
  have hshape : (∃ u, utf16EncodeChar c = [u]) ∨ ∃ u v, utf16EncodeChar c = [u, v] := by
    unfold utf16EncodeChar
    split
    · exact .inl ⟨_, rfl⟩
    · exact .inr ⟨_, _, rfl⟩
  obtain ⟨u, hu⟩ | ⟨u, v, huv⟩ := hshape
  · rw [hu] at h hread ⊢
    have hlt := lt_of_unitsFrom h
    rw [unitsFrom_cons hlt] at h
    obtain ⟨rfl, hrest⟩ := List.cons.inj h
    refine ⟨hlt, ?_, hrest⟩
    rw [readSeq]
    split
    · exact hread []
    · exact hread [_]
  rw [huv] at h hread ⊢
  have hlt := lt_of_unitsFrom h
  rw [unitsFrom_cons hlt] at h
  obtain ⟨rfl, hrest⟩ := List.cons.inj h
  have hlt' := lt_of_unitsFrom hrest
  rw [unitsFrom_cons hlt'] at hrest
  obtain ⟨rfl, hrest'⟩ := List.cons.inj hrest
  refine ⟨hlt, ?_, hrest'⟩
  rw [readSeq, if_neg (by omega)]
  exact hread []

lemma readTriple_eq {len0 c0 len1 c1 len2 c2 : ℕ} (h0 : readSeq info stop start = some (len0, c0))
    (h1 : readSeq info stop (start + len0) = some (len1, c1))
    (h2 : readSeq info stop (start + len0 + len1) = some (len2, c2)) :
    readTriple info stop start = some (start + len0 + len1 + len2, c0, c1, c2) := by
  exact bind_eq_some_iff.mpr ⟨_, h0, bind_eq_some_iff.mpr ⟨_, h1,
    bind_eq_some_iff.mpr ⟨_, h2, rfl⟩⟩⟩

lemma isPair_iff {c1 c2 : Char} {t : Char × Char × Char} :
    isPair c1 c2 t = true ↔ t.1.toNat = c1.toNat ∧ t.2.1.toNat = c2.toNat := by
  rw [isPair, decide_eq_true_eq, Char.toNat_inj, Char.toNat_inj]

lemma composeCharsLoop_eq (c1 c2 : Char) {ts : List (Char × Char × Char)} {fuel : ℕ}
    (h : info.unitsFrom stop start = ts.flatMap encodeTriple) (hfuel : ts.length < fuel) :
    composeCharsLoop info c1.toNat c2.toNat stop fuel start =
      some (((ts.find? (isPair c1 c2)).map fun t => t.2.2.toNat).getD 0) := by
  induction ts generalizing start fuel with
  | nil =>
    obtain ⟨fuel, rfl⟩ := Nat.exists_eq_add_one_of_ne_zero (Nat.ne_of_gt hfuel)
    rw [composeCharsLoop, if_neg]
    · rfl
    · intro hlt
      rw [unitsFrom_cons hlt] at h
      exact nomatch h
  | cons t ts ih =>
    obtain ⟨fuel, rfl⟩ := Nat.exists_eq_add_one_of_ne_zero (Nat.ne_zero_of_lt hfuel)
    rw [flatMap_cons, encodeTriple, append_assoc, append_assoc] at h
    obtain ⟨hlt, hread0, h⟩ := readSeq_char h
    obtain ⟨-, hread1, h⟩ := readSeq_char h
    obtain ⟨-, hread2, h⟩ := readSeq_char h
    rw [composeCharsLoop, if_pos hlt, readTriple_eq hread0 hread1 hread2]
    dsimp only
    by_cases hpair : isPair c1 c2 t = true
    · rw [if_pos (isPair_iff.mp hpair), find?_cons_of_pos hpair]
      rfl
    · rw [if_neg (mt isPair_iff.mpr hpair), find?_cons_of_neg hpair]
      exact ih h (Nat.lt_of_succ_lt_succ hfuel)

lemma Buckets.length_triples (b : info.Buckets) {hash : ℕ} (h : hash < info.compSize) :
    (b.triples hash).length < 2 ^ 16 := by
  have hlength := congrArg List.length (b.units hash h)
  have hle : (b.triples hash).length ≤ ((b.triples hash).flatMap encodeTriple).length := by
    rw [length_flatMap]
    have hone : ∀ t ∈ b.triples hash, 1 ≤ (encodeTriple t).length := by
      intro t _
      rw [encodeTriple, length_append, utf16EncodeChar]
      split
      · exact Nat.le_add_right _ _
      · exact Nat.le_add_right_of_le (Nat.le_succ _)
    have hsum := length_le_sum_of_one_le _ (forall_mem_map.mpr hone)
    rwa [length_map] at hsum
  have hstop := (info.compHash (hash + 1)).toNat_lt
  rw [unitsFrom, length_map, length_range'] at hlength
  omega

lemma toNat_ofNat_valid {n : ℕ} (h : n.isValidChar) : (Char.ofNat n).toNat = n := by
  rw [Char.ofNat, dif_pos h]
  rfl

lemma composeHangul_lt (ch1 ch2 : ℕ) : composeHangul ch1 ch2 < 0xd800 := by
  unfold composeHangul
  split
  · simp only [hangulSBase, hangulLBase, hangulLCount, hangulVBase, hangulVCount, hangulTCount] at *
    omega
  split
  · simp only [hangulSBase, hangulSCount, hangulNCount, hangulLCount, hangulVCount, hangulTBase,
      hangulTCount] at *
    omega
  · decide

lemma Buckets.findComposite_eq (b : info.Buckets) {fuel : ℕ} (hfuel : 2 ^ 16 ≤ fuel)
    (c1 c2 : Char) : findComposite info fuel c1.toNat c2.toNat =
      some (((b.composite c1 c2).map Char.toNat).getD 0) := by
  unfold findComposite composite
  split
  · have hvalid : (composeHangul c1.toNat c2.toNat).isValidChar :=
      .inl (composeHangul_lt _ _)
    rw [map_some, getD_some, toNat_ofNat_valid hvalid]
  have hhash : compHashOf info c1.toNat c2.toNat < info.compSize :=
    Nat.mod_lt _ (Nat.pos_of_ne_zero b.size)
  rw [composeChars, if_neg b.size]
  rw [composeCharsLoop_eq c1 c2 (b.units _ hhash)
    (lt_of_lt_of_le (b.length_triples hhash) hfuel), pair]
  cases (b.triples (compHashOf info c1.toNat c2.toNat)).find? (isPair c1 c2) with
  | none => rfl
  | some t =>
    rw [map_some, map_some, filter_some]
    by_cases hnull : t.2.2.toNat = 0
    · simp [hnull]
    · simp [hnull]

lemma Buckets.composite_ne_zero (b : info.Buckets) {c1 c2 d : Char}
    (h : b.composite c1 c2 = some d) : d.toNat ≠ 0 := by
  unfold composite at h
  split at h
  · cases h
    have hvalid : (composeHangul c1.toNat c2.toNat).isValidChar :=
      .inl (composeHangul_lt _ _)
    rwa [toNat_ofNat_valid hvalid]
  · exact of_decide_eq_true (filter_eq_some_iff.mp h).2

end NormTable

end WineForge.Locale
