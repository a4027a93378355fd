import WineForge.Bitmaps.Ranges

/-!
# Searches for a number of bits

`RtlFindSetBits` and `RtlFindClearBits` try the positions from the hint on, and then those before
it. A hint from which the bits would reach behind the bitmap is dropped, but the sum that says so
is a 32-bit number.
-/

namespace WineForge.Bitmaps

open Library Option

variable (areBits : RtlBitmap → Nat → Nat → Option Bool)

/-- The loop over the positions; a hint that is not 0 is where the first pass began. -/
def findBitsLoop (bits : RtlBitmap) (count hint pos stop : Nat) : Option Nat :=
  if pos < stop then
    (areBits bits pos count).bind fun found =>
      if found then some pos
      else if pos = stop - 1 ∧ hint ≠ 0 then findBitsLoop bits count 0 0 hint
      else findBitsLoop bits count hint (pos + 1) stop
  else some noRun
termination_by (hint, stop - pos)

def findBits (bits : RtlBitmap) (count hint : Nat) : Option Nat :=
  if count = 0 ∨ bits.sizeOfBitMap < count then some noRun
  else
    let hint := if bits.sizeOfBitMap < (hint + count) % ulongRange then 0 else hint
    findBitsLoop areBits bits count hint hint bits.sizeOfBitMap

def rtlFindSetBits (bits : RtlBitmap) (count hint : Nat) : Option Nat :=
  findBits rtlAreBitsSet bits count hint

def rtlFindClearBits (bits : RtlBitmap) (count hint : Nat) : Option Nat :=
  findBits rtlAreBitsClear bits count hint

def findAndChange (find : RtlBitmap → Nat → Nat → Option Nat)
    (change : RtlBitmap → Nat → Nat → Option RtlBitmap) (bits : RtlBitmap) (count hint : Nat) :
    Option (Nat × RtlBitmap) :=
  (find bits count hint).bind fun pos =>
    if pos ≠ noRun then (change bits pos count).map fun bits => (pos, bits) else some (pos, bits)

def rtlFindSetBitsAndClear (bits : RtlBitmap) (count hint : Nat) : Option (Nat × RtlBitmap) :=
  findAndChange rtlFindSetBits rtlClearBits bits count hint

def rtlFindClearBitsAndSet (bits : RtlBitmap) (count hint : Nat) : Option (Nat × RtlBitmap) :=
  findAndChange rtlFindClearBits rtlSetBits bits count hint

/-- `count` consecutive bits with one value inside the bitmap. -/
def BitsAt (v : Bool) (bits : RtlBitmap) (pos count : Nat) : Prop :=
  InRange bits pos count ∧ AllAre v bits pos (pos + count)

def Tests (areBits : RtlBitmap → Nat → Nat → Option Bool) (v : Bool) : Prop :=
  ∀ bits pos count, ∃ result, areBits bits pos count = some result ∧
    (result = true ↔ BitsAt v bits pos count)

variable {areBits} {v : Bool} {bits : RtlBitmap} {count hint pos stop : Nat}

def FindsFirst (v : Bool) (bits : RtlBitmap) (count pos stop result : Nat) : Prop :=
  (pos ≤ result ∧ result < stop ∧ BitsAt v bits result count) ∨
    (result = noRun ∧ ∀ p, pos ≤ p → p < stop → ¬BitsAt v bits p count)

lemma findBitsLoop_zero (h : Tests areBits v) :
    ∃ result, findBitsLoop areBits bits count 0 pos stop = some result ∧
      FindsFirst v bits count pos stop result := by
  induction hn : stop - pos generalizing pos with
  | zero =>
    refine ⟨noRun, ?_, .inr ⟨rfl, fun p hle hlt => ?_⟩⟩
    · rw [findBitsLoop, if_neg]
      omega
    · omega
  | succ n ih =>
    obtain ⟨found, htest, hfound⟩ := h bits pos count
    rw [findBitsLoop, if_pos (by omega), htest, bind_some]
    by_cases hset : found = true
    · rw [if_pos hset]
      exact ⟨pos, rfl, .inl ⟨le_rfl, by omega, hfound.mp hset⟩⟩
    rw [if_neg hset, if_neg (by simp)]
    obtain ⟨result, hresult, hfirst⟩ := @ih (pos + 1) (by omega)
    refine ⟨result, hresult, ?_⟩
    obtain ⟨hle, hrest⟩ | ⟨hnone, hall⟩ := hfirst
    · exact .inl ⟨by omega, hrest⟩
    refine .inr ⟨hnone, fun p hle hlt => ?_⟩
    obtain rfl | hgt := eq_or_lt_of_le hle
    · exact fun hbits => hset (hfound.mpr hbits)
    · exact hall p hgt hlt

lemma findBitsLoop_hint (h : Tests areBits v) (hhint : hint ≠ 0) (hpos : pos < stop) :
    ∃ result, findBitsLoop areBits bits count hint pos stop = some result ∧
      ((pos ≤ result ∧ result < stop ∧ BitsAt v bits result count) ∨
        ((∀ p, pos ≤ p → p < stop → ¬BitsAt v bits p count) ∧
          FindsFirst v bits count 0 hint result)) := by
  induction hn : stop - pos generalizing pos with
  | zero => omega
  | succ n ih =>
    obtain ⟨found, htest, hfound⟩ := h bits pos count
    rw [findBitsLoop, if_pos hpos, htest, bind_some]
    by_cases hset : found = true
    · rw [if_pos hset]
      exact ⟨pos, rfl, .inl ⟨le_rfl, hpos, hfound.mp hset⟩⟩
    have hnot : ¬BitsAt v bits pos count := fun hbits => hset (hfound.mpr hbits)
    rw [if_neg hset]
    by_cases hlast : pos = stop - 1
    · rw [if_pos ⟨hlast, hhint⟩]
      obtain ⟨result, hresult, hfirst⟩ := findBitsLoop_zero h
      refine ⟨result, hresult, .inr ⟨fun p hle hlt => ?_, hfirst⟩⟩
      have heq : p = pos := by omega
      exact heq ▸ hnot
    rw [if_neg fun hend => hlast hend.1]
    obtain ⟨result, hresult, hfirst⟩ := @ih (pos + 1) (by omega) (by omega)
    refine ⟨result, hresult, ?_⟩
    obtain ⟨hle, hrest⟩ | ⟨hall, hrest⟩ := hfirst
    · exact .inl ⟨by omega, hrest⟩
    refine .inr ⟨fun p hle hlt => ?_, hrest⟩
    obtain rfl | hgt := eq_or_lt_of_le hle
    · exact hnot
    · exact hall p hgt hlt

/-- A search reports a position with the bits, one at or behind the hint if there is one, and none
only if there is none. -/
def Right (v : Bool) (bits : RtlBitmap) (count hint result : Nat) : Prop :=
  (result = noRun ↔ ∀ p, ¬BitsAt v bits p count) ∧
    (result ≠ noRun → BitsAt v bits result count ∧
      ((∃ p, hint ≤ p ∧ BitsAt v bits p count) → hint ≤ result))

/-- The end of the bits from the hint on is a 32-bit number, if the hint lies behind the bitmap. -/
def HintFits (v : Bool) (bits : RtlBitmap) (count hint : Nat) : Prop :=
  hint < bits.sizeOfBitMap ∨ hint + count < ulongRange ∨ ∀ p, ¬BitsAt v bits p count

lemma BitsAt.lt_size (h : BitsAt v bits pos count) : pos < bits.sizeOfBitMap := by
  obtain ⟨⟨hcount, hend⟩, _⟩ := h
  omega

lemma BitsAt.ne_noRun (h : BitsAt v bits pos count) : pos ≠ noRun := by
  have hlt := h.lt_size
  have hsize := bits.size_lt
  unfold noRun ulongRange at *
  omega

lemma right_found {result : Nat} (h : BitsAt v bits result count)
    (hprefers : (∃ p, hint ≤ p ∧ BitsAt v bits p count) → hint ≤ result) :
    Right v bits count hint result :=
  ⟨iff_of_false h.ne_noRun fun hnone => hnone result h, fun _ => ⟨h, hprefers⟩⟩

lemma right_none (h : ∀ p, ¬BitsAt v bits p count) : Right v bits count hint noRun :=
  ⟨iff_of_true rfl h, fun hne => absurd rfl hne⟩

lemma FindsFirst.right {result : Nat} (h : FindsFirst v bits count 0 stop result)
    (hstop : ∀ p, BitsAt v bits p count → p < stop)
    (hhint : hint = 0 ∨ ∀ p, hint ≤ p → ¬BitsAt v bits p count) :
    Right v bits count hint result := by
  obtain ⟨_, _, hbits⟩ | ⟨rfl, hnone⟩ := h
  · apply right_found hbits
    rintro ⟨p, hle, hp⟩
    obtain rfl | hbehind := hhint
    · exact Nat.zero_le _
    · exact absurd hp (hbehind p hle)
  · exact right_none fun p hp => hnone p (Nat.zero_le p) (hstop p hp) hp

lemma findBitsLoop_right (h : Tests areBits v) (hhint : hint < bits.sizeOfBitMap) :
    ∃ result, findBitsLoop areBits bits count hint hint bits.sizeOfBitMap = some result ∧
      Right v bits count hint result := by
  by_cases hzero : hint = 0
  · subst hzero
    obtain ⟨result, hresult, hfirst⟩ :=
      @findBitsLoop_zero areBits v bits count 0 bits.sizeOfBitMap h
    exact ⟨result, hresult, hfirst.right (fun p hp => hp.lt_size) (.inl rfl)⟩
  obtain ⟨result, hresult, hfirst⟩ := findBitsLoop_hint h hzero hhint
  refine ⟨result, hresult, ?_⟩
  obtain ⟨hle, _, hbits⟩ | ⟨hnone, hfirst⟩ := hfirst
  · exact right_found hbits fun _ => hle
  have hbehind : ∀ p, hint ≤ p → ¬BitsAt v bits p count :=
    fun p hle hp => hnone p hle hp.lt_size hp
  refine hfirst.right (fun p hp => ?_) (.inr hbehind)
  by_contra hge
  exact hbehind p (Nat.not_lt.mp hge) hp

lemma findBits_right (h : Tests areBits v) (hhint : hint < ulongRange) :
    ∃ result, findBits areBits bits count hint = some result ∧
      (Right v bits count hint result ↔ HintFits v bits count hint) := by
  have hsize := bits.size_lt
  unfold findBits
  by_cases hcount : count = 0 ∨ bits.sizeOfBitMap < count
  · rw [if_pos hcount]
    have hnone : ∀ p, ¬BitsAt v bits p count := by
      rintro p ⟨⟨hpos, hend⟩, _⟩
      omega
    exact ⟨noRun, rfl, iff_of_true (right_none hnone) (.inr (.inr hnone))⟩
  rw [if_neg hcount]
  by_cases hsum : hint + count < ulongRange
  · rw [Nat.mod_eq_of_lt hsum]
    have hfits : HintFits v bits count hint := .inr (.inl hsum)
    by_cases hbehind : bits.sizeOfBitMap < hint + count
    · rw [if_pos hbehind]
      obtain ⟨result, hresult, hfirst⟩ :=
        @findBitsLoop_zero areBits v bits count 0 bits.sizeOfBitMap h
      refine ⟨result, hresult, iff_of_true ?_ hfits⟩
      refine hfirst.right (fun p hp => hp.lt_size) (.inr ?_)
      rintro p hle ⟨⟨hpos, hend⟩, _⟩
      omega
    rw [if_neg hbehind]
    obtain ⟨result, hresult, hright⟩ :=
      @findBitsLoop_right areBits v bits count hint h (by omega)
    exact ⟨result, hresult, iff_of_true hright hfits⟩
  · -- the sum wraps, and the hint is kept wherever it is
    have hwraps : (hint + count) % ulongRange = hint + count - ulongRange := by
      rw [Nat.mod_eq_sub_mod (by omega), Nat.mod_eq_of_lt (by omega)]
    rw [hwraps, if_neg (by omega)]
    by_cases hinside : hint < bits.sizeOfBitMap
    · obtain ⟨result, hresult, hright⟩ :=
        @findBitsLoop_right areBits v bits count hint h hinside
      exact ⟨result, hresult, iff_of_true hright (.inl hinside)⟩
    refine ⟨noRun, ?_, ?_⟩
    · rw [findBitsLoop, if_neg hinside]
    constructor
    · intro hright
      exact .inr (.inr (hright.1.mp rfl))
    · rintro (hlt | hlt | hnone)
      · exact absurd hlt hinside
      · exact absurd hlt hsum
      · exact right_none hnone

/-- The two searches for bits with one value: the plain one is right, and the other one changes
exactly the bits that are found. -/
def SearchesRight (v : Bool) (find : RtlBitmap → Nat → Nat → Option Nat)
    (findChange : RtlBitmap → Nat → Nat → Option (Nat × RtlBitmap)) (bits : RtlBitmap)
    (count hint : Nat) : Prop :=
  ∃ result bits', find bits count hint = some result ∧
    findChange bits count hint = some (result, bits') ∧ Right v bits count hint result ∧
    (result = noRun → bits' = bits) ∧
    (result ≠ noRun → Overwrites (!v) result (result + count) bits bits')

lemma findAndChange_right {find : RtlBitmap → Nat → Nat → Option Nat}
    {change : RtlBitmap → Nat → Nat → Option RtlBitmap}
    (hfind : ∃ result, find bits count hint = some result ∧
      (Right v bits count hint result ↔ HintFits v bits count hint))
    (hchange : ∀ pos, InRange bits pos count → ∃ bits', change bits pos count = some bits' ∧
      Overwrites (!v) pos (pos + count) bits bits') :
    SearchesRight v find (findAndChange find change) bits count hint ↔
      HintFits v bits count hint := by
  obtain ⟨result, hresult, hright⟩ := hfind
  constructor
  · rintro ⟨result', _, hresult', _, hright', _⟩
    rw [hresult] at hresult'
    obtain rfl := some.inj hresult'
    exact hright.mp hright'
  · intro hfits
    have hright := hright.mpr hfits
    unfold SearchesRight findAndChange
    rw [hresult, bind_some]
    by_cases hne : result ≠ noRun
    · obtain ⟨bits', hbits', hover⟩ := hchange result (hright.2 hne).1.1
      rw [if_pos hne, hbits']
      exact ⟨result, bits', rfl, rfl, hright, fun heq => absurd heq hne, fun _ => hover⟩
    · rw [if_neg hne]
      exact ⟨result, bits, rfl, rfl, hright, fun _ => rfl, fun hne' => absurd hne' hne⟩

lemma rtlAreBitsSet_tests : Tests rtlAreBitsSet true := rtlAreBitsSet_eq

lemma rtlAreBitsClear_tests : Tests rtlAreBitsClear false := rtlAreBitsClear_eq

/-- The searches are complete exactly where a hint behind the bitmap does not make the sum of hint
and count wrap. -/
theorem find_bits_complete_iff (bits : RtlBitmap) (count hint : Nat) (hhint : hint < ulongRange) :
    (SearchesRight true rtlFindSetBits rtlFindSetBitsAndClear bits count hint ↔
      HintFits true bits count hint) ∧
    (SearchesRight false rtlFindClearBits rtlFindClearBitsAndSet bits count hint ↔
      HintFits false bits count hint) := by
  constructor
  · apply findAndChange_right (findBits_right rtlAreBitsSet_tests hhint)
    intro pos hpos
    exact rtlClearBits_overwrites hpos
  · apply findAndChange_right (findBits_right rtlAreBitsClear_tests hhint)
    intro pos hpos
    exact rtlSetBits_overwrites hpos

theorem find_bits_complete_forty :
    SearchesRight false rtlFindClearBits rtlFindClearBitsAndSet fortyBits 3 30 :=
  (find_bits_complete_iff fortyBits 3 30 (by decide)).2.mpr (.inl (by decide))

/-- The last hint makes the search for one clear bit fail in a bitmap without set bits. -/
theorem find_bits_last_hint :
    BitsAt false fortyBits 0 1 ∧ rtlFindClearBits fortyBits 1 0xffffffff = some noRun ∧
      ¬SearchesRight false rtlFindClearBits rtlFindClearBitsAndSet fortyBits 1 0xffffffff := by
  have hclear : BitsAt false fortyBits 0 1 := by
    refine ⟨by decide, fun i hle hlt => ?_⟩
    have hi : i = 0 := by omega
    subst hi
    decide
  have hfind : rtlFindClearBits fortyBits 1 0xffffffff = some noRun := by
    unfold rtlFindClearBits findBits
    rw [if_neg (by decide), findBitsLoop, if_neg (by decide)]
  refine ⟨hclear, hfind, ?_⟩
  rintro ⟨result, _, hresult, _, hright, _⟩
  rw [hfind] at hresult
  obtain rfl := some.inj hresult
  exact hright.1.mp rfl 0 hclear

end WineForge.Bitmaps
