import WineForge.Bitmaps.State
import WineForge.Library.BitRuns

/-!
# When a run search is right

A search looks at whole bytes. It finds the first run among all their bits, those behind the end of
the bitmap included, and cuts the run off only where it reaches the end of a byte. A search that
starts inside a byte adds the offset of the run in the byte to its own position.
-/

namespace WineForge.Bitmaps

open List Option WineForge.Library

variable (view : Byte → Byte) (bits : RtlBitmap)

def bit (i : Nat) : Bool := (view (bits.buffer.getD (i / 8) 0)).getLsbD (i % 8)

def bytesEnd : Nat := (bits.sizeOfBitMap + 7) / 8 * 8

section Bytes

variable {b : Byte} {s i n offset : Nat}

lemma getLsbD_first (hi : i < 8) :
    (b &&& (0xff#8 <<< s)).getLsbD i = (b.getLsbD i && decide (s ≤ i)) := by
  have hones : 0xff#8 = BitVec.allOnes 8 := by decide
  rw [BitVec.getLsbD_and, BitVec.getLsbD_shiftLeft, hones, BitVec.getLsbD_allOnes]
  by_cases hsi : s ≤ i
  · have hnot : ¬i < s := by omega
    have hlt : i - s < 8 := by omega
    simp [hsi, hnot, hlt, hi]
  · have hlt : i < s := by omega
    simp [hsi, hlt]

lemma first_eq_zero_iff : b &&& (0xff#8 <<< s) = 0 ↔ NoneSet b.getLsbD s 8 := by
  constructor
  · intro h i hle hlt
    have hbit := getLsbD_first (b := b) (s := s) hlt
    rw [h] at hbit
    simpa [hle] using hbit.symm
  · intro h
    apply BitVec.eq_of_getLsbD_eq
    intro i hi
    rw [getLsbD_first hi]
    by_cases hle : s ≤ i
    · simp [h i hle hi]
    · simp [hle]

lemma first_eq_mask_iff : b &&& (0xff#8 <<< s) = 0xff#8 <<< s ↔ AllSet b.getLsbD s 8 := by
  have hmask : ∀ i < 8, (0xff#8 <<< s).getLsbD i = decide (s ≤ i) := by
    intro i hi
    have hones := getLsbD_first (b := BitVec.allOnes 8) (s := s) hi
    rw [BitVec.allOnes_and, BitVec.getLsbD_allOnes] at hones
    simpa [hi] using hones
  constructor
  · intro h i hle hlt
    have hbit := getLsbD_first (b := b) (s := s) hlt
    rw [h, hmask i hlt] at hbit
    simpa [hle] using hbit.symm
  · intro h
    apply BitVec.eq_of_getLsbD_eq
    intro i hi
    rw [getLsbD_first hi, hmask i hi]
    by_cases hle : s ≤ i
    · simp [h i hle hi]
    · simp [hle]

lemma eq_ones_iff : b = 0xff ↔ AllSet b.getLsbD 0 8 := by
  have h := first_eq_mask_iff (b := b) (s := 0)
  have hones : 0xff#8 <<< 0 = BitVec.allOnes 8 := by decide
  rw [hones, BitVec.and_allOnes] at h
  exact h

lemma lowestOffset_spec : ∀ first : Byte, first ≠ 0 → lowestOffset first < 8 ∧
    first.getLsbD (lowestOffset first) = true ∧
      ∀ j < lowestOffset first, first.getLsbD j = false := by
  decide +kernel

lemma countBits_le : countBits b n offset ≤ n := by
  induction n generalizing offset with
  | zero => exact le_rfl
  | succ n ih =>
    unfold countBits
    split
    · exact Nat.succ_le_succ ih
    · exact Nat.zero_le _

lemma countBits_pos (h : b.getLsbD offset = true) (hn : 0 < n) : 0 < countBits b n offset := by
  obtain ⟨m, rfl⟩ := Nat.exists_eq_add_of_lt hn
  rw [Nat.zero_add, countBits, if_pos h]
  exact Nat.succ_pos _

lemma countBits_set : AllSet b.getLsbD offset (offset + countBits b n offset) := by
  induction n generalizing offset with
  | zero =>
    intro i hle hlt
    simp only [countBits] at hlt
    omega
  | succ n ih =>
    intro i hle hlt
    unfold countBits at hlt
    split at hlt
    next hset =>
      obtain rfl | hi := Nat.eq_or_lt_of_le hle
      · exact hset
      · apply ih i hi
        rw [Nat.succ_eq_add_one]
        omega
    · omega

lemma countBits_clear (h : countBits b n offset < n) :
    b.getLsbD (offset + countBits b n offset) = false := by
  induction n generalizing offset with
  | zero => omega
  | succ n ih =>
    unfold countBits at h ⊢
    split at h
    next hset =>
      rw [if_pos hset]
      have hrest : b.getLsbD (offset + 1 + countBits b n (offset + 1)) = false := ih (by omega)
      rwa [Nat.add_assoc, Nat.add_comm 1] at hrest
    next hclear =>
      rw [if_neg hclear]
      simpa using hclear

end Bytes

variable {view bits}

section Buffer

variable {b : Byte} {out : List Byte} {k s e j : Nat}

lemma bytes_lt_range (bits : RtlBitmap) : bits.buffer.length ≤ 2 ^ 29 := by
  have hsize := bits.size_lt
  rw [bits.length_buffer]
  unfold ulongRange at hsize
  omega

lemma size_le_bytes (bits : RtlBitmap) : bits.sizeOfBitMap ≤ 8 * bits.buffer.length := by
  rw [bits.length_buffer]
  omega

section

variable (h : bits.buffer.drop k = b :: out)

include h

lemma drop_succ_of_drop : bits.buffer.drop (k + 1) = out := by
  rw [← tail_drop, h, tail_cons]

lemma bit_eq (hj : j < 8) : bit view bits (8 * k + j) = (view b).getLsbD j := by
  have hhead : bits.buffer.getD k 0 = b := by
    rw [getD_eq_getElem?_getD, ← head?_drop, h]
    rfl
  have hdiv : (8 * k + j) / 8 = k := by omega
  have hmod : (8 * k + j) % 8 = j := by omega
  rw [bit, hdiv, hmod, hhead]

lemma noneSet_byte (he : e ≤ 8) : NoneSet (bit view bits) (8 * k + s) (8 * k + e) ↔
      NoneSet (view b).getLsbD s e := by
  constructor
  · intro hnone i hle hlt
    have hi := hnone (8 * k + i) (by omega) (by omega)
    rwa [bit_eq h (by omega)] at hi
  · intro hnone i hle hlt
    have hi : (view b).getLsbD (i - 8 * k) = false := hnone (i - 8 * k) (by omega) (by omega)
    rw [← bit_eq h (by omega)] at hi
    rwa [Nat.add_sub_cancel' (by omega)] at hi

lemma allSet_byte (he : e ≤ 8) : AllSet (bit view bits) (8 * k + s) (8 * k + e) ↔
      AllSet (view b).getLsbD s e := by
  constructor
  · intro hall i hle hlt
    have hi := hall (8 * k + i) (by omega) (by omega)
    rwa [bit_eq h (by omega)] at hi
  · intro hall i hle hlt
    have hi : (view b).getLsbD (i - 8 * k) = true := hall (i - 8 * k) (by omega) (by omega)
    rw [← bit_eq h (by omega)] at hi
    rwa [Nat.add_sub_cancel' (by omega)] at hi

end

end Buffer

/-! ### The loop up to the first bit of a run -/

section Scan

variable {b : Byte} {out : List Byte} {k start size : Nat}

lemma findFirst_mixed (size : Nat) (out : List Byte) (start : Nat)
    (hclear : ¬NoneSet (view b).getLsbD (start % 8) 8)
    (hset : ¬AllSet (view b).getLsbD (start % 8) 8) :
    ∃ offset count, start % 8 ≤ offset ∧ 0 < count ∧ offset + count ≤ 8 ∧
      NoneSet (view b).getLsbD (start % 8) offset ∧
      AllSet (view b).getLsbD offset (offset + count) ∧
      (offset + count < 8 ∧ (view b).getLsbD (offset + count) = false ∧
          findFirst view size (b :: out) start = .whole ((start + offset) % ulongRange) count ∨
        offset + count = 8 ∧
          findFirst view size (b :: out) start =
            .partly out (((start + offset) % ulongRange + count) % ulongRange)
              ((start + offset) % ulongRange) count) := by
  rw [← first_eq_zero_iff] at hclear
  rw [← first_eq_mask_iff] at hset
  obtain ⟨hlt, hbit, hmin⟩ := lowestOffset_spec _ hclear
  have hle : start % 8 ≤ lowestOffset (view b &&& 0xff#8 <<< (start % 8)) := by
    rw [getLsbD_first hlt] at hbit
    simpa using (Bool.and_eq_true_iff.mp hbit).2
  generalize hfirst : view b &&& 0xff#8 <<< (start % 8) = first at *
  have hsame : ∀ i, start % 8 ≤ i → i < 8 → first.getLsbD i = (view b).getLsbD i := by
    intro i hi hi'
    rw [← hfirst, getLsbD_first hi']
    simp [hi]
  have hscan : findFirst view size (b :: out) start =
      if countBits first (8 - lowestOffset first) (lowestOffset first) < 8 - lowestOffset first then
        .whole ((start + lowestOffset first) % ulongRange)
          (countBits first (8 - lowestOffset first) (lowestOffset first))
      else
        .partly out (((start + lowestOffset first) % ulongRange +
            countBits first (8 - lowestOffset first) (lowestOffset first)) % ulongRange)
          ((start + lowestOffset first) % ulongRange)
          (countBits first (8 - lowestOffset first) (lowestOffset first)) := by
    rw [findFirst]
    simp only [hfirst, bne_iff_ne, ne_eq, hclear, hset, not_false_eq_true, if_true]
  have hcountLe : countBits first (8 - lowestOffset first) (lowestOffset first) ≤
      8 - lowestOffset first := countBits_le
  have hpos : 0 < countBits first (8 - lowestOffset first) (lowestOffset first) :=
    countBits_pos hbit (by omega)
  have hall : AllSet first.getLsbD (lowestOffset first)
      (lowestOffset first + countBits first (8 - lowestOffset first) (lowestOffset first)) :=
    countBits_set
  have hstop : countBits first (8 - lowestOffset first) (lowestOffset first) <
        8 - lowestOffset first →
      first.getLsbD (lowestOffset first +
        countBits first (8 - lowestOffset first) (lowestOffset first)) = false := countBits_clear
  generalize countBits first (8 - lowestOffset first) (lowestOffset first) = count at *
  refine ⟨lowestOffset first, count, hle, hpos, by omega, ?_, ?_, ?_⟩
  · intro i hi hi'
    rw [← hsame i hi (by omega)]
    exact hmin i hi'
  · intro i hi hi'
    rw [← hsame i (by omega) (by omega)]
    exact hall i hi hi'
  rw [hscan]
  by_cases hlast : count < 8 - lowestOffset first
  · left
    rw [if_pos hlast, ← hsame _ (by omega) (by omega)]
    exact ⟨by omega, hstop hlast, rfl⟩
  · right
    rw [if_neg hlast]
    exact ⟨by omega, rfl⟩

lemma findFirst_set (hset : AllSet (view b).getLsbD (start % 8) 8) :
    findFirst view size (b :: out) start = .partly out (nextByte start) start (8 - start % 8) := by
  have hclear : view b &&& 0xff#8 <<< (start % 8) ≠ 0 := by
    rw [Ne, first_eq_zero_iff]
    intro hnone
    have hs : start % 8 < 8 := by omega
    have htrue := hset _ le_rfl hs
    rw [hnone _ le_rfl hs] at htrue
    cases htrue
  rw [← first_eq_mask_iff] at hset
  rw [hset] at hclear
  rw [findFirst]
  simp only [bne_iff_ne, ne_eq, hclear, hset, not_false_eq_true, not_true_eq_false, if_true,
    if_false]

lemma findFirst_clear (hclear : NoneSet (view b).getLsbD (start % 8) 8) :
    findFirst view size (b :: out) start =
      if size ≤ nextByte start then .absent else findFirst view size out (nextByte start) := by
  rw [← first_eq_zero_iff] at hclear
  rw [findFirst]
  simp only [hclear, bne_self_eq_false, Bool.false_eq_true, if_false]

end Scan

/-- What the loop leaves when the first bit of the run is at `p`: `c` bits of it are in its byte. -/
structure Finds (view : Byte → Byte) (bits : RtlBitmap) (p c : Nat) (r : Scan) : Prop where
  pos : 0 < c
  inside : AllSet (bit view bits) p (p + c)
  inByte : p % 8 + c ≤ 8
  inBytes : p < bytesEnd bits
  result : p % 8 + c < 8 ∧ bit view bits (p + c) = false ∧ r = .whole p c ∨
    p % 8 + c = 8 ∧ r = .partly (bits.buffer.drop (p / 8 + 1)) ((p + c) % ulongRange) p c

section Position

variable {b : Byte} {out : List Byte} {k start : Nat}

lemma bytesEnd_le (bits : RtlBitmap) : bytesEnd bits ≤ ulongRange := by
  have hsize := bits.size_lt
  unfold ulongRange at *
  unfold bytesEnd
  omega

lemma size_le_bytesEnd (bits : RtlBitmap) : bits.sizeOfBitMap ≤ bytesEnd bits := by
  unfold bytesEnd
  omega

lemma drop_last_byte (hk : ulongRange ≤ 8 * k + 8) : bits.buffer.drop (k + 1) = [] := by
  apply drop_eq_nil_of_le
  have hbytes := bytes_lt_range bits
  unfold ulongRange at hk
  omega

section

variable (h : bits.buffer.drop (start / 8) = b :: out)

include h

lemma noneSet_rest : NoneSet (bit view bits) start (start / 8 * 8 + 8) ↔
      NoneSet (view b).getLsbD (start % 8) 8 := by
  have hpos : 8 * (start / 8) + start % 8 = start := Nat.div_add_mod start 8
  rw [← noneSet_byte h le_rfl, hpos, Nat.mul_comm]

lemma allSet_rest : AllSet (bit view bits) start (start / 8 * 8 + 8) ↔
      AllSet (view b).getLsbD (start % 8) 8 := by
  have hpos : 8 * (start / 8) + start % 8 = start := Nat.div_add_mod start 8
  rw [← allSet_byte h le_rfl, hpos, Nat.mul_comm]

lemma finds_set (hstart : start < bits.sizeOfBitMap)
    (hset : AllSet (view b).getLsbD (start % 8) 8) :
    Finds view bits start (8 - start % 8) (findFirst view bits.sizeOfBitMap (b :: out) start) := by
  have hbyte := (allSet_rest h).mpr hset
  have hend : start / 8 * 8 + 8 = start + (8 - start % 8) := by omega
  rw [hend] at hbyte
  have hsize := size_le_bytesEnd bits
  constructor
  · omega
  · exact hbyte
  · omega
  · omega
  · right
    have hnext : nextByte start = (start + (8 - start % 8)) % ulongRange := by
      rw [nextByte, hend]
    rw [findFirst_set hset, drop_succ_of_drop h, hnext]
    exact ⟨by omega, rfl⟩

lemma finds_mixed (hstart : start < bits.sizeOfBitMap) (hmod : start % 8 = 0)
    (hclear : ¬NoneSet (view b).getLsbD (start % 8) 8)
    (hset : ¬AllSet (view b).getLsbD (start % 8) 8) :
    ∃ p c, start ≤ p ∧ NoneSet (bit view bits) start p ∧
      Finds view bits p c (findFirst view bits.sizeOfBitMap (b :: out) start) := by
  have hrange := bits.size_lt
  obtain ⟨k, rfl⟩ : ∃ k, start = 8 * k := ⟨start / 8, by omega⟩
  rw [Nat.mul_div_cancel_left k (by omega)] at h
  obtain ⟨offset, count, hle, hpos, hfit, hnone, hall, hscan⟩ :=
    findFirst_mixed bits.sizeOfBitMap out (8 * k) hclear hset
  rw [hmod] at hnone
  have hnone' := (noneSet_byte h (by omega)).mpr hnone
  have hall' := (allSet_byte h hfit).mpr hall
  rw [← Nat.add_assoc] at hall'
  have hlt : (8 * k + offset) % ulongRange = 8 * k + offset := by
    apply Nat.mod_eq_of_lt
    unfold ulongRange at *
    omega
  rw [hlt] at hscan
  refine ⟨8 * k + offset, count, by omega, hnone', hpos, hall', by omega, ?_, ?_⟩
  · unfold bytesEnd at *
    omega
  have hoffset : (8 * k + offset) % 8 = offset := by omega
  have hindex : (8 * k + offset) / 8 + 1 = k + 1 := by omega
  rw [hoffset, hindex, drop_succ_of_drop h]
  obtain ⟨hshort, hend, hscan⟩ | ⟨hfull, hscan⟩ := hscan
  · left
    rw [Nat.add_assoc, bit_eq h hshort]
    exact ⟨hshort, hend, hscan⟩
  · right
    exact ⟨hfull, hscan⟩

end

variable (view bits) in
/-- A search starts with a whole byte, or with bits that are all set or all clear up to its end. -/
def StartsEven (start : Nat) : Prop :=
  start % 8 = 0 ∨ NoneSet (bit view bits) start (start / 8 * 8 + 8) ∨
    AllSet (bit view bits) start (start / 8 * 8 + 8)

lemma findFirst_spec (hout : bits.buffer.drop (start / 8) = out)
    (hstart : start < bits.sizeOfBitMap) (heven : StartsEven view bits start) :
    (NoneSet (bit view bits) start (bytesEnd bits) ∧
        findFirst view bits.sizeOfBitMap out start =
          if bytesEnd bits < ulongRange then .absent else .fault) ∨
      ∃ p c, start ≤ p ∧ NoneSet (bit view bits) start p ∧
        Finds view bits p c (findFirst view bits.sizeOfBitMap out start) := by
  have hrange := bits.size_lt
  induction out generalizing start with
  | nil =>
    have hlen := drop_eq_nil_iff.mp hout
    have hsize := size_le_bytes bits
    omega
  | cons b out ih =>
    by_cases hclear : NoneSet (view b).getLsbD (start % 8) 8
    · rw [findFirst_clear hclear, nextByte]
      rw [← noneSet_rest hout] at hclear
      by_cases hlast : start / 8 * 8 + 8 < bits.sizeOfBitMap
      · have hindex : (start / 8 * 8 + 8) / 8 = start / 8 + 1 := by omega
        rw [Nat.mod_eq_of_lt (by omega), if_neg (by omega)]
        obtain ⟨hnone, hscan⟩ | ⟨p, c, hle, hnone, hfinds⟩ :=
          ih (by rw [hindex, drop_succ_of_drop hout]) hlast (.inl (by omega))
        · exact .inl ⟨hclear.append hnone, hscan⟩
        · exact .inr ⟨p, c, by omega, hclear.append hnone, hfinds⟩
      left
      have hend : bytesEnd bits = start / 8 * 8 + 8 := by
        unfold bytesEnd
        omega
      rw [hend]
      refine ⟨hclear, ?_⟩
      by_cases hwrap : start / 8 * 8 + 8 < ulongRange
      · rw [Nat.mod_eq_of_lt hwrap, if_pos (by omega), if_pos hwrap]
      have hzero : (start / 8 * 8 + 8) % ulongRange = 0 := by
        unfold ulongRange at *
        omega
      have hnil : out = [] := by
        rw [← drop_succ_of_drop hout]
        exact drop_last_byte (by omega)
      rw [hzero, if_neg (by omega), if_neg hwrap, hnil, findFirst]
    · right
      by_cases hset : AllSet (view b).getLsbD (start % 8) 8
      · exact ⟨start, _, le_rfl, fun i hle hlt => absurd hle (by omega), finds_set hout hstart hset⟩
      have hmod : start % 8 = 0 := by
        obtain hzero | hnone | hall := heven
        · exact hzero
        · exact absurd ((noneSet_rest hout).mp hnone) hclear
        · exact absurd ((allSet_rest hout).mp hall) hset
      exact finds_mixed hout hstart hmod hclear hset

end Position

section Blocks

variable {out : List Byte} {j p start : Nat}

lemma clipped_bytesEnd (hp : p < bytesEnd bits) :
    clipped bits.sizeOfBitMap (bytesEnd bits) (bytesEnd bits - p) =
      (bits.sizeOfBitMap + ulongRange - p) % ulongRange := by
  have hsize := size_le_bytesEnd bits
  have heq : bytesEnd bits - p + ulongRange - (bytesEnd bits - bits.sizeOfBitMap) =
      bits.sizeOfBitMap + ulongRange - p := by omega
  rw [clipped, heq]

lemma countBlocks_spec (hout : bits.buffer.drop j = out) (hj : 8 * j < bits.sizeOfBitMap)
    (hp : p < 8 * j) (hall : AllSet (bit view bits) p (8 * j)) :
    (∃ e, p < e ∧ e < bytesEnd bits ∧ AllSet (bit view bits) p e ∧ bit view bits e = false ∧
        countBlocks view bits.sizeOfBitMap p out (8 * j) (8 * j - p) = some (p, some (e - p))) ∨
      AllSet (bit view bits) p (bytesEnd bits) ∧
        countBlocks view bits.sizeOfBitMap p out (8 * j) (8 * j - p) =
          if bytesEnd bits < ulongRange then
            some (p, some ((bits.sizeOfBitMap + ulongRange - p) % ulongRange))
          else none := by
  have hrange := bits.size_lt
  induction out generalizing j with
  | nil =>
    have hlen := drop_eq_nil_iff.mp hout
    have hbytes := size_le_bytes bits
    omega
  | cons b out ih =>
    rw [countBlocks]
    by_cases hones : view b = 0xff
    · have hbyte := (allSet_byte hout le_rfl).mpr (eq_ones_iff.mp hones)
      have hnext : AllSet (bit view bits) p (8 * j + 8) := hall.append hbyte
      rw [if_pos (beq_iff_eq.mpr hones)]
      by_cases hlast : 8 * j + 8 < bits.sizeOfBitMap
      · have hcount : (8 * j - p + 8) % ulongRange = 8 * (j + 1) - p := by
          rw [Nat.mod_eq_of_lt (by omega)]
          omega
        have hstart : (8 * j + 8) % ulongRange = 8 * (j + 1) := Nat.mod_eq_of_lt (by omega)
        simp only [hcount, hstart]
        rw [if_neg (by omega)]
        exact ih (drop_succ_of_drop hout) (by omega) (by omega) hnext
      right
      have hend : bytesEnd bits = 8 * j + 8 := by
        unfold bytesEnd at *
        omega
      rw [hend]
      refine ⟨hnext, ?_⟩
      by_cases hwrap : 8 * j + 8 < ulongRange
      · have hcount : (8 * j - p + 8) % ulongRange = bytesEnd bits - p := by
          rw [Nat.mod_eq_of_lt (by omega)]
          omega
        have hstart : (8 * j + 8) % ulongRange = bytesEnd bits := by
          rw [Nat.mod_eq_of_lt hwrap, hend]
        simp only [hcount, hstart]
        rw [if_pos (by omega), if_pos hwrap, clipped_bytesEnd (by omega)]
      have hzero : (8 * j + 8) % ulongRange = 0 := by
        unfold ulongRange at *
        omega
      have hnil : out = [] := by
        rw [← drop_succ_of_drop hout]
        exact drop_last_byte (by omega)
      rw [if_neg (by omega), if_neg hwrap, hnil, countBlocks]
    · left
      have hle : countBits (view b) 7 0 ≤ 7 := countBits_le
      have hset : AllSet (view b).getLsbD 0 (0 + countBits (view b) 7 0) := countBits_set
      have hclear : (view b).getLsbD (countBits (view b) 7 0) = false := by
        by_cases hseven : countBits (view b) 7 0 < 7
        · have hbit : (view b).getLsbD (0 + countBits (view b) 7 0) = false := countBits_clear hseven
          rwa [Nat.zero_add] at hbit
        have hcount : countBits (view b) 7 0 = 7 := by omega
        rw [hcount] at hset ⊢
        by_contra hbit
        apply hones
        rw [eq_ones_iff]
        intro i _ hi
        by_cases hi7 : i < 7
        · exact hset i (Nat.zero_le i) (by omega)
        · obtain rfl : i = 7 := by omega
          simpa using hbit
      rw [Nat.zero_add] at hset
      have hbits := (allSet_byte hout (by omega)).mpr hset
      rw [Nat.add_zero] at hbits
      refine ⟨8 * j + countBits (view b) 7 0, by omega, ?_, hall.append hbits, ?_, ?_⟩
      · unfold bytesEnd at *
        omega
      · rw [bit_eq hout (by omega)]
        exact hclear
      have hnot : ¬(view b == 0xff) = true := by simpa using hones
      have hend := bytesEnd_le bits
      have hcount : (8 * j - p + countBits (view b) 7 0) % ulongRange =
          8 * j + countBits (view b) 7 0 - p := by
        have hlt : 8 * j + 8 ≤ ulongRange := by
          unfold bytesEnd at *
          omega
        rw [Nat.mod_eq_of_lt (by omega)]
        omega
      rw [if_neg hnot, hcount]

/-- The result of a search whose first run is `[p, e)` among the bits of all its bytes. -/
def rawResult (bits : RtlBitmap) (p e : Nat) : Option (Nat × Option Nat) :=
  if e < bytesEnd bits then some (p, some (e - p))
  else if bytesEnd bits < ulongRange then
    some (p, some ((bits.sizeOfBitMap + ulongRange - p) % ulongRange))
  else none

lemma findRun_spec (hstart : start < bits.sizeOfBitMap) (heven : StartsEven view bits start) :
    (NoneSet (bit view bits) start (bytesEnd bits) ∧
        findRun view bits start = if bytesEnd bits < ulongRange then some (noRun, none) else none) ∨
      ∃ p e, FirstRun (bit view bits) start (bytesEnd bits) p e ∧
        findRun view bits start = rawResult bits p e := by
  have hsize := size_le_bytesEnd bits
  have hend := bytesEnd_le bits
  unfold findRun
  obtain ⟨hnone, hscan⟩ | ⟨p, c, hle, hnone, hfinds⟩ := findFirst_spec rfl hstart heven
  · left
    refine ⟨hnone, ?_⟩
    rw [hscan]
    by_cases hwrap : bytesEnd bits < ulongRange
    · rw [if_pos hwrap, if_pos hwrap]
    · rw [if_neg hwrap, if_neg hwrap]
  right
  have hpos := hfinds.pos
  have hin := hfinds.inBytes
  obtain ⟨hshort, hclear, hscan⟩ | ⟨hfull, hscan⟩ := hfinds.result
  · have hlt : p + c < bytesEnd bits := by
      unfold bytesEnd at *
      omega
    refine ⟨p, p + c, ⟨hle, by omega, le_of_lt hlt, hnone, hfinds.inside, .inr hclear⟩, ?_⟩
    rw [hscan, rawResult, if_pos hlt, Nat.add_sub_cancel_left]
  rw [hscan]
  have hinside := hfinds.inside
  have hnext : p + c = 8 * (p / 8 + 1) := by omega
  by_cases hlast : p + c < bits.sizeOfBitMap
  · have hmod : (p + c) % ulongRange = 8 * (p / 8 + 1) := by
      rw [Nat.mod_eq_of_lt (by omega), hnext]
    have hcount : c = 8 * (p / 8 + 1) - p := by omega
    simp only [hmod]
    rw [if_neg (by omega), hcount]
    rw [hnext] at hinside
    obtain ⟨e, hpe, hlt, hall, hclear, hblocks⟩ | ⟨hall, hblocks⟩ :=
      countBlocks_spec rfl (by omega) (by omega) hinside
    · refine ⟨p, e, ⟨hle, hpe, le_of_lt hlt, hnone, hall, .inr hclear⟩, ?_⟩
      rw [hblocks, rawResult, if_pos hlt]
    · refine ⟨p, bytesEnd bits, ⟨hle, hin, le_rfl, hnone, hall, .inl rfl⟩, ?_⟩
      rw [hblocks, rawResult, if_neg (lt_irrefl _)]
  · have hbytes : p + c = bytesEnd bits := by
      unfold bytesEnd at *
      omega
    rw [hbytes] at hinside ⊢
    refine ⟨p, bytesEnd bits, ⟨hle, hin, le_rfl, hnone, hinside, .inl rfl⟩, ?_⟩
    rw [rawResult, if_neg (lt_irrefl _)]
    by_cases hwrap : bytesEnd bits < ulongRange
    · have hcount : c = bytesEnd bits - p := by omega
      rw [if_pos hwrap]
      simp only [Nat.mod_eq_of_lt hwrap]
      rw [if_pos hsize, hcount, clipped_bytesEnd hin]
    have hzero : bytesEnd bits % ulongRange = 0 := by
      have heq : bytesEnd bits = ulongRange := by omega
      rw [heq, Nat.mod_self]
    have hnil : bits.buffer.drop (p / 8 + 1) = [] := drop_last_byte (by omega)
    simp only [hzero, hnil]
    rw [if_neg (by omega), if_neg hwrap, countBlocks]

end Blocks

/-! ### Searches that start inside a mixed byte -/

section Uneven

variable {out : List Byte} {foundAt start count size pos : Nat} {size? : Option Nat}

lemma countBlocks_pos (h : countBlocks view size foundAt out start count = some (pos, size?)) :
    pos = foundAt ∧ size?.isSome = true := by
  induction out generalizing start count with
  | nil => cases h
  | cons b out ih =>
    rw [countBlocks] at h
    split at h
    · simp only at h
      split at h
      · cases h
        exact ⟨rfl, rfl⟩
      · exact ih h
    · cases h
      exact ⟨rfl, rfl⟩

/-- What a search does that starts inside a mixed byte: the first run in it is `[p, p + c)`. -/
structure UnevenScan (view : Byte → Byte) (bits : RtlBitmap) (start p c : Nat) : Prop where
  inside_byte : start % 8 ≠ 0
  start_le : start ≤ p
  before : NoneSet (bit view bits) start p
  pos : 0 < c
  inside : AllSet (bit view bits) p (p + c)
  stop_le : p + c ≤ start / 8 * 8 + 8
  result : p + c < start / 8 * 8 + 8 ∧ bit view bits (p + c) = false ∧
      findRun view bits start = some ((p + start % 8) % ulongRange, some c) ∨
    p + c = start / 8 * 8 + 8 ∧
      findRun view bits start =
        if bits.sizeOfBitMap ≤ (start + 8) % ulongRange then
          some ((p + start % 8) % ulongRange,
            some (clipped bits.sizeOfBitMap ((start + 8) % ulongRange) c))
        else countBlocks view bits.sizeOfBitMap ((p + start % 8) % ulongRange)
          (bits.buffer.drop (start / 8 + 1)) ((start + 8) % ulongRange) c

lemma exists_unevenScan (hstart : start < bits.sizeOfBitMap)
    (heven : ¬StartsEven view bits start) : ∃ p c, UnevenScan view bits start p c := by
  have hlen : start / 8 < bits.buffer.length := by
    have hbytes := size_le_bytes bits
    omega
  obtain ⟨b, out, hout⟩ : ∃ b out, bits.buffer.drop (start / 8) = b :: out :=
    ⟨_, _, drop_eq_getElem_cons hlen⟩
  unfold StartsEven at heven
  rw [not_or, not_or, noneSet_rest hout, allSet_rest hout] at heven
  obtain ⟨hinside, hclear, hset⟩ := heven
  obtain ⟨offset, count, hle, hpos, hfit, hnone, hall, hscan⟩ :=
    findFirst_mixed bits.sizeOfBitMap out start hclear hset
  have hbase : 8 * (start / 8) + start % 8 = start := Nat.div_add_mod start 8
  have hnone' := (noneSet_byte hout (by omega)).mpr hnone
  have hall' := (allSet_byte hout hfit).mpr hall
  rw [hbase] at hnone'
  rw [← Nat.add_assoc] at hall'
  have hfound : start + offset = 8 * (start / 8) + offset + start % 8 := by omega
  rw [hfound] at hscan
  refine ⟨8 * (start / 8) + offset, count, hinside, by omega, hnone', hpos, hall', by omega, ?_⟩
  unfold findRun
  rw [hout]
  obtain ⟨hshort, hend, hscan⟩ | ⟨hfull, hscan⟩ := hscan
  · left
    rw [hscan, Nat.add_assoc, bit_eq hout hshort]
    exact ⟨by omega, hend, rfl⟩
  right
  have hnext : 8 * (start / 8) + offset + start % 8 + count = start + 8 := by omega
  rw [hscan, drop_succ_of_drop hout, Nat.mod_add_mod, hnext]
  exact ⟨by omega, rfl⟩

namespace UnevenScan

variable {p c : Nat}

section

variable (h : UnevenScan view bits start p c)

include h

lemma last_byte (hlast : ulongRange ≤ start / 8 * 8 + 8)
    (hfull : p + c = start / 8 * 8 + 8) (hstart : start < bits.sizeOfBitMap) :
    findRun view bits start = none := by
  obtain ⟨hlt, _⟩ | ⟨_, hscan⟩ := h.result
  · omega
  have hnil : bits.buffer.drop (start / 8 + 1) = [] := drop_last_byte (by omega)
  have hsmall : (start + 8) % ulongRange < bits.sizeOfBitMap := by
    unfold ulongRange at *
    omega
  rw [hscan, if_neg (by omega), hnil, countBlocks]

lemma result_eq (hstart : start < bits.sizeOfBitMap)
    (hresult : findRun view bits start = some (pos, size?)) :
    pos = (p + start % 8) % ulongRange ∧
      ∃ n, size? = some n ∧ (bits.sizeOfBitMap ≤ p → n ≠ 0) := by
  have hpos := h.pos
  obtain ⟨hlt, _, hscan⟩ | ⟨hfull, hscan⟩ := h.result
  · rw [hscan] at hresult
    cases hresult
    exact ⟨rfl, c, rfl, fun _ => Nat.ne_of_gt hpos⟩
  by_cases hlast : ulongRange ≤ start / 8 * 8 + 8
  · rw [h.last_byte hlast hfull hstart] at hresult
    cases hresult
  rw [hscan] at hresult
  split at hresult
  next hend =>
    cases hresult
    refine ⟨rfl, _, rfl, fun hp => ?_⟩
    have hinside := h.inside_byte
    have hmod : (start + 8) % ulongRange = start + 8 := by
      apply Nat.mod_eq_of_lt
      unfold ulongRange at *
      omega
    rw [hmod] at hend ⊢
    unfold clipped ulongRange at *
    omega
  next hend =>
    obtain ⟨hfound, hsome⟩ := countBlocks_pos hresult
    obtain ⟨n, rfl⟩ := Option.isSome_iff_exists.mp hsome
    refine ⟨hfound, n, rfl, fun hp => ?_⟩
    have hmod : (start + 8) % ulongRange = start + 8 := by
      apply Nat.mod_eq_of_lt
      unfold ulongRange at *
      omega
    omega

lemma pos_ne : (p + start % 8) % ulongRange ≠ p := by
  have hinside := h.inside_byte
  unfold ulongRange
  omega

lemma exists_firstRun (hstart : start < bits.sizeOfBitMap) :
    ∃ e, FirstRun (bit view bits) start (bytesEnd bits) p e ∧ p + c ≤ e := by
  have hpos := h.pos
  have hstop := h.stop_le
  have hbytes : start / 8 * 8 + 8 ≤ bytesEnd bits := by
    unfold bytesEnd
    omega
  obtain ⟨e, hle, hend, hall, hends⟩ :=
    exists_run_end h.inside (by omega) (le_trans hstop hbytes)
  exact ⟨e, ⟨h.start_le, by omega, hend, h.before, hall, hends⟩, hle⟩

end

end UnevenScan

end Uneven

section Right

variable {start p e pos : Nat} {size? : Option Nat} {r : Option (Nat × Option Nat)}

section Definitions

variable (view bits)

/-- The first run at or after `start`: no length if there is none, or its position and length. -/
def ReportsFirst (start : Nat) (r : Option (Nat × Option Nat)) : Prop :=
  ∃ pos size?, r = some (pos, size?) ∧
    (NoneSet (bit view bits) start bits.sizeOfBitMap ∧ size?.getD 0 = 0 ∨
      FirstRun (bit view bits) start bits.sizeOfBitMap pos (pos + size?.getD 0))

def ReturnsFirst (start : Nat) (r : Option (Nat × Option Nat)) : Prop :=
  ∃ pos size?, r = some (pos, size?) ∧
    (NoneSet (bit view bits) start bits.sizeOfBitMap ∧ pos = noRun ∨
      pos ≠ noRun ∧ FirstRun (bit view bits) start bits.sizeOfBitMap pos (pos + size?.getD 0))

/-- The first run among the bits of all bytes ends in the bitmap, or it starts there, at the latest
with the first bit behind it, and takes the rest of the last byte. -/
structure Searchable (start : Nat) : Prop where
  even : StartsEven view bits start
  absent : NoneSet (bit view bits) start (bytesEnd bits) → bytesEnd bits < ulongRange
  within : ∀ p e, FirstRun (bit view bits) start (bytesEnd bits) p e → e < bytesEnd bits →
    e ≤ bits.sizeOfBitMap
  reaching : ∀ p, FirstRun (bit view bits) start (bytesEnd bits) p (bytesEnd bits) →
    p ≤ bits.sizeOfBitMap ∧ bytesEnd bits < ulongRange

def StartsBehind (start : Nat) : Prop :=
  ∃ e, FirstRun (bit view bits) start (bytesEnd bits) bits.sizeOfBitMap e

/-- An uneven search happens to report a run behind the bitmap at `noRun`. -/
def Misses (start : Nat) : Prop :=
  ¬StartsEven view bits start ∧ ∃ p e, FirstRun (bit view bits) start (bytesEnd bits) p e ∧
    e < bytesEnd bits ∧ bits.sizeOfBitMap ≤ p ∧ p + start % 8 = noRun

end Definitions

lemma FirstRun.clip_bytes (hrun : FirstRun (bit view bits) start (bytesEnd bits) p e)
    (hp : p < bits.sizeOfBitMap) :
    FirstRun (bit view bits) start bits.sizeOfBitMap p (min e bits.sizeOfBitMap) :=
  hrun.clip (size_le_bytesEnd bits) hp

lemma firstRun_pos_eq {q f : Nat} (hrun : FirstRun (bit view bits) start (bytesEnd bits) p e)
    (hright : FirstRun (bit view bits) start bits.sizeOfBitMap q f) :
    p < bits.sizeOfBitMap ∧ q = p ∧ f = min e bits.sizeOfBitMap := by
  have hp : p < bits.sizeOfBitMap := by
    by_contra hp
    have hpos := hright.nonempty
    have hstop := hright.stop_le
    exact hright.not_noneSet (by omega) (hrun.before.mono le_rfl (Nat.le_of_not_lt hp))
  obtain ⟨hq, hf⟩ := hright.unique (FirstRun.clip_bytes hrun hp)
  exact ⟨hp, hq, hf⟩

lemma length_eq_zero {size : Nat} (hsize : size < ulongRange) (hp : p < ulongRange)
    (h : (size + ulongRange - p) % ulongRange = 0) : p = size := by
  unfold ulongRange at *
  omega

lemma length_eq {size : Nat} (hsize : size < ulongRange) (hp : p ≤ size) :
    p + (size + ulongRange - p) % ulongRange = size := by
  unfold ulongRange at *
  omega

lemma reportsFirst_raw (hrun : FirstRun (bit view bits) start (bytesEnd bits) p e) :
    ReportsFirst view bits start (rawResult bits p e) ↔
      e < bytesEnd bits ∧ e ≤ bits.sizeOfBitMap ∨
        e = bytesEnd bits ∧ p ≤ bits.sizeOfBitMap ∧ bytesEnd bits < ulongRange := by
  have hpos := hrun.nonempty
  have hstop := hrun.stop_le
  have hsize := bits.size_lt
  have hclip := FirstRun.clip_bytes hrun
  unfold rawResult
  constructor
  · rintro ⟨q, size?, hresult, hright⟩
    split at hresult
    next hlt =>
      cases hresult
      left
      obtain ⟨_, hzero⟩ | hright := hright
      · simp only [getD_some] at hzero
        omega
      · have hle := hright.stop_le
        simp only [getD_some] at hle
        omega
    next hlt =>
      split at hresult
      next hwrap =>
        cases hresult
        right
        have hrange : p < ulongRange := by omega
        refine ⟨by omega, ?_, hwrap⟩
        obtain ⟨_, hzero⟩ | hright := hright
        · rw [getD_some] at hzero
          exact le_of_eq (length_eq_zero hsize hrange hzero)
        · exact le_of_lt (firstRun_pos_eq hrun hright).1
      · cases hresult
  · rintro (⟨hlt, hle⟩ | ⟨rfl, hp, hwrap⟩)
    · refine ⟨p, some (e - p), if_pos hlt, .inr ?_⟩
      have hmin : min e bits.sizeOfBitMap = e := min_eq_left hle
      have hlen : p + (e - p) = e := by omega
      rw [getD_some, hlen]
      rw [hmin] at hclip
      exact hclip (by omega)
    rw [if_neg (lt_irrefl _), if_pos hwrap]
    refine ⟨p, _, rfl, ?_⟩
    rw [getD_some]
    obtain hp | rfl := lt_or_eq_of_le hp
    · right
      have hmin : min (bytesEnd bits) bits.sizeOfBitMap = bits.sizeOfBitMap :=
        min_eq_right (size_le_bytesEnd bits)
      rw [length_eq hsize (by omega)]
      rw [hmin] at hclip
      exact hclip hp
    · left
      refine ⟨hrun.before, ?_⟩
      rw [Nat.add_sub_cancel_left, Nat.mod_self]

lemma returnsFirst_raw (hrun : FirstRun (bit view bits) start (bytesEnd bits) p e) :
    ReturnsFirst view bits start (rawResult bits p e) ↔
      ReportsFirst view bits start (rawResult bits p e) ∧ p ≠ bits.sizeOfBitMap := by
  have hpos := hrun.nonempty
  have hstop := hrun.stop_le
  have hend := bytesEnd_le bits
  have hposition : ∀ q size?, rawResult bits p e = some (q, size?) → q = p ∧ p ≠ noRun := by
    intro q size? hresult
    unfold rawResult at hresult
    split at hresult
    · cases hresult
      refine ⟨rfl, ?_⟩
      unfold noRun
      omega
    split at hresult
    · cases hresult
      refine ⟨rfl, ?_⟩
      unfold noRun
      omega
    · cases hresult
  constructor
  · rintro ⟨q, size?, hresult, hright⟩
    obtain ⟨rfl, hne⟩ := hposition q size? hresult
    obtain ⟨_, hno⟩ | ⟨_, hright⟩ := hright
    · exact absurd hno hne
    · have hp := (firstRun_pos_eq hrun hright).1
      exact ⟨⟨q, size?, hresult, .inr hright⟩, by omega⟩
  · rintro ⟨⟨q, size?, hresult, hright⟩, hp⟩
    obtain ⟨rfl, hne⟩ := hposition q size? hresult
    refine ⟨q, size?, hresult, .inr ⟨hne, ?_⟩⟩
    obtain ⟨hnone, hzero⟩ | hright := hright
    · exfalso
      obtain ⟨hlt, hle⟩ | ⟨_, hle, _⟩ :=
        (reportsFirst_raw hrun).mp ⟨q, size?, hresult, .inl ⟨hnone, hzero⟩⟩
      · exact hrun.not_noneSet (by omega) hnone
      · exact hrun.not_noneSet (by omega) hnone
    · exact hright

end Right

end WineForge.Bitmaps
