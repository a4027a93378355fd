import WineForge.Bitmaps.Words
import Mathlib.Data.List.Range

/-!
# Range operations and the bits of a bitmap

A range of bits is split into a part of the first ULONG, whole ULONGs and a part of the last one.
Each part is one write or one test, and the parts make up the range.
-/

namespace WineForge.Bitmaps

open BitVec Library List Option

variable {bits bits' bits'' : RtlBitmap} {v : Bool} {pos n lo mid hi start count : Nat}
  {value : Ulong}

def InRange (bits : RtlBitmap) (start count : Nat) : Prop :=
  0 < count ∧ start + count ≤ bits.sizeOfBitMap

instance (bits : RtlBitmap) (start count : Nat) : Decidable (InRange bits start count) :=
  inferInstanceAs (Decidable (_ ∧ _))

lemma outside_eq : outside bits start count = !decide (InRange bits start count) := by
  unfold outside
  by_cases h : InRange bits start count
  · rw [decide_eq_true h]
    unfold InRange at h
    simp
    omega
  rw [decide_eq_false h]
  unfold InRange at h
  simp
  omega

lemma InRange.rangeEnd_eq (h : InRange bits start count) :
    rangeEnd start count = start + count := by
  have hsize := bits.size_lt
  unfold InRange at h
  exact Nat.mod_eq_of_lt (by omega)

lemma index_lt (h : 32 * pos < bits.sizeOfBitMap) : 4 * pos + 3 < bits.buffer.length := by
  have hlength := bits.length_buffer
  omega

lemma getLsbD_maskbits {idx j : Nat} (hj : j < 32) :
    (maskbits idx).getLsbD j = decide (idx % 32 ≤ j) := by
  unfold maskbits
  rw [getLsbD_shiftLeft, getLsbD_allOnes]
  by_cases hle : idx % 32 ≤ j
  · have hlt : j - idx % 32 < 32 := by omega
    simp [hj, hle, hnot, hlt]
  · have hlt : j < idx % 32 := by omega
    simp [hle, hlt]

/-- The bits from `lo` up to `hi` get one value, and no other bit changes. -/
structure Overwrites (v : Bool) (lo hi : Nat) (bits bits' : RtlBitmap) : Prop where
  size_eq : bits'.sizeOfBitMap = bits.sizeOfBitMap
  bit_eq : ∀ i, setBit bits' i = if lo ≤ i ∧ i < hi then v else setBit bits i

lemma Overwrites.trans (h : Overwrites v lo mid bits bits') (h' : Overwrites v mid hi bits' bits'')
    (hlo : lo ≤ mid) (hhi : mid ≤ hi) : Overwrites v lo hi bits bits'' := by
  refine ⟨h'.size_eq.trans h.size_eq, fun i => ?_⟩
  rw [h'.bit_eq, h.bit_eq]
  by_cases hi' : mid ≤ i ∧ i < hi
  · have hin : lo ≤ i ∧ i < hi := by omega
    rw [if_pos hi', if_pos hin]
  rw [if_neg hi']
  by_cases hlo' : lo ≤ i ∧ i < mid
  · have hin : lo ≤ i ∧ i < hi := by omega
    rw [if_pos hlo', if_pos hin]
  · have hout : ¬(lo ≤ i ∧ i < hi) := by omega
    rw [if_neg hlo', if_neg hout]

lemma updateUlong_overwrites {f : Ulong → Ulong} (v : Bool) (pos lo hi : Nat) (hpos : 32 * pos < bits.sizeOfBitMap)
    (hlo : 32 * pos ≤ lo) (hhi : hi ≤ 32 * pos + 32)
    (hf : ∀ word : Ulong, ∀ j < 32, (f word).getLsbD j =
      if lo ≤ 32 * pos + j ∧ 32 * pos + j < hi then v else word.getLsbD j) :
    ∃ bits', updateUlong bits pos f = some bits' ∧ Overwrites v lo hi bits bits' := by
  obtain ⟨word, hread, hword⟩ := readUlong_eq (index_lt hpos)
  obtain ⟨bits', hwrite, hsize, hbits⟩ := writeUlong_eq (index_lt hpos) (f word)
  refine ⟨bits', ?_, hsize, fun i => ?_⟩
  · unfold updateUlong
    rw [hread, bind_some, hwrite]
  have hlt : i % 32 < 32 := Nat.mod_lt _ (by decide)
  rw [hbits]
  by_cases hin : i / 32 = pos
  · have hi' : 32 * pos + i % 32 = i := by omega
    rw [if_pos hin, hf word _ hlt, hword _ hlt, hi']
  · have hout : ¬(lo ≤ i ∧ i < hi) := by omega
    rw [if_neg hin, if_neg hout]

lemma fillUlongs_overwrites (pos n : Nat) (hvalue : ∀ j < 32, value.getLsbD j = v)
    (hfits : 32 * (pos + n) ≤ bits.sizeOfBitMap) :
    ∃ bits', fillUlongs value n pos bits = some bits' ∧
      Overwrites v (32 * pos) (32 * (pos + n)) bits bits' := by
  induction n generalizing pos bits with
  | zero =>
    refine ⟨bits, rfl, rfl, fun i => ?_⟩
    rw [if_neg]
    omega
  | succ n ih =>
    obtain ⟨bits', hwrite, hsize, hbits⟩ :=
      writeUlong_eq (@index_lt bits pos (by omega)) value
    have hfirst : Overwrites v (32 * pos) (32 * (pos + 1)) bits bits' := by
      refine ⟨hsize, fun i => ?_⟩
      rw [hbits]
      by_cases hin : i / 32 = pos
      · have hin' : 32 * pos ≤ i ∧ i < 32 * (pos + 1) := by omega
        rw [if_pos hin, if_pos hin', hvalue _ (Nat.mod_lt _ (by decide))]
      · have hout : ¬(32 * pos ≤ i ∧ i < 32 * (pos + 1)) := by omega
        rw [if_neg hin, if_neg hout]
    have hrest : 32 * (pos + 1 + n) ≤ bits'.sizeOfBitMap := by
      omega
    obtain ⟨bits'', hfill, hover⟩ := ih (pos + 1) hrest
    refine ⟨bits'', ?_, ?_⟩
    · rw [fillUlongs, hwrite, bind_some, hfill]
    · have hsum : pos + (n + 1) = pos + 1 + n := by omega
      rw [hsum]
      exact hfirst.trans hover (by omega) (by omega)

/-- What the writes of `RtlSetBits` and of `RtlClearBits` have in common. -/
lemma writes_overwrite {first last both : Ulong → Ulong} (h : InRange bits start count)
    (hfirst : ∀ word : Ulong, ∀ j < 32, (first word).getLsbD j =
      if start % 32 ≤ j then v else word.getLsbD j)
    (hvalue : ∀ j < 32, value.getLsbD j = v)
    (hlast : ∀ word : Ulong, ∀ j < 32, (last word).getLsbD j =
      if j < (start + count) % 32 then v else word.getLsbD j)
    (hboth : ∀ word : Ulong, ∀ j < 32, (both word).getLsbD j =
      if start % 32 ≤ j ∧ j < (start + count) % 32 then v else word.getLsbD j) :
    ∃ bits', (if start / 32 < (start + count) / 32 then
        (updateUlong bits (start / 32) first).bind fun bits =>
        (fillUlongs value ((start + count) / 32 - (start / 32 + 1)) (start / 32 + 1) bits).bind
          fun bits =>
        if (start + count) % 32 ≠ 0 then updateUlong bits ((start + count) / 32) last
        else some bits
      else updateUlong bits (start / 32) both) = some bits' ∧
      Overwrites v start (start + count) bits bits' := by
  obtain ⟨hcount, hend⟩ := h
  by_cases hwords : start / 32 < (start + count) / 32
  · rw [if_pos hwords]
    obtain ⟨bits₁, h₁, hover₁⟩ := @updateUlong_overwrites bits first v (start / 32) start
      (32 * (start / 32 + 1)) (by omega) (by omega) (by omega) fun word j hj => by
        rw [hfirst word j hj]
        congr 1
        rw [eq_iff_iff]
        omega
    obtain ⟨bits₂, h₂, hover₂⟩ := @fillUlongs_overwrites bits₁ v value (start / 32 + 1)
      ((start + count) / 32 - (start / 32 + 1)) hvalue (by rw [hover₁.size_eq]; omega)
    have hsum : start / 32 + 1 + ((start + count) / 32 - (start / 32 + 1)) =
        (start + count) / 32 := by omega
    rw [hsum] at hover₂
    rw [h₁, bind_some, h₂, bind_some]
    have hover := hover₁.trans hover₂ (by omega) (by omega)
    by_cases hpart : (start + count) % 32 ≠ 0
    · rw [if_pos hpart]
      obtain ⟨bits₃, h₃, hover₃⟩ := @updateUlong_overwrites bits₂ last v
        ((start + count) / 32) (32 * ((start + count) / 32)) (start + count)
        (by rw [hover.size_eq]; omega) (by omega) (by omega) fun word j hj => by
          rw [hlast word j hj]
          congr 1
          rw [eq_iff_iff]
          omega
      exact ⟨bits₃, h₃, hover.trans hover₃ (by omega) (by omega)⟩
    rw [if_neg hpart]
    have hstop : 32 * ((start + count) / 32) = start + count := by omega
    rw [hstop] at hover
    exact ⟨bits₂, rfl, hover⟩
  · rw [if_neg hwords]
    apply updateUlong_overwrites
    · omega
    · omega
    · omega
    intro word j hj
    rw [hboth word j hj]
    congr 1
    rw [eq_iff_iff]
    omega

lemma getLsbD_not_maskbits {idx j : Nat} (hj : j < 32) :
    (~~~maskbits idx).getLsbD j = decide (j < idx % 32) := by
  rw [getLsbD_not, getLsbD_maskbits hj]
  by_cases hlt : j < idx % 32
  · have hle : ¬idx % 32 ≤ j := by omega
    simp [hj, hlt, hle]
  · have hle : idx % 32 ≤ j := by omega
    simp [hlt, hle]

lemma rtlSetBits_overwrites (h : InRange bits start count) :
    ∃ bits', rtlSetBits bits start count = some bits' ∧
      Overwrites true start (start + count) bits bits' := by
  have hin : outside bits start count = false := by
    rw [outside_eq, decide_eq_true h]
    rfl
  unfold rtlSetBits
  rw [hin, h.rangeEnd_eq]
  apply writes_overwrite h
  · intro word j hj
    rw [getLsbD_or, getLsbD_maskbits hj]
    split <;> simp [*]
  · intro j hj
    rw [getLsbD_allOnes, decide_eq_true hj]
  · intro word j hj
    rw [getLsbD_or, getLsbD_not_maskbits hj]
    split <;> simp [*]
  intro word j hj
  rw [getLsbD_or, getLsbD_and, getLsbD_not_maskbits hj, getLsbD_maskbits hj,
    ← Bool.decide_and]
  split <;> simp [*]

lemma rtlClearBits_overwrites (h : InRange bits start count) :
    ∃ bits', rtlClearBits bits start count = some bits' ∧
      Overwrites false start (start + count) bits bits' := by
  have hin : outside bits start count = false := by
    rw [outside_eq, decide_eq_true h]
    rfl
  unfold rtlClearBits
  rw [hin, h.rangeEnd_eq]
  apply writes_overwrite h
  · intro word j hj
    rw [getLsbD_and, getLsbD_not_maskbits hj]
    by_cases hle : start % 32 ≤ j
    · have hlt : ¬j < start % 32 := by omega
      simp [hle, hlt]
    · have hlt : j < start % 32 := by omega
      simp [hle, hlt]
  · intro j hj
    exact getLsbD_zero
  · intro word j hj
    rw [getLsbD_and, getLsbD_maskbits hj]
    by_cases hlt : j < (start + count) % 32
    · have hle : ¬(start + count) % 32 ≤ j := by omega
      simp [hle, hlt]
    · have hle : (start + count) % 32 ≤ j := by omega
      simp [hle, hlt]
  intro word j hj
  rw [getLsbD_and, getLsbD_or, getLsbD_not_maskbits hj, getLsbD_maskbits hj,
    ← Bool.decide_or]
  by_cases hin : start % 32 ≤ j ∧ j < (start + count) % 32
  · have hout : ¬(j < start % 32 ∨ (start + count) % 32 ≤ j) := by omega
    rw [if_pos hin, decide_eq_false hout, Bool.and_false]
  · have hout : j < start % 32 ∨ (start + count) % 32 ≤ j := by omega
    rw [if_neg hin, decide_eq_true hout, Bool.and_true]

/-- All bits from `lo` up to `hi` have one value. -/
def AllAre (v : Bool) (bits : RtlBitmap) (lo hi : Nat) : Prop :=
  ∀ i, lo ≤ i → i < hi → setBit bits i = v

lemma AllAre.append_iff (lo mid hi : Nat) (hlo : lo ≤ mid) (hhi : mid ≤ hi) :
    AllAre v bits lo hi ↔ AllAre v bits lo mid ∧ AllAre v bits mid hi := by
  constructor
  · intro h
    exact ⟨fun i hle hlt => h i hle (by omega), fun i hle hlt => h i (by omega) hlt⟩
  · rintro ⟨hfirst, hlast⟩ i hle hlt
    by_cases hi' : i < mid
    · exact hfirst i hle hi'
    · exact hlast i (by omega) hlt

lemma readUlong_test {test : Ulong → Bool} (pos lo hi : Nat) (hpos : 32 * pos < bits.sizeOfBitMap)
    (hlo : 32 * pos ≤ lo) (hhi : hi ≤ 32 * pos + 32)
    (htest : ∀ word : Ulong, test word = true ↔
      ∀ j < 32, lo ≤ 32 * pos + j → 32 * pos + j < hi → word.getLsbD j = v) :
    ∃ word, readUlong bits pos = some word ∧ (test word = true ↔ AllAre v bits lo hi) := by
  obtain ⟨word, hread, hword⟩ := readUlong_eq (index_lt hpos)
  refine ⟨word, hread, (htest word).trans ?_⟩
  constructor
  · intro h i hle hlt
    have hi' : 32 * pos + (i - 32 * pos) = i := by omega
    have hbit := h (i - 32 * pos) (by omega) (by omega) (by omega)
    rwa [hword _ (by omega), hi'] at hbit
  · intro h j hj hle hlt
    rw [hword j hj]
    exact h _ hle hlt

lemma checkUlongs_spec (hvalue : ∀ word : Ulong, (word == value) = true ↔
      ∀ j < 32, word.getLsbD j = v) (pos n : Nat)
    (hfits : 32 * (pos + n) ≤ bits.sizeOfBitMap) :
    ∃ whole, checkUlongs bits value n pos = some whole ∧
      (whole = true ↔ AllAre v bits (32 * pos) (32 * (pos + n))) := by
  induction n generalizing pos with
  | zero =>
    refine ⟨true, rfl, iff_of_true rfl fun i hle hlt => ?_⟩
    omega
  | succ n ih =>
    obtain ⟨word, hread, htest⟩ := @readUlong_test bits v (· == value) pos (32 * pos) (32 * (pos + 1)) (by omega) (by omega) (by omega) fun word => by
        rw [hvalue]
        exact forall₂_congr fun j hj => by
          constructor
          · exact fun h _ _ => h
          · exact fun h => h (by omega) (by omega)
    have hsum : pos + (n + 1) = pos + 1 + n := by omega
    have hsplit : AllAre v bits (32 * pos) (32 * (pos + (n + 1))) ↔
        AllAre v bits (32 * pos) (32 * (pos + 1)) ∧
          AllAre v bits (32 * (pos + 1)) (32 * (pos + 1 + n)) := by
      rw [hsum]
      exact AllAre.append_iff _ _ _ (by omega) (by omega)
    obtain ⟨whole, hcheck, hwhole⟩ := ih (pos + 1) (by omega)
    rw [checkUlongs, hread, bind_some, hsplit]
    by_cases hsame : (word == value) = true
    · refine ⟨whole, ?_, ?_⟩
      · rw [bne, hsame]
        exact hcheck
      · rw [hwhole]
        exact (and_iff_right (htest.mp hsame)).symm
    refine ⟨false, ?_, ?_⟩
    · rw [bne, Bool.eq_false_iff.mpr hsame]
      rfl
    · exact iff_of_false (by simp) fun h => hsame (htest.mpr h.1)

/-- What the tests of `RtlAreBitsSet` and of `RtlAreBitsClear` have in common. -/
lemma tests_spec {first last both : Ulong → Bool} (h : InRange bits start count)
    (hfirst : ∀ word : Ulong, first word = true ↔
      ∀ j < 32, start % 32 ≤ j → word.getLsbD j = v)
    (hvalue : ∀ word : Ulong, (word == value) = true ↔ ∀ j < 32, word.getLsbD j = v)
    (hlast : ∀ word : Ulong, last word = true ↔
      ∀ j < 32, j < (start + count) % 32 → word.getLsbD j = v)
    (hboth : ∀ word : Ulong, both word = true ↔
      ∀ j < 32, start % 32 ≤ j → j < (start + count) % 32 → word.getLsbD j = v) :
    ∃ result, (if (start + count) / 32 = start / 32 then (readUlong bits (start / 32)).map both
      else
        (readUlong bits (start / 32)).bind fun word =>
        if !first word then some false
        else
          (checkUlongs bits value ((start + count) / 32 - (start / 32 + 1)) (start / 32 + 1)).bind
            fun whole =>
          if !whole then some false
          else if (start + count) % 32 = 0 then some true
          else (readUlong bits ((start + count) / 32)).map last) = some result ∧
      (result = true ↔ AllAre v bits start (start + count)) := by
  obtain ⟨hcount, hend⟩ := h
  by_cases hone : (start + count) / 32 = start / 32
  · rw [if_pos hone]
    obtain ⟨word, hread, htest⟩ := @readUlong_test bits v both (start / 32) start (start + count)
      (by omega) (by omega) (by omega) fun word => by
        rw [hboth]
        exact forall₂_congr fun j hj => by
          have hlo : start % 32 ≤ j ↔ start ≤ 32 * (start / 32) + j := by omega
          have hhi : j < (start + count) % 32 ↔ 32 * (start / 32) + j < start + count := by omega
          rw [hlo, hhi]
    exact ⟨both word, by rw [hread, map_some], htest⟩
  rw [if_neg hone]
  obtain ⟨word, hread, htest⟩ := @readUlong_test bits v first (start / 32) start
    (32 * (start / 32 + 1)) (by omega) (by omega) (by omega) fun word => by
      rw [hfirst]
      exact forall₂_congr fun j hj => by
        have hlo : start % 32 ≤ j ↔ start ≤ 32 * (start / 32) + j := by omega
        rw [hlo]
        exact forall_congr' fun _ => ⟨fun h _ => h, fun h => h (by omega)⟩
  have hsum : start / 32 + 1 + ((start + count) / 32 - (start / 32 + 1)) =
      (start + count) / 32 := by omega
  obtain ⟨whole, hcheck, hwhole⟩ := @checkUlongs_spec bits v value hvalue (start / 32 + 1)
    ((start + count) / 32 - (start / 32 + 1)) (by omega)
  rw [hsum] at hwhole
  have hsplit : AllAre v bits start (start + count) ↔
      AllAre v bits start (32 * (start / 32 + 1)) ∧
        AllAre v bits (32 * (start / 32 + 1)) (32 * ((start + count) / 32)) ∧
          AllAre v bits (32 * ((start + count) / 32)) (start + count) := by
    rw [AllAre.append_iff start (32 * (start / 32 + 1)) _ (by omega) (by omega),
      AllAre.append_iff _ (32 * ((start + count) / 32)) (start + count) (by omega) (by omega)]
  rw [hread, bind_some, hsplit, ← htest, ← hwhole]
  cases hfirstword : first word with
  | false => exact ⟨false, rfl, by simp⟩
  | true =>
    rw [hcheck]
    cases whole with
    | false => exact ⟨false, rfl, by simp⟩
    | true =>
      by_cases hpart : (start + count) % 32 = 0
      · refine ⟨true, if_pos hpart, iff_of_true rfl ⟨rfl, rfl, fun i hle hlt => ?_⟩⟩
        omega
      obtain ⟨word', hread', htest'⟩ := @readUlong_test bits v last ((start + count) / 32)
        (32 * ((start + count) / 32)) (start + count) (by omega) (by omega) (by omega)
        fun word => by
          rw [hlast]
          exact forall₂_congr fun j hj => by
            have hhi : j < (start + count) % 32 ↔
              32 * ((start + count) / 32) + j < start + count := by omega
            rw [hhi]
            exact ⟨fun h _ => h, fun h => h (by omega)⟩
      refine ⟨last word', (if_neg hpart).trans ?_, ?_⟩
      · rw [hread', map_some]
      · rw [htest']
        simp

lemma beq_iff_bits {word word' : Ulong} :
    (word == word') = true ↔ ∀ j < 32, word.getLsbD j = word'.getLsbD j := by
  rw [beq_iff_eq]
  exact ⟨fun h j _ => h ▸ rfl, eq_of_getLsbD_eq⟩

lemma or_lt_iff {P : Prop} {j m : Nat} : (P ∨ j < m) ↔ (m ≤ j → P) :=
  ⟨fun h hle => h.resolve_right (Nat.not_lt.mpr hle), fun h => (lt_or_ge j m).symm.imp_left h⟩

lemma or_le_iff {P : Prop} {j m : Nat} : (P ∨ m ≤ j) ↔ (j < m → P) :=
  ⟨fun h hlt => h.resolve_right (Nat.not_le.mpr hlt), fun h => (lt_or_ge j m).imp_left h⟩

lemma rtlAreBitsSet_eq (bits : RtlBitmap) (start count : Nat) :
    ∃ result, rtlAreBitsSet bits start count = some result ∧
      (result = true ↔ InRange bits start count ∧ AllSet (setBit bits) start (start + count)) := by
  by_cases h : InRange bits start count
  · have hin : outside bits start count = false := by
      rw [outside_eq, decide_eq_true h]
      rfl
    unfold rtlAreBitsSet
    rw [hin, h.rangeEnd_eq, and_iff_right h]
    apply tests_spec h
    · intro word
      rw [beq_iff_bits]
      refine forall₂_congr fun j hj => ?_
      rw [getLsbD_or, getLsbD_not_maskbits hj, getLsbD_allOnes, decide_eq_true hj,
        Bool.or_eq_true, decide_eq_true_eq]
      exact or_lt_iff
    · intro word
      rw [beq_iff_bits]
      refine forall₂_congr fun j hj => ?_
      rw [getLsbD_allOnes, decide_eq_true hj]
    · intro word
      rw [beq_iff_bits]
      refine forall₂_congr fun j hj => ?_
      rw [getLsbD_or, getLsbD_maskbits hj, getLsbD_allOnes, decide_eq_true hj,
        Bool.or_eq_true, decide_eq_true_eq]
      exact or_le_iff
    intro word
    rw [beq_iff_bits]
    refine forall₂_congr fun j hj => ?_
    rw [getLsbD_or, getLsbD_or, getLsbD_not_maskbits hj, getLsbD_maskbits hj,
      getLsbD_allOnes, decide_eq_true hj, Bool.or_eq_true, Bool.or_eq_true,
      decide_eq_true_eq, decide_eq_true_eq, or_le_iff, or_lt_iff]
    exact forall_comm
  · have hout : outside bits start count = true := by
      rw [outside_eq, decide_eq_false h]
      rfl
    refine ⟨false, ?_, iff_of_false (by simp) fun hset => h hset.1⟩
    unfold rtlAreBitsSet
    rw [hout]
    rfl

lemma zero_getLsbD (j : Nat) : (0 : Ulong).getLsbD j = false := BitVec.getLsbD_zero

lemma rtlAreBitsClear_eq (bits : RtlBitmap) (start count : Nat) :
    ∃ result, rtlAreBitsClear bits start count = some result ∧
      (result = true ↔
        InRange bits start count ∧ NoneSet (setBit bits) start (start + count)) := by
  by_cases h : InRange bits start count
  · have hin : outside bits start count = false := by
      rw [outside_eq, decide_eq_true h]
      rfl
    unfold rtlAreBitsClear
    rw [hin, h.rangeEnd_eq, and_iff_right h]
    apply tests_spec h
    · intro word
      rw [beq_iff_bits]
      refine forall₂_congr fun j hj => ?_
      rw [getLsbD_and, getLsbD_maskbits hj, zero_getLsbD, Bool.and_eq_false_iff,
        decide_eq_false_iff_not, not_le]
      exact or_lt_iff
    · intro word
      rw [beq_iff_bits]
      refine forall₂_congr fun j hj => ?_
      rw [zero_getLsbD]
    · intro word
      rw [beq_iff_bits]
      refine forall₂_congr fun j hj => ?_
      rw [getLsbD_and, getLsbD_not_maskbits hj, zero_getLsbD, Bool.and_eq_false_iff,
        decide_eq_false_iff_not, not_lt]
      exact or_le_iff
    intro word
    rw [beq_iff_bits]
    refine forall₂_congr fun j hj => ?_
    rw [getLsbD_and, getLsbD_and, getLsbD_not_maskbits hj, getLsbD_maskbits hj,
      zero_getLsbD, Bool.and_eq_false_iff, Bool.and_eq_false_iff,
      decide_eq_false_iff_not, decide_eq_false_iff_not, not_le, not_lt, or_le_iff,
      or_lt_iff]
    exact forall_comm
  · have hout : outside bits start count = true := by
      rw [outside_eq, decide_eq_false h]
      rfl
    refine ⟨false, ?_, iff_of_false (by simp) fun hset => h hset.1⟩
    unfold rtlAreBitsClear
    rw [hout]
    rfl

/-- The set bits from `start` on. -/
def setCount (bits : RtlBitmap) (start n : Nat) : Nat :=
  (List.range n).countP fun j => setBit bits (start + j)

lemma setCount_add (bits : RtlBitmap) (start m n : Nat) :
    setCount bits start (m + n) = setCount bits start m + setCount bits (start + m) n := by
  unfold setCount
  rw [range_add, countP_append, countP_map]
  congr 2
  funext j
  rw [Function.comp_apply, Nat.add_assoc]

lemma popcnt_eq {word : Ulong} {n : Nat} (hn : n ≤ 32)
    (hword : ∀ j < 32, word.getLsbD j = (decide (j < n) && setBit bits (32 * pos + j))) :
    popcnt word = setCount bits (32 * pos) n := by
  unfold popcnt setCount
  obtain ⟨m, hm⟩ := Nat.exists_eq_add_of_le hn
  have hlow : (List.range n).countP word.getLsbD =
      (List.range n).countP fun j => setBit bits (32 * pos + j) := by
    apply countP_congr
    intro j hj
    have hlt := List.mem_range.mp hj
    rw [hword j (by omega), decide_eq_true hlt, Bool.true_and]
  have hhigh : (List.map (n + ·) (List.range m)).countP word.getLsbD = 0 := by
    rw [countP_eq_zero]
    intro j hj
    obtain ⟨i, hi, rfl⟩ := List.mem_map.mp hj
    have hlt := List.mem_range.mp hi
    have hge : ¬n + i < n := by omega
    rw [hword _ (by omega), decide_eq_false hge, Bool.false_and]
    simp
  have hrange : List.range 32 = List.range n ++ (List.range m).map (n + ·) := by
    rw [hm, range_add]
  rw [hrange, countP_append, hlow, hhigh, Nat.add_zero]

lemma countUlongs_eq (pos n : Nat) (hfits : 32 * (pos + n) ≤ bits.sizeOfBitMap) :
    countUlongs bits n pos = some (setCount bits (32 * pos) (32 * n)) := by
  induction n generalizing pos with
  | zero => rfl
  | succ n ih =>
    obtain ⟨word, hread, hword⟩ := readUlong_eq (@index_lt bits pos (by omega))
    have hpop : popcnt word = setCount bits (32 * pos) 32 := by
      apply popcnt_eq (le_refl 32)
      intro j hj
      rw [hword j hj, decide_eq_true hj, Bool.true_and]
    have hsum : 32 * (n + 1) = 32 + 32 * n := by omega
    have hnext : 32 * pos + 32 = 32 * (pos + 1) := by omega
    rw [countUlongs, hread, bind_some, ih (pos + 1) (by omega), map_some, hpop, hsum,
      setCount_add, hnext]

lemma rtlNumberOfSetBits_eq (bits : RtlBitmap) :
    rtlNumberOfSetBits bits = some (setCount bits 0 bits.sizeOfBitMap) := by
  have hwhole := @countUlongs_eq bits 0 (bits.sizeOfBitMap / 32) (by omega)
  unfold rtlNumberOfSetBits
  rw [hwhole, bind_some]
  by_cases hpart : bits.sizeOfBitMap % 32 ≠ 0
  · obtain ⟨word, hread, hword⟩ := readUlong_eq (@index_lt bits (bits.sizeOfBitMap / 32) (by omega))
    have hpop : popcnt (word &&& ~~~maskbits bits.sizeOfBitMap) =
        setCount bits (32 * (bits.sizeOfBitMap / 32)) (bits.sizeOfBitMap % 32) := by
      apply popcnt_eq (by omega)
      intro j hj
      rw [getLsbD_and, getLsbD_not_maskbits hj, hword j hj, Bool.and_comm]
    have hsum : 32 * (bits.sizeOfBitMap / 32) + bits.sizeOfBitMap % 32 = bits.sizeOfBitMap :=
      Nat.div_add_mod _ _
    have hadd := setCount_add bits 0 (32 * (bits.sizeOfBitMap / 32)) (bits.sizeOfBitMap % 32)
    rw [hsum, Nat.zero_add] at hadd
    rw [if_pos hpart, hread, map_some, hpop, hadd]
  · have hsum : 32 * (bits.sizeOfBitMap / 32) = bits.sizeOfBitMap := by omega
    rw [if_neg hpart, hsum]

/-- The range operations agree with the list of the bits. -/
theorem range_operations_agree (bits : RtlBitmap) (start count : Nat) : (InRange bits start count →
      (∃ bits', rtlSetBits bits start count = some bits' ∧
        Overwrites true start (start + count) bits bits') ∧
      ∃ bits', rtlClearBits bits start count = some bits' ∧
        Overwrites false start (start + count) bits bits') ∧
    (∃ result, rtlAreBitsSet bits start count = some result ∧
      (result = true ↔ InRange bits start count ∧ AllSet (setBit bits) start (start + count))) ∧
    (∃ result, rtlAreBitsClear bits start count = some result ∧
      (result = true ↔
        InRange bits start count ∧ NoneSet (setBit bits) start (start + count))) ∧
    (¬InRange bits start count →
      rtlSetBits bits start count = some bits ∧ rtlClearBits bits start count = some bits) ∧
    rtlNumberOfSetBits bits = some ((List.range bits.sizeOfBitMap).countP (setBit bits)) := by
  refine ⟨fun h => ⟨rtlSetBits_overwrites h, rtlClearBits_overwrites h⟩,
    rtlAreBitsSet_eq bits start count, rtlAreBitsClear_eq bits start count, fun h => ?_, ?_⟩
  · have hout : outside bits start count = true := by
      rw [outside_eq, decide_eq_false h]
      rfl
    unfold rtlSetBits rtlClearBits
    rw [hout]
    exact ⟨rfl, rfl⟩
  · rw [rtlNumberOfSetBits_eq]
    unfold setCount
    simp only [Nat.zero_add]

def fortyBits : RtlBitmap := ⟨40, List.replicate 8 0, by decide, by decide⟩

/-- A range that ends in the second ULONG is set. -/
theorem range_operations_agree_forty :
    (∃ bits', rtlSetBits fortyBits 28 8 = some bits' ∧ Overwrites true 28 36 fortyBits bits') ∧
    rtlNumberOfSetBits fortyBits = some 0 := by
  obtain ⟨hwrites, _, _, _, hcount⟩ := range_operations_agree fortyBits 28 8
  refine ⟨(hwrites (by decide)).1, hcount.trans ?_⟩
  decide

end WineForge.Bitmaps
