import WineForge.Bitmaps.Search

/-!
# The next run of a bitmap

A search reports the first run exactly when it starts even and the first run among the bits of all
bytes is one of the bitmap. A bitmap that uses the last byte of the position range is searched
behind its buffer as soon as a run or a gap reaches the end of that byte.
-/

namespace WineForge.Bitmaps

open WineForge.Library

variable {view : Byte → Byte} {bits : RtlBitmap} {start p c : Nat}

lemma not_reportsFirst_none : ¬ReportsFirst view bits start none := by
  rintro ⟨_, _, h, _⟩
  cases h

lemma not_returnsFirst_none : ¬ReturnsFirst view bits start none := by
  rintro ⟨_, _, h, _⟩
  cases h

lemma searchable_iff_of_run {e : Nat}
    (hrun : FirstRun (bit view bits) start (bytesEnd bits) p e) (heven : StartsEven view bits start) :
    Searchable view bits start ↔
      e < bytesEnd bits ∧ e ≤ bits.sizeOfBitMap ∨
        e = bytesEnd bits ∧ p ≤ bits.sizeOfBitMap ∧ bytesEnd bits < ulongRange := by
  have hpos := hrun.nonempty
  have hstop := hrun.stop_le
  constructor
  · intro h
    obtain hlt | rfl := lt_or_eq_of_le hstop
    · exact .inl ⟨hlt, h.within p e hrun hlt⟩
    · exact .inr ⟨rfl, h.reaching p hrun⟩
  · intro h
    refine ⟨heven, fun hnone => ?_, fun p' e' hrun' hlt => ?_, fun p' hrun' => ?_⟩
    · exact absurd hnone (hrun.not_noneSet (by omega))
    · obtain ⟨rfl, rfl⟩ := hrun.unique hrun'
      obtain ⟨_, hle⟩ | ⟨heq, _⟩ := h
      · exact hle
      · omega
    obtain ⟨rfl, rfl⟩ := hrun.unique hrun'
    obtain ⟨hlt, _⟩ | ⟨_, hle⟩ := h
    · omega
    · exact hle

lemma searchable_iff_of_none (hnone : NoneSet (bit view bits) start (bytesEnd bits))
    (heven : StartsEven view bits start) :
    Searchable view bits start ↔ bytesEnd bits < ulongRange := by
  constructor
  · intro h
    exact h.absent hnone
  · intro hwrap
    refine ⟨heven, fun _ => hwrap, fun p e hrun _ => ?_, fun p hrun => ?_⟩
    · exact absurd hnone (hrun.not_noneSet (lt_of_lt_of_le hrun.nonempty hrun.stop_le))
    · exact absurd hnone (hrun.not_noneSet hrun.nonempty)

lemma UnevenScan.not_reportsFirst (h : UnevenScan view bits start p c)
    (hstart : start < bits.sizeOfBitMap) : ¬ReportsFirst view bits start (findRun view bits start) := by
  rintro ⟨pos, size?, hresult, hright⟩
  obtain ⟨hpos, n, rfl, hn⟩ := h.result_eq hstart hresult
  obtain ⟨e, hrun, _⟩ := h.exists_firstRun hstart
  obtain ⟨hnone, hzero⟩ | hright := hright
  · apply hn _ hzero
    by_contra hp
    exact hrun.not_noneSet (by omega) hnone
  · have heq := (firstRun_pos_eq hrun hright).2.1
    rw [hpos] at heq
    exact h.pos_ne heq

lemma reportsFirst_iff (hstart : start < bits.sizeOfBitMap) :
    ReportsFirst view bits start (findRun view bits start) ↔ Searchable view bits start := by
  by_cases heven : StartsEven view bits start
  · obtain ⟨hnone, hfind⟩ | ⟨p, e, hrun, hfind⟩ := findRun_spec hstart heven
    · rw [hfind, searchable_iff_of_none hnone heven]
      constructor
      · intro hright
        by_contra hwrap
        rw [if_neg hwrap] at hright
        exact not_reportsFirst_none hright
      · intro hwrap
        rw [if_pos hwrap]
        exact ⟨noRun, none, rfl, .inl ⟨hnone.mono le_rfl (size_le_bytesEnd bits), rfl⟩⟩
    · rw [hfind, reportsFirst_raw hrun, searchable_iff_of_run hrun heven]
  · obtain ⟨p, c, hscan⟩ := exists_unevenScan hstart heven
    constructor
    · intro hright
      exact absurd hright (hscan.not_reportsFirst hstart)
    · intro h
      exact absurd h.even heven

lemma UnevenScan.returnsFirst_iff (h : UnevenScan view bits start p c)
    (hstart : start < bits.sizeOfBitMap) (heven : ¬StartsEven view bits start) :
    ReturnsFirst view bits start (findRun view bits start) ↔ Misses view bits start := by
  have hrange := bits.size_lt
  have hend := bytesEnd_le bits
  have hstop := h.stop_le
  have hc := h.pos
  obtain ⟨e, hrun, hce⟩ := h.exists_firstRun hstart
  constructor
  · rintro ⟨pos, size?, hresult, hright⟩
    obtain ⟨hat, n, rfl, _⟩ := h.result_eq hstart hresult
    obtain ⟨hnone, hno⟩ | ⟨_, hright⟩ := hright
    · have hbehind : bits.sizeOfBitMap ≤ p := by
        by_contra hp
        exact hrun.not_noneSet (by omega) hnone
      have hat' : p + start % 8 = noRun := by
        rw [hno] at hat
        unfold noRun ulongRange at *
        omega
      have hlast : ulongRange ≤ start / 8 * 8 + 8 := by
        unfold noRun ulongRange at *
        omega
      obtain ⟨hshort, hclear, _⟩ | ⟨hfull, _⟩ := h.result
      · have hrun' : FirstRun (bit view bits) start (bytesEnd bits) p (p + c) := by
          refine ⟨hrun.start_le, by omega, ?_, hrun.before, h.inside, .inr hclear⟩
          exact le_trans hce hrun.stop_le
        refine ⟨heven, p, p + c, hrun', ?_, hbehind, hat'⟩
        have hbytes : start / 8 * 8 + 8 ≤ bytesEnd bits := by
          unfold bytesEnd
          omega
        omega
      · rw [h.last_byte hlast hfull hstart] at hresult
        cases hresult
    · have heq := (firstRun_pos_eq hrun hright).2.1
      rw [hat] at heq
      exact absurd heq h.pos_ne
  · rintro ⟨_, p', e', hrun', hlt, hbehind, hat⟩
    obtain ⟨rfl, rfl⟩ := hrun.unique hrun'
    have hmod : (p + start % 8) % ulongRange = noRun := by
      rw [hat]
      rfl
    obtain ⟨_, _, hscan⟩ | ⟨hfull, _⟩ := h.result
    · rw [hscan, hmod]
      exact ⟨noRun, some c, rfl, .inl ⟨hrun.before.mono le_rfl hbehind, rfl⟩⟩
    · unfold noRun ulongRange at *
      omega

lemma returnsFirst_iff (hstart : start < bits.sizeOfBitMap) :
    ReturnsFirst view bits start (findRun view bits start) ↔
      Searchable view bits start ∧ ¬StartsBehind view bits start ∨ Misses view bits start := by
  by_cases heven : StartsEven view bits start
  · have hnot : ¬Misses view bits start := fun h => h.1 heven
    rw [or_iff_left hnot]
    obtain ⟨hnone, hfind⟩ | ⟨p, e, hrun, hfind⟩ := findRun_spec hstart heven
    · have hfar : ¬StartsBehind view bits start := by
        rintro ⟨e, hrun⟩
        exact hrun.not_noneSet (lt_of_lt_of_le hrun.nonempty hrun.stop_le) hnone
      rw [hfind, searchable_iff_of_none hnone heven, and_iff_left hfar]
      constructor
      · intro hright
        by_contra hwrap
        rw [if_neg hwrap] at hright
        exact not_returnsFirst_none hright
      · intro hwrap
        rw [if_pos hwrap]
        exact ⟨noRun, none, rfl, .inl ⟨hnone.mono le_rfl (size_le_bytesEnd bits), rfl⟩⟩
    · have hbehind : StartsBehind view bits start ↔ p = bits.sizeOfBitMap := by
        constructor
        · rintro ⟨e', hrun'⟩
          exact (hrun.unique hrun').1
        · rintro rfl
          exact ⟨e, hrun⟩
      rw [hfind, returnsFirst_raw hrun, reportsFirst_raw hrun, searchable_iff_of_run hrun heven,
        hbehind]
  · obtain ⟨p, c, hscan⟩ := exists_unevenScan hstart heven
    rw [hscan.returnsFirst_iff hstart heven]
    constructor
    · exact .inr
    · rintro (⟨h, _⟩ | h)
      · exact absurd h.even heven
      · exact h

end WineForge.Bitmaps
