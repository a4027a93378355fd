import Mathlib.Data.List.Sort
import WineForge.Bitmaps.ForwardRuns
import WineForge.Library.Largest

/-!
# The runs of a bitmap

The series of runs starts each search where the run before ended, so all but the first search start
inside a byte unless the run ended with one. As long as every search is right the series holds the
first runs, or the longest ones.
-/

namespace WineForge.Bitmaps

open List WineForge.Library

variable (view : Byte → Byte) (bits : RtlBitmap)

def Returnable (start : Nat) : Prop :=
  Searchable view bits start ∧ ¬StartsBehind view bits start ∨ Misses view bits start

def toRun (run : Nat × Nat) : RtlBitmapRun := ⟨run.1, run.2 - run.1⟩

/-- The positions from which the runs are searched for: the start, and the end of each run. -/
def searches (start : Nat) (runs : List (Nat × Nat)) : List Nat := start :: runs.map Prod.snd

variable {view bits} {sort : RunSort} {count fuel start pos : Nat} {longest needSort : Bool}
  {series result : List RtlBitmapRun} {runs : List (Nat × Nat)} {size? : Option Nat}

section Turns

variable {fn : RtlBitmap → Nat → Option (Nat × Option Nat)}

lemma findRunsLoop_end (h : bits.sizeOfBitMap ≤ start) :
    findRunsLoop fn sort bits count longest (fuel + 1) needSort start series = some series := by
  rw [findRunsLoop, if_pos h]

section

variable (h : start < bits.sizeOfBitMap)

include h

lemma findRunsLoop_fault (hfind : fn bits start = none) :
    findRunsLoop fn sort bits count longest (fuel + 1) needSort start series = none := by
  rw [findRunsLoop, if_neg (by omega), hfind]

lemma findRunsLoop_absent (hfind : fn bits start = some (noRun, size?)) :
    findRunsLoop fn sort bits count longest (fuel + 1) needSort start series = some series := by
  rw [findRunsLoop, if_neg (by omega), hfind]
  exact if_pos rfl

section

variable (hfind : fn bits start = some (pos, size?))

include hfind

lemma findRunsLoop_append (hpos : pos ≠ noRun) :
    findRunsLoop fn sort bits count false (fuel + 1) needSort start series =
      if (series ++ [RtlBitmapRun.mk pos (size?.getD 0)]).length = count then
        some (series ++ [⟨pos, size?.getD 0⟩])
      else findRunsLoop fn sort bits count false fuel needSort
        ((pos + size?.getD 0) % ulongRange) (series ++ [⟨pos, size?.getD 0⟩]) := by
  rw [findRunsLoop, if_neg (by omega), hfind]
  simp only [hpos, if_false, Bool.false_and, Bool.false_eq_true, Bool.not_false, Bool.true_and,
    beq_iff_eq]

lemma findRunsLoop_longest_room (hpos : pos ≠ noRun) (hroom : series.length ≠ count) :
    findRunsLoop fn sort bits count true (fuel + 1) needSort start series =
      findRunsLoop fn sort bits count true fuel needSort ((pos + size?.getD 0) % ulongRange)
        (series ++ [⟨pos, size?.getD 0⟩]) := by
  rw [findRunsLoop, if_neg (by omega), hfind]
  simp [hpos, hroom]

lemma findRunsLoop_longest_full (hpos : pos ≠ noRun) (hfull : series.length = count) :
    findRunsLoop fn sort bits count true (fuel + 1) needSort start series =
      findRunsLoop fn sort bits count true fuel
        (replaceLast sort needSort series ⟨pos, size?.getD 0⟩).1
        ((pos + size?.getD 0) % ulongRange)
        (replaceLast sort needSort series ⟨pos, size?.getD 0⟩).2 := by
  rw [findRunsLoop, if_neg (by omega), hfind]
  simp [hpos, hfull]

end

end

lemma findRunsLoop_prefix
    (h : findRunsLoop fn sort bits count false fuel needSort start series = some result) :
    ∃ tail, result = series ++ tail := by
  induction fuel generalizing start series with
  | zero => cases h
  | succ fuel ih =>
    by_cases hend : bits.sizeOfBitMap ≤ start
    · rw [findRunsLoop_end hend] at h
      cases h
      exact ⟨[], (append_nil _).symm⟩
    have hstart : start < bits.sizeOfBitMap := by omega
    cases hfind : fn bits start with
    | none =>
      rw [findRunsLoop_fault hstart hfind] at h
      cases h
    | some found =>
      obtain ⟨pos, size?⟩ := found
      by_cases hpos : pos = noRun
      · subst hpos
        rw [findRunsLoop_absent hstart hfind] at h
        cases h
        exact ⟨[], (append_nil _).symm⟩
      rw [findRunsLoop_append hstart hfind hpos] at h
      split at h
      · cases h
        exact ⟨_, rfl⟩
      · obtain ⟨tail, rfl⟩ := ih h
        exact ⟨_, append_assoc _ _ _⟩

lemma findRunsLoop_grows (h : start < bits.sizeOfBitMap)
    (hfind : fn bits start = some (pos, size?)) (hpos : pos ≠ noRun)
    (hloop : findRunsLoop fn sort bits count false (fuel + 1) needSort start series = some result) :
    ∃ tail, result = series ++ ⟨pos, size?.getD 0⟩ :: tail := by
  rw [findRunsLoop_append h hfind hpos] at hloop
  split at hloop
  · cases hloop
    exact ⟨[], rfl⟩
  · obtain ⟨tail, rfl⟩ := findRunsLoop_prefix hloop
    exact ⟨tail, append_assoc _ _ _⟩

end Turns

lemma returnable_cases (hstart : start < bits.sizeOfBitMap)
    (hruns : Runs (bit view bits) bits.sizeOfBitMap start runs)
    (h : Returnable view bits start) :
    (runs = [] ∧ ∃ size?, findRun view bits start = some (noRun, size?)) ∨
      ∃ run rest, runs = run :: rest ∧ run.1 ≠ noRun ∧
        Runs (bit view bits) bits.sizeOfBitMap run.2 rest ∧ run.1 < run.2 ∧
        run.2 ≤ bits.sizeOfBitMap ∧
        ∃ size?, findRun view bits start = some (run.1, size?) ∧ size?.getD 0 = run.2 - run.1 := by
  obtain ⟨pos, size?, hresult, hright⟩ := (returnsFirst_iff hstart).mpr h
  cases runs with
  | nil =>
    left
    obtain ⟨_, rfl⟩ | ⟨_, hrun⟩ := hright
    · exact ⟨rfl, size?, hresult⟩
    · exact absurd hruns (hrun.not_noneSet (lt_of_lt_of_le hrun.nonempty hrun.stop_le))
  | cons run rest =>
    right
    have hfirst := hruns.1
    obtain ⟨hnone, _⟩ | ⟨hne, hrun⟩ := hright
    · exact absurd hnone (hfirst.not_noneSet (lt_of_lt_of_le hfirst.nonempty hfirst.stop_le))
    obtain ⟨hpos, hend⟩ := hfirst.unique hrun
    subst hpos
    refine ⟨run, rest, rfl, hne, hruns.2, hfirst.nonempty, hfirst.stop_le, size?, hresult, ?_⟩
    omega

lemma runs_nil_of_end (hruns : Runs (bit view bits) bits.sizeOfBitMap start runs)
    (hend : bits.sizeOfBitMap ≤ start) : runs = [] := by
  cases runs with
  | nil => rfl
  | cons run rest =>
    have hle := hruns.1.start_le
    have hpos := hruns.1.nonempty
    have hstop := hruns.1.stop_le
    omega

lemma next_start {run : Nat × Nat} (hpos : run.1 < run.2) (hstop : run.2 ≤ bits.sizeOfBitMap) :
    (run.1 + (run.2 - run.1)) % ulongRange = run.2 := by
  have hrange := bits.size_lt
  rw [Nat.mod_eq_of_lt (by omega)]
  omega

lemma findRunsLoop_first (sort : RunSort) (needSort : Bool) (series : List RtlBitmapRun) {k : Nat}
    (hcount : series.length + (k + 1) = count)
    (hruns : Runs (bit view bits) bits.sizeOfBitMap start runs)
    (h : ∀ a ∈ (searches start runs).take (k + 1), a < bits.sizeOfBitMap →
      Returnable view bits a) :
    ∃ fuel, findRunsLoop (findRun view) sort bits count false fuel needSort start series =
      some (series ++ (runs.take (k + 1)).map toRun) := by
  induction runs generalizing start series k with
  | nil =>
    refine ⟨1, ?_⟩
    rw [take_nil, map_nil, append_nil]
    by_cases hend : bits.sizeOfBitMap ≤ start
    · exact findRunsLoop_end hend
    have hstart : start < bits.sizeOfBitMap := by omega
    have hgood := h start mem_cons_self hstart
    obtain ⟨_, size?, hfind⟩ | ⟨run, rest, hnil, _⟩ := returnable_cases hstart hruns hgood
    · exact findRunsLoop_absent hstart hfind
    · cases hnil
  | cons run rest ih =>
    have hstart : start < bits.sizeOfBitMap := by
      by_contra hend
      cases runs_nil_of_end hruns (by omega)
    have hgood := h start mem_cons_self hstart
    obtain ⟨hnil, _⟩ | ⟨run', rest', heq, hne, hrest, hpos, hstop, size?, hfind, hlen⟩ :=
      returnable_cases hstart hruns hgood
    · cases hnil
    cases heq
    have hrun : (⟨run.1, size?.getD 0⟩ : RtlBitmapRun) = toRun run := by
      rw [hlen]
      rfl
    cases k with
    | zero =>
      refine ⟨1, ?_⟩
      rw [findRunsLoop_append hstart hfind hne, hrun, if_pos (by simp; omega)]
      rfl
    | succ k =>
      have htail : ∀ a ∈ (searches run.2 rest).take (k + 1), a < bits.sizeOfBitMap →
          Returnable view bits a := by
        intro a ha
        apply h
        exact mem_cons_of_mem start ha
      have hlength : (series ++ [toRun run]).length + (k + 1) = count := by
        simp
        omega
      obtain ⟨fuel, hfuel⟩ := ih (series ++ [toRun run]) hlength hrest htail
      refine ⟨fuel + 1, ?_⟩
      rw [findRunsLoop_append hstart hfind hne, hrun, if_neg (by simp; omega), hlen,
        next_start hpos hstop, hfuel, take_succ_cons, map_cons, append_assoc]
      rfl

lemma searches_of_findRunsLoop {k : Nat} (hcount : series.length + (k + 1) = count)
    (hruns : Runs (bit view bits) bits.sizeOfBitMap start runs)
    (h : findRunsLoop (findRun view) sort bits count false fuel needSort start series =
      some (series ++ (runs.take (k + 1)).map toRun)) :
    ∀ a ∈ (searches start runs).take (k + 1), a < bits.sizeOfBitMap → Returnable view bits a := by
  induction runs generalizing start series k fuel with
  | nil =>
    intro a ha hlt
    rw [searches, map_nil, take_succ_cons, take_nil, mem_singleton] at ha
    subst ha
    unfold Returnable
    rw [← returnsFirst_iff hlt]
    cases fuel with
    | zero => cases h
    | succ fuel =>
      cases hfind : findRun view bits a with
      | none =>
        rw [findRunsLoop_fault hlt hfind] at h
        cases h
      | some found =>
        obtain ⟨pos, size?⟩ := found
        by_cases hpos : pos = noRun
        · exact ⟨pos, size?, rfl, .inl ⟨hruns, hpos⟩⟩
        · obtain ⟨tail, hgrow⟩ := findRunsLoop_grows hlt hfind hpos h
          have hlen := congrArg List.length hgrow
          simp at hlen
  | cons run rest ih =>
    have hstart : start < bits.sizeOfBitMap := by
      by_contra hend
      cases runs_nil_of_end hruns (by omega)
    have hfirst := hruns.1
    cases fuel with
    | zero => cases h
    | succ fuel =>
      cases hfind : findRun view bits start with
      | none =>
        rw [findRunsLoop_fault hstart hfind] at h
        cases h
      | some found =>
        obtain ⟨pos, size?⟩ := found
        by_cases hpos : pos = noRun
        · subst hpos
          rw [findRunsLoop_absent hstart hfind] at h
          have hlen := congrArg List.length (Option.some.inj h)
          simp at hlen
        obtain ⟨tail, hgrow⟩ := findRunsLoop_grows hstart hfind hpos h
        rw [take_succ_cons, map_cons, append_cancel_left_eq, List.cons.injEq] at hgrow
        have hat : pos = run.1 := (congrArg RtlBitmapRun.startingIndex hgrow.1).symm
        have hlen : size?.getD 0 = run.2 - run.1 :=
          (congrArg RtlBitmapRun.numberOfBits hgrow.1).symm
        subst hat
        have hnonempty := hfirst.nonempty
        have hstop := hfirst.stop_le
        have hend : run.1 + size?.getD 0 = run.2 := by omega
        have hgood : Returnable view bits start := by
          unfold Returnable
          rw [← returnsFirst_iff hstart]
          refine ⟨run.1, size?, hfind, .inr ⟨hpos, ?_⟩⟩
          rw [hend]
          exact hfirst
        cases k with
        | zero =>
          intro a ha _
          rw [searches, take_succ_cons, take_zero, mem_singleton] at ha
          rwa [ha]
        | succ k =>
          have hrun : (⟨run.1, size?.getD 0⟩ : RtlBitmapRun) = toRun run := by
            rw [hlen]
            rfl
          rw [findRunsLoop_append hstart hfind hpos, hrun, if_neg (by simp; omega), hlen,
            next_start hnonempty hstop, take_succ_cons, map_cons] at h
          intro a ha
          rw [searches, map_cons, take_succ_cons, mem_cons] at ha
          obtain rfl | ha := ha
          · intro _
            exact hgood
          have hlength : (series ++ [toRun run]).length + (k + 1) = count := by
            simp
            omega
          have htail : findRunsLoop (findRun view) sort bits count false fuel needSort run.2
              (series ++ [toRun run]) =
                some (series ++ [toRun run] ++ (rest.take (k + 1)).map toRun) := by
            rw [h, append_assoc]
            rfl
          exact ih hlength hruns.2 htail a ha

lemma replaceLast_eq {kept : List RtlBitmapRun} {last run : RtlBitmapRun}
    (h : (if needSort then sort.qsort series else series) = kept ++ [last]) :
    replaceLast sort needSort series run =
      if last.numberOfBits < run.numberOfBits then
        (needSort || (kept.getLast?.map (·.numberOfBits)).any (· < run.numberOfBits), kept ++ [run])
      else (needSort, kept ++ [last]) := by
  unfold replaceLast
  simp only [h, getLast?_concat, dropLast_concat]

def insertionRunSort : RunSort where
  qsort := List.insertionSort fun lhs rhs => rhs.numberOfBits ≤ lhs.numberOfBits
  perm := perm_insertionSort _
  sorted := by
    intro series
    apply pairwise_insertionSort

lemma replaceLast_largest {met : List RtlBitmapRun} (sort : RunSort) (run : RtlBitmapRun)
    (h : Largest RtlBitmapRun.numberOfBits count met series) (hfull : series.length = count)
    (hcount : 0 < count) (hsort : needSort = false → count = 1) :
    Largest RtlBitmapRun.numberOfBits count (met ++ [run])
        (replaceLast sort needSort series run).2 ∧
      (replaceLast sort needSort series run).2.length = count ∧
      ((replaceLast sort needSort series run).1 = false → count = 1) := by
  have hsorted : ∃ sorted, (if needSort then sort.qsort series else series) = sorted ∧
      sorted.Perm series ∧
        sorted.Pairwise fun lhs rhs => rhs.numberOfBits ≤ lhs.numberOfBits := by
    cases needSort with
    | true => exact ⟨_, rfl, sort.perm series, sort.sorted series⟩
    | false =>
      refine ⟨_, rfl, List.Perm.refl _, ?_⟩
      have hone := hsort rfl
      obtain ⟨x, rfl⟩ := length_eq_one_iff.mp (hfull.trans hone)
      exact pairwise_singleton _ x
  obtain ⟨sorted, heq, hperm, hdesc⟩ := hsorted
  have hlen : sorted.length = count := hperm.length_eq.trans hfull
  have hkept := h.perm hperm
  have hne : sorted ≠ [] := by
    rintro rfl
    simp at hlen
    omega
  obtain ⟨kept, last, rfl⟩ := eq_nil_or_concat sorted |>.resolve_left hne
  rw [concat_eq_append] at *
  have hmin : ∀ a ∈ kept, last.numberOfBits ≤ a.numberOfBits := by
    intro a ha
    exact (pairwise_append.mp hdesc).2.2 a ha last (mem_singleton_self last)
  rw [replaceLast_eq heq]
  split
  next hlt =>
    refine ⟨hkept.replace hlen hmin hlt, by simpa using hlen, fun hfalse => ?_⟩
    exact hsort (Bool.or_eq_false_iff.mp hfalse).1
  next hge =>
    refine ⟨hkept.skip hlen fun a ha => ?_, hlen, hsort⟩
    rw [mem_append, mem_singleton] at ha
    obtain ha | rfl := ha
    · exact le_trans (Nat.le_of_not_lt hge) (hmin a ha)
    · exact Nat.le_of_not_lt hge

lemma findRunsLoop_longest {met : List RtlBitmapRun} (sort : RunSort) (needSort : Bool)
    (h : Largest RtlBitmapRun.numberOfBits count met series) (hcount : 0 < count)
    (hsort : needSort = false → count = 1)
    (hruns : Runs (bit view bits) bits.sizeOfBitMap start runs)
    (hgood : ∀ a ∈ searches start runs, a < bits.sizeOfBitMap → Returnable view bits a) :
    ∃ fuel result, findRunsLoop (findRun view) sort bits count true fuel needSort start series =
        some result ∧
      Largest RtlBitmapRun.numberOfBits count (met ++ runs.map toRun) result := by
  induction runs generalizing start series needSort met with
  | nil =>
    refine ⟨1, series, ?_, by simpa using h⟩
    by_cases hend : bits.sizeOfBitMap ≤ start
    · exact findRunsLoop_end hend
    have hstart : start < bits.sizeOfBitMap := by omega
    obtain ⟨_, size?, hfind⟩ | ⟨run, rest, hnil, _⟩ :=
      returnable_cases hstart hruns (hgood start mem_cons_self hstart)
    · exact findRunsLoop_absent hstart hfind
    · cases hnil
  | cons run rest ih =>
    have hstart : start < bits.sizeOfBitMap := by
      by_contra hend
      cases runs_nil_of_end hruns (by omega)
    have hfirst := hgood start mem_cons_self hstart
    have htail : ∀ a ∈ searches run.2 rest, a < bits.sizeOfBitMap → Returnable view bits a := by
      intro a ha
      exact hgood a (mem_cons_of_mem start ha)
    obtain ⟨hnil, _⟩ | ⟨run', rest', heq, hne, hrest, hpos, hstop, size?, hfind, hlen⟩ :=
      returnable_cases hstart hruns hfirst
    · cases hnil
    cases heq
    have hrun : (⟨run.1, size?.getD 0⟩ : RtlBitmapRun) = toRun run := by
      rw [hlen]
      rfl
    rw [map_cons, append_cons]
    by_cases hfull : series.length = count
    · obtain ⟨hkept, _, hnext⟩ :=
        replaceLast_largest sort (toRun run) h hfull hcount hsort
      obtain ⟨fuel, result, hresult, hlargest⟩ := ih _ hkept hnext hrest htail
      refine ⟨fuel + 1, result, ?_, hlargest⟩
      rw [findRunsLoop_longest_full hstart hfind hne hfull, hrun, hlen, next_start hpos hstop,
        hresult]
    have hroom : series.length < count := by
      have hmin := h.length_eq
      omega
    obtain ⟨fuel, result, hresult, hlargest⟩ :=
      ih needSort (h.append (x := toRun run) hroom) hsort hrest htail
    refine ⟨fuel + 1, result, ?_, hlargest⟩
    rw [findRunsLoop_longest_room hstart hfind hne hfull, hrun, hlen, next_start hpos hstop,
      hresult]

def ForwardRight (view : Byte → Byte) (bits : RtlBitmap) (start : Nat)
    (r : Option (Nat × Option Nat)) : Prop :=
  ∃ length pos?, r = some (length, pos?) ∧
    (NoneSet (bit view bits) start bits.sizeOfBitMap ∧ length = 0 ∨
      ∃ pos, pos? = some pos ∧
        FirstRun (bit view bits) start bits.sizeOfBitMap pos (pos + length))

/-- What a forward search and a series of runs do for one kind of bits of a bitmap. -/
structure SearchesExact (view : Byte → Byte) (forward : RtlBitmap → Nat → Option (Nat × Option Nat))
    (series : RunSort → Nat → RtlBitmap → Nat → Bool → Option (Nat × List RtlBitmapRun))
    (bits : RtlBitmap) : Prop where
  /-- the next run is right if and only if it is searchable -/
  forward : ∀ start, ForwardRight view bits start (forward bits start) ↔
    (start < bits.sizeOfBitMap → Searchable view bits start)
  /-- the first runs are right if and only if the searches for them are -/
  inOrder : ∀ sort count runs, Runs (bit view bits) bits.sizeOfBitMap 0 runs →
    ((∃ fuel n found, series sort fuel bits count false = some (n, found) ∧ n = found.length ∧
        found = (runs.take count).map toRun) ↔
      0 < count ∧ ∀ a ∈ (searches 0 runs).take count, a < bits.sizeOfBitMap →
        Returnable view bits a)
  /-- the longest runs are right if all searches are -/
  longest : ∀ sort count runs, Runs (bit view bits) bits.sizeOfBitMap 0 runs → 0 < count →
    (∀ a ∈ searches 0 runs, a < bits.sizeOfBitMap → Returnable view bits a) →
      ∃ fuel n found, series sort fuel bits count true = some (n, found) ∧ n = found.length ∧
        Largest RtlBitmapRun.numberOfBits count (runs.map toRun) found

lemma forwardRight_iff (view : Byte → Byte) (bits : RtlBitmap) (start : Nat) :
    ForwardRight view bits start (findNextForwardRun (findRun view) bits start) ↔
      (start < bits.sizeOfBitMap → Searchable view bits start) := by
  unfold findNextForwardRun
  by_cases hstart : start < bits.sizeOfBitMap
  · rw [if_pos hstart, ← reportsFirst_iff hstart]
    constructor
    · rintro ⟨length, pos?, hresult, hright⟩ _
      obtain ⟨⟨pos, size?⟩, hfind, heq⟩ := Option.map_eq_some_iff.mp hresult
      cases heq
      refine ⟨pos, size?, hfind, hright.imp_right ?_⟩
      rintro ⟨_, heq, hrun⟩
      cases heq
      exact hrun
    · intro h
      obtain ⟨pos, size?, hfind, hright⟩ := h hstart
      rw [hfind]
      exact ⟨size?.getD 0, some pos, rfl, hright.imp_right fun hrun => ⟨pos, rfl, hrun⟩⟩
  · rw [if_neg hstart]
    constructor
    · intro _ hlt
      exact absurd hlt hstart
    · intro _
      exact ⟨0, none, rfl, .inl ⟨fun i hle hlt => absurd hlt (by omega), rfl⟩⟩

lemma searchesExact (view : Byte → Byte) (bits : RtlBitmap) :
    SearchesExact view (findNextForwardRun (findRun view)) (findRuns (findRun view)) bits := by
  constructor
  · exact forwardRight_iff view bits
  · intro sort count runs hruns
    unfold findRuns
    cases count with
    | zero =>
      constructor
      · rintro ⟨fuel, n, found, hfound, hn, _⟩
        cases hfound
        cases hn
      · rintro ⟨hzero, _⟩
        cases hzero
    | succ k =>
      constructor
      · rintro ⟨fuel, n, found, hfound, _, rfl⟩
        obtain ⟨result, hloop, heq⟩ := Option.map_eq_some_iff.mp hfound
        cases heq
        exact ⟨Nat.succ_pos k, searches_of_findRunsLoop (Nat.zero_add _) hruns hloop⟩
      · rintro ⟨_, hgood⟩
        obtain ⟨fuel, hloop⟩ := findRunsLoop_first sort (decide (1 < k + 1)) []
          (Nat.zero_add _) hruns hgood
        refine ⟨fuel, _, _, ?_, rfl, rfl⟩
        rw [if_neg (Nat.succ_ne_zero k), hloop]
        rfl
  · intro sort count runs hruns hcount hgood
    obtain ⟨fuel, result, hloop, hlargest⟩ := findRunsLoop_longest sort
      (decide (1 < count)) largest_nil hcount (by simp; omega) hruns hgood
    refine ⟨fuel, _, result, ?_, rfl, hlargest⟩
    unfold findRuns
    rw [if_neg hcount.ne', hloop]
    rfl

/-- **When the run searches are exact**, for set and for clear bits. -/
theorem run_searches_exact (bits : RtlBitmap) :
    SearchesExact setView rtlFindNextForwardRunSet rtlFindSetRuns bits ∧
      SearchesExact clearView rtlFindNextForwardRunClear rtlFindClearRuns bits := by
  constructor
  · exact searchesExact setView bits
  · exact searchesExact clearView bits

/-- A bitmap of one ULONG with the bits `0` and `4`. -/
def twoBits : RtlBitmap where
  sizeOfBitMap := 32
  buffer := [0x11, 0, 0, 0]
  size_lt := by decide
  length_buffer := by decide

/-- The second bit is reported one position too far, and by the series of runs as well. -/
theorem second_bit_misplaced :
    ¬(∀ bits start, ForwardRight setView bits start (rtlFindNextForwardRunSet bits start)) ∧
      ∀ sort, rtlFindSetRuns sort 3 twoBits 2 false = some (2, [⟨0, 1⟩, ⟨5, 1⟩]) := by
  constructor
  · intro h
    obtain ⟨length, pos?, hresult, hright⟩ := h twoBits 1
    have hfound : rtlFindNextForwardRunSet twoBits 1 = some (1, some 5) := by decide
    rw [hfound] at hresult
    cases hresult
    obtain ⟨_, hzero⟩ | ⟨_, hpos, hrun⟩ := hright
    · cases hzero
    · cases hpos
      have hset := hrun.inside 5 le_rfl (by omega)
      have hclear : bit setView twoBits 5 = false := by decide
      cases hset
  · intro sort
    rfl

end WineForge.Bitmaps
