import WineForge.Library.Apart
import WineForge.Library.Transition

/-!
# Committed ranges of a mapping

`add_committed_range` and `find_committed_range` of `mapping.c`. Offsets of the calls are relative
to a view, and the ranges are relative to the mapping that all its views share.
-/

namespace WineForge.Mappings

open Library List

def pageMask : Nat := 0xfff

structure Range where
  start : Nat
  stop : Nat
  deriving DecidableEq

/-- `struct ranges`: `max` is the size of the array, and its `count` the length of the list. -/
structure Ranges where
  max : Nat
  ranges : List Range

/-- A view of a mapping. `map_view` refuses views whose end is not a file offset. -/
structure View where
  start : Nat
  size : Nat
  end_lt : start + size < 2 ^ 64

inductive Status
  | invalidParameter
  deriving DecidableEq

/-- The ranges behind one that is extended up to `stop`: those it reaches are merged into it. -/
def absorb (stop : Nat) : List Range → Nat × List Range
  | [] => (stop, [])
  | r :: rest =>
    if stop < r.start then (stop, r :: rest)
    else absorb (if stop < r.stop then r.stop else stop) rest

/-- The loop of `add_committed_range`, and whether it leaves room to be made for a new range. -/
def placeRange (start stop : Nat) : List Range → List Range × Bool
  | [] => ([⟨start, stop⟩], true)
  | r :: rest =>
    if stop < r.start then (⟨start, stop⟩ :: r :: rest, true)
    else if r.stop < start then
      (r :: (placeRange start stop rest).1, (placeRange start stop rest).2)
    else
      let low := if start < r.start then start else r.start
      if r.stop < stop then (⟨low, (absorb stop rest).1⟩ :: (absorb stop rest).2, false)
      else (⟨low, r.stop⟩ :: rest, false)

def NeedsRoom (committed : Ranges) (start stop : Nat) : Prop :=
  (placeRange start stop committed.ranges).2 = true ∧ committed.ranges.length = committed.max

instance (committed : Ranges) (start stop : Nat) : Decidable (NeedsRoom committed start stop) :=
  inferInstanceAs (Decidable (_ ∧ _))

/-- `add_committed_range` once the offsets are those of the mapping; `enlarged` tells whether the
array can be reallocated. -/
def addRange (committed : Ranges) (start stop : Nat) (enlarged : Bool) : Ranges :=
  if NeedsRoom committed start stop then
    if enlarged then ⟨committed.max * 2, (placeRange start stop committed.ranges).1⟩
    else committed
  else { committed with ranges := (placeRange start stop committed.ranges).1 }

/-- The offsets that `add_committed_range` accepts. -/
def ValidRange (view : View) (start stop : Nat) : Prop :=
  start &&& pageMask = 0 ∧ stop &&& pageMask = 0 ∧ start < view.size ∧ stop ≤ view.size ∧
    start < stop

instance (view : View) (start stop : Nat) : Decidable (ValidRange view start stop) :=
  inferInstanceAs (Decidable (_ ∧ _))

/-- `add_committed_range`; a mapping without ranges is committed everywhere. -/
def addCommittedRange (view : View) (committed : Option Ranges) (start stop : Nat)
    (enlarged : Bool) : Except Status (Option Ranges) :=
  if ¬ValidRange view start stop then .error .invalidParameter
  else
    match committed with
    | none => .ok none
    | some committed =>
      .ok (some (addRange committed (start + view.start) (stop + view.start) enlarged))

/-- The loop of `find_committed_range`. -/
def findRange (view : View) (start : Nat) : List Range → Bool × Nat
  | [] => (false, view.size - start)
  | r :: rest =>
    if view.start + start < r.start then
      (false, min r.start (view.start + view.size) - (view.start + start))
    else if view.start + start < r.stop then
      (true, min r.stop (view.start + view.size) - (view.start + start))
    else findRange view start rest

/-- `find_committed_range`: whether the offset is committed, and the size. -/
def findCommittedRange (view : View) (committed : Option Ranges) (start : Nat) :
    Except Status (Bool × Nat) :=
  if start &&& pageMask ≠ 0 ∨ view.size ≤ start then .error .invalidParameter
  else
    match committed with
    | none => .ok (true, view.size - start)
    | some committed => .ok (findRange view start committed.ranges)

abbrev offsets (ranges : List Range) : Set Nat := covered Range.start Range.stop ranges

/-- No range is empty, and there is a gap between each and the next. -/
structure Canonical (ranges : List Range) : Prop where
  nonempty : ∀ r ∈ ranges, r.start < r.stop
  apart : ranges.Pairwise fun r r' => r.stop < r'.start

lemma canonical_nil : Canonical [] := ⟨by simp, List.Pairwise.nil⟩

variable {stop : Nat} {ranges : List Range} {start : Nat} {committed : Ranges} {view : View}

lemma canonical_cons {r : Range} : Canonical (r :: ranges) ↔
      r.start < r.stop ∧ (∀ r' ∈ ranges, r.stop < r'.start) ∧ Canonical ranges := by
  constructor
  · intro h
    obtain ⟨hbehind, hapart⟩ := pairwise_cons.mp h.apart
    exact ⟨h.nonempty r mem_cons_self, hbehind,
      fun r' hr' => h.nonempty r' (mem_cons_of_mem r hr'), hapart⟩
  · rintro ⟨hlt, hbehind, h⟩
    refine ⟨?_, pairwise_cons.mpr ⟨hbehind, h.apart⟩⟩
    intro r' hr'
    obtain rfl | hr' := mem_cons.mp hr'
    · exact hlt
    · exact h.nonempty r' hr'

lemma absorb_spec (h : Canonical ranges) :
    stop ≤ (absorb stop ranges).1 ∧ Canonical (absorb stop ranges).2 ∧
      (∀ r ∈ (absorb stop ranges).2, (absorb stop ranges).1 < r.start) ∧
      ∀ p, (p < (absorb stop ranges).1 ∨ p ∈ offsets (absorb stop ranges).2) ↔
        (p < stop ∨ p ∈ offsets ranges) := by
  induction ranges generalizing stop with
  | nil => exact ⟨le_refl _, h, by simp [absorb], fun p => Iff.rfl⟩
  | cons r rest ih =>
    obtain ⟨hlt, hbehind, hrest⟩ := canonical_cons.mp h
    rw [absorb]
    by_cases hgap : stop < r.start
    · rw [if_pos hgap]
      refine ⟨le_refl _, h, ?_, fun p => Iff.rfl⟩
      intro r' hr'
      obtain rfl | hr' := mem_cons.mp hr'
      · exact hgap
      · have hbehind := hbehind r' hr'
        omega
    rw [if_neg hgap]
    obtain ⟨hle, hcanonical, habove, hpoints⟩ :=
      @ih (if stop < r.stop then r.stop else stop) hrest
    refine ⟨?_, hcanonical, habove, ?_⟩
    · refine le_trans ?_ hle
      split
      · omega
      · omega
    intro p
    rw [hpoints, mem_covered_cons]
    by_cases hrest : p ∈ offsets rest
    · simp [hrest]
    simp only [hrest, or_false]
    split
    · omega
    · omega

lemma absorb_subset : ∀ r ∈ (absorb stop ranges).2, r ∈ ranges := by
  induction ranges generalizing stop with
  | nil => exact fun r hr => hr
  | cons r rest ih =>
    rw [absorb]
    split
    · exact fun r' hr' => hr'
    · exact fun r' hr' => mem_cons_of_mem r (ih r' hr')

lemma placeRange_above {b : Nat} (h : ∀ r ∈ ranges, b < r.start) (hb : b < start) :
    ∀ r ∈ (placeRange start stop ranges).1, b < r.start := by
  induction ranges with
  | nil =>
    intro r hr
    rw [mem_singleton.mp hr]
    exact hb
  | cons r rest ih =>
    obtain ⟨hr, hrest⟩ := forall_mem_cons.mp h
    rw [placeRange]
    dsimp only
    split
    · exact forall_mem_cons.mpr ⟨hb, h⟩
    split
    · exact forall_mem_cons.mpr ⟨hr, ih hrest⟩
    split
    · refine forall_mem_cons.mpr ⟨?_, fun r' hr' => hrest r' (absorb_subset r' hr')⟩
      split
      · exact hb
      · exact hr
    refine forall_mem_cons.mpr ⟨?_, hrest⟩
    split
    · exact hb
    · exact hr

lemma placeRange_spec (h : Canonical ranges) (hlt : start < stop) :
    Canonical (placeRange start stop ranges).1 ∧
      ∀ p, p ∈ offsets (placeRange start stop ranges).1 ↔
        (start ≤ p ∧ p < stop) ∨ p ∈ offsets ranges := by
  induction ranges with
  | nil =>
    refine ⟨canonical_cons.mpr ⟨hlt, by simp, canonical_nil⟩, ?_⟩
    intro p
    exact mem_covered_cons
  | cons r rest ih =>
    obtain ⟨hr, hbehind, hrest⟩ := canonical_cons.mp h
    obtain ⟨hcanonical, hpoints⟩ := ih hrest
    rw [placeRange]
    by_cases hbefore : stop < r.start
    · rw [if_pos hbefore]
      refine ⟨canonical_cons.mpr ⟨hlt, ?_, h⟩, fun p => mem_covered_cons⟩
      intro r' hr'
      dsimp only
      obtain rfl | hr' := mem_cons.mp hr'
      · exact hbefore
      · have hbehind := hbehind r' hr'
        omega
    rw [if_neg hbefore]
    by_cases hafter : r.stop < start
    · rw [if_pos hafter]
      refine ⟨canonical_cons.mpr ⟨hr, placeRange_above hbehind hafter, hcanonical⟩, ?_⟩
      intro p
      rw [mem_covered_cons, mem_covered_cons, hpoints]
      exact or_left_comm
    rw [if_neg hafter]
    have hlow : (if start < r.start then start else r.start) = min start r.start := by
      split
      · omega
      · omega
    rw [hlow]
    by_cases hinside : r.stop < stop
    · obtain ⟨hle, habsorbed, habove, hleft⟩ := @absorb_spec stop _ hrest
      rw [if_pos hinside]
      refine ⟨canonical_cons.mpr ⟨?_, habove, habsorbed⟩, ?_⟩
      · dsimp only
        omega
      intro p
      rw [mem_covered_cons, mem_covered_cons]
      have hleft := hleft p
      have hbelow : p ∈ offsets rest → r.stop < p := covered_above hbehind
      have hbelow' : p ∈ offsets (absorb stop rest).2 → (absorb stop rest).1 < p :=
        covered_above habove
      by_cases hmem : p ∈ offsets rest
      · have hgt := hbelow hmem
        simp only [hmem, or_true, iff_true] at hleft ⊢
        refine hleft.imp_left fun hp => ⟨?_, hp⟩
        omega
      by_cases hmem' : p ∈ offsets (absorb stop rest).2
      · have hgt := hbelow' hmem'
        simp only [hmem, hmem', or_false, or_true, true_iff] at hleft ⊢
        omega
      · simp only [hmem, hmem', or_false] at hleft ⊢
        omega
    · rw [if_neg hinside]
      refine ⟨canonical_cons.mpr ⟨?_, hbehind, hrest⟩, ?_⟩
      · dsimp only
        omega
      intro p
      rw [mem_covered_cons, mem_covered_cons, ← or_assoc]
      refine or_congr_left ?_
      dsimp only
      omega

lemma addRange_canonical {enlarged : Bool} (h : Canonical committed.ranges) (hlt : start < stop) :
    Canonical (addRange committed start stop enlarged).ranges := by
  rw [addRange]
  split
  · split
    · exact (placeRange_spec h hlt).1
    · exact h
  · exact (placeRange_spec h hlt).1

lemma addRange_offsets {enlarged : Bool}
    (h : Canonical committed.ranges) (hlt : start < stop) (p : Nat) :
    p ∈ offsets (addRange committed start stop enlarged).ranges ↔
      (¬(NeedsRoom committed start stop ∧ enlarged = false) ∧ start ≤ p ∧ p < stop) ∨
        p ∈ offsets committed.ranges := by
  rw [addRange]
  by_cases hroom : NeedsRoom committed start stop
  · rw [if_pos hroom]
    cases enlarged with
    | true =>
      rw [if_pos rfl, (placeRange_spec h hlt).2 p]
      simp
    | false => simp [hroom]
  · rw [if_neg hroom, (placeRange_spec h hlt).2 p]
    simp [hroom]

lemma findRange_spec (h : Canonical ranges) (hstart : start < view.size) :
    MaximalRun (offsets ranges) (view.start + start) (view.start + view.size)
      (findRange view start ranges).1 (findRange view start ranges).2 := by
  induction ranges with
  | nil =>
    rw [findRange]
    refine ⟨by omega, by omega, ?_, by omega⟩
    intro q _ _
    simp
  | cons r rest ih =>
    obtain ⟨hr, hbehind, hrest⟩ := canonical_cons.mp h
    have hfar : ∀ q, q ≤ r.stop → q ∉ offsets rest := by
      intro q hle hmem
      have hgt := covered_above hbehind hmem
      omega
    rw [findRange]
    by_cases hbefore : view.start + start < r.start
    · rw [if_pos hbefore]
      refine ⟨by omega, by omega, ?_, ?_⟩
      · intro q _ hq
        have hout := hfar q (by omega)
        simp only [mem_covered_cons, hout, or_false, Bool.false_eq_true, iff_false]
        omega
      intro hend
      simp only [mem_covered_cons, iff_true]
      left
      omega
    rw [if_neg hbefore]
    by_cases hin : view.start + start < r.stop
    · rw [if_pos hin]
      refine ⟨by omega, by omega, ?_, ?_⟩
      · intro q _ hq
        simp only [mem_covered_cons, iff_true]
        left
        omega
      intro hend
      have hout := hfar (view.start + start +
        (min r.stop (view.start + view.size) - (view.start + start))) (by omega)
      simp only [mem_covered_cons, hout, or_false, reduceCtorEq, iff_false]
      omega
    · rw [if_neg hin]
      obtain ⟨hpos, hwithin, hconstant, hends⟩ := ih hrest
      have hsame : ∀ q, view.start + start ≤ q →
          (q ∈ offsets (r :: rest) ↔ q ∈ offsets rest) := by
        intro q hq
        rw [mem_covered_cons]
        refine or_iff_right ?_
        omega
      refine ⟨hpos, hwithin, fun q hq hlt => (hsame q hq).trans (hconstant q hq hlt), ?_⟩
      intro hend
      exact (hsame _ (by omega)).trans (hends hend)

/-!
## Runs of committed ranges

Views of one mapping add ranges in any order. The array of the mapping is canonical at all times,
and queries of aligned offsets find where the committed state changes next.
-/

/-- The ranges of a mapping with the history of its views: the ranges that were added, and those
for which the array could not be enlarged. -/
structure Commits where
  committed : Ranges
  recorded : List Range
  refused : List Range

structure Add where
  view : View
  start : Nat
  stop : Nat
  enlarged : Bool

def commitStep (s : Commits) (op : Add) : Option Commits :=
  let range : Range := ⟨op.start + op.view.start, op.stop + op.view.start⟩
  match addCommittedRange op.view (some s.committed) op.start op.stop op.enlarged with
  | .ok (some committed) =>
    if NeedsRoom s.committed range.start range.stop ∧ op.enlarged = false then
      some { s with committed, refused := range :: s.refused }
    else some { s with committed, recorded := range :: s.recorded }
  | _ => some s

/-- The ranges that `create_ranges` makes. -/
def NewRanges (s : Commits) : Prop := s = ⟨⟨8, []⟩, [], []⟩

structure CommitsInv (s : Commits) : Prop where
  canonical : Canonical s.committed.ranges
  offsets_eq : offsets s.committed.ranges = offsets s.recorded

variable {s s' : Commits} {op : Add}

lemma commitStep_invalid (h : ¬ValidRange op.view op.start op.stop) : commitStep s op = some s := by
  unfold commitStep addCommittedRange
  rw [if_pos h]

lemma commitStep_valid (h : ValidRange op.view op.start op.stop) : commitStep s op = some
      (if NeedsRoom s.committed (op.start + op.view.start) (op.stop + op.view.start) ∧
          op.enlarged = false then
        { s with
          committed := addRange s.committed (op.start + op.view.start)
            (op.stop + op.view.start) op.enlarged
          refused := ⟨op.start + op.view.start, op.stop + op.view.start⟩ :: s.refused }
      else
        { s with
          committed := addRange s.committed (op.start + op.view.start)
            (op.stop + op.view.start) op.enlarged
          recorded := ⟨op.start + op.view.start, op.stop + op.view.start⟩ :: s.recorded }) := by
  unfold commitStep addCommittedRange
  rw [if_neg (not_not.mpr h)]
  dsimp only
  split
  · rfl
  · rfl

lemma commitStep_inv (h : CommitsInv s) (hstep : commitStep s op = some s') : CommitsInv s' := by
  by_cases hvalid : ValidRange op.view op.start op.stop
  · have hlt : op.start + op.view.start < op.stop + op.view.start := by
      have hlt := hvalid.2.2.2.2
      omega
    have hcanonical := @addRange_canonical _ _ _ op.enlarged h.canonical hlt
    have hoffsets := @addRange_offsets _ _ _ op.enlarged h.canonical hlt
    rw [commitStep_valid hvalid] at hstep
    rw [← Option.some.inj hstep]
    split
    · rename_i hrefused
      refine ⟨hcanonical, ?_⟩
      rw [← h.offsets_eq]
      ext p
      refine (hoffsets p).trans ?_
      simp [hrefused]
    rename_i hrecorded
    refine ⟨hcanonical, ?_⟩
    ext p
    refine (hoffsets p).trans ?_
    rw [h.offsets_eq, mem_covered_cons]
    simp only [hrecorded, not_false_eq_true, true_and]
  · rw [commitStep_invalid hvalid] at hstep
    exact Option.some.inj hstep ▸ h

lemma refused_only (hstep : commitStep s op = some s') (hne : s'.refused ≠ s.refused) :
    op.enlarged = false ∧ s.committed.ranges.length = s.committed.max := by
  by_cases hvalid : ValidRange op.view op.start op.stop
  · rw [commitStep_valid hvalid] at hstep
    rw [← Option.some.inj hstep] at hne
    split at hne
    · rename_i hrefused
      exact ⟨hrefused.2, hrefused.1.2⟩
    · exact absurd rfl hne
  · rw [commitStep_invalid hvalid] at hstep
    exact absurd (Option.some.inj hstep ▸ rfl) hne

lemma findCommittedRange_some (haligned : start &&& pageMask = 0) (hstart : start < view.size) :
    findCommittedRange view (some committed) start =
      .ok (findRange view start committed.ranges) := by
  unfold findCommittedRange
  rw [if_neg]
  omega

lemma findCommittedRange_none (haligned : start &&& pageMask = 0) (hstart : start < view.size) :
    findCommittedRange view none start = .ok (true, view.size - start) := by
  unfold findCommittedRange
  rw [if_neg]
  omega

def wholeView : View := ⟨0, 0x20000, by decide⟩

def laterView : View := ⟨0x4000, 0x4000, by decide⟩

def touching : List Add := [⟨wholeView, 0x3000, 0x5000, true⟩, ⟨laterView, 0x1000, 0x2000, true⟩]

def ninePages (enlarged : Bool) : List Add :=
  (List.range 9).map fun k => ⟨wholeView, 0x2000 * k, 0x2000 * k + 0x1000, enlarged⟩

end WineForge.Mappings
