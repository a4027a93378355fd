import WineForge.FileLocks.HoleBuffer
import WineForge.Library.Gaps
import Mathlib.Data.List.Perm.Subperm

/-!
# The holes are the bytes that no lock covers

When a hole is split, the hole behind it keeps a link back to the first half. As long as no hole
is removed while its link back is wrong, the linked list is the list of gaps that is left when the
locks are cut out of the area.
-/

namespace WineForge.FileLocks

open Function Library List

/-- A hole of the list, and whether its link back is out of date. -/
structure Cell where
  start : FilePos
  stop : FilePos
  stale : Bool
  deriving DecidableEq, Repr

def staleHead : List Cell → List Cell
  | [] => []
  | c :: cells => { c with stale := true } :: cells

/-- One lock is cut out of the holes; `none` when a hole with a wrong link back is removed. After
a removal the hole behind has its link back corrected, which `relinked` says. -/
def cutCells (lock : FileLock) : Bool → List Cell → Option (List Cell)
  | _, [] => some []
  | relinked, c :: cells =>
    let stale := c.stale && !relinked
    if c.stop ≤ lock.start then (cutCells lock false cells).map (⟨c.start, c.stop, stale⟩ :: ·)
    else if lock.stop ≠ 0 ∧ lock.stop ≤ c.start then some (⟨c.start, c.stop, stale⟩ :: cells)
    else if lock.start ≤ c.start then
      if lock.stop ≠ 0 ∧ lock.stop < c.stop then some (⟨lock.stop, c.stop, stale⟩ :: cells)
      else if stale then none
      else cutCells lock true cells
    else if lock.stop = 0 ∨ c.stop ≤ lock.stop then
      (cutCells lock false cells).map (⟨c.start, lock.start, stale⟩ :: ·)
    else some (⟨c.start, lock.start, stale⟩ :: ⟨lock.stop, c.stop, false⟩ :: staleHead cells)

def cutAllCells : List FileLock → List Cell → Option (List Cell)
  | [], cells => some cells
  | lock :: locks, cells => (cutCells lock false cells).bind (cutAllCells locks)

def keepsLinks (locks : List FileLock) (start stop : FilePos) : Bool :=
  (cutAllCells locks [⟨start, stop, false⟩]).isSome

def endNat (stop : FilePos) : ℕ :=
  if stop = 0 then 18446744073709551616 else stop.toNat

def Cell.gap (c : Cell) : Gap ℕ :=
  ⟨c.start.toNat, c.stop.toNat⟩

lemma end_compare (pos stop : FilePos) : ((stop ≠ 0 ∧ stop ≤ pos) ↔ endNat stop ≤ pos.toNat) ∧
      ((stop ≠ 0 ∧ stop < pos) ↔ endNat stop < pos.toNat) ∧
      ((stop = 0 ∨ pos ≤ stop) ↔ pos.toNat ≤ endNat stop) ∧
      ((stop = 0 ∨ pos < stop) ↔ pos.toNat < endNat stop) := by
  have hlt := pos.toNat_lt
  unfold endNat
  by_cases hstop : stop = 0
  · simp only [hstop, ne_eq, not_true, false_and, true_or, if_true]
    refine ⟨iff_of_false id ?_, iff_of_false id ?_, iff_of_true trivial ?_, iff_of_true trivial ?_⟩
    all_goals omega
  · simp [hstop, UInt64.lt_iff_toNat_lt, UInt64.le_iff_toNat_le]

lemma gaps_staleHead (cells : List Cell) : (staleHead cells).map Cell.gap = cells.map Cell.gap := by
  cases cells <;> rfl

variable {lock : FileLock}

lemma cutCells_gaps {cells out : List Cell} {relinked : Bool}
    (h : cutCells lock relinked cells = some out) :
    out.map Cell.gap = cutGaps lock.start.toNat (endNat lock.stop) (cells.map Cell.gap) := by
  induction cells generalizing out relinked with
  | nil =>
    simp only [cutCells, Option.some.injEq] at h
    rw [← h]
    rfl
  | cons c cells ih =>
    obtain ⟨hbehind, -, -, -⟩ := end_compare c.start lock.stop
    obtain ⟨-, hpart, hlarge, -⟩ := end_compare c.stop lock.stop
    simp only [cutCells] at h
    simp only [map_cons, cutGaps]
    simp only [Cell.gap, ← UInt64.le_iff_toNat_le, ← hbehind, ← hpart, ← hlarge]
    by_cases h₁ : c.stop ≤ lock.start
    · rw [if_pos h₁] at h ⊢
      obtain ⟨rest, hrest, rfl⟩ := Option.map_eq_some_iff.mp h
      rw [map_cons, ih hrest]
      rfl
    rw [if_neg h₁] at h ⊢
    by_cases h₂ : lock.stop ≠ 0 ∧ lock.stop ≤ c.start
    · rw [if_pos h₂] at h ⊢
      cases h
      rfl
    rw [if_neg h₂] at h ⊢
    by_cases h₃ : lock.start ≤ c.start
    · rw [if_pos h₃] at h ⊢
      by_cases h₄ : lock.stop ≠ 0 ∧ lock.stop < c.stop
      · rw [if_pos h₄] at h ⊢
        cases h
        have hend : endNat lock.stop = lock.stop.toNat := if_neg h₄.1
        rw [hend]
        rfl
      rw [if_neg h₄] at h ⊢
      split at h
      · cases h
      · exact ih h
    rw [if_neg h₃] at h ⊢
    by_cases h₅ : lock.stop = 0 ∨ c.stop ≤ lock.stop
    · rw [if_pos h₅] at h ⊢
      obtain ⟨rest, hrest, rfl⟩ := Option.map_eq_some_iff.mp h
      rw [map_cons, ih hrest]
      rfl
    rw [if_neg h₅] at h ⊢
    cases h
    rw [not_or] at h₅
    have hend : endNat lock.stop = lock.stop.toNat := if_neg h₅.1
    rw [hend, map_cons, map_cons, gaps_staleHead]
    rfl

namespace HoleBuffer

/-- The link that leads to the holes behind `prev`. -/
def entry (b : HoleBuffer) : Option ℕ → Option ℕ
  | none => b.first
  | some p => (b.hole p).next

/-- The linked list from a link on: each hole is at its index, links forward to the next one, and
links back correctly unless that link is out of date. -/
def Linked (b : HoleBuffer) : Option ℕ → Option ℕ → List (ℕ × Cell) → Prop
  | _, link, [] => link = none
  | prev, link, (i, c) :: cells =>
    link = some i ∧ (b.hole i).start = c.start ∧ (b.hole i).stop = c.stop ∧
      (c.stale = false → (b.hole i).prev = prev) ∧ b.Linked (some i) (b.hole i).next cells

def ids (cells : List (ℕ × Cell)) : List ℕ :=
  cells.map Prod.fst

/-- The linked list behind `prev`, whose holes are in use and all different. -/
structure Lists (b : HoleBuffer) (prev : Option ℕ) (cells : List (ℕ × Cell)) : Prop where
  linked : b.Linked prev (b.entry prev) cells
  nodup : (ids cells).Nodup
  used : ∀ i ∈ ids cells, i < b.used
  apart : ∀ p, prev = some p → p < b.used ∧ p ∉ ids cells

variable {b b' : HoleBuffer} {prev link : Option ℕ} {cells : List (ℕ × Cell)} {i : ℕ} {c : Cell}

lemma Linked.congr (h : b.Linked prev link cells)
    (hsame : ∀ i ∈ ids cells, b'.hole i = b.hole i) : b'.Linked prev link cells := by
  induction cells generalizing prev link with
  | nil => exact h
  | cons x cells ih =>
    obtain ⟨i, c⟩ := x
    obtain ⟨hlink, hstart, hstop, hprev, hrest⟩ := h
    have hi : b'.hole i = b.hole i := hsame i mem_cons_self
    refine ⟨hlink, by rw [hi, hstart], by rw [hi, hstop], fun hs => by rw [hi, hprev hs], ?_⟩
    rw [hi]
    exact ih hrest fun j hj => hsame j (mem_cons_of_mem i hj)

/-- What a walk behind `prev` leaves alone: all other holes, except for the link of `prev`. -/
structure Behind (b b' : HoleBuffer) (prev : Option ℕ) (cells cells' : List (ℕ × Cell)) :
    Prop where
  used : b.used ≤ b'.used
  others : ∀ j < b.used, j ∉ ids cells → prev ≠ some j → b'.hole j = b.hole j
  before : ∀ p, prev = some p → b'.first = b.first ∧
    (b'.hole p).start = (b.hole p).start ∧ (b'.hole p).stop = (b.hole p).stop ∧
    (b'.hole p).prev = (b.hole p).prev
  new : ∀ i ∈ ids cells', i ∈ ids cells ∨ b.used ≤ i

lemma Behind.refl (b : HoleBuffer) (prev : Option ℕ) (cells : List (ℕ × Cell)) :
    b.Behind b prev cells cells where
  used := le_rfl
  others _ _ _ _ := rfl
  before _ _ := ⟨rfl, rfl, rfl, rfl⟩
  new _ hi := .inl hi

/-- Only the ends of hole `i` may differ. -/
structure SameLinks (b b' : HoleBuffer) (i : ℕ) : Prop where
  used : b'.used = b.used
  first : b'.first = b.first
  others : ∀ j, j ≠ i → b'.hole j = b.hole j
  next : (b'.hole i).next = (b.hole i).next
  prev : (b'.hole i).prev = (b.hole i).prev

lemma sameLinks_setStart (b : HoleBuffer) (i : ℕ) (pos : FilePos) :
    b.SameLinks (b.setStart i pos) i where
  used := rfl
  first := rfl
  others j hj := update_of_ne hj _ _
  next := by simp [setStart]
  prev := by simp [setStart]

lemma sameLinks_setStop (b : HoleBuffer) (i : ℕ) (pos : FilePos) :
    b.SameLinks (b.setStop i pos) i where
  used := rfl
  first := rfl
  others j hj := update_of_ne hj _ _
  next := by simp [setStop]
  prev := by simp [setStop]

lemma Lists.tail (h : b.Lists prev ((i, c) :: cells)) : b.Lists (some i) cells where
  linked := h.linked.2.2.2.2
  nodup := (List.nodup_cons.mp h.nodup).2
  used j hj := h.used j (mem_cons_of_mem i hj)
  apart p hp := by
    cases hp
    exact ⟨h.used i mem_cons_self, (nodup_cons.mp h.nodup).1⟩

lemma Lists.tail_same {b₁ : HoleBuffer} (h : b.Lists prev ((i, c) :: cells))
    (hsame : b.SameLinks b₁ i) :
    b₁.Lists (some i) cells := by
  obtain ⟨hlinked, hnodup, hused, hapart⟩ := h.tail
  refine ⟨?_, hnodup, fun j hj => hsame.used ▸ hused j hj, fun p hp => hsame.used ▸ hapart p hp⟩
  change b₁.Linked (some i) (b₁.hole i).next cells
  rw [hsame.next]
  apply hlinked.congr
  intro j hj
  exact hsame.others j fun heq => (hapart i rfl).2 (heq ▸ hj)

lemma Linked.link_eq {prev' link' : Option ℕ}
    (h : b.Linked prev link cells) (h' : b'.Linked prev' link' cells) : link = link' := by
  cases cells with
  | nil => exact h.trans (show link' = none from h').symm
  | cons x cells => exact h.1.trans h'.1.symm

lemma Lists.extend {b₁ : HoleBuffer} {c₁ : Cell}
    {cells' : List (ℕ × Cell)} (h : b.Lists prev ((i, c) :: cells))
    (hsame : b.SameLinks b₁ i) (hstart : (b₁.hole i).start = c₁.start)
    (hstop : (b₁.hole i).stop = c₁.stop) (hprev : c₁.stale = false → (b.hole i).prev = prev)
    (hlists : b'.Lists (some i) cells') (hbehind : b₁.Behind b' (some i) cells cells') :
    b'.Lists prev ((i, c₁) :: cells') ∧
      b.Behind b' prev ((i, c) :: cells) ((i, c₁) :: cells') := by
  have hi : i < b.used := h.used i mem_cons_self
  obtain ⟨hfirst, hstart', hstop', hprev'⟩ := hbehind.before i rfl
  have hused : b.used ≤ b'.used := hsame.used ▸ hbehind.used
  -- The hole before the list is not touched.
  have hbefore : ∀ p, prev = some p → p ≠ i ∧ p ∉ ids cells ∧ b'.hole p = b.hole p := by
    intro p hp
    obtain ⟨hpused, hpids⟩ := h.apart p hp
    have hpi : p ≠ i := fun heq => hpids (heq ▸ mem_cons_self)
    have hpcells : p ∉ ids cells := fun hmem => hpids (mem_cons_of_mem i hmem)
    have hp' := hbehind.others p (hsame.used ▸ hpused) hpcells fun heq => hpi (by cases heq; rfl)
    exact ⟨hpi, hpcells, by rw [hp', hsame.others p hpi]⟩
  have hentry : b'.entry prev = some i := by
    rw [← h.linked.1]
    cases prev with
    | none => exact hfirst.trans hsame.first
    | some p => exact congrArg Hole.next (hbefore p rfl).2.2
  have hnew : ∀ j ∈ ids cells', j ∈ ids cells ∨ b.used ≤ j := fun j hj => hsame.used ▸ hbehind.new j hj
  refine ⟨⟨⟨hentry, by rw [hstart', hstart], by rw [hstop', hstop], fun hs => ?_,
    hlists.linked⟩, nodup_cons.mpr ⟨(hlists.apart i rfl).2, hlists.nodup⟩, fun j hj => ?_,
    fun p hp => ?_⟩, hused, fun j hj hmem hpj => ?_, fun p hp => ?_, fun j hj => ?_⟩
  · rw [hprev', hsame.prev, hprev hs]
  · rcases mem_cons.mp hj with heq | hj
    · rw [heq]
      exact hi.trans_le hused
    · exact hlists.used j hj
  · obtain ⟨hpi, hpcells, _⟩ := hbefore p hp
    have hpused := (h.apart p hp).1
    refine ⟨hpused.trans_le hused, fun hmem => ?_⟩
    rcases mem_cons.mp hmem with heq | hmem
    · exact hpi heq
    · rcases hnew p hmem with hold | hge
      · exact hpcells hold
      · omega
  · have hji : j ≠ i := fun heq => hmem (heq ▸ mem_cons_self)
    have hjcells : j ∉ ids cells := fun hj => hmem (mem_cons_of_mem i hj)
    have hij : some i ≠ some j := fun heq => hji (by cases heq; rfl)
    rw [hbehind.others j (hsame.used ▸ hj) hjcells hij, hsame.others j hji]
  · rw [(hbefore p hp).2.2]
    exact ⟨hfirst.trans hsame.first, rfl, rfl, rfl⟩
  rcases mem_cons.mp hj with heq | hj
  · exact .inl (heq ▸ mem_cons_self)
  · rcases hnew j hj with hold | hge
    · exact .inl (mem_cons_of_mem i hold)
    · exact .inr hge

/-- What the removal of hole `i` changes in the other holes. -/
structure Unlinked (b b' : HoleBuffer) (i : ℕ) : Prop where
  used : b'.used = b.used
  first : b'.first = if (b.hole i).prev = none then (b.hole i).next else b.first
  start : ∀ k, k ≠ i → (b'.hole k).start = (b.hole k).start
  stop : ∀ k, k ≠ i → (b'.hole k).stop = (b.hole k).stop
  prev : ∀ k, k ≠ i → (b'.hole k).prev =
    if (b.hole i).next = some k then (b.hole i).prev else (b.hole k).prev
  next : ∀ k, k ≠ i → (b'.hole k).next =
    if (b.hole i).prev = some k then (b.hole i).next else (b.hole k).next

lemma unlinked (b : HoleBuffer) (i : ℕ) (pos : FilePos) (hnext : (b.hole i).next ≠ some i) :
    b.Unlinked ((b.setStart i pos).unlink i) i := by
  have hself : (b.setStart i pos).hole i = { b.hole i with start := pos } :=
    update_self ..
  have hother : ∀ k, k ≠ i → (b.setStart i pos).hole k = b.hole k :=
    fun k hk => update_of_ne hk _ _
  have hkeep : ((b.setStart i pos).unlinkNext i).hole i = { b.hole i with start := pos } := by
    unfold unlinkNext
    rw [hself]
    split
    · rename_i n hn
      have hin : i ≠ n := by
        intro heq
        rw [← heq] at hn
        exact hnext hn
      simp [setPrev, hin, hself]
    · exact hself
  have hmid : ∀ k, k ≠ i → ((b.setStart i pos).unlinkNext i).hole k =
      { b.hole k with
        prev := if (b.hole i).next = some k then (b.hole i).prev else (b.hole k).prev } := by
    intro k hk
    unfold unlinkNext
    rw [hself]
    split
    · rename_i n hn
      simp only at hn
      by_cases hkn : k = n
      · rw [hkn] at hk ⊢
        simp [setPrev, hn, hother n hk]
      · have hne : n ≠ k := fun heq => hkn heq.symm
        simp [setPrev, hn, hother k hk, hkn, hne]
    · rename_i hn
      simp only at hn
      simp [hn, hother k hk]
  have hused : ((b.setStart i pos).unlinkNext i).used = b.used := unlinkNext_used _ i
  have hfirst : ((b.setStart i pos).unlinkNext i).first = b.first := unlinkNext_first _ i
  unfold unlink unlinkPrev
  rw [hkeep]
  split
  · rename_i p hp
    simp only at hp
    refine ⟨hused, ?_, fun k hk => ?_, fun k hk => ?_, fun k hk => ?_, fun k hk => ?_⟩
    · simp [setNext, hfirst, hp]
    all_goals
      by_cases hkp : k = p
      · rw [hkp] at hk ⊢
        simp [setNext, hmid p hk, hp]
      · have hne : p ≠ k := fun heq => hkp heq.symm
        simp [setNext, hmid k hk, hp, hkp, hne]
  rename_i hp
  simp only at hp
  refine ⟨hused, ?_, fun k hk => ?_, fun k hk => ?_, fun k hk => ?_, fun k hk => ?_⟩
  · simp [hp]
  all_goals simp [hmid k hk, hp]

lemma Unlinked.same {k : ℕ} (h : b.Unlinked b' i) (hk : k ≠ i) (hnext : (b.hole i).next ≠ some k)
    (hprev : (b.hole i).prev ≠ some k) : b'.hole k = b.hole k := by
  ext1
  · rw [h.next k hk, if_neg hprev]
  · rw [h.prev k hk, if_neg hnext]
  · exact h.start k hk
  · exact h.stop k hk

lemma Lists.unlink
    (h : b.Lists prev ((i, c) :: cells)) (pos : FilePos) (hprev : (b.hole i).prev = prev) :
    ((b.setStart i pos).unlink i).Lists prev cells ∧
      (∀ j c' rest, cells = (j, c') :: rest →
        (((b.setStart i pos).unlink i).hole j).prev = prev) ∧
      ∀ b' cells', ((b.setStart i pos).unlink i).Behind b' prev cells cells' →
        b.Behind b' prev ((i, c) :: cells) cells' := by
  obtain ⟨hi, hrest⟩ := nodup_cons.mp h.nodup
  have hlink := h.linked.2.2.2.2
  have hnext : (b.hole i).next ≠ some i := by
    intro hself
    cases cells with
    | nil =>
      rw [show (b.hole i).next = none from hlink] at hself
      cases hself
    | cons x cells =>
      rw [hlink.1] at hself
      cases hself
      exact hi mem_cons_self
  have hu := unlinked b i pos hnext
  generalize (b.setStart i pos).unlink i = b₁ at hu
  have hne : ∀ j ∈ ids cells, j ≠ i ∧ prev ≠ some j := by
    intro j hj
    refine ⟨fun heq => hi (heq ▸ hj), fun hpj => ?_⟩
    exact (h.apart j hpj).2 (mem_cons_of_mem i hj)
  have hentry : b₁.entry prev = (b.hole i).next := by
    cases prev with
    | none => exact hu.first.trans (if_pos hprev)
    | some p =>
      have hpi : p ≠ i := fun heq => (h.apart p rfl).2 (heq ▸ mem_cons_self)
      exact (hu.next p hpi).trans (if_pos hprev)
  refine ⟨⟨?_, hrest, fun j hj => ?_, fun p hp => ?_⟩, fun j c' rest hcells => ?_,
    fun b' cells' hb => ⟨?_, fun j hj hmem hpj => ?_, fun p hp => ?_, fun j hj => ?_⟩⟩
  · rw [hentry]
    cases cells with
    | nil => exact hlink
    | cons x rest =>
      obtain ⟨j, c'⟩ := x
      obtain ⟨hj, hstart, hstop, -, hlinked⟩ := hlink
      obtain ⟨hji, hpj⟩ := hne j mem_cons_self
      refine ⟨hj, by rw [hu.start j hji, hstart], by rw [hu.stop j hji, hstop], fun _ => ?_, ?_⟩
      · rw [hu.prev j hji, if_pos hj, hprev]
      rw [hu.next j hji, if_neg (by rw [hprev]; exact hpj)]
      apply hlinked.congr
      intro k hk
      obtain ⟨hki, hpk⟩ := hne k (mem_cons_of_mem j hk)
      have hjk : j ≠ k := fun heq => (nodup_cons.mp hrest).1 (heq ▸ hk)
      refine hu.same hki ?_ (by rw [hprev]; exact hpk)
      rw [hj]
      exact fun heq => hjk (Option.some.inj heq)
  · rw [hu.used]
    exact h.used j (mem_cons_of_mem i hj)
  · rw [hu.used]
    exact ⟨(h.apart p hp).1, fun hmem => (h.apart p hp).2 (mem_cons_of_mem i hmem)⟩
  · have hj : (b.hole i).next = some j := by
      rw [hcells] at hlink
      exact hlink.1
    have hji : j ≠ i := (hne j (by rw [hcells]; exact mem_cons_self)).1
    rw [hu.prev j hji, if_pos hj, hprev]
  · rw [← hu.used]
    exact hb.used
  · have hji : j ≠ i := fun heq => hmem (heq ▸ mem_cons_self)
    have hjcells : j ∉ ids cells := fun hj => hmem (mem_cons_of_mem i hj)
    rw [hb.others j (hu.used ▸ hj) hjcells hpj]
    refine hu.same hji (fun hn => ?_) (by rw [hprev]; exact hpj)
    cases cells with
    | nil =>
      rw [show (b.hole i).next = none from hlink] at hn
      cases hn
    | cons x rest =>
      rw [hlink.1] at hn
      cases hn
      exact hjcells mem_cons_self
  · have hpi : p ≠ i := fun heq => (h.apart p hp).2 (heq ▸ mem_cons_self)
    obtain ⟨hfirst, hstart, hstop, hprevp⟩ := hb.before p hp
    have hnp : (b.hole i).next ≠ some p := by
      intro hn
      cases cells with
      | nil =>
        rw [show (b.hole i).next = none from hlink] at hn
        cases hn
      | cons x rest =>
        rw [hlink.1] at hn
        cases hn
        exact (h.apart _ hp).2 (mem_cons_of_mem i mem_cons_self)
    refine ⟨?_, by rw [hstart, hu.start p hpi], by rw [hstop, hu.stop p hpi], ?_⟩
    · rw [hfirst, hu.first, if_neg]
      rw [hprev, hp]
      exact fun h => (by cases h)
    · rw [hprevp, hu.prev p hpi, if_neg hnp]
  · rcases hb.new j hj with hold | hge
    · exact .inl (mem_cons_of_mem i hold)
    · exact .inr (hu.used ▸ hge)

/-- The marks of `staleHead` on a list with indices. -/
def staleFirst : List (ℕ × Cell) → List (ℕ × Cell)
  | [] => []
  | (i, c) :: cells => (i, { c with stale := true }) :: cells

lemma staleFirst_ids (cells : List (ℕ × Cell)) : ids (staleFirst cells) = ids cells := by
  cases cells <;> rfl

lemma staleFirst_cells (cells : List (ℕ × Cell)) :
    (staleFirst cells).map Prod.snd = staleHead (cells.map Prod.snd) := by
  cases cells <;> rfl

lemma Linked.staleFirst {prev' : Option ℕ}
    (h : b.Linked prev link cells) : b.Linked prev' link (staleFirst cells) := by
  cases cells with
  | nil => exact h
  | cons x cells => exact ⟨h.1, h.2.1, h.2.2.1, fun hs => (by cases hs), h.2.2.2.2⟩

lemma Lists.split (h : b.Lists prev ((i, c) :: cells)) (lock : FileLock) :
    (b.split i lock).Lists (some i) ((b.used, ⟨lock.stop, c.stop, false⟩) :: staleFirst cells) ∧
      (b.setStop i lock.start).Behind (b.split i lock) (some i) cells
        ((b.used, ⟨lock.stop, c.stop, false⟩) :: staleFirst cells) := by
  have hi : i < b.used := h.used i mem_cons_self
  have hicells : i ∉ ids cells := (nodup_cons.mp h.nodup).1
  have hnew : b.used ∉ ids cells := fun hmem =>
    (lt_irrefl _) (h.used b.used (mem_cons_of_mem i hmem))
  have hself : (b.split i lock).hole i = { b.hole i with next := some b.used, stop := lock.start } :=
    update_self ..
  have hused : (b.split i lock).hole b.used =
      ⟨(b.hole i).next, some i, lock.stop, (b.hole i).stop⟩ := by
    simp [HoleBuffer.split, hi.ne']
  have hother : ∀ j, j ≠ i → j ≠ b.used → (b.split i lock).hole j = b.hole j := by
    intro j hji hju
    simp [HoleBuffer.split, hji, hju]
  refine ⟨⟨⟨congrArg Hole.next hself, ?_, ?_, fun _ => ?_, ?_⟩, ?_, fun j hj => ?_, fun p hp => ?_⟩,
    Nat.le_succ _, fun j hj hmem hpj => ?_, fun p hp => ?_, fun j hj => ?_⟩
  · rw [hused]
  · rw [hused]
    exact h.linked.2.2.1
  · rw [hused]
  · rw [hused]
    apply Linked.staleFirst
    apply h.linked.2.2.2.2.congr
    intro j hj
    exact hother j (fun heq => hicells (heq ▸ hj)) fun heq => hnew (heq ▸ hj)
  · change (b.used :: ids (staleFirst cells)).Nodup
    rw [staleFirst_ids]
    exact nodup_cons.mpr ⟨hnew, (nodup_cons.mp h.nodup).2⟩
  · change j ∈ b.used :: ids (staleFirst cells) at hj
    rw [staleFirst_ids] at hj
    rcases mem_cons.mp hj with heq | hj
    · rw [heq]
      exact Nat.lt_succ_self _
    · exact Nat.lt_succ_of_lt (h.used j (mem_cons_of_mem i hj))
  · cases hp
    refine ⟨Nat.lt_succ_of_lt hi, fun hmem => ?_⟩
    change i ∈ b.used :: ids (staleFirst cells) at hmem
    rw [staleFirst_ids] at hmem
    rcases mem_cons.mp hmem with heq | hmem
    · exact hi.ne heq
    · exact hicells hmem
  · have hji : j ≠ i := fun heq => hpj (heq ▸ rfl)
    have hju : j ≠ b.used := fun heq => (lt_irrefl _) (heq ▸ hj)
    rw [hother j hji hju]
    simp [HoleBuffer.setStop, hji]
  · cases hp
    simp [HoleBuffer.split, HoleBuffer.setStop]
  change j ∈ b.used :: ids (staleFirst cells) at hj
  rw [staleFirst_ids] at hj
  rcases mem_cons.mp hj with heq | hj
  · exact .inr heq.ge
  · exact .inl hj

/-- The walk for one lock, from a link on, does to the linked list what `cutCells` says. -/
lemma walk_lists (hlock : lock.Proper) (capacity : ℕ) :
    ∀ (cells : List (ℕ × Cell)) (fuel : ℕ) (prev : Option ℕ) (b : HoleBuffer) (relinked : Bool)
      (out : List Cell), b.Lists prev cells → cells.length ≤ fuel → b.used < capacity →
      (relinked = true → ∀ i c rest, cells = (i, c) :: rest → (b.hole i).prev = prev) →
      cutCells lock relinked (cells.map Prod.snd) = some out →
      ∃ b' cells', b.walk lock capacity fuel (b.entry prev) = .ok b' ∧ b'.Lists prev cells' ∧
        cells'.map Prod.snd = out ∧ b.Behind b' prev cells cells' := by
  intro cells
  induction cells with
  | nil =>
    intro fuel prev b relinked out h _ _ _ hcut
    simp only [map_nil, cutCells, Option.some.injEq] at hcut
    have hnone : b.entry prev = none := h.linked
    refine ⟨b, [], ?_, h, hcut, .refl b prev []⟩
    rw [hnone]
    simp [walk]
  | cons x cells ih =>
    obtain ⟨i, c⟩ := x
    intro fuel prev b relinked out h hfuel hcap hhead hcut
    obtain ⟨fuel, rfl⟩ : ∃ n, fuel = n + 1 :=
      ⟨fuel - 1, by simp only [length_cons] at hfuel; omega⟩
    have hfuel' : cells.length ≤ fuel := Nat.le_of_succ_le_succ hfuel
    obtain ⟨hlink, hstart, hstop, hprev, hlinked⟩ := h.linked
    -- The link back of the first hole is right unless it is marked and was not corrected.
    have hstale : (c.stale && !relinked) = false → (b.hole i).prev = prev := by
      intro hs
      cases hrel : relinked with
      | true => exact hhead hrel i c cells rfl
      | false =>
        rw [hrel, Bool.not_false, Bool.and_true] at hs
        exact hprev hs
    -- What the walk leaves behind the first hole, with that hole in front of it.
    have hextend : ∀ (b₁ b' : HoleBuffer) (start stop : FilePos) (cells' : List (ℕ × Cell)),
        b.SameLinks b₁ i → (b₁.hole i).start = start → (b₁.hole i).stop = stop →
        b'.Lists (some i) cells' → b₁.Behind b' (some i) cells cells' →
        b'.Lists prev ((i, ⟨start, stop, c.stale && !relinked⟩) :: cells') ∧
          b.Behind b' prev ((i, c) :: cells)
            ((i, ⟨start, stop, c.stale && !relinked⟩) :: cells') := by
      intro b₁ b' start stop cells' hsame hs ht hlists hbehind
      exact h.extend hsame hs ht hstale hlists hbehind
    have hsame : b.SameLinks b i := ⟨rfl, rfl, fun _ _ => rfl, rfl, rfl⟩
    rw [hlink]
    simp only [walk, hstart, hstop]
    simp only [map_cons, cutCells] at hcut
    split at hcut
    · rename_i hbefore
      obtain ⟨rest, hrest, rfl⟩ := Option.map_eq_some_iff.mp hcut
      obtain ⟨b', cells', hwalk, hlists, hout, hbehind⟩ :=
        ih fuel (some i) b false rest h.tail hfuel' hcap (fun h => (by cases h)) hrest
      obtain ⟨hlists', hbehind'⟩ := hextend b b' _ _ cells' hsame hstart hstop hlists hbehind
      rw [if_pos hbefore]
      exact ⟨b', _, hwalk, hlists', by rw [map_cons, hout], hbehind'⟩
    rename_i hbefore
    rw [if_neg hbefore]
    split at hcut
    · rename_i hbehind
      cases hcut
      obtain ⟨hlists', hbehind'⟩ :=
        hextend b b _ _ cells hsame hstart hstop h.tail (.refl b (some i) cells)
      rw [if_pos hbehind]
      exact ⟨b, _, rfl, hlists', rfl, hbehind'⟩
    rename_i hbehind
    rw [if_neg hbehind]
    split at hcut
    · rename_i hcover
      rw [if_pos hcover]
      split at hcut
      · rename_i hpart
        cases hcut
        have hset := sameLinks_setStart b i lock.stop
        have hends : ((b.setStart i lock.stop).hole i).start = lock.stop ∧
            ((b.setStart i lock.stop).hole i).stop = c.stop := by
          simp [HoleBuffer.setStart, hstop]
        obtain ⟨hlists', hbehind'⟩ :=
          hextend _ _ _ _ cells hset hends.1 hends.2 (h.tail_same hset) (.refl _ (some i) cells)
        rw [if_pos hpart]
        exact ⟨_, _, rfl, hlists', rfl, hbehind'⟩
      rename_i hpart
      rw [if_neg hpart]
      split at hcut
      · cases hcut
      rename_i hs
      rw [Bool.not_eq_true] at hs
      obtain ⟨hlists, hhead', hback⟩ := h.unlink lock.stop (hstale hs)
      have hcap' : ((b.setStart i lock.stop).unlink i).used < capacity := by
        rw [unlink_used]
        exact hcap
      obtain ⟨b', cells', hwalk, hlists', hout, hbehind'⟩ := ih fuel prev _ true out hlists
        hfuel' hcap' (fun _ => hhead') hcut
      rw [hlinked.link_eq hlists.linked]
      exact ⟨b', cells', hwalk, hlists', hout, hback b' cells' hbehind'⟩
    rename_i hcover
    rw [if_neg hcover]
    split at hcut
    · rename_i hlarge
      obtain ⟨rest, hrest, rfl⟩ := Option.map_eq_some_iff.mp hcut
      have hset := sameLinks_setStop b i lock.start
      have hends : ((b.setStop i lock.start).hole i).start = c.start ∧
          ((b.setStop i lock.start).hole i).stop = lock.start := by
        simp [HoleBuffer.setStop, hstart]
      obtain ⟨b', cells', hwalk, hlists, hout, hbehind'⟩ :=
        ih fuel (some i) _ false rest (h.tail_same hset) hfuel' hcap (fun h => (by cases h)) hrest
      obtain ⟨hlists', hbehind''⟩ :=
        hextend _ _ _ _ cells' hset hends.1 hends.2 hlists hbehind'
      rw [if_pos hlarge, if_pos (UInt64.not_le.mp hcover)]
      have hnext : (b.setStop i lock.start).entry (some i) = (b.hole i).next := hset.next
      rw [hnext] at hwalk
      exact ⟨b', _, hwalk, hlists', by rw [map_cons, hout], hbehind''⟩
    · rename_i hlarge
      cases hcut
      have hset := sameLinks_setStop b i lock.start
      have hends : ((b.setStop i lock.start).hole i).start = c.start ∧
          ((b.setStop i lock.start).hole i).stop = lock.start := by
        simp [HoleBuffer.setStop, hstart]
      obtain ⟨hlists, hbehind'⟩ := h.split lock
      obtain ⟨hlists', hbehind''⟩ := hextend _ _ _ _ _ hset hends.1 hends.2 hlists hbehind'
      have hinside : lock.stop < c.stop ∧ lock.start < lock.stop := by
        rw [not_or] at hlarge
        rcases hlock with hzero | hlt
        · exact absurd hzero hlarge.1
        · exact ⟨UInt64.not_le.mp hlarge.2, hlt⟩
      rw [if_neg hlarge, if_neg (not_le.mpr hcap), if_pos hinside]
      refine ⟨_, _, rfl, hlists', ?_, hbehind''⟩
      rw [map_cons, map_cons, staleFirst_cells]

lemma walk_used {capacity fuel : ℕ} {cur : Option ℕ}
    (h : b.walk lock capacity fuel cur = .ok b') : b'.used ≤ b.used + 1 := by
  induction fuel generalizing cur b with
  | zero =>
    cases cur with
    | none =>
      simp only [walk, Except.ok.injEq] at h
      rw [← h]
      exact Nat.le_succ _
    | some i => cases h
  | succ fuel ih =>
    cases cur with
    | none =>
      simp only [walk, Except.ok.injEq] at h
      rw [← h]
      exact Nat.le_succ _
    | some i =>
      simp only [walk] at h
      split_ifs at h
      · exact ih h
      · cases h
        exact Nat.le_succ _
      · cases h
        exact Nat.le_succ _
      · have hused := ih h
        rwa [unlink_used] at hused
      · have hused := ih h
        exact hused
      · cases h
        exact le_rfl

lemma Lists.length_le (h : b.Lists prev cells) : cells.length ≤ b.used := by
  have hsub : ids cells ⊆ List.range b.used := fun i hi => mem_range.mpr (h.used i hi)
  have hle := (List.Nodup.subperm h.nodup hsub).length_le
  rwa [ids, length_map, length_range] at hle

lemma cutAll_lists {capacity : ℕ} :
    ∀ (locks : List FileLock) (b : HoleBuffer) (cells : List (ℕ × Cell)) (out : List Cell),
      b.Lists none cells → (∀ lock ∈ locks, lock.Proper) → b.used + locks.length ≤ capacity →
      cutAllCells locks (cells.map Prod.snd) = some out →
      ∃ b' cells', b.cutAll capacity locks = .ok b' ∧ b'.Lists none cells' ∧
        cells'.map Prod.snd = out := by
  intro locks
  induction locks with
  | nil =>
    intro b cells out h _ _ hcut
    simp only [cutAllCells, Option.some.injEq] at hcut
    exact ⟨b, cells, rfl, h, hcut⟩
  | cons lock locks ih =>
    intro b cells out h hproper hcap hcut
    have hlength : (lock :: locks).length = locks.length + 1 := rfl
    obtain ⟨mid, hmid, hrest⟩ := Option.bind_eq_some_iff.mp hcut
    obtain ⟨b₁, cells₁, hwalk, hlists, hout, -⟩ := walk_lists (hproper lock mem_cons_self)
      capacity cells b.used none b false mid h h.length_le (by omega) (fun h => (by cases h)) hmid
    have hused := walk_used hwalk
    rw [← hout] at hrest
    obtain ⟨b', cells', hcutAll, hlists', hout'⟩ := ih b₁ cells₁ out hlists
      (fun l hl => hproper l (mem_cons_of_mem lock hl)) (by omega) hrest
    refine ⟨b', cells', ?_, hlists', hout'⟩
    have hentry : b.entry none = b.first := rfl
    rw [hentry] at hwalk
    simp only [cutAll, hwalk]
    exact hcutAll

lemma collect_linked :
    ∀ {fuel : ℕ} {prev link : Option ℕ} {holes : List Hole}, b.Linked prev link cells →
      b.collect fuel link = .ok holes →
      holes.map (fun h => (⟨h.start.toNat, h.stop.toNat⟩ : Gap ℕ)) =
        cells.map fun x => x.2.gap := by
  induction cells with
  | nil =>
    intro fuel prev link holes h hcollect
    rw [show link = none from h] at hcollect
    simp only [collect, Except.ok.injEq] at hcollect
    rw [← hcollect]
    rfl
  | cons x cells ih =>
    intro fuel prev link holes h hcollect
    obtain ⟨i, c⟩ := x
    obtain ⟨hlink, hstart, hstop, -, hlinked⟩ := h
    rw [hlink] at hcollect
    cases fuel with
    | zero => cases hcollect
    | succ fuel =>
      simp only [collect] at hcollect
      cases hrest : b.collect fuel (b.hole i).next with
      | error fault =>
        rw [hrest] at hcollect
        cases hcollect
      | ok rest =>
        rw [hrest] at hcollect
        cases hcollect
        rw [map_cons, map_cons, ih hlinked hrest, hstart, hstop]
        rfl

end HoleBuffer

def Hole.gap (h : Hole) : Gap ℕ :=
  ⟨h.start.toNat, h.stop.toNat⟩

def FileLock.covers (lock : FileLock) (byte : ℕ) : Prop :=
  lock.start.toNat ≤ byte ∧ byte < endNat lock.stop

lemma FileLock.Proper.lt (h : lock.Proper) : lock.start.toNat < endNat lock.stop :=
  (end_compare lock.start lock.stop).2.2.2.mp h

lemma cutAllCells_gaps {locks : List FileLock} (hproper : ∀ lock ∈ locks, lock.Proper) :
    ∀ {cells out : List Cell}, cutAllCells locks cells = some out →
      Separated (cells.map Cell.gap) → Separated (out.map Cell.gap) ∧
        ∀ byte, byte ∈ gapPoints (out.map Cell.gap) ↔
          byte ∈ gapPoints (cells.map Cell.gap) ∧ ∀ lock ∈ locks, ¬ lock.covers byte := by
  induction locks with
  | nil =>
    intro cells out hcut hsep
    simp only [cutAllCells, Option.some.injEq] at hcut
    rw [← hcut]
    exact ⟨hsep, fun byte => by simp⟩
  | cons lock locks ih =>
    intro cells out hcut hsep
    obtain ⟨mid, hmid, hrest⟩ := Option.bind_eq_some_iff.mp hcut
    have hlt := (hproper lock mem_cons_self).lt
    have hgaps := cutCells_gaps hmid
    have hsep' : Separated (mid.map Cell.gap) := by
      rw [hgaps]
      exact hsep.cut hlt
    obtain ⟨hsepOut, hbytes⟩ := ih (fun l hl => hproper l (mem_cons_of_mem lock hl)) hrest hsep'
    refine ⟨hsepOut, fun byte => ?_⟩
    rw [hbytes, hgaps, mem_gapPoints_cut hsep hlt, forall_mem_cons, and_assoc]
    rfl

/-- The holes that are left are the bytes of the area that no lock covers. -/
theorem unlockedHoles_bytes {locks : List FileLock} {start stop : FilePos} {holes : List Hole}
    (hproper : ∀ lock ∈ locks, lock.Proper) (hlt : start < stop)
    (hlinks : keepsLinks locks start stop = true)
    (hholes : unlockedHoles locks start stop = .ok holes) :
    Separated (holes.map Hole.gap) ∧ ∀ byte, byte ∈ gapPoints (holes.map Hole.gap) ↔
      (start.toNat ≤ byte ∧ byte < stop.toNat) ∧ ∀ lock ∈ locks, ¬ lock.covers byte := by
  obtain ⟨out, hout⟩ := Option.isSome_iff_exists.mp hlinks
  have hsingle : (HoleBuffer.single start stop).Lists none [(0, ⟨start, stop, false⟩)] := by
    refine ⟨⟨rfl, rfl, rfl, fun _ => rfl, rfl⟩, pairwise_singleton _ 0, fun i hi => ?_,
      fun p hp => (by cases hp)⟩
    rw [mem_singleton.mp hi]
    exact one_pos
  have hcap : (HoleBuffer.single start stop).used + locks.length ≤ locks.length + 1 := by
    rw [Nat.add_comm]
    exact le_rfl
  obtain ⟨b, cells, hcut, hlists, hcells⟩ :=
    HoleBuffer.cutAll_lists locks _ _ out hsingle hproper hcap hout
  simp only [unlockedHoles, hcut] at hholes
  have hmap : holes.map Hole.gap = out.map Cell.gap := by
    rw [← hcells, map_map]
    exact HoleBuffer.collect_linked hlists.linked hholes
  have hsep : Separated ([⟨start, stop, false⟩].map Cell.gap) := by
    refine ⟨fun g hg => ?_, pairwise_singleton _ _⟩
    rw [mem_singleton.mp hg]
    exact UInt64.lt_iff_toNat_lt.mp hlt
  obtain ⟨hsepOut, hbytes⟩ := cutAllCells_gaps hproper hout hsep
  rw [hmap]
  refine ⟨hsepOut, fun byte => ?_⟩
  rw [hbytes]
  simp [Cell.gap]

end WineForge.FileLocks
