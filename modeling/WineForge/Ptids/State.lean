import WineForge.Library.Transition
import WineForge.Library.FreeList
import Mathlib.Data.List.Nodup
import Mathlib.Data.List.Perm.Subperm

/-!
# Process and thread ids

The table of `process.c` that gives out process and thread ids. A free entry holds the next free
one, and the last one holds 0. Indexes start at `PTID_OFFSET`; all counters are 32-bit words.
-/

namespace WineForge.Ptids

open Function List Option

def ptidOffset : Nat := 8

def wordSize : Nat := 2 ^ 32

structure PtidEntry (O : Type) where
  ptr : Option O
  next : Nat

structure Table (O : Type) where
  ptidEntries : Nat → PtidEntry O
  usedPtidEntries : Nat
  allocPtidEntries : Nat
  nextFreePtid : Nat
  lastFreePtid : Nat
  numFreePtids : Nat

variable {O : Type}

def indexFromPtid (id : Nat) : Nat := id / 4

def ptidFromIndex (index : Nat) : Nat := index * 4 % wordSize

/-- The entry of an index, `ptid_entries[index - PTID_OFFSET]`. -/
def Table.entryOf (t : Table O) (index : Nat) : PtidEntry O := t.ptidEntries (index - ptidOffset)

def Table.setEntry (t : Table O) (index : Nat) (entry : PtidEntry O) : Table O :=
  { t with ptidEntries := update t.ptidEntries (index - ptidOffset) entry }

/-- `alloc_ptid` with an entry that was never used. -/
def takeUnused (t : Table O) (ptr : O) : Table O × Nat :=
  let index := (t.usedPtidEntries + ptidOffset) % wordSize
  let entry := { t.ptidEntries t.usedPtidEntries with ptr := some ptr }
  ({ t with
      ptidEntries := update t.ptidEntries t.usedPtidEntries entry
      usedPtidEntries := (t.usedPtidEntries + 1) % wordSize },
    ptidFromIndex index)

/-- `alloc_ptid` with the first free entry. -/
def takeFree (t : Table O) (ptr : O) : Table O × Nat :=
  let index := t.nextFreePtid
  let next := (t.entryOf index).next
  ({ t.setEntry index { t.entryOf index with ptr := some ptr } with
      nextFreePtid := next
      lastFreePtid := if next = 0 then 0 else t.lastFreePtid
      numFreePtids := t.numFreePtids - 1 },
    ptidFromIndex index)

def grownCount (allocated : Nat) : Nat :=
  let count := (allocated + allocated / 2) % wordSize
  if count = 0 then 512 else count

/-- `alloc_ptid`; `enlarged` tells whether the array can be reallocated. -/
def allocPtid (t : Table O) (ptr : O) (enlarged : Bool) : Table O × Nat :=
  if t.usedPtidEntries < t.allocPtidEntries then takeUnused t ptr
  else if t.nextFreePtid ≠ 0 ∧ 256 ≤ t.numFreePtids then takeFree t ptr
  else if enlarged then
    takeUnused { t with allocPtidEntries := grownCount t.allocPtidEntries } ptr
  else (t, 0)

def freePtid (t : Table O) (id : Nat) : Table O :=
  let index := indexFromPtid id
  let cleared := t.setEntry index ⟨none, 0⟩
  let linked :=
    if t.lastFreePtid ≠ 0 then
      cleared.setEntry t.lastFreePtid { cleared.entryOf t.lastFreePtid with next := index }
    else { cleared with nextFreePtid := index }
  { linked with
    lastFreePtid := index
    numFreePtids := (t.numFreePtids + 1) % wordSize }

def getPtidEntry (t : Table O) (id : Nat) : Option O :=
  let index := indexFromPtid id
  if index < ptidOffset then none
  else if t.usedPtidEntries ≤ index - ptidOffset then none
  else (t.entryOf index).ptr

/-- The table together with its history: the ids in use, each with its object, and every id that
was freed, the last one first. -/
structure State (O : Type) where
  table : Table O
  live : List (Nat × O)
  freed : List Nat

inductive Op (O : Type)
  | alloc (ptr : O) (enlarged : Bool)
  | free (id : Nat)

/-- An id that `alloc_ptid` returns is in use, unless it is 0; ids in use are freed. -/
def step (s : State O) : Op O → Option (State O)
  | .alloc ptr enlarged =>
    let (table, id) := allocPtid s.table ptr enlarged
    some { s with table, live := if id = 0 then s.live else (id, ptr) :: s.live }
  | .free id =>
    if (s.live.map Prod.fst).contains id then
      some
        { table := freePtid s.table id
          live := s.live.filter fun p => p.1 ≠ id
          freed := id :: s.freed }
    else none

def Initial (s : State O) : Prop :=
  s.table.usedPtidEntries = 0 ∧ s.table.allocPtidEntries = 0 ∧ s.table.nextFreePtid = 0 ∧
    s.table.lastFreePtid = 0 ∧ s.table.numFreePtids = 0 ∧ s.live = [] ∧ s.freed = []

/-!
## Unique ids and delayed reuse

The free entries are a queue: the cells of the free list are the entries that were freed last, in
the order of their release. An id that is taken from the head of the queue was therefore freed
before all others that are free.
-/

open Library

variable {O : Type} {s s' : State O}

def nextOf (t : Table O) (index : Nat) : Nat := (t.entryOf index).next

def Used (t : Table O) (index : Nat) : Prop :=
  ptidOffset ≤ index ∧ index < t.usedPtidEntries + ptidOffset

/-- The free list holds the entries of the ids that were freed last. -/
structure FreeQueue (t : Table O) (freed cells : List Nat) : Prop where
  threaded : Threaded 0 (nextOf t) t.nextFreePtid cells
  last : t.lastFreePtid = cells.getLast?.getD 0
  count : t.numFreePtids = cells.length
  nodup : cells.Nodup
  used : ∀ i ∈ cells, Used t i ∧ (t.entryOf i).ptr = none
  newest : ∃ older, freed = (cells.map (4 * ·)).reverse ++ older

/-- The used entries are inside the array, which never has a size that growing by half keeps. -/
def Room (t : Table O) : Prop :=
  t.usedPtidEntries ≤ t.allocPtidEntries ∧ (t.allocPtidEntries = 0 ∨ 512 ≤ t.allocPtidEntries)

structure Inv (s : State O) : Prop where
  room : Room s.table
  queue : ∃ cells, FreeQueue s.table s.freed cells
  live : ∀ id o, (id, o) ∈ s.live ↔
    ∃ i, Used s.table i ∧ id = 4 * i ∧ (s.table.entryOf i).ptr = some o
  nodup : (s.live.map Prod.fst).Nodup
  freed : ∀ id ∈ s.freed, ∃ i, Used s.table i ∧ id = 4 * i

def Fits (s : State O) : Prop := s.table.usedPtidEntries + ptidOffset ≤ 2 ^ 30

lemma Initial.inv (h : Initial s) : Inv s := by
  obtain ⟨hused, halloc, hnext, hlast, hnum, hlive, hfreed⟩ := h
  have hnone : ∀ i, ¬Used s.table i := by
    intro i hi
    unfold Used at hi
    omega
  have hroom : Room s.table := by
    unfold Room
    omega
  refine ⟨hroom, ⟨[], hnext, hlast, hnum, nodup_nil, by simp, s.freed, rfl⟩, ?_, ?_, ?_⟩
  · intro id o
    rw [hlive]
    refine iff_of_false not_mem_nil ?_
    rintro ⟨i, hi, _⟩
    exact hnone i hi
  · rw [hlive]
    exact nodup_nil
  · rw [hfreed]
    intro id hid
    exact absurd hid not_mem_nil

variable {t : Table O} {index i id : Nat} {ptr : O} {freed cells : List Nat}

lemma entryOf_setEntry {entry : PtidEntry O} (hindex : ptidOffset ≤ index) (hi : ptidOffset ≤ i) :
    (t.setEntry index entry).entryOf i = if i = index then entry else t.entryOf i := by
  unfold Table.entryOf Table.setEntry
  dsimp only
  by_cases heq : i = index
  · rw [if_pos heq, heq, update_self]
  · rw [if_neg heq, update_of_ne]
    omega

def Filled (t t' : Table O) (index : Nat) (ptr : O) : Prop :=
  (∀ i, ptidOffset ≤ i → nextOf t' i = nextOf t i) ∧
    ∀ i, ptidOffset ≤ i → (t'.entryOf i).ptr = if i = index then some ptr else (t.entryOf i).ptr

lemma filled_setEntry (hindex : ptidOffset ≤ index) :
    Filled t (t.setEntry index { t.entryOf index with ptr := some ptr }) index ptr := by
  constructor
  · intro i hi
    unfold nextOf
    rw [entryOf_setEntry hindex hi]
    by_cases heq : i = index
    · rw [if_pos heq, heq]
    · rw [if_neg heq]
  · intro i hi
    rw [entryOf_setEntry hindex hi]
    by_cases heq : i = index
    · rw [if_pos heq, if_pos heq]
    · rw [if_neg heq, if_neg heq]

lemma getPtidEntry_eq_some {o : O} :
    getPtidEntry t id = some o ↔ Used t (id / 4) ∧ (t.entryOf (id / 4)).ptr = some o := by
  unfold getPtidEntry indexFromPtid Used
  dsimp only
  split
  · simp only [reduceCtorEq, false_iff]
    omega
  split
  · simp only [reduceCtorEq, false_iff]
    omega
  · have hin : ptidOffset ≤ id / 4 ∧ id / 4 < t.usedPtidEntries + ptidOffset := by omega
    exact (and_iff_right hin).symm

lemma Inv.live_index (h : Inv s) (hid : id ∈ s.live.map Prod.fst) :
    ∃ i o, Used s.table i ∧ id = 4 * i ∧ (s.table.entryOf i).ptr = some o := by
  obtain ⟨⟨_, o⟩, hmem, rfl⟩ := mem_map.mp hid
  obtain ⟨i, hi⟩ := (h.live _ o).mp hmem
  exact ⟨i, o, hi⟩

lemma Inv.filled {t' : Table O} (h : Inv s)
    (hfilled : Filled s.table t' index ptr) (hindex : Used t' index)
    (hused : ∀ i, Used t' i ↔ Used s.table i ∨ i = index)
    (hnew : Used s.table index → (s.table.entryOf index).ptr = none)
    (hroom : Room t')
    (hqueue : ∃ cells, FreeQueue t' s.freed cells) :
    Inv { s with table := t', live := (4 * index, ptr) :: s.live } := by
  have hfresh : 4 * index ∉ s.live.map Prod.fst := by
    intro hmem
    obtain ⟨i, o, hi, heq, hptr⟩ := h.live_index hmem
    have heq : i = index := by omega
    subst heq
    rw [hnew hi] at hptr
    simp at hptr
  refine ⟨hroom, hqueue, ?_, ?_, ?_⟩
  · intro id o
    rw [mem_cons, h.live]
    constructor
    · rintro (heq | ⟨i, hi, rfl, hptr⟩)
      · obtain ⟨rfl, rfl⟩ := Prod.mk.inj heq
        refine ⟨index, hindex, rfl, ?_⟩
        rw [hfilled.2 index hindex.1, if_pos rfl]
      refine ⟨i, (hused i).mpr (.inl hi), rfl, ?_⟩
      rw [hfilled.2 i hi.1, if_neg, hptr]
      rintro rfl
      rw [hnew hi] at hptr
      simp at hptr
    · rintro ⟨i, hi, rfl, hptr⟩
      rw [hfilled.2 i hi.1] at hptr
      by_cases heq : i = index
      · rw [if_pos heq] at hptr
        left
        rw [heq, some.inj hptr]
      · rw [if_neg heq] at hptr
        exact .inr ⟨i, ((hused i).mp hi).resolve_right heq, rfl, hptr⟩
  · exact nodup_cons.mpr ⟨hfresh, h.nodup⟩
  · intro id hid
    obtain ⟨i, hi, heq⟩ := h.freed id hid
    exact ⟨i, (hused i).mpr (.inl hi), heq⟩

lemma FreeQueue.filled {t' : Table O}
    (h : FreeQueue t freed cells) (hfilled : Filled t t' index ptr) (hindex : index ∉ cells)
    (hhead : t'.nextFreePtid = t.nextFreePtid) (hlast : t'.lastFreePtid = t.lastFreePtid)
    (hnum : t'.numFreePtids = t.numFreePtids) (hused : ∀ i, Used t i → Used t' i) :
    FreeQueue t' freed cells := by
  refine ⟨?_, hlast.trans h.last, hnum.trans h.count, h.nodup, ?_, h.newest⟩
  · rw [hhead]
    exact h.threaded.congr fun i hi => hfilled.1 i (h.used i hi).1.1
  intro i hi
  obtain ⟨hold, hptr⟩ := h.used i hi
  refine ⟨hused i hold, ?_⟩
  rw [hfilled.2 i hold.1, if_neg, hptr]
  rintro rfl
  exact hindex hi

lemma ptidFromIndex_eq (index : Nat) : ptidFromIndex (index % wordSize) = 4 * index % 2 ^ 32 := by
  unfold ptidFromIndex wordSize
  omega

lemma takeUnused_filled (t : Table O) (ptr : O) :
    Filled t (takeUnused t ptr).1 (t.usedPtidEntries + ptidOffset) ptr :=
  filled_setEntry (Nat.le_add_left _ _)

lemma Inv.unused_taken {allocated : Nat} (h : Inv s)
    (hroom : s.table.usedPtidEntries < allocated) (hsize : 512 ≤ allocated)
    (hfits : s.table.usedPtidEntries + 1 + ptidOffset ≤ 2 ^ 30) :
    Inv { s with
      table := (takeUnused { s.table with allocPtidEntries := allocated } ptr).1
      live := (4 * (s.table.usedPtidEntries + ptidOffset), ptr) :: s.live } := by
  have hfilled := takeUnused_filled { s.table with allocPtidEntries := allocated } ptr
  have hgrows : (s.table.usedPtidEntries + 1) % wordSize = s.table.usedPtidEntries + 1 := by
    apply Nat.mod_eq_of_lt
    unfold wordSize
    omega
  have hused : ∀ i, Used (takeUnused { s.table with allocPtidEntries := allocated } ptr).1 i ↔
      Used s.table i ∨ i = s.table.usedPtidEntries + ptidOffset := by
    intro i
    unfold Used
    change _ ∧ i < (s.table.usedPtidEntries + 1) % wordSize + ptidOffset ↔ _
    omega
  have hunused : ¬Used s.table (s.table.usedPtidEntries + ptidOffset) := by
    unfold Used
    omega
  refine h.filled hfilled ((hused _).mpr (.inr rfl)) hused (fun hin => absurd hin hunused) ?_ ?_
  · change (s.table.usedPtidEntries + 1) % wordSize ≤ allocated ∧ _
    rw [hgrows]
    exact ⟨hroom, .inr hsize⟩
  obtain ⟨cells, hcells⟩ := h.queue
  refine ⟨cells, hcells.filled hfilled ?_ rfl rfl rfl fun i hi => (hused i).mpr (.inl hi)⟩
  intro hmem
  exact hunused (hcells.used _ hmem).1

lemma FreeQueue.head_old (h : FreeQueue t freed cells)
    (hhead : t.nextFreePtid ≠ 0) : ∃ rest older, cells = t.nextFreePtid :: rest ∧
      freed = (rest.map (4 * ·)).reverse ++ 4 * t.nextFreePtid :: older ∧
      4 * t.nextFreePtid ∉ rest.map (4 * ·) := by
  obtain ⟨rest, rfl, _⟩ := h.threaded.pop hhead
  obtain ⟨older, hfreed⟩ := h.newest
  refine ⟨rest, older, rfl, ?_, ?_⟩
  · rw [hfreed]
    simp
  intro hmem
  obtain ⟨i, hi, heq⟩ := mem_map.mp hmem
  have heq : i = t.nextFreePtid := by omega
  exact (nodup_cons.mp h.nodup).1 (heq ▸ hi)

lemma Inv.free_taken (h : Inv s) (hhead : s.table.nextFreePtid ≠ 0) : Inv { s with
      table := (takeFree s.table ptr).1
      live := (4 * s.table.nextFreePtid, ptr) :: s.live } := by
  obtain ⟨cells, hcells⟩ := h.queue
  obtain ⟨rest, older, rfl, hfreed, hnew⟩ := hcells.head_old hhead
  obtain ⟨hindex, hnone⟩ := hcells.used _ mem_cons_self
  have hfilled : Filled s.table (takeFree s.table ptr).1 s.table.nextFreePtid ptr :=
    filled_setEntry hindex.1
  refine h.filled hfilled hindex (fun i => ?_) (fun _ => hnone) h.room ⟨rest, ?_⟩
  · refine ⟨.inl, ?_⟩
    rintro (hi | rfl)
    · exact hi
    · exact hindex
  have hnodup := nodup_cons.mp hcells.nodup
  have hthread : Threaded 0 (nextOf s.table) (nextOf s.table s.table.nextFreePtid) rest :=
    hcells.threaded.2.2
  refine ⟨?_, ?_, ?_, hnodup.2, ?_, 4 * s.table.nextFreePtid :: older, hfreed⟩
  · apply hthread.congr
    intro i hi
    exact hfilled.1 i (hcells.used i (mem_cons_of_mem _ hi)).1.1
  · change (if nextOf s.table s.table.nextFreePtid = 0 then 0 else s.table.lastFreePtid) = _
    rw [hcells.last]
    split
    · rename_i hnil
      rw [hnil] at hthread
      rw [hthread.eq_nil]
      rfl
    · rename_i hcons
      obtain ⟨rest', rfl, _⟩ := hthread.pop hcons
      rw [getLast?_cons_cons]
  · change s.table.numFreePtids - 1 = _
    rw [hcells.count, length_cons, Nat.add_sub_cancel]
  intro i hi
  obtain ⟨hused, hptr⟩ := hcells.used i (mem_cons_of_mem _ hi)
  refine ⟨hused, ?_⟩
  rw [hfilled.2 i hused.1, if_neg, hptr]
  rintro rfl
  exact hnodup.1 hi

lemma length_le_used (hnodup : cells.Nodup)
    (hused : ∀ i ∈ cells, Used t i) : cells.length ≤ t.usedPtidEntries := by
  have hsub : cells.map (· - ptidOffset) ⊆ List.range t.usedPtidEntries := by
    intro k hk
    obtain ⟨j, hj, rfl⟩ := mem_map.mp hk
    have hj := hused j hj
    unfold Used at hj
    exact mem_range.mpr (by omega)
  have hinj : (cells.map (· - ptidOffset)).Nodup := by
    apply List.Nodup.map_on _ hnodup
    intro a ha b hb heq
    have ha := (hused a ha).1
    have hb := (hused b hb).1
    omega
  have hle := (hinj.subperm hsub).length_le
  rwa [length_map, length_range] at hle

/-- What `free_ptid` leaves in an entry. -/
lemma freePtid_entryOf {j : Nat} (hi : ptidOffset ≤ i) (hj : ptidOffset ≤ j)
    (hlast : t.lastFreePtid ≠ 0 → ptidOffset ≤ t.lastFreePtid) :
    ((freePtid t (4 * i)).entryOf j).ptr = (if j = i then none else (t.entryOf j).ptr) ∧
      nextOf (freePtid t (4 * i)) j =
        if j = t.lastFreePtid then i else if j = i then 0 else nextOf t j := by
  have hindex : indexFromPtid (4 * i) = i := by
    unfold indexFromPtid
    omega
  have hcleared : ∀ k, ptidOffset ≤ k →
      (t.setEntry i ⟨none, 0⟩).entryOf k = if k = i then ⟨none, 0⟩ else t.entryOf k :=
    fun k hk => entryOf_setEntry hi hk
  have hentry : (freePtid t (4 * i)).entryOf j =
      if t.lastFreePtid ≠ 0 then
        ((t.setEntry i ⟨none, 0⟩).setEntry t.lastFreePtid
          { (t.setEntry i ⟨none, 0⟩).entryOf t.lastFreePtid with next := i }).entryOf j
      else (t.setEntry i ⟨none, 0⟩).entryOf j := by
    unfold freePtid
    rw [hindex]
    split
    · rfl
    · rfl
  unfold nextOf
  rw [hentry]
  by_cases hzero : t.lastFreePtid ≠ 0
  · rw [if_pos hzero, entryOf_setEntry (hlast hzero) hj, hcleared j hj, hcleared _ (hlast hzero)]
    by_cases hsame : j = t.lastFreePtid
    · rw [if_pos hsame, if_pos hsame, ← hsame]
      refine ⟨?_, rfl⟩
      by_cases heq : j = i
      · rw [if_pos heq, if_pos heq]
      · rw [if_neg heq, if_neg heq]
    rw [if_neg hsame, if_neg hsame]
    by_cases heq : j = i
    · simp only [if_pos heq, and_self]
    · simp only [if_neg heq, and_self]
  · have hother : j ≠ t.lastFreePtid := by
      unfold ptidOffset at hj
      omega
    rw [if_neg hzero, if_neg hother, hcleared j hj]
    by_cases heq : j = i
    · simp only [if_pos heq, and_self]
    · simp only [if_neg heq, and_self]

lemma freePtid_last (t : Table O) (i : Nat) : (freePtid t (4 * i)).lastFreePtid = i := by
  change 4 * i / 4 = i
  omega

lemma freePtid_next (t : Table O) (i : Nat) :
    (freePtid t (4 * i)).nextFreePtid = if t.lastFreePtid ≠ 0 then t.nextFreePtid else i := by
  have hindex : indexFromPtid (4 * i) = i := by
    unfold indexFromPtid
    omega
  unfold freePtid
  dsimp only
  rw [hindex]
  by_cases hlast : t.lastFreePtid ≠ 0
  · rw [if_pos hlast, if_pos hlast]
    rfl
  · rw [if_neg hlast, if_neg hlast]

lemma freePtid_used (t : Table O) (id i : Nat) : Used (freePtid t id) i ↔ Used t i := by
  unfold Used freePtid
  split
  · rfl
  · rfl

lemma FreeQueue.last_used (h : FreeQueue t freed cells)
    (hlast : t.lastFreePtid ≠ 0) : ∃ front, cells = front ++ [t.lastFreePtid] := by
  rw [h.last] at hlast ⊢
  obtain rfl | ⟨front, last, rfl⟩ := cells.eq_nil_or_concat'
  · exact absurd rfl hlast
  · refine ⟨front, ?_⟩
    simp

lemma FreeQueue.last_offset (h : FreeQueue t freed cells)
    (hlast : t.lastFreePtid ≠ 0) : ptidOffset ≤ t.lastFreePtid := by
  obtain ⟨front, heq⟩ := h.last_used hlast
  exact (h.used _ (heq ▸ mem_append_right front (mem_singleton_self _))).1.1

lemma FreeQueue.free
    (h : FreeQueue t freed cells) (hfits : t.usedPtidEntries < wordSize) (hi : Used t i)
    (hlive : (t.entryOf i).ptr ≠ none) :
    FreeQueue (freePtid t (4 * i)) (4 * i :: freed) (cells ++ [i]) := by
  have hnotin : i ∉ cells := fun hmem => hlive (h.used i hmem).2
  have hne : i ≠ 0 := by
    have hpos := hi.1
    unfold ptidOffset at hpos
    omega
  have hnodup : (cells ++ [i]).Nodup := by
    rw [nodup_append_comm]
    exact nodup_cons.mpr ⟨hnotin, h.nodup⟩
  have hlast := h.last_offset
  have hused : ∀ j ∈ cells ++ [i], Used t j := by
    intro j hj
    obtain hj | hj := mem_append.mp hj
    · exact (h.used j hj).1
    · exact mem_singleton.mp hj ▸ hi
  have hentry := fun j (hj : ptidOffset ≤ j) => freePtid_entryOf (t := t) hi.1 hj hlast
  refine ⟨?_, ?_, ?_, hnodup, ?_, ?_⟩
  · rw [freePtid_next]
    by_cases hzero : t.lastFreePtid ≠ 0
    · obtain ⟨front, heq⟩ := h.last_used hzero
      rw [if_pos hzero]
      subst heq
      apply h.threaded.append
      · intro j hj
        have hjused := (h.used j (mem_append_left _ hj)).1
        rw [(hentry j hjused.1).2, if_neg, if_neg]
        · rintro rfl
          exact hnotin (mem_append_left _ hj)
        · rintro rfl
          have hdisjoint := disjoint_of_nodup_append h.nodup
          exact hdisjoint hj (mem_singleton_self _)
      · rw [(hentry _ (hlast hzero)).2, if_pos rfl]
      · rw [(hentry i hi.1).2, if_neg, if_pos rfl]
        intro heq
        rw [heq] at hnotin
        exact hnotin (mem_append_right _ (mem_singleton_self _))
      · exact hne
    · rw [if_neg hzero]
      have hnil : cells = [] := by
        rw [h.last, not_not] at hzero
        obtain rfl | ⟨front, last, rfl⟩ := cells.eq_nil_or_concat'
        · rfl
        have hused := (h.used last (by simp)).1.1
        unfold ptidOffset at hused
        rw [getLast?_concat, getD_some] at hzero
        omega
      rw [hnil]
      refine ⟨rfl, hne, ?_⟩
      have hzero : t.lastFreePtid = 0 := not_not.mp hzero
      change nextOf _ i = 0
      rw [(hentry i hi.1).2, hzero, if_neg hne, if_pos rfl]
  · rw [freePtid_last, getLast?_concat, getD_some]
  · change (t.numFreePtids + 1) % wordSize = _
    have hlength := length_le_used hnodup hused
    rw [length_append, length_singleton] at hlength ⊢
    rw [h.count]
    exact Nat.mod_eq_of_lt (by omega)
  · intro j hj
    have hjused := hused j hj
    refine ⟨(freePtid_used t _ j).mpr hjused, ?_⟩
    rw [(hentry j hjused.1).1]
    split
    · rfl
    rename_i hother
    obtain hj | hj := mem_append.mp hj
    · exact (h.used j hj).2
    · exact absurd (mem_singleton.mp hj) hother
  · obtain ⟨older, hfreed⟩ := h.newest
    refine ⟨older, ?_⟩
    rw [hfreed]
    simp

lemma Inv.free (h : Inv s) (hfits : Fits s) (hid : id ∈ s.live.map Prod.fst) :
    Inv
      { table := freePtid s.table id
        live := s.live.filter fun p => p.1 ≠ id
        freed := id :: s.freed } := by
  obtain ⟨i, o, hi, rfl, hptr⟩ := h.live_index hid
  obtain ⟨cells, hcells⟩ := h.queue
  have hlast := hcells.last_offset
  have hlt : s.table.usedPtidEntries < wordSize := by
    unfold Fits at hfits
    unfold wordSize
    omega
  refine ⟨?_, ⟨_, hcells.free hlt hi (by simp [hptr])⟩, ?_, ?_, ?_⟩
  · have hroom := h.room
    unfold Room freePtid at *
    split
    · exact hroom
    · exact hroom
  · intro id o'
    rw [mem_filter, h.live]
    constructor
    · rintro ⟨⟨j, hj, rfl, hjptr⟩, hother⟩
      refine ⟨j, (freePtid_used _ _ j).mpr hj, rfl, ?_⟩
      rw [(freePtid_entryOf hi.1 hj.1 hlast).1, if_neg, hjptr]
      rintro rfl
      exact absurd rfl (of_decide_eq_true hother)
    · rintro ⟨j, hj, rfl, hjptr⟩
      rw [(freePtid_entryOf hi.1 hj.1 hlast).1] at hjptr
      split at hjptr
      · simp at hjptr
      rename_i hother
      refine ⟨⟨j, (freePtid_used _ _ j).mp hj, rfl, hjptr⟩, decide_eq_true ?_⟩
      intro heq
      exact hother (by omega)
  · exact h.nodup.sublist (filter_sublist.map _)
  · intro id hmem
    obtain rfl | hmem := mem_cons.mp hmem
    · exact ⟨i, (freePtid_used _ _ i).mpr hi, rfl⟩
    · obtain ⟨j, hj, heq⟩ := h.freed id hmem
      exact ⟨j, (freePtid_used _ _ j).mpr hj, heq⟩

end WineForge.Ptids
