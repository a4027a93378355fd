import Mathlib.Data.List.GetD
import Mathlib.Algebra.Order.Ring.Int

/-!
# A handle table

A table is a block of `count` cells. `last` is the last cell in use and `free` the first one that
may be free. A cell holds whatever was in the memory before it is first written, and `realloc`
leaves new cells that way, so a read of such a cell is a fault of its own.
-/

namespace WineForge.Handles

open Function List

abbrev Handle := BitVec 32
abbrev AccessMask := BitVec 32

inductive Fault where
  /-- an array index outside the table -/
  | outOfBounds
  /-- a cell that was never written -/
  | uninitialised
  /-- a failed assertion or a null process pointer -/
  | aborted
  deriving DecidableEq, Repr

structure HandleEntry (Obj : Type*) where
  ptr : Obj
  access : AccessMask
  deriving DecidableEq, Repr

inductive Cell (Obj : Type*) where
  | junk
  | empty
  | used (entry : HandleEntry Obj)
  deriving DecidableEq, Repr

structure HandleTable (Obj : Type*) where
  entries : List (Cell Obj)
  last : Int
  free : Nat
  deriving DecidableEq, Repr

def minHandleEntries : Nat := 32
def maxHandleEntries : Nat := 0x00ffffff

variable {Obj : Type*}

def HandleTable.count (table : HandleTable Obj) : Nat := table.entries.length

/-- `entries[i].ptr`, together with the access that belongs to it. -/
def readPtr (table : HandleTable Obj) (i : Int) : Except Fault (Option (HandleEntry Obj)) :=
  if i < 0 then .error .outOfBounds
  else
    match table.entries[i.toNat]? with
    | none => .error .outOfBounds
    | some .junk => .error .uninitialised
    | some .empty => .ok none
    | some (.used entry) => .ok (some entry)

def writeCell (table : HandleTable Obj) (i : Int) (cell : Cell Obj) :
    Except Fault (HandleTable Obj) :=
  if 0 ≤ i ∧ i < table.count then .ok { table with entries := table.entries.set i.toNat cell }
  else .error .outOfBounds

def indexToHandle (index : Int) : Handle := BitVec.ofInt 32 (index + 1) <<< 2

def handleToIndex (handle : Handle) : Int := ((handle >>> 2).toNat : Int) - 1

def allocHandleTable (count : Nat) : HandleTable Obj where
  entries := List.replicate (max count minHandleEntries) .junk
  last := -1
  free := 0

/-- `memOk` says whether `realloc` finds the memory. -/
def growHandleTable (memOk : Bool) (table : HandleTable Obj) : Option (HandleTable Obj) :=
  let count := min (table.count * 2) maxHandleEntries
  if count = table.count ∨ memOk = false then none
  else some { table with entries := table.entries ++ List.replicate (count - table.count) .junk }

/-- The loop over the cells from `i` to `last`: `steps` of them are left. -/
def scanFree (table : HandleTable Obj) : Nat → Nat → Except Fault Nat
  | 0, i => .ok i
  | steps + 1, i =>
    match readPtr table i with
    | .error fault => .error fault
    | .ok none => .ok i
    | .ok (some _) => scanFree table steps (i + 1)

/-- The code behind the label `found`. -/
def takeEntry (table : HandleTable Obj) (i : Nat) (entry : HandleEntry Obj) :
    Except Fault (HandleTable Obj × Handle) :=
  match writeCell { table with free := i + 1 } i (.used entry) with
  | .error fault => .error fault
  | .ok table => .ok (table, indexToHandle i)

def allocEntry (memOk : Bool) (table : HandleTable Obj) (obj : Obj) (access : AccessMask) :
    Except Fault (HandleTable Obj × Handle) :=
  match scanFree table (table.last + 1 - table.free).toNat table.free with
  | .error fault => .error fault
  | .ok i =>
    if (i : Int) ≤ table.last then takeEntry table i ⟨obj, access⟩
    else if table.count ≤ i then
      match growHandleTable memOk table with
      | none => .ok (table, 0)
      | some grown => takeEntry { grown with last := i } i ⟨obj, access⟩
    else takeEntry { table with last := i } i ⟨obj, access⟩

/-- The loop that lowers `last`: the argument is `last + 1`. -/
def trimLast (table : HandleTable Obj) : Nat → Except Fault Nat
  | 0 => .ok 0
  | last + 1 =>
    match readPtr table last with
    | .error fault => .error fault
    | .ok (some _) => .ok (last + 1)
    | .ok none => trimLast table last

def shrinkHandleTable (memOk : Bool) (table : HandleTable Obj) : Except Fault (HandleTable Obj) :=
  match trimLast table (table.last + 1).toNat with
  | .error fault => .error fault
  | .ok used =>
    let table := { table with last := (used : Int) - 1 }
    if ((table.count / 4 : Nat) : Int) ≤ table.last then .ok table
    else if table.count < minHandleEntries * 2 then .ok table
    else if memOk = false then .ok table
    else .ok { table with entries := table.entries.take (table.count / 2) }

def HandleTable.lookup (table : HandleTable Obj) (i : Nat) : Option (HandleEntry Obj) :=
  if (i : Int) ≤ table.last then
    match table.entries[i]? with
    | some (.used entry) => some entry
    | _ => none
  else none

/-- The hints of a table are right: everything up to `last` lies in the block and was written, and
every cell below `free` is in use. -/
structure HandleTable.Valid (table : HandleTable Obj) : Prop where
  min_count : minHandleEntries ≤ table.count
  count_max : table.count ≤ maxHandleEntries
  last_ge : -1 ≤ table.last
  last_lt : table.last < table.count
  free_le : (table.free : Int) ≤ table.last + 1
  written : ∀ i : Nat, (i : Int) ≤ table.last → table.entries[i]? ≠ some .junk
  below_free : ∀ i < table.free, (table.lookup i).isSome

variable {table : HandleTable Obj} {i : Nat}

lemma lookup_of_last_lt (hi : table.last < i) : table.lookup i = none := by
  rw [HandleTable.lookup, if_neg (by omega)]

lemma lookup_lt_count (h : table.Valid) (hi : (table.lookup i).isSome) :
    i < table.count ∧ (i : Int) ≤ table.last := by
  have hlast := h.last_lt
  by_cases hle : (i : Int) ≤ table.last
  · omega
  · rw [lookup_of_last_lt (by omega)] at hi
    cases hi

lemma readPtr_eq (h : table.Valid) (hi : (i : Int) ≤ table.last) :
    readPtr table i = .ok (table.lookup i) := by
  have hlt : i < table.entries.length := by
    have hlast : table.last < table.entries.length := h.last_lt
    omega
  have hwritten := h.written i hi
  rw [readPtr, if_neg (by omega), HandleTable.lookup, if_pos hi, Int.toNat_natCast]
  cases hcell : table.entries[i]? with
  | none =>
    rw [getElem?_eq_none_iff] at hcell
    omega
  | some cell =>
    cases cell with
    | junk => exact absurd hcell hwritten
    | empty => rfl
    | used entry => rfl

lemma scanFree_spec (h : table.Valid) (steps i : Nat) (hi : (i : Int) + steps = table.last + 1) :
    ∃ j, scanFree table steps i = .ok j ∧ i ≤ j ∧ (j : Int) ≤ table.last + 1 ∧
      table.lookup j = none ∧ ∀ k, i ≤ k → k < j → (table.lookup k).isSome := by
  induction steps generalizing i with
  | zero =>
    refine ⟨i, rfl, Nat.le_refl i, by omega, lookup_of_last_lt (by omega), ?_⟩
    intro k hk hk'
    omega
  | succ steps ih =>
    rw [scanFree, readPtr_eq h (by omega)]
    cases hentry : table.lookup i with
    | none =>
      refine ⟨i, rfl, Nat.le_refl i, by omega, hentry, ?_⟩
      intro k hk hk'
      omega
    | some entry =>
      obtain ⟨j, hj, hij, hlast, hfree, hused⟩ := ih (i + 1) (by omega)
      refine ⟨j, hj, by omega, hlast, hfree, ?_⟩
      intro k hk hk'
      by_cases hki : k = i
      · rw [hki, hentry]
        rfl
      · exact hused k (by omega) hk'

/-- A table in which cell `i` was filled, in a block that agrees with the old one up to `last`. -/
def placed (base : List (Cell Obj)) (last : Int) (i : Nat) (entry : HandleEntry Obj) :
    HandleTable Obj where
  entries := base.set i (.used entry)
  last := last
  free := i + 1

section Placed

variable {base : List (Cell Obj)} {i : Nat}

lemma placed_lookup (entry : HandleEntry Obj)
    (hbase : ∀ j : Nat, (j : Int) ≤ table.last → base[j]? = table.entries[j]?)
    (hi : (i : Int) ≤ table.last + 1) (hlt : i < base.length) :
    (placed base (max table.last i) i entry).lookup = update table.lookup i (some entry) := by
  funext j
  by_cases hji : j = i
  · subst hji
    have hin : (j : Int) ≤ max table.last j := by omega
    simp [HandleTable.lookup, placed, hlt, hin]
  rw [update_of_ne hji]
  unfold HandleTable.lookup placed
  simp only [getElem?_set_ne (Ne.symm hji)]
  by_cases hj : (j : Int) ≤ table.last
  · rw [if_pos (by omega), if_pos hj, hbase j hj]
  · rw [if_neg (by omega), if_neg hj]

lemma placed_valid (h : table.Valid) (entry : HandleEntry Obj)
    (hbase : ∀ j : Nat, (j : Int) ≤ table.last → base[j]? = table.entries[j]?)
    (hi : (i : Int) ≤ table.last + 1) (hlt : i < base.length)
    (hmin : minHandleEntries ≤ base.length) (hmax : base.length ≤ maxHandleEntries)
    (hcount : table.count ≤ base.length) (hused : ∀ k < i, (table.lookup k).isSome) :
    (placed base (max table.last i) i entry).Valid := by
  have hlookup := placed_lookup entry hbase hi hlt
  have hlast := h.last_lt
  constructor
  · simpa [HandleTable.count, placed] using hmin
  · simpa [HandleTable.count, placed] using hmax
  · change -1 ≤ max table.last (i : Int)
    omega
  · have hlen : (placed base (max table.last i) i entry).count = base.length := by
      simp [HandleTable.count, placed]
    rw [hlen]
    change max table.last (i : Int) < base.length
    omega
  · change ((i + 1 : Nat) : Int) ≤ max table.last (i : Int) + 1
    omega
  · intro j hj
    change (j : Int) ≤ max table.last (i : Int) at hj
    change (base.set i (.used entry))[j]? ≠ some .junk
    by_cases hji : j = i
    · subst hji
      simp [hlt]
    · rw [getElem?_set_ne (Ne.symm hji), hbase j (by omega)]
      exact h.written j (by omega)
  · intro k hk
    change k < i + 1 at hk
    rw [hlookup]
    by_cases hki : k = i
    · simp [hki]
    · rw [update_of_ne hki]
      exact hused k (by omega)

end Placed

variable {entries : List (Cell Obj)}

lemma takeEntry_eq {last : Int} {free i : Nat} (hi : i < entries.length) (entry : HandleEntry Obj) :
    takeEntry ⟨entries, last, free⟩ i entry =
      .ok (placed entries last i entry, indexToHandle i) := by
  have hlt : (0 : Int) ≤ i ∧ (i : Int) < entries.length := by omega
  unfold takeEntry writeCell HandleTable.count
  rw [if_pos hlt, Int.toNat_natCast]
  rfl

lemma growHandleTable_spec (h : table.Valid) {memOk : Bool} {grown : HandleTable Obj}
    (hgrow : growHandleTable memOk table = some grown) :
    (∀ j, j < table.count → grown.entries[j]? = table.entries[j]?) ∧
      minHandleEntries ≤ grown.entries.length ∧ grown.entries.length ≤ maxHandleEntries ∧
      table.count < grown.entries.length := by
  have hmin := h.min_count
  have hmax := h.count_max
  unfold growHandleTable at hgrow
  dsimp only at hgrow
  split at hgrow
  · cases hgrow
  injection hgrow with hgrow
  subst hgrow
  have hlen : (table.entries ++ List.replicate
      (min (table.count * 2) maxHandleEntries - table.count) (Cell.junk : Cell Obj)).length =
      min (table.count * 2) maxHandleEntries := by
    rw [length_append, length_replicate]
    change table.count + _ = _
    omega
  refine ⟨?_, ?_, ?_, ?_⟩
  · intro j hj
    exact getElem?_append_left hj
  · rw [hlen]
    omega
  · rw [hlen]
    omega
  · rw [hlen]
    omega

/-- An allocation changes nothing and returns 0, or fills a free cell and returns its handle. -/
theorem allocEntry_spec (h : table.Valid) (memOk : Bool) (obj : Obj) (access : AccessMask) :
    allocEntry memOk table obj access = .ok (table, 0) ∨
      ∃ (i : Nat) (table' : HandleTable Obj),
        allocEntry memOk table obj access = .ok (table', indexToHandle i) ∧
        i < maxHandleEntries ∧ table.lookup i = none ∧ table'.Valid ∧
        table'.lookup = update table.lookup i (some ⟨obj, access⟩) := by
  have hlast := h.last_lt
  have hfree := h.free_le
  have hmin := h.min_count
  have hmax := h.count_max
  obtain ⟨i, hscan, hle, hi, hnone, hbelow⟩ := scanFree_spec h
    (table.last + 1 - table.free).toNat table.free (by omega)
  have hused : ∀ k < i, (table.lookup k).isSome := by
    intro k hk
    by_cases hkf : k < table.free
    · exact h.below_free k hkf
    · exact hbelow k (by omega) hk
  unfold allocEntry
  rw [hscan]
  dsimp only
  by_cases hin : (i : Int) ≤ table.last
  · -- a free cell below `last`
    have hmaxlast : max table.last (i : Int) = table.last := by omega
    have hlt : i < table.entries.length := by
      change table.last < table.entries.length at hlast
      omega
    have hvalid := placed_valid h ⟨obj, access⟩ (fun _ _ => rfl) hi hlt hmin hmax
      (Nat.le_refl _) hused
    have hlookup := @placed_lookup _ table _ _ ⟨obj, access⟩ (fun _ _ => rfl) hi hlt
    rw [hmaxlast] at hvalid hlookup
    have htake := @takeEntry_eq _ table.entries table.last table.free i hlt ⟨obj, access⟩
    rw [if_pos hin, htake]
    exact .inr ⟨i, _, rfl, by omega, hnone, hvalid, hlookup⟩
  · have hmaxlast : max table.last (i : Int) = i := by omega
    rw [if_neg hin]
    by_cases hfull : table.count ≤ i
    · rw [if_pos hfull]
      cases hgrow : growHandleTable memOk table with
      | none => exact .inl rfl
      | some grown =>
        obtain ⟨hbase, hmin', hmax', hmore⟩ := growHandleTable_spec h hgrow
        have hblock : i < grown.entries.length := by omega
        have hagree : ∀ j : Nat, (j : Int) ≤ table.last → grown.entries[j]? = table.entries[j]? :=
          fun j hj => hbase j (by omega)
        have hvalid := placed_valid h ⟨obj, access⟩ hagree hi hblock hmin' hmax' (by omega) hused
        have hlookup := placed_lookup ⟨obj, access⟩ hagree hi hblock
        rw [hmaxlast] at hvalid hlookup
        exact .inr ⟨i, _, takeEntry_eq hblock _, by omega, hnone, hvalid, hlookup⟩
    · -- the first cell behind `last`
      have hlt : i < table.entries.length := by
        change ¬table.entries.length ≤ i at hfull
        omega
      have hvalid := placed_valid h ⟨obj, access⟩ (fun _ _ => rfl) hi hlt hmin hmax
        (Nat.le_refl _) hused
      have hlookup := @placed_lookup _ table _ _ ⟨obj, access⟩ (fun _ _ => rfl) hi hlt
      rw [hmaxlast] at hvalid hlookup
      rw [if_neg hfull]
      exact .inr ⟨i, _, takeEntry_eq hlt _, by omega, hnone, hvalid, hlookup⟩

lemma trimLast_spec (h : table.Valid) (n : Nat) (hn : (n : Int) ≤ table.last + 1)
    (hnone : ∀ k, n ≤ k → table.lookup k = none) :
    ∃ used, trimLast table n = .ok used ∧ (used : Int) ≤ table.last + 1 ∧
      ∀ k, used ≤ k → table.lookup k = none := by
  induction n with
  | zero => exact ⟨0, rfl, hn, hnone⟩
  | succ n ih =>
    rw [trimLast, readPtr_eq h (by omega)]
    cases hentry : table.lookup n with
    | some entry => exact ⟨n + 1, rfl, hn, hnone⟩
    | none =>
      apply ih (by omega)
      intro k hk
      by_cases hkn : k = n
      · rw [hkn, hentry]
      · exact hnone k (by omega)

lemma trimmed_lookup {used free : Nat}
    (hused : (used : Int) ≤ table.last + 1) (hnone : ∀ k, used ≤ k → table.lookup k = none)
    (hentries : ∀ k < used, entries[k]? = table.entries[k]?) :
    HandleTable.lookup ⟨entries, (used : Int) - 1, free⟩ = table.lookup := by
  funext k
  by_cases hk : k < used
  · unfold HandleTable.lookup
    dsimp only
    rw [if_pos (by omega), if_pos (by omega), hentries k hk]
  · rw [hnone k (by omega), lookup_of_last_lt]
    change (used : Int) - 1 < k
    omega

lemma trimmed_valid (h : table.Valid) {used : Nat}
    (hused : (used : Int) ≤ table.last + 1) (hnone : ∀ k, used ≤ k → table.lookup k = none)
    (hentries : ∀ k < used, entries[k]? = table.entries[k]?)
    (hmin : minHandleEntries ≤ entries.length) (hmax : entries.length ≤ maxHandleEntries)
    (hroom : used ≤ entries.length) :
    HandleTable.Valid ⟨entries, (used : Int) - 1, table.free⟩ := by
  have hlookup := @trimmed_lookup _ table entries used table.free hused hnone hentries
  constructor
  · exact hmin
  · exact hmax
  · change -1 ≤ (used : Int) - 1
    omega
  · change (used : Int) - 1 < entries.length
    omega
  · change (table.free : Int) ≤ (used : Int) - 1 + 1
    by_contra hfree
    have hin := h.below_free used (by omega)
    rw [hnone used (Nat.le_refl used)] at hin
    cases hin
  · intro k hk
    change (k : Int) ≤ (used : Int) - 1 at hk
    rw [hentries k (by omega)]
    exact h.written k (by omega)
  · rw [hlookup]
    exact h.below_free

/-- Shrinking keeps every entry. -/
theorem shrinkHandleTable_spec (h : table.Valid) (memOk : Bool) :
    ∃ table', shrinkHandleTable memOk table = .ok table' ∧ table'.Valid ∧
      table'.lookup = table.lookup := by
  have hge := h.last_ge
  have hlast := h.last_lt
  have hmin := h.min_count
  have hmax := h.count_max
  unfold HandleTable.count at hlast hmin hmax
  obtain ⟨used, htrim, hused, hnone⟩ := trimLast_spec h (table.last + 1).toNat (by omega)
    (fun k hk => lookup_of_last_lt (by omega))
  have hsame : ∀ k < used, table.entries[k]? = table.entries[k]? := fun _ _ => rfl
  have hkept := trimmed_valid h hused hnone hsame hmin hmax (by omega)
  have hlookup := @trimmed_lookup _ table table.entries used table.free hused hnone hsame
  unfold shrinkHandleTable
  rw [htrim]
  dsimp only
  split
  · exact ⟨_, rfl, hkept, hlookup⟩
  rename_i hsmall
  split
  · exact ⟨_, rfl, hkept, hlookup⟩
  rename_i hlarge
  split
  · exact ⟨_, rfl, hkept, hlookup⟩
  -- the lower half holds everything up to the new `last`
  unfold HandleTable.count at hsmall hlarge
  dsimp only at hsmall hlarge
  have hhalf : ∀ k < used,
      (table.entries.take (table.entries.length / 2))[k]? = table.entries[k]? := by
    intro k hk
    rw [getElem?_take_of_lt (by omega)]
  have hlen : (table.entries.take (table.entries.length / 2)).length =
      table.entries.length / 2 := by
    rw [length_take]
    omega
  unfold minHandleEntries at hlarge hmin
  have hvalid := trimmed_valid h hused hnone hhalf
    (by rw [hlen]; unfold minHandleEntries; omega) (by rw [hlen]; omega)
    (by rw [hlen]; omega)
  exact ⟨_, rfl, hvalid, trimmed_lookup hused hnone hhalf⟩

lemma set_lookup (hlt : i < table.entries.length) (hi : (i : Int) ≤ table.last)
    (cell : Cell Obj) (free : Nat) :
    HandleTable.lookup ⟨table.entries.set i cell, table.last, free⟩ = update table.lookup i
        (match cell with
          | .used entry => some entry
          | _ => none) := by
  funext j
  unfold HandleTable.lookup
  by_cases hji : j = i
  · subst hji
    rw [update_self, if_pos hi, getElem?_set_self hlt]
    cases cell <;> rfl
  · rw [update_of_ne hji, getElem?_set_ne (Ne.symm hji)]

lemma set_valid (h : table.Valid) (hlt : i < table.entries.length)
    (hi : (i : Int) ≤ table.last) {cell : Cell Obj} (hcell : cell ≠ .junk) {free : Nat}
    (hfree : free ≤ table.free) (hin : i < free → cell ≠ .empty) :
    HandleTable.Valid ⟨table.entries.set i cell, table.last, free⟩ := by
  have hlookup := set_lookup hlt hi cell free
  have hle := h.free_le
  constructor
  · simpa [HandleTable.count] using h.min_count
  · simpa [HandleTable.count] using h.count_max
  · exact h.last_ge
  · simpa [HandleTable.count] using h.last_lt
  · change (free : Int) ≤ table.last + 1
    omega
  · intro j hj
    by_cases hji : j = i
    · subst hji
      rw [getElem?_set_self hlt]
      simpa using hcell
    · rw [getElem?_set_ne (Ne.symm hji)]
      exact h.written j hj
  · intro k hk
    change k < free at hk
    rw [hlookup]
    by_cases hki : k = i
    · subst hki
      rw [update_self]
      cases cell with
      | junk => exact absurd rfl hcell
      | empty => exact absurd rfl (hin hk)
      | used entry => rfl
    · rw [update_of_ne hki]
      exact h.below_free k (by omega)

lemma writeCell_eq (hlt : i < table.entries.length) (cell : Cell Obj) :
    writeCell table i cell = .ok { table with entries := table.entries.set i cell } := by
  have hin : (0 : Int) ≤ i ∧ (i : Int) < table.count := by
    unfold HandleTable.count
    omega
  rw [writeCell, if_pos hin, Int.toNat_natCast]

end WineForge.Handles
