import Mathlib.Data.Nat.Bitwise
import WineForge.Handles.State

/-!
# Handle tables as maps

The abstract tables are one partial map from slots, a table and an index, to entries. Every
operation changes that map at one slot, except that a copied table is filled and a closed one is
emptied as a whole.
-/

namespace WineForge.Handles

open BitVec Bool Function

variable {Pid Obj : Type*}

abbrev Slot (Pid : Type*) := Option Pid × Nat

def slotOf (process : Pid) (handle : Handle) : Option (Slot Pid) :=
  let ref := if handleIsGlobal handle then none else some process
  let handle := if handleIsGlobal handle then handleGlobalToLocal handle else handle
  if handle.toNat < 4 then none else some (ref, handle.toNat / 4 - 1)

/-- The handle that an allocation in slot `(ref, i)` returns. -/
def handleOf : Slot Pid → Handle
  | (none, i) => handleLocalToGlobal (indexToHandle i)
  | (some _, i) => indexToHandle i

def State.lookup (s : State Pid Obj) (slot : Slot Pid) : Option (HandleEntry Obj) :=
  (s.tableOf slot.1).bind fun table => table.lookup slot.2

def State.Valid (s : State Pid Obj) : Prop :=
  ∀ ref table, s.tableOf ref = some table → table.Valid

variable {i : Nat}

lemma toNat_indexToHandle (hi : i < maxHandleEntries) : (indexToHandle i).toNat = (i + 1) * 4 := by
  unfold maxHandleEntries at hi
  have hcast : BitVec.ofInt 32 ((i : Int) + 1) = BitVec.ofNat 32 (i + 1) := by
    rfl
  rw [indexToHandle, hcast, BitVec.toNat_shiftLeft, BitVec.toNat_ofNat, Nat.shiftLeft_eq]
  omega

lemma indexToHandle_ne_zero (hi : i < maxHandleEntries) : indexToHandle i ≠ 0 := by
  intro hzero
  have htoNat := toNat_indexToHandle hi
  rw [hzero] at htoNat
  simp at htoNat

lemma handleToIndex_eq (handle : Handle) : handleToIndex handle = (handle.toNat / 4 : Nat) - 1 := by
  rw [handleToIndex, BitVec.toNat_ushiftRight, Nat.shiftRight_eq_div_pow]

lemma toNat_xor_obfuscator (handle : Handle) (h : handle.toNat < 2 ^ 26) :
    21 * 2 ^ 26 ≤ (handle ^^^ handleObfuscator).toNat := by
  have hdiv : (handle ^^^ handleObfuscator).toNat / 2 ^ 26 = 21 := by
    rw [BitVec.toNat_xor, Nat.xor_div_two_pow, Nat.div_eq_of_lt h, Nat.zero_xor]
    decide
  omega

lemma indexToHandle_local (hi : i < maxHandleEntries) :
    handleIsGlobal (indexToHandle i) = false := by
  have htoNat := toNat_indexToHandle hi
  unfold maxHandleEntries at hi
  have hfar := toNat_xor_obfuscator (indexToHandle i) (by omega)
  unfold handleIsGlobal maxHandleEntries
  rw [decide_eq_false_iff_not]
  omega

lemma handleGlobalToLocal_toGlobal (hi : i < maxHandleEntries) :
    handleGlobalToLocal (handleLocalToGlobal (indexToHandle i)) = indexToHandle i := by
  rw [handleLocalToGlobal, if_neg (indexToHandle_ne_zero hi), handleGlobalToLocal,
    BitVec.xor_assoc, BitVec.xor_self, BitVec.xor_zero]

lemma handleLocalToGlobal_global (hi : i < maxHandleEntries) :
    handleIsGlobal (handleLocalToGlobal (indexToHandle i)) = true := by
  have hlocal := handleGlobalToLocal_toGlobal hi
  have htoNat := toNat_indexToHandle hi
  unfold handleGlobalToLocal at hlocal
  unfold handleIsGlobal
  rw [hlocal, htoNat, decide_eq_true_iff]
  omega

variable {slot : Slot Pid}

/-- A handle that was returned for a slot names that slot again. -/
theorem slotOf_handleOf (hi : slot.2 < maxHandleEntries) {process : Pid}
    (hprocess : slot.1 = none ∨ slot.1 = some process) :
    slotOf process (handleOf slot) = some slot := by
  have htoNat := toNat_indexToHandle hi
  obtain ⟨_ | p, i⟩ := slot
  · unfold slotOf handleOf
    simp only [handleLocalToGlobal_global hi, handleGlobalToLocal_toGlobal hi, if_true]
    dsimp only at htoNat
    rw [if_neg (by omega), htoNat]
    congr 2
    omega
  have hp : p = process := by simpa using hprocess
  unfold slotOf handleOf
  simp only [indexToHandle_local hi, false_eq_true, if_false]
  dsimp only at htoNat
  rw [if_neg (by omega), htoNat, hp]
  congr 2
  omega

lemma handleOf_ne_zero (hi : slot.2 < maxHandleEntries) : handleOf slot ≠ 0 := by
  obtain ⟨_ | p, i⟩ := slot
  · intro hzero
    have hlocal := handleGlobalToLocal_toGlobal hi
    have htoNat := toNat_indexToHandle hi
    change handleLocalToGlobal (indexToHandle i) = 0 at hzero
    rw [hzero] at hlocal
    rw [← hlocal] at htoNat
    have hobf : (handleGlobalToLocal 0).toNat = 0x544a4def := by decide
    omega
  · exact indexToHandle_ne_zero hi

variable {handle : Handle}

lemma handleToIndex_global (h : handleIsGlobal handle = true) :
    (maxHandleEntries : Int) ≤ handleToIndex handle := by
  unfold handleIsGlobal maxHandleEntries at h
  rw [decide_eq_true_iff] at h
  have hfar := toNat_xor_obfuscator (handle ^^^ handleObfuscator) (by omega)
  rw [BitVec.xor_assoc, BitVec.xor_self, BitVec.xor_zero] at hfar
  rw [handleToIndex_eq]
  unfold maxHandleEntries
  omega

/-- What `get_handle` finds is the entry of the slot. -/
theorem getHandle_eq {s : State Pid Obj} (hs : s.Valid) (process : Pid) (handle : Handle) :
    getHandle s process handle = .ok ((slotOf process handle).bind fun slot =>
        (s.lookup slot).map fun entry => ⟨slot.1, slot.2, entry⟩) := by
  unfold getHandle slotOf State.lookup
  dsimp only
  generalize hlocal : (if handleIsGlobal handle = true then handleGlobalToLocal handle
    else handle) = localHandle
  generalize href : (if handleIsGlobal handle = true then none else some process) = ref
  rw [handleToIndex_eq]
  cases htable : s.tableOf ref with
  | none => by_cases hsmall : localHandle.toNat < 4 <;> simp [hsmall, htable]
  | some table =>
    dsimp only
    by_cases hsmall : localHandle.toNat < 4
    · rw [if_pos (by omega), if_pos hsmall]
      rfl
    have hindex : ((localHandle.toNat / 4 : Nat) : Int) - 1 =
        (localHandle.toNat / 4 - 1 : Nat) := by omega
    rw [if_neg (by omega), if_neg hsmall, hindex]
    by_cases hlast : ((localHandle.toNat / 4 - 1 : Nat) : Int) > table.last
    · simp [if_pos hlast, htable, lookup_of_last_lt hlast]
    · rw [if_neg hlast, readPtr_eq (hs ref table htable) (by omega)]
      cases hentry : table.lookup (localHandle.toNat / 4 - 1) <;> simp [htable, hentry]

lemma slotOf_local {process : Pid} (hlocal : handleIsGlobal handle = false)
    (h : slotOf process handle = some slot) :
    handleToIndex handle = slot.2 ∧ slot.1 = some process := by
  unfold slotOf at h
  simp only [hlocal, false_eq_true, if_false] at h
  split at h
  · cases h
  injection h with h
  rw [handleToIndex_eq, ← h]
  refine ⟨?_, rfl⟩
  omega

lemma slotOf_global {process : Pid} (hglobal : handleIsGlobal handle = true)
    (h : slotOf process handle = some slot) : slot.1 = none := by
  unfold slotOf at h
  simp only [hglobal, if_true] at h
  split at h
  · cases h
  · injection h with h
    rw [← h]

lemma slotOf_bind_eq_some {s : State Pid Obj} {process : Pid}
    {found : Found Pid Obj}
    (h : ((slotOf process handle).bind fun slot =>
      (s.lookup slot).map fun entry => (⟨slot.1, slot.2, entry⟩ : Found Pid Obj)) = some found) :
    ∃ slot, slotOf process handle = some slot ∧ found.table = slot.1 ∧ found.index = slot.2 ∧
      s.lookup slot = some found.entry := by
  obtain ⟨slot, hslot, hmap⟩ := Option.bind_eq_some_iff.mp h
  obtain ⟨entry, hentry, rfl⟩ := Option.map_eq_some_iff.mp hmap
  exact ⟨slot, hslot, rfl, rfl, hentry⟩

lemma lookup_cell {s : State Pid Obj} (hs : s.Valid) {entry : HandleEntry Obj}
    (h : s.lookup slot = some entry) :
    ∃ table, s.tableOf slot.1 = some table ∧ table.Valid ∧ slot.2 < table.entries.length ∧
      (slot.2 : Int) ≤ table.last ∧ table.lookup slot.2 = some entry := by
  obtain ⟨table, htable, hentry⟩ := Option.bind_eq_some_iff.mp h
  have hvalid := hs _ _ htable
  have hsome : (table.lookup slot.2).isSome := by simp [hentry]
  obtain ⟨hlt, hlast⟩ := lookup_lt_count hvalid hsome
  exact ⟨table, htable, hvalid, hlt, hlast, hentry⟩

abbrev Lookup (Pid Obj : Type*) := Slot Pid → Option (HandleEntry Obj)

def SameRights (a b : AccessMask) : Prop := a &&& ~~~reservedAll = b &&& ~~~reservedAll

variable {table : HandleTable Obj} {ref : Option Pid}

lemma tableOf_lookup {s : State Pid Obj}
    (h : s.tableOf ref = some table) : table.lookup = fun j => s.lookup (ref, j) := by
  funext j
  simp [State.lookup, h]

variable {env : Env Obj}

lemma duplicateSource_found {s : State Pid Obj} (hs : s.Valid) {src : Pid}
    {srcHandle : Handle} :
    ∃ found, getHandle s src srcHandle = .ok found ∧
      (duplicateSource env s src srcHandle = .ok none ∨
        ∃ obj, duplicateSource env s src srcHandle = .ok (some (obj, found))) := by
  have hget := getHandle_eq hs src srcHandle
  refine ⟨_, hget, ?_⟩
  unfold duplicateSource
  rw [hget]
  cases getMagicHandle env srcHandle with
  | some obj => exact .inr ⟨obj, rfl⟩
  | none =>
    cases (slotOf src srcHandle).bind fun slot =>
        (s.lookup slot).map fun entry => (⟨slot.1, slot.2, entry⟩ : Found Pid Obj) with
    | none => exact .inl rfl
    | some found => exact .inr ⟨found.entry.ptr, rfl⟩

variable {obj : Obj}

lemma duplicateCheck_error {dst : Option Pid} {access : AccessMask}
    {fault : Fault} (h : duplicateCheck env obj dst access = .error fault) : fault = .aborted := by
  unfold duplicateCheck at h
  split at h
  · cases h
  cases dst with
  | none =>
    injection h with h
    exact h.symm
  | some p => cases h

variable [DecidableEq Pid]

/-- A free slot of the table `ref` was filled, and `handle` names it. -/
def Allocated (L L' : Lookup Pid Obj) (ref : Option Pid) (handle : Handle) (obj : Obj)
    (access : AccessMask) : Prop :=
  ∃ i stored, handle = handleOf (ref, i) ∧ i < maxHandleEntries ∧ L (ref, i) = none ∧
    SameRights stored access ∧ L' = update L (ref, i) (some ⟨obj, stored⟩)

@[simp] lemma setTable_tableOf (s : State Pid Obj) (table : HandleTable Obj) (ref : Option Pid)
    (ref' : Option Pid) :
    (s.setTable table ref).tableOf ref' = if ref' = ref then some table else s.tableOf ref' := by
  cases ref with
  | none => cases ref' <;> simp [State.setTable, State.tableOf]
  | some p =>
    cases ref' with
    | none => simp [State.setTable, State.tableOf]
    | some p' =>
      by_cases hp : p' = p
      · simp [State.setTable, State.tableOf, hp]
      · simp [State.setTable, State.tableOf, hp]

lemma setTable_valid {s : State Pid Obj} (hs : s.Valid)
    (htable : table.Valid) (ref : Option Pid) : (s.setTable table ref).Valid := by
  intro ref' table' h
  rw [setTable_tableOf] at h
  split at h
  · injection h with h
    exact h ▸ htable
  · exact hs ref' table' h

lemma setTable_lookup (s : State Pid Obj) (table : HandleTable Obj) (ref : Option Pid)
    (slot : Slot Pid) :
    (s.setTable table ref).lookup slot =
      if slot.1 = ref then table.lookup slot.2 else s.lookup slot := by
  unfold State.lookup
  rw [setTable_tableOf]
  split <;> rfl

lemma setTable_update {s : State Pid Obj}
    {entry : Option (HandleEntry Obj)}
    (h : table.lookup = update (fun j => s.lookup (ref, j)) i entry) :
    (s.setTable table ref).lookup = update s.lookup (ref, i) entry := by
  funext slot
  obtain ⟨ref', j⟩ := slot
  rw [setTable_lookup, h]
  by_cases href : ref' = ref
  · subst href
    rw [if_pos rfl]
    by_cases hj : j = i
    · subst hj
      rw [update_self, update_self]
    have hne : ((ref', j) : Slot Pid) ≠ (ref', i) := by
      intro heq
      exact hj (congrArg Prod.snd heq)
    rw [update_of_ne hj, update_of_ne hne]
  have hne : ((ref', j) : Slot Pid) ≠ (ref, i) := by
    intro heq
    exact href (congrArg Prod.fst heq)
  rw [if_neg href, update_of_ne hne]

lemma setTable_same {s : State Pid Obj} (h : table.lookup = fun j => s.lookup (ref, j)) :
    (s.setTable table ref).lookup = s.lookup := by
  funext slot
  rw [setTable_lookup, h]
  obtain ⟨ref', j⟩ := slot
  dsimp only
  split
  · rename_i href
    rw [href]
  · rfl

lemma allocHandleTable_lookup (count i : Nat) :
    (allocHandleTable count : HandleTable Obj).lookup i = none :=
  lookup_of_last_lt (by change (-1 : Int) < i; omega)

lemma allocHandleTable_valid {count : Nat} (h : count ≤ maxHandleEntries) :
    (allocHandleTable count : HandleTable Obj).Valid := by
  have hcount : (allocHandleTable count : HandleTable Obj).count = max count minHandleEntries := by
    simp [HandleTable.count, allocHandleTable]
  unfold maxHandleEntries minHandleEntries at *
  constructor
  · unfold minHandleEntries
    omega
  · unfold maxHandleEntries
    omega
  · exact Int.le_refl (-1)
  · change (-1 : Int) < _
    omega
  · exact Int.le_refl 0
  · intro i hi
    change (i : Int) ≤ -1 at hi
    omega
  · intro i hi
    change i < 0 at hi
    omega

/-- How an allocation ends: nothing is changed and 0 returned, or a slot is filled. -/
structure AllocOutcome (s : State Pid Obj) (ref : Option Pid) (obj : Obj) (access : AccessMask)
    (s' : State Pid Obj) (handle : Handle) : Prop where
  valid : s'.Valid
  outcome : (handle = 0 ∧ s'.lookup = s.lookup) ∨
    Allocated s.lookup s'.lookup ref handle obj access

lemma AllocOutcome.failed {s : State Pid Obj} (hs : s.Valid) (ref : Option Pid) (obj : Obj)
    (access : AccessMask) : AllocOutcome s ref obj access s 0 := ⟨hs, .inl ⟨rfl, rfl⟩⟩

lemma allocIn_spec {s : State Pid Obj} (hs : s.Valid)
    (htable : table.Valid) (hlookup : table.lookup = fun j => s.lookup (ref, j))
    (env : Env Obj) (obj : Obj) (access : AccessMask) :
    ∃ s' handle, allocIn env s ref table obj access = .ok (s', handle) ∧ s'.Valid ∧
      ((handle = 0 ∧ s'.lookup = s.lookup) ∨
        ∃ i : Nat, handle = indexToHandle i ∧ i < maxHandleEntries ∧ s.lookup (ref, i) = none ∧
          s'.lookup = update s.lookup (ref, i) (some ⟨obj, access⟩)) := by
  unfold allocIn
  obtain hfail | ⟨i, table', halloc, hi, hnone, hvalid, hupdate⟩ :=
    allocEntry_spec htable env.reallocOk obj access
  · rw [hfail]
    exact ⟨_, _, rfl, setTable_valid hs htable ref, .inl ⟨rfl, setTable_same hlookup⟩⟩
  rw [halloc]
  rw [hlookup] at hnone hupdate
  exact ⟨_, _, rfl, setTable_valid hs hvalid ref,
    .inr ⟨i, rfl, hi, hnone, setTable_update hupdate⟩⟩

lemma SameRights.inherit (access : AccessMask) (attr : BitVec 32) :
    SameRights (if attr &&& objInherit ≠ 0 then access ||| reservedInherit else access) access := by
  unfold SameRights
  split
  · have hzero : reservedInherit &&& ~~~reservedAll = 0#32 := by decide
    rw [BitVec.and_or_distrib_right, hzero, BitVec.or_zero]
  · rfl

lemma allocHandleEntry_spec {s : State Pid Obj} (hs : s.Valid) (env : Env Obj) (process : Pid)
    (obj : Obj) (access : AccessMask) (attr : BitVec 32) :
    allocHandleEntry env s process obj access attr = .error .aborted ∨
      ∃ s' handle, allocHandleEntry env s process obj access attr = .ok (s', handle) ∧
        AllocOutcome s (some process) obj access s' handle := by
  unfold allocHandleEntry
  split
  · exact .inl rfl
  right
  cases htable : s.handles process with
  | none => exact ⟨s, 0, rfl, .failed hs _ obj access⟩
  | some table =>
    have htable' : s.tableOf (some process) = some table := htable
    obtain ⟨s', handle, halloc, hvalid, hout⟩ := allocIn_spec hs (hs _ table htable')
      (tableOf_lookup htable') env obj
      (if attr &&& objInherit ≠ 0 then access ||| reservedInherit else access)
    refine ⟨s', handle, halloc, hvalid, ?_⟩
    obtain hfail | ⟨i, hhandle, hi, hnone, hupdate⟩ := hout
    · exact .inl hfail
    · exact .inr ⟨i, _, hhandle, hi, hnone, .inherit access attr, hupdate⟩

/-- Both branches of the next allocate in a table that agrees with the state. -/
lemma globalAllocIn_spec {s : State Pid Obj} (hs : s.Valid) (env : Env Obj) (obj : Obj)
    (access : AccessMask) {table : HandleTable Obj} (htable : table.Valid)
    (hlookup : table.lookup = fun j => s.lookup (none, j)) :
    ∃ s' handle, (match allocIn env s none table obj access with
      | .error fault => .error fault
      | .ok (s, handle) => .ok (s, handleLocalToGlobal handle)) =
        (.ok (s', handle) : Except Fault (State Pid Obj × Handle)) ∧
      AllocOutcome s none obj access s' handle := by
  obtain ⟨s', handle, halloc, hvalid, hout⟩ := allocIn_spec hs htable hlookup env obj access
  rw [halloc]
  refine ⟨s', _, rfl, hvalid, ?_⟩
  obtain ⟨hzero, hsame⟩ | ⟨i, hhandle, hi, hnone, hupdate⟩ := hout
  · exact .inl ⟨by rw [hzero]; rfl, hsame⟩
  · exact .inr ⟨i, access, by rw [hhandle]; rfl, hi, hnone, rfl, hupdate⟩

lemma allocGlobalHandleNoAccessCheck_spec {s : State Pid Obj} (hs : s.Valid) (env : Env Obj)
    (obj : Obj) (access : AccessMask) :
    ∃ s' handle, allocGlobalHandleNoAccessCheck env s obj access = .ok (s', handle) ∧
      AllocOutcome s none obj access s' handle := by
  unfold allocGlobalHandleNoAccessCheck
  cases htable : s.globalTable with
  | some table =>
    have htable' : s.tableOf none = some table := htable
    exact globalAllocIn_spec hs env obj access (hs none table htable') (tableOf_lookup htable')
  | none =>
    dsimp only
    split
    · apply globalAllocIn_spec hs env obj access (allocHandleTable_valid (Nat.zero_le _))
      funext j
      rw [allocHandleTable_lookup]
      simp [State.lookup, State.tableOf, htable]
    · exact ⟨s, 0, rfl, .failed hs none obj access⟩

lemma writeAccess_spec {s : State Pid Obj} (hs : s.Valid) {found : Found Pid Obj} (htable : found.table = slot.1) (hindex : found.index = slot.2)
    (hentry : s.lookup slot = some found.entry) (access : AccessMask) :
    ∃ s', writeAccess s found access = .ok s' ∧ s'.Valid ∧
      s'.lookup = update s.lookup slot (some ⟨found.entry.ptr, access⟩) := by
  obtain ⟨table, hslot, hvalid, hlt, hlast, _⟩ := lookup_cell hs hentry
  have hcell := set_lookup hlt hlast (.used ⟨found.entry.ptr, access⟩) table.free
  have hvalid' : HandleTable.Valid ⟨table.entries.set slot.2 (.used ⟨found.entry.ptr, access⟩),
      table.last, table.free⟩ :=
    set_valid hvalid hlt hlast (by simp) (le_refl _) (by simp)
  rw [tableOf_lookup hslot] at hcell
  unfold writeAccess
  rw [htable, hslot, hindex]
  dsimp only
  rw [writeCell_eq hlt]
  exact ⟨_, rfl, setTable_valid hs hvalid' _, setTable_update hcell⟩

/-- How a change of the flags ends. -/
structure FlagsOutcome (s : State Pid Obj) (process : Pid) (handle : Handle)
    (s' : State Pid Obj) : Prop where
  valid : s'.Valid
  outcome : s'.lookup = s.lookup ∨
    ∃ slot entry stored, slotOf process handle = some slot ∧ s.lookup slot = some entry ∧
      SameRights stored entry.access ∧
      s'.lookup = update s.lookup slot (some ⟨entry.ptr, stored⟩)

lemma SameRights.changedFlags (access : AccessMask) (mask flags : BitVec 32) :
    SameRights (changedFlags access mask flags) access := by
  unfold SameRights Handles.changedFlags
  ext i hi
  simp only [getElem_and, getElem_or, getElem_not]
  cases reservedAll[i] <;> simp

lemma setHandleFlags_spec {s : State Pid Obj} (hs : s.Valid) (env : Env Obj) (process : Pid)
    (handle : Handle) (mask flags : BitVec 32) :
    ∃ s' old, setHandleFlags env s process handle mask flags = .ok (s', old) ∧
      FlagsOutcome s process handle s' := by
  unfold setHandleFlags
  cases getMagicHandle env handle with
  | some obj => exact ⟨s, 0, rfl, hs, .inl rfl⟩
  | none =>
    rw [getHandle_eq hs]
    cases hfound : (slotOf process handle).bind fun slot =>
        (s.lookup slot).map fun entry => (⟨slot.1, slot.2, entry⟩ : Found Pid Obj) with
    | none => exact ⟨s, -1, rfl, hs, .inl rfl⟩
    | some found =>
      obtain ⟨slot, hslot, htable, hindex, hentry⟩ := slotOf_bind_eq_some hfound
      obtain ⟨s', hwrite, hvalid, hupdate⟩ :=
        writeAccess_spec hs htable hindex hentry (changedFlags found.entry.access mask flags)
      dsimp only
      rw [hwrite]
      exact ⟨s', _, rfl, hvalid, .inr ⟨slot, found.entry, _, hslot, hentry,
        .changedFlags _ mask flags, hupdate⟩⟩

lemma closeCell_spec (hvalid : table.Valid)
    (hlt : i < table.entries.length) (hlast : (i : Int) ≤ table.last) :
    HandleTable.Valid ⟨table.entries.set i .empty, table.last, min i table.free⟩ ∧
      HandleTable.lookup ⟨table.entries.set i .empty, table.last, min i table.free⟩ =
        update table.lookup i none := by
  refine ⟨set_valid hvalid hlt hlast (by simp) (min_le_right _ _) ?_, ?_⟩
  · intro hi
    omega
  · exact set_lookup hlt hlast .empty _

lemma closeHandle_local {s : State Pid Obj} (hs : s.Valid) (env : Env Obj) (process : Pid) (hlocal : handleIsGlobal handle = false)
    {entry : HandleEntry Obj} (hslot : slotOf process handle = some slot)
    (hentry : s.lookup slot = some entry) (hprotect : entry.access &&& reservedCloseProtect = 0)
    (hallowed : env.closeAllowed = true) :
    ∃ s', closeHandle env s process handle = .ok (s', .success) ∧ s'.Valid ∧
      s'.lookup = update s.lookup slot none := by
  obtain ⟨table, htable, hvalid, hlt, hlast, _⟩ := lookup_cell hs hentry
  obtain ⟨hclosed, hcleared⟩ := closeCell_spec hvalid hlt hlast
  rw [tableOf_lookup htable] at hcleared
  obtain ⟨hindex, href⟩ := slotOf_local hlocal hslot
  have hfree : (if ((slot.2 : Nat) : Int) < (table.free : Nat) then
      ({ entries := table.entries.set slot.2 .empty, last := table.last, free := slot.2 } :
        HandleTable Obj)
      else ⟨table.entries.set slot.2 .empty, table.last, table.free⟩) =
      ⟨table.entries.set slot.2 .empty, table.last, min slot.2 table.free⟩ := by
    split
    · rw [min_eq_left (by omega)]
    · rw [min_eq_right (by omega)]
  unfold closeHandle
  rw [getHandle_eq hs, hslot]
  rw [href] at htable hcleared
  simp only [Option.bind_some, hentry, Option.map_some, hprotect, ne_eq, not_true_eq_false,
    if_false, hallowed, true_eq_false, hlocal, false_eq_true, htable, hindex,
    writeCell_eq hlt, Int.toNat_natCast, hfree]
  split
  · obtain ⟨table', hshrink, hvalid', hsame⟩ := shrinkHandleTable_spec hclosed env.reallocOk
    rw [hshrink]
    refine ⟨_, rfl, setTable_valid hs hvalid' _, ?_⟩
    have hslot' : slot = (some process, slot.2) := by rw [← href]
    rw [hslot']
    exact setTable_update (hsame.trans hcleared)
  refine ⟨_, rfl, setTable_valid hs hclosed _, ?_⟩
  have hslot' : slot = (some process, slot.2) := by rw [← href]
  rw [hslot']
  exact setTable_update hcleared

def Closes (s : State Pid Obj) (env : Env Obj) (process : Pid) (handle : Handle) : Prop :=
  ∃ found, getHandle s process handle = .ok (some found) ∧
    found.entry.access &&& reservedCloseProtect = 0 ∧ env.closeAllowed = true

lemma closeHandle_refused {s : State Pid Obj} (hs : s.Valid) {process : Pid} (h : ¬Closes s env process handle) :
    ∃ status, closeHandle env s process handle = .ok (s, status) ∧ status ≠ .success := by
  unfold closeHandle
  rw [getHandle_eq hs]
  cases hfound : (slotOf process handle).bind fun slot =>
      (s.lookup slot).map fun entry => (⟨slot.1, slot.2, entry⟩ : Found Pid Obj) with
  | none => exact ⟨_, rfl, by decide⟩
  | some found =>
    dsimp only
    by_cases hprotect : found.entry.access &&& reservedCloseProtect = 0
    · rw [if_neg (by simpa using hprotect)]
      have hveto : env.closeAllowed = false := by
        by_contra hallowed
        apply h
        refine ⟨found, ?_, hprotect, by simpa using hallowed⟩
        rw [getHandle_eq hs, hfound]
      rw [if_pos hveto]
      exact ⟨_, rfl, by decide⟩
    · rw [if_pos hprotect]
      exact ⟨_, rfl, by decide⟩

lemma writeCell_far (h : table.Valid) {i : Int}
    (hi : (maxHandleEntries : Int) ≤ i) (cell : Cell Obj) :
    writeCell table i cell = .error .outOfBounds := by
  have hmax := h.count_max
  rw [writeCell, if_neg (by omega)]

lemma closeHandle_global {s : State Pid Obj} (hs : s.Valid) {process : Pid} (hglobal : handleIsGlobal handle = true) (h : Closes s env process handle) :
    closeHandle env s process handle = .error .outOfBounds := by
  obtain ⟨found, hfound, hprotect, hallowed⟩ := h
  have hslot := hfound
  rw [getHandle_eq hs] at hslot
  injection hslot with hslot
  obtain ⟨slot, hslot, _, _, hentry⟩ := slotOf_bind_eq_some hslot
  obtain ⟨table, htable, hvalid, _⟩ := lookup_cell hs hentry
  have href := slotOf_global hglobal hslot
  rw [href] at htable
  unfold closeHandle
  simp only [hfound, hprotect, ne_eq, not_true_eq_false, if_false, hallowed, true_eq_false,
    hglobal, if_true, htable, writeCell_far hvalid (handleToIndex_global hglobal)]

lemma closeHandle_closes {s : State Pid Obj} (hs : s.Valid) {process : Pid} (hlocal : handleIsGlobal handle = false) (h : Closes s env process handle) :
    ∃ s' slot, closeHandle env s process handle = .ok (s', .success) ∧ s'.Valid ∧
      slotOf process handle = some slot ∧ (s.lookup slot).isSome ∧
      s'.lookup = update s.lookup slot none := by
  obtain ⟨found, hfound, hprotect, hallowed⟩ := h
  rw [getHandle_eq hs] at hfound
  injection hfound with hfound
  obtain ⟨slot, hslot, _, _, hentry⟩ := slotOf_bind_eq_some hfound
  obtain ⟨s', hclose, hvalid, hupdate⟩ :=
    closeHandle_local hs env process hlocal hslot hentry hprotect hallowed
  exact ⟨s', slot, hclose, hvalid, hslot, by simp [hentry], hupdate⟩

def Source (env : Env Obj) (s : State Pid Obj) (src : Pid) (srcHandle : Handle) (obj : Obj)
    (found : Option (Found Pid Obj)) : Prop :=
  duplicateSource env s src srcHandle = .ok (some (obj, found))

def DuplicateGrants (env : Env Obj) (obj : Obj) (dst : Option Pid)
    (srcAccess wanted : AccessMask) (options : BitVec 32) (granted : AccessMask) : Prop :=
  if wanted &&& ~~~srcAccess = 0 then granted = wanted
  else
    ∃ checked, duplicateCheck env obj dst wanted = .ok (some checked) ∧
      if options &&& duplicateMakeGlobal = 0 then granted = uncheckedAccess env obj checked
      else if checked = 0 then granted = checked
      else env.checkObjectAccess .caller obj checked = some granted

def Reused (L L' : Lookup Pid Obj) (src : Pid) (srcHandle : Handle) (access : AccessMask) : Prop :=
  ∃ slot entry stored, slotOf src srcHandle = some slot ∧ L slot = some entry ∧
    SameRights stored access ∧ L' = update L slot (some ⟨entry.ptr, stored⟩)

/-- How the choice of the new handle ends. -/
structure DuplicateOutcome (env : Env Obj) (s : State Pid Obj) (src : Pid) (srcHandle : Handle)
    (dst : Option Pid) (obj : Obj) (srcAccess wanted : AccessMask) (options : BitVec 32)
    (s' : State Pid Obj) (handle : Handle) : Prop where
  valid : s'.Valid
  outcome : (handle = 0 ∧ s'.lookup = s.lookup) ∨
    ∃ granted, DuplicateGrants env obj dst srcAccess wanted options granted ∧
      (Allocated s.lookup s'.lookup
          (if options &&& duplicateMakeGlobal = 0 then dst else none) handle obj granted ∨
        (handle = srcHandle ∧ options &&& duplicateCloseSource ≠ 0 ∧ some src = dst ∧
          Reused s.lookup s'.lookup src srcHandle granted))

lemma AllocOutcome.duplicate {s s' : State Pid Obj} {src : Pid}
    {srcHandle handle : Handle} {dst ref : Option Pid}
    {srcAccess wanted granted : AccessMask} {options : BitVec 32}
    (h : AllocOutcome s ref obj granted s' handle)
    (hgrants : DuplicateGrants env obj dst srcAccess wanted options granted)
    (href : ref = if options &&& duplicateMakeGlobal = 0 then dst else none) :
    DuplicateOutcome env s src srcHandle dst obj srcAccess wanted options s' handle where
  valid := h.valid
  outcome := by
    obtain hfail | halloc := h.outcome
    · exact .inl hfail
    · exact .inr ⟨granted, hgrants, .inl (href ▸ halloc)⟩

lemma allocForDst_spec {s : State Pid Obj} (hs : s.Valid) {src : Pid}
    {srcHandle : Handle} {dst : Option Pid} {srcAccess wanted granted : AccessMask}
    {attr options : BitVec 32} (hlocal : options &&& duplicateMakeGlobal = 0)
    (hgrants : DuplicateGrants env obj dst srcAccess wanted options granted) :
    allocForDst dst (fun dst => allocHandleEntry env s dst obj granted attr) = .error .aborted ∨
      ∃ s' handle, allocForDst dst (fun dst => allocHandleEntry env s dst obj granted attr) =
          .ok (s', handle) ∧
        DuplicateOutcome env s src srcHandle dst obj srcAccess wanted options s' handle := by
  cases dst with
  | none => exact .inl rfl
  | some p =>
    obtain habort | ⟨s', handle, halloc, hout⟩ := allocHandleEntry_spec hs env p obj granted attr
    · exact .inl habort
    · exact .inr ⟨s', handle, halloc, hout.duplicate hgrants (by rw [if_pos hlocal])⟩

lemma duplicateEntry_spec {s : State Pid Obj} (hs : s.Valid) {src : Pid}
    {srcHandle : Handle} {found : Option (Found Pid Obj)}
    (hfound : getHandle s src srcHandle = .ok found) (dst : Option Pid) (obj : Obj)
    (srcAccess wanted : AccessMask) (attr options : BitVec 32) :
    duplicateEntry env s src srcHandle dst obj found srcAccess wanted attr options =
        .error .aborted ∨
      ∃ s' handle, duplicateEntry env s src srcHandle dst obj found srcAccess wanted attr options =
          .ok (s', handle) ∧
        DuplicateOutcome env s src srcHandle dst obj srcAccess wanted options s' handle := by
  unfold duplicateEntry
  by_cases hmore : wanted &&& ~~~srcAccess = 0
  · rw [if_neg (by simpa using hmore)]
    have hgrants : DuplicateGrants env obj dst srcAccess wanted options wanted := by
      unfold DuplicateGrants
      rw [if_pos hmore]
    by_cases hlocal : options &&& duplicateMakeGlobal = 0
    · rw [if_neg (by simpa using hlocal)]
      cases found with
      | none => exact allocForDst_spec hs hlocal hgrants
      | some found =>
        dsimp only
        split
        · -- the entry of the source is used again
          rename_i hreuse
          right
          rw [getHandle_eq hs] at hfound
          injection hfound with hfound
          obtain ⟨slot, hslot, htable, hindex, hentry⟩ := slotOf_bind_eq_some hfound
          obtain ⟨s', hwrite, hvalid, hupdate⟩ := writeAccess_spec hs htable hindex hentry
            (if attr &&& objInherit ≠ 0 then wanted ||| reservedInherit else wanted)
          rw [hwrite]
          exact ⟨s', srcHandle, rfl, hvalid, .inr ⟨wanted, hgrants, .inr ⟨rfl, hreuse.1,
            hreuse.2.1, slot, found.entry, _, hslot, hentry, .inherit wanted attr, hupdate⟩⟩⟩
        · exact allocForDst_spec hs hlocal hgrants
    · rw [if_pos hlocal]
      obtain ⟨s', handle, halloc, hout⟩ := allocGlobalHandleNoAccessCheck_spec hs env obj wanted
      exact .inr ⟨s', handle, halloc, hout.duplicate hgrants (by rw [if_neg hlocal])⟩
  · rw [if_pos hmore]
    cases hcheck : duplicateCheck env obj dst wanted with
    | error fault =>
      rw [duplicateCheck_error hcheck]
      exact .inl rfl
    | ok checked =>
      cases checked with
      | none => exact .inr ⟨s, 0, rfl, hs, .inl ⟨rfl, rfl⟩⟩
      | some checked =>
        dsimp only
        by_cases hlocal : options &&& duplicateMakeGlobal = 0
        · rw [if_neg (by simpa using hlocal)]
          apply allocForDst_spec hs hlocal
          unfold DuplicateGrants
          rw [if_neg hmore]
          exact ⟨checked, hcheck, by rw [if_pos hlocal]⟩
        rw [if_pos hlocal]
        right
        unfold allocGlobalHandle
        have hgrants : ∀ granted, (if checked = 0 then granted = checked
            else env.checkObjectAccess .caller obj checked = some granted) →
            DuplicateGrants env obj dst srcAccess wanted options granted := by
          intro granted h
          unfold DuplicateGrants
          rw [if_neg hmore]
          exact ⟨checked, hcheck, by rwa [if_neg hlocal]⟩
        split
        · rename_i hzero
          obtain ⟨s', handle, halloc, hout⟩ :=
            allocGlobalHandleNoAccessCheck_spec hs env obj checked
          exact ⟨s', handle, halloc, hout.duplicate (hgrants _ (by rw [if_pos hzero]))
            (by rw [if_neg hlocal])⟩
        rename_i hzero
        cases hagain : env.checkObjectAccess .caller obj checked with
        | none => exact ⟨s, 0, rfl, hs, .inl ⟨rfl, rfl⟩⟩
        | some granted =>
          obtain ⟨s', handle, halloc, hout⟩ :=
            allocGlobalHandleNoAccessCheck_spec hs env obj granted
          exact ⟨s', handle, halloc,
            hout.duplicate (hgrants _ (by rw [if_neg hzero, hagain])) (by rw [if_neg hlocal])⟩

section Flags

variable {s s' s'' : State Pid Obj} {handle : Handle} {access : AccessMask}

lemma Allocated.flags {process : Pid} (h : Allocated s.lookup s'.lookup ref handle obj access)
    (href : ref = none ∨ ref = some process) (hflags : FlagsOutcome s' process handle s'') :
    Allocated s.lookup s''.lookup ref handle obj access := by
  obtain hsame | ⟨slot, entry, stored', hslot, hentry, hrights', hupdate'⟩ := hflags.outcome
  · rw [hsame]
    exact h
  obtain ⟨i, stored, hhandle, hi, hnone, hrights, hupdate⟩ := h
  have hsame : slot = (ref, i) := by
    rw [hhandle, @slotOf_handleOf Pid (ref, i) hi process href] at hslot
    injection hslot with hslot
    exact hslot.symm
  rw [hupdate, hsame, update_self] at hentry
  injection hentry with hentry
  refine ⟨i, stored', hhandle, hi, hnone, ?_, ?_⟩
  · rw [← hentry] at hrights'
    exact hrights'.trans hrights
  · rw [hupdate', hupdate, hsame, update_idem, ← hentry]

lemma Reused.flags {src : Pid} (h : Reused s.lookup s'.lookup src handle access)
    (hflags : FlagsOutcome s' src handle s'') : Reused s.lookup s''.lookup src handle access := by
  obtain hsame | ⟨slot, entry, stored', hslot, hentry, hrights', hupdate'⟩ := hflags.outcome
  · rw [hsame]
    exact h
  obtain ⟨slot', entry', stored, hslot', hentry', hrights, hupdate⟩ := h
  have hsame : slot = slot' := by
    rw [hslot'] at hslot
    injection hslot with hslot
    exact hslot.symm
  rw [hupdate, hsame, update_self] at hentry
  injection hentry with hentry
  refine ⟨slot', entry', stored', hslot', hentry', ?_, ?_⟩
  · rw [← hentry] at hrights'
    exact hrights'.trans hrights
  · rw [hupdate', hupdate, hsame, update_idem, ← hentry]

lemma DuplicateOutcome.flags {src : Pid} {srcHandle : Handle} {dst : Pid} {srcAccess wanted : AccessMask} {options : BitVec 32} (hne : handle ≠ 0)
    (h : DuplicateOutcome env s src srcHandle (some dst) obj srcAccess wanted options s' handle)
    (hflags : FlagsOutcome s' dst handle s'') :
    DuplicateOutcome env s src srcHandle (some dst) obj srcAccess wanted options s'' handle := by
  refine ⟨hflags.valid, .inr ?_⟩
  obtain ⟨hzero, _⟩ | ⟨granted, hgrants, halloc | ⟨hhandle, hclose, hdst, hreused⟩⟩ := h.outcome
  · exact absurd hzero hne
  · refine ⟨granted, hgrants, .inl (halloc.flags ?_ hflags)⟩
    split
    · exact .inr rfl
    · exact .inl rfl
  · have hprocess : src = dst := by simpa using hdst
    subst hprocess hhandle
    exact ⟨granted, hgrants, .inr ⟨rfl, hclose, rfl, hreused.flags hflags⟩⟩

end Flags

/-- How `duplicate_handle` ends. -/
structure DuplicateHandleOutcome (env : Env Obj) (s : State Pid Obj) (src : Pid)
    (srcHandle : Handle) (dst : Option Pid) (access : AccessMask) (options : BitVec 32)
    (s' : State Pid Obj) (handle : Handle) : Prop where
  valid : s'.Valid
  outcome : (handle = 0 ∧ s'.lookup = s.lookup) ∨
    ∃ obj found srcAccess, Source env s src srcHandle obj found ∧
      srcAccess = sourceAccess env obj found &&& ~~~reservedAll ∧
      DuplicateOutcome env s src srcHandle dst obj srcAccess
        (duplicateWanted env obj srcAccess access options) options s' handle

lemma duplicateHandle_spec {s : State Pid Obj} (hs : s.Valid) (env : Env Obj) (src : Pid)
    (srcHandle : Handle) (dst : Option Pid) (access : AccessMask) (attr options : BitVec 32) :
    duplicateHandle env s src srcHandle dst access attr options = .error .aborted ∨
      ∃ s' handle, duplicateHandle env s src srcHandle dst access attr options = .ok (s', handle) ∧
        DuplicateHandleOutcome env s src srcHandle dst access options s' handle := by
  obtain ⟨found, hfound, hnone | ⟨obj, hsource⟩⟩ :=
    @duplicateSource_found _ _ env s hs src srcHandle
  · unfold duplicateHandle
    rw [hnone]
    exact .inr ⟨s, 0, rfl, hs, .inl ⟨rfl, rfl⟩⟩
  unfold duplicateHandle
  rw [hsource]
  dsimp only
  obtain habort | ⟨s', handle, hentry, hout⟩ := duplicateEntry_spec hs hfound dst obj
    (sourceAccess env obj found &&& ~~~reservedAll)
    (duplicateWanted env obj (sourceAccess env obj found &&& ~~~reservedAll) access options) attr
    options
  · rw [habort]
    exact .inl rfl
  rw [hentry]
  dsimp only
  split
  · rename_i hflags
    cases dst with
    | none => exact .inl rfl
    | some dst =>
      right
      obtain ⟨s'', old, hset, hflagsOut⟩ := setHandleFlags_spec hout.valid env dst handle (-1)
        ((sourceAccess env obj found &&& reservedAll) >>> 26)
      dsimp only
      rw [hset]
      have hout' := hout.flags hflags.1 hflagsOut
      exact ⟨s'', handle, rfl, hout'.valid, .inr ⟨obj, found, _, hsource, rfl, hout'⟩⟩
  · exact .inr ⟨s', handle, rfl, hout.valid, .inr ⟨obj, found, _, hsource, rfl, hout⟩⟩

end WineForge.Handles
