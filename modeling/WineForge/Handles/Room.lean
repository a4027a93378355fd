import WineForge.Handles.Effects

/-!
# Room for a new handle

An allocation fails when every cell up to `last` is in use, no cell is left behind it and the block
cannot grow. Otherwise it returns a handle, and with an access that has no reserved flag it never
stops the server.
-/

namespace WineForge.Handles

variable {Pid Obj : Type*}

def HandleTable.HasRoom (memOk : Bool) (table : HandleTable Obj) : Prop :=
  (∃ i : Nat, (i : Int) ≤ table.last ∧ table.lookup i = none) ∨ table.last + 1 < table.count ∨
    (table.count < maxHandleEntries ∧ memOk = true)

lemma growHandleTable_eq_none {table : HandleTable Obj} (h : table.Valid) (memOk : Bool) :
    growHandleTable memOk table = none ↔ ¬(table.count < maxHandleEntries ∧ memOk = true) := by
  have hmin := h.min_count
  have hmax := h.count_max
  unfold minHandleEntries at hmin
  have hsame : min (table.count * 2) maxHandleEntries = table.count ↔
      ¬table.count < maxHandleEntries := by
    omega
  unfold growHandleTable
  simp only [hsame]
  cases memOk <;> simp

lemma allocEntry_room {table table' : HandleTable Obj} (h : table.Valid) {memOk : Bool} {obj : Obj}
    {access : AccessMask} {handle : Handle}
    (halloc : allocEntry memOk table obj access = .ok (table', handle)) :
    handle ≠ 0 ↔ table.HasRoom memOk := by
  have hlast := h.last_lt
  have hfree := h.free_le
  have hmax := h.count_max
  obtain ⟨i, hscan, hle, hi, hnone, hbelow⟩ := scanFree_spec h
    (table.last + 1 - table.free).toNat table.free (by omega)
  have hused : ∀ k < i, (table.lookup k).isSome := by
    intro k hk
    by_cases hkf : k < table.free
    · exact h.below_free k hkf
    · exact hbelow k (by omega) hk
  unfold allocEntry at halloc
  rw [hscan] at halloc
  dsimp only at halloc
  by_cases hin : (i : Int) ≤ table.last
  · have hlt : i < table.entries.length := by
      change table.last < table.entries.length at hlast
      omega
    have htake := @takeEntry_eq _ table.entries table.last table.free i hlt ⟨obj, access⟩
    rw [if_pos hin, htake] at halloc
    injection halloc with halloc
    injection halloc with _ hhandle
    rw [← hhandle]
    exact iff_of_true (indexToHandle_ne_zero (by omega)) (.inl ⟨i, hin, hnone⟩)
  rw [if_neg hin] at halloc
  by_cases hfull : table.count ≤ i
  · rw [if_pos hfull] at halloc
    have hroom : table.HasRoom memOk ↔ (table.count < maxHandleEntries ∧ memOk = true) := by
      constructor
      · rintro (⟨k, hk, hkfree⟩ | hmore | hgrow)
        · have hkused := hused k (by omega)
          rw [hkfree] at hkused
          cases hkused
        · omega
        · exact hgrow
      · exact fun hgrow => .inr (.inr hgrow)
    rw [hroom]
    cases hgrow : growHandleTable memOk table with
    | none =>
      rw [hgrow] at halloc
      injection halloc with halloc
      injection halloc with _ hhandle
      exact iff_of_false (not_not.mpr hhandle.symm) ((growHandleTable_eq_none h memOk).mp hgrow)
    | some grown =>
      rw [hgrow] at halloc
      obtain ⟨_, _, hmax', hmore⟩ := growHandleTable_spec h hgrow
      have hblock : i < grown.entries.length := by omega
      have htake := @takeEntry_eq _ grown.entries i grown.free i hblock ⟨obj, access⟩
      dsimp only at halloc
      rw [htake] at halloc
      injection halloc with halloc
      injection halloc with _ hhandle
      rw [← hhandle]
      apply iff_of_true (indexToHandle_ne_zero (by omega))
      by_contra hno
      rw [(growHandleTable_eq_none h memOk).mpr hno] at hgrow
      cases hgrow
  · have hlt : i < table.entries.length := by
      change ¬table.entries.length ≤ i at hfull
      omega
    have htake := @takeEntry_eq _ table.entries i table.free i hlt ⟨obj, access⟩
    rw [if_neg hfull, htake] at halloc
    injection halloc with halloc
    injection halloc with _ hhandle
    rw [← hhandle]
    exact iff_of_true (indexToHandle_ne_zero (by omega)) (.inr (.inl (by omega)))

variable [DecidableEq Pid]

/-- Room in the table of a process, or in the global one, which is made when it is needed. -/
def HasRoom (env : Env Obj) (s : State Pid Obj) (ref : Option Pid) : Prop :=
  match ref, s.tableOf ref with
  | _, some table => table.HasRoom env.reallocOk
  | none, none => env.allocOk = true
  | some _, none => False

def Unreserved (access : AccessMask) : Prop := access &&& reservedAll = 0

lemma unreserved_masked (access : AccessMask) : Unreserved (access &&& ~~~reservedAll) := by
  unfold Unreserved
  rw [BitVec.and_assoc, BitVec.and_comm (~~~reservedAll) reservedAll, BitVec.and_not_self]
  exact BitVec.and_zero

variable {env : Env Obj} {s s' : State Pid Obj} {process : Pid} {obj : Obj} {access : AccessMask}
  {attr : BitVec 32} {handle : Handle}

lemma allocIn_room {ref : Option Pid} {table : HandleTable Obj} (h : table.Valid)
    (halloc : allocIn env s ref table obj access = .ok (s', handle)) :
    handle ≠ 0 ↔ table.HasRoom env.reallocOk := by
  unfold allocIn at halloc
  cases hentry : allocEntry env.reallocOk table obj access with
  | error fault =>
    rw [hentry] at halloc
    cases halloc
  | ok result =>
    rw [hentry] at halloc
    injection halloc with halloc
    injection halloc with _ hhandle
    rw [← hhandle]
    exact allocEntry_room h hentry

lemma allocHandleEntry_eq (hmask : Unreserved access) :
    allocHandleEntry env s process obj access attr =
      match s.handles process with
      | none => .ok (s, 0)
      | some table =>
        allocIn env s (some process) table obj
          (if attr &&& objInherit ≠ 0 then access ||| reservedInherit else access) :=
  if_neg (not_not.mpr hmask)

lemma allocHandleEntry_room (hs : s.Valid) (hmask : Unreserved access) :
    ∃ s' handle, allocHandleEntry env s process obj access attr = .ok (s', handle) ∧
      AllocOutcome s (some process) obj access s' handle ∧
      (handle ≠ 0 ↔ HasRoom env s (some process)) := by
  obtain habort | ⟨s', handle, halloc, hout⟩ := allocHandleEntry_spec hs env process obj access attr
  · rw [allocHandleEntry_eq hmask] at habort
    cases htable : s.handles process with
    | none =>
      rw [htable] at habort
      cases habort
    | some table =>
      have htable' : s.tableOf (some process) = some table := htable
      obtain ⟨s', handle, halloc, _⟩ := allocIn_spec hs (hs _ table htable')
        (tableOf_lookup htable') env obj
        (if attr &&& objInherit ≠ 0 then access ||| reservedInherit else access)
      rw [htable] at habort
      dsimp only at habort
      rw [halloc] at habort
      cases habort
  · refine ⟨s', handle, halloc, hout, ?_⟩
    rw [allocHandleEntry_eq hmask] at halloc
    cases htable : s.handles process with
    | none =>
      have htable' : s.tableOf (some process) = none := htable
      rw [htable] at halloc
      injection halloc with halloc
      injection halloc with _ hhandle
      unfold HasRoom
      rw [htable']
      exact iff_of_false (not_not.mpr hhandle.symm) id
    | some table =>
      have htable' : s.tableOf (some process) = some table := htable
      rw [htable] at halloc
      unfold HasRoom
      rw [htable']
      exact allocIn_room (hs _ table htable') halloc

lemma handleLocalToGlobal_eq_zero {handle : Handle} :
    handleLocalToGlobal handle ≠ 0 ↔ handle ≠ 0 ∧ handle ≠ handleObfuscator := by
  unfold handleLocalToGlobal
  split
  · simp [*]
  next hne =>
  have hxor : handle ^^^ handleObfuscator = 0 ↔ handle = handleObfuscator :=
    BitVec.xor_eq_zero_iff
  rw [Ne, hxor]
  exact ⟨fun h => ⟨hne, h⟩, And.right⟩

lemma indexToHandle_ne_obfuscator {i : Nat} (hi : i < maxHandleEntries) :
    indexToHandle i ≠ handleObfuscator := by
  intro heq
  have htoNat := toNat_indexToHandle hi
  rw [heq] at htoNat
  have hobf : handleObfuscator.toNat = 0x544a4def := by decide
  omega

lemma globalAllocIn_room (hs : s.Valid) {table : HandleTable Obj} (htable : table.Valid)
    (hlookup : table.lookup = fun j => s.lookup (none, j))
    (h : (match allocIn env s none table obj access with
      | .error fault => .error fault
      | .ok (s, handle) => .ok (s, handleLocalToGlobal handle)) =
        (.ok (s', handle) : Except Fault (State Pid Obj × Handle))) :
    handle ≠ 0 ↔ table.HasRoom env.reallocOk := by
  obtain ⟨s₁, handle₁, hin, _, hout₁⟩ := allocIn_spec hs htable hlookup env obj access
  rw [hin] at h
  injection h with h
  injection h with _ hhandle
  rw [← hhandle, handleLocalToGlobal_eq_zero, ← allocIn_room htable hin]
  constructor
  · exact And.left
  · intro hne
    obtain ⟨hzero, _⟩ | ⟨i, hi, hlt, _⟩ := hout₁
    · exact absurd hzero hne
    · exact ⟨hne, hi ▸ indexToHandle_ne_obfuscator hlt⟩

lemma allocGlobal_room (hs : s.Valid) :
    ∃ s' handle, allocGlobalHandleNoAccessCheck env s obj access = .ok (s', handle) ∧
      AllocOutcome s none obj access s' handle ∧ (handle ≠ 0 ↔ HasRoom env s none) := by
  obtain ⟨s', handle, halloc, hout⟩ := allocGlobalHandleNoAccessCheck_spec hs env obj access
  refine ⟨s', handle, halloc, hout, ?_⟩
  unfold allocGlobalHandleNoAccessCheck at halloc
  cases htable : s.globalTable with
  | some table =>
    have htable' : s.tableOf none = some table := htable
    rw [htable] at halloc
    unfold HasRoom
    rw [htable']
    exact globalAllocIn_room hs (hs none table htable') (tableOf_lookup htable') halloc
  | none =>
    have htable' : s.tableOf none = none := htable
    rw [htable] at halloc
    unfold HasRoom
    rw [htable']
    by_cases hok : env.allocOk = true
    · rw [if_pos hok] at halloc
      have hnew : (allocHandleTable 0 : HandleTable Obj).Valid :=
        allocHandleTable_valid (Nat.zero_le _)
      have hroom : (allocHandleTable 0 : HandleTable Obj).HasRoom env.reallocOk := by
        have hcount := hnew.min_count
        have hlast : (allocHandleTable 0 : HandleTable Obj).last = -1 := rfl
        unfold minHandleEntries at hcount
        exact .inr (.inl (by omega))
      rw [globalAllocIn_room hs hnew ?_ halloc]
      · exact iff_of_true hroom hok
      · funext j
        rw [allocHandleTable_lookup]
        simp [State.lookup, State.tableOf, htable]
    · rw [if_neg hok] at halloc
      injection halloc with halloc
      injection halloc with _ hhandle
      exact iff_of_false (not_not.mpr hhandle.symm) hok

end WineForge.Handles
