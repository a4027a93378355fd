import WineForge.Handles.Effects

/-!
# Copying the table of a parent

Either the whole table is copied and the entries that are not inherited are dropped, or the listed
handles are looked up one by one. The list is where an index is computed from the handle itself.
-/

namespace WineForge.Handles

open Function List

variable {Pid Obj : Type*}

def inheritable (entry : HandleEntry Obj) : Bool :=
  decide (entry.access &&& reservedInherit ≠ 0)

def HandleTable.inherited (table : HandleTable Obj) (i : Nat) : Option (HandleEntry Obj) :=
  (table.lookup i).filter inheritable

variable {table parentTable : HandleTable Obj}

def keepInherited : Cell Obj → Cell Obj
  | .junk => .junk
  | .empty => .empty
  | .used entry => if inheritable entry then .used entry else .empty

lemma inheritCells_eq {cells : List (Cell Obj)} (h : ∀ cell ∈ cells, cell ≠ .junk) :
    inheritCells cells = .ok (cells.map keepInherited) := by
  induction cells with
  | nil => rfl
  | cons cell cells ih =>
    have htail := ih fun c hc => h c (mem_cons_of_mem cell hc)
    cases cell with
    | junk => exact absurd rfl (h _ (by simp))
    | empty =>
      rw [inheritCells, htail]
      rfl
    | used entry =>
      rw [inheritCells, htail]
      simp [keepInherited, inheritable]

lemma allocHandleTable_count (h : parentTable.Valid) :
    (allocHandleTable parentTable.count : HandleTable Obj).count = parentTable.count := by
  have hmin := h.min_count
  simp only [HandleTable.count, allocHandleTable, length_replicate]
  unfold HandleTable.count at hmin
  omega

lemma copyCells_spec (h : parentTable.Valid) :
    ∃ table, copyCells (allocHandleTable parentTable.count) parentTable = .ok table ∧
      table.Valid ∧ table.lookup = parentTable.inherited := by
  have hge := h.last_ge
  have hlast := h.last_lt
  have hcount := allocHandleTable_count h
  have hwritten : ∀ cell ∈ parentTable.entries.take (parentTable.last + 1).toNat, cell ≠ .junk := by
    intro cell hcell
    obtain ⟨i, hget⟩ := mem_iff_getElem?.mp hcell
    have hi := (List.getElem?_eq_some_iff.mp hget).1
    rw [length_take] at hi
    rw [getElem?_take_of_lt (by omega)] at hget
    rintro rfl
    exact h.written i (by omega) hget
  have hcells := inheritCells_eq hwritten
  have hlen : ((parentTable.entries.take (parentTable.last + 1).toNat).map keepInherited).length =
      (parentTable.last + 1).toNat := by
    unfold HandleTable.count at hlast
    rw [length_map, length_take]
    omega
  unfold copyCells
  rw [if_pos ⟨by omega, by omega⟩, hcells]
  generalize hfresh : (allocHandleTable parentTable.count : HandleTable Obj) = fresh at *
  -- what stands in the cells up to `last`
  have hcell : ∀ i : Nat, (i : Int) ≤ parentTable.last →
      ((parentTable.entries.take (parentTable.last + 1).toNat).map keepInherited ++
        fresh.entries.drop (parentTable.last + 1).toNat)[i]? =
          (parentTable.entries[i]?).map keepInherited := by
    intro i hi
    rw [getElem?_append_left (by omega), getElem?_map, getElem?_take_of_lt (by omega)]
  have hlookup : HandleTable.lookup
      ⟨(parentTable.entries.take (parentTable.last + 1).toNat).map keepInherited ++
        fresh.entries.drop (parentTable.last + 1).toNat, parentTable.last, fresh.free⟩ =
      parentTable.inherited := by
    funext i
    unfold HandleTable.inherited HandleTable.lookup
    by_cases hi : (i : Int) ≤ parentTable.last
    · rw [if_pos hi, if_pos hi, hcell i hi]
      cases parentTable.entries[i]? with
      | none => rfl
      | some cell =>
        cases cell with
        | junk => rfl
        | empty => rfl
        | used entry => cases hkeep : inheritable entry <;> simp [keepInherited, hkeep, Option.filter]
    · rw [if_neg hi, if_neg hi]
      rfl
  have hfree : fresh.free = 0 := by
    rw [← hfresh]
    rfl
  have hblock : ((parentTable.entries.take (parentTable.last + 1).toNat).map keepInherited ++
      fresh.entries.drop (parentTable.last + 1).toNat).length = parentTable.count := by
    rw [length_append, hlen, length_drop]
    unfold HandleTable.count at hcount hlast ⊢
    omega
  refine ⟨_, rfl, ?_, hlookup⟩
  constructor
  · change minHandleEntries ≤ List.length _
    rw [hblock]
    exact h.min_count
  · change List.length _ ≤ maxHandleEntries
    rw [hblock]
    exact h.count_max
  · exact hge
  · change parentTable.last < (List.length _ : Nat)
    rw [hblock]
    exact hlast
  · change ((fresh.free : Nat) : Int) ≤ parentTable.last + 1
    omega
  · intro i hi
    have hparent := h.written i hi
    rw [hcell i hi]
    cases hget : parentTable.entries[i]? with
    | none => simp
    | some cell =>
      cases cell with
      | junk => exact absurd hget hparent
      | empty => simp [keepInherited]
      | used entry => cases hkeep : inheritable entry <;> simp [keepInherited, hkeep]
  · intro i hi
    change i < fresh.free at hi
    omega

/-- A table whose cells were all written: what stands behind `last` is empty. -/
structure Clean (table : HandleTable Obj) : Prop where
  valid : table.Valid
  cells : ∀ i < table.entries.length, table.entries[i]? = some (match table.lookup i with
      | some entry => .used entry
      | none => .empty)
  free_eq : table.free = 0

lemma Clean.readPtr {i : Nat} (h : Clean table) (hi : i < table.entries.length) :
    readPtr table i = .ok (table.lookup i) := by
  rw [Handles.readPtr, if_neg (by omega), Int.toNat_natCast, h.cells i hi]
  cases table.lookup i <;> rfl

lemma clearCells_spec (h : parentTable.Valid) :
    ∃ table : HandleTable Obj, clearCells (allocHandleTable parentTable.count) parentTable.count = .ok table ∧
      Clean table ∧ table.entries.length = parentTable.count ∧ ∀ i, table.lookup i = none := by
  have hcount := allocHandleTable_count h
  have hmin := h.min_count
  have hmax := h.count_max
  have hall : (allocHandleTable parentTable.count : HandleTable Obj).entries.drop
      parentTable.count = [] := by
    apply drop_eq_nil_of_le
    unfold HandleTable.count at hcount ⊢
    omega
  have hnone : ∀ i, HandleTable.lookup
      (⟨List.replicate parentTable.count .empty ++ [], -1, 0⟩ : HandleTable Obj) i = none :=
    fun i => lookup_of_last_lt (by change (-1 : Int) < i; omega)
  unfold clearCells
  rw [if_pos (by omega), hall]
  refine ⟨_, rfl, ⟨?_, ?_, rfl⟩, by simp, hnone⟩
  · constructor
    · simpa [HandleTable.count] using hmin
    · simpa [HandleTable.count] using hmax
    · exact Int.le_refl (-1)
    · change (-1 : Int) < _
      omega
    · exact Int.le_refl 0
    · intro i hi
      change (i : Int) ≤ -1 at hi
      omega
    · intro i hi
      change i < 0 at hi
      omega
  · intro i hi
    change _ = some (match HandleTable.lookup
      (⟨List.replicate parentTable.count .empty ++ [], -1, 0⟩ : HandleTable Obj) i with
      | some entry => Cell.used entry
      | none => Cell.empty)
    rw [hnone i]
    rw [append_nil, length_replicate] at hi
    rw [append_nil, getElem?_replicate, if_pos hi]

lemma Clean.fill {i : Nat} (h : Clean table) (hi : i < table.entries.length)
    (entry : HandleEntry Obj) :
    Clean ⟨table.entries.set i (.used entry), max table.last i, table.free⟩ ∧
      HandleTable.lookup ⟨table.entries.set i (.used entry), max table.last i, table.free⟩ =
        update table.lookup i (some entry) := by
  have hlast := h.valid.last_lt
  have hfree := h.free_eq
  unfold HandleTable.count at hlast
  have hlookup : HandleTable.lookup
      ⟨table.entries.set i (.used entry), max table.last i, table.free⟩ =
      update table.lookup i (some entry) := by
    funext j
    by_cases hji : j = i
    · subst hji
      have hin : (j : Int) ≤ max table.last j := by omega
      simp [HandleTable.lookup, hi, hin]
    rw [update_of_ne hji]
    unfold HandleTable.lookup
    dsimp only
    rw [getElem?_set_ne (Ne.symm hji)]
    by_cases hj : (j : Int) ≤ table.last
    · rw [if_pos (by omega), if_pos hj]
    rw [if_neg hj]
    -- behind the old `last` there are only empty cells
    split
    · have hcell := h.cells j (by omega)
      rw [lookup_of_last_lt (by omega)] at hcell
      rw [hcell]
    · rfl
  have hcells : ∀ j < table.entries.length, (table.entries.set i (.used entry))[j]? =
      some (match update table.lookup i (some entry) j with
        | some entry => .used entry
        | none => .empty) := by
    intro j hj
    by_cases hji : j = i
    · subst hji
      rw [getElem?_set_self hj, update_self]
    · rw [getElem?_set_ne (Ne.symm hji), update_of_ne hji, h.cells j hj]
  refine ⟨⟨?_, ?_, hfree⟩, hlookup⟩
  · constructor
    · simpa [HandleTable.count] using h.valid.min_count
    · simpa [HandleTable.count] using h.valid.count_max
    · change -1 ≤ max table.last (i : Int)
      omega
    · unfold HandleTable.count
      simp only [length_set]
      omega
    · change (table.free : Int) ≤ max table.last (i : Int) + 1
      omega
    · intro j hj
      change (j : Int) ≤ max table.last (i : Int) at hj
      rw [hcells j (by omega)]
      split <;> simp
    · intro j hj
      change j < table.free at hj
      omega
  · intro j hj
    rw [hlookup]
    exact hcells j (by simpa using hj)

def InheritsGlobal (s : State Pid Obj) (parent : Pid) (handle : Handle) : Prop :=
  handleIsGlobal handle = true ∧ ∃ found, getHandle s parent handle = .ok (some found) ∧
    found.entry.access &&& reservedInherit ≠ 0

section Listed

variable {s : State Pid Obj} {parent : Pid} {handle : Handle}

lemma inheritHandle_spec (hs : s.Valid) (hparent : s.handles parent = some parentTable)
    (hclean : Clean table) (hlen : table.entries.length = parentTable.count)
    (hsub : ∀ i entry, table.lookup i = some entry → parentTable.inherited i = some entry)
    (hgood : ¬InheritsGlobal s parent handle) :
    ∃ table', inheritHandle s parent handle table = .ok table' ∧ Clean table' ∧
      table'.entries.length = parentTable.count ∧
      ∀ i, (slotOf parent handle = some (some parent, i) →
          table'.lookup i = parentTable.inherited i) ∧
        (slotOf parent handle ≠ some (some parent, i) → table'.lookup i = table.lookup i) := by
  have hlookup : ∀ i, s.lookup (some parent, i) = parentTable.lookup i := by
    intro i
    have htable : s.tableOf (some parent) = some parentTable := hparent
    simp [State.lookup, htable]
  -- nothing is added where nothing is inherited
  have hkeep : (∀ i, slotOf parent handle = some (some parent, i) →
      parentTable.inherited i = none) →
      ∀ i, (slotOf parent handle = some (some parent, i) →
          table.lookup i = parentTable.inherited i) ∧
        (slotOf parent handle ≠ some (some parent, i) → table.lookup i = table.lookup i) := by
    intro hnone i
    refine ⟨fun hslot => ?_, fun _ => rfl⟩
    rw [hnone i hslot]
    cases hentry : table.lookup i with
    | none => rfl
    | some entry =>
      have hin := hsub i entry hentry
      rw [hnone i hslot] at hin
      cases hin
  unfold inheritHandle
  rw [getHandle_eq hs]
  cases hfound : (slotOf parent handle).bind fun slot =>
      (s.lookup slot).map fun entry => (⟨slot.1, slot.2, entry⟩ : Found Pid Obj) with
  | none =>
    refine ⟨table, rfl, hclean, hlen, hkeep ?_⟩
    intro i hslot
    rw [hslot] at hfound
    have hempty : parentTable.lookup i = none := by simpa [hlookup] using hfound
    rw [HandleTable.inherited, hempty]
    rfl
  | some found =>
    obtain ⟨slot, hslot, _, _, hentry⟩ := slotOf_bind_eq_some hfound
    dsimp only
    by_cases hin : found.entry.access &&& reservedInherit = 0
    · rw [if_pos hin]
      refine ⟨table, rfl, hclean, hlen, hkeep ?_⟩
      intro i hslot'
      rw [hslot] at hslot'
      injection hslot' with hslot'
      rw [hslot', hlookup] at hentry
      rw [HandleTable.inherited, hentry]
      simp [Option.filter, inheritable, hin]
    rw [if_neg hin]
    have hlocal : handleIsGlobal handle = false := by
      by_contra hglobal
      apply hgood
      refine ⟨by simpa using hglobal, found, ?_, hin⟩
      rw [getHandle_eq hs, hfound]
    obtain ⟨hindex, href⟩ := slotOf_local hlocal hslot
    have hslotEq : slot = (some parent, slot.2) := by rw [← href]
    rw [hslotEq, hlookup] at hentry
    have hbound := @lookup_lt_count _ _ slot.2 (hs (some parent) _ hparent) (by rw [hentry]; rfl)
    have hinherited : parentTable.inherited slot.2 = some found.entry := by
      have hyes : inheritable found.entry = true := decide_eq_true hin
      rw [HandleTable.inherited, hentry, Option.filter, if_pos hyes]
    rw [hindex, hclean.readPtr (by omega)]
    cases hold : table.lookup slot.2 with
    | some entry =>
      refine ⟨table, rfl, hclean, hlen, fun i => ⟨fun hslot' => ?_, fun _ => rfl⟩⟩
      rw [hslot] at hslot'
      injection hslot' with hslot'
      have hi : i = slot.2 := by rw [hslot']
      rw [hi, hold, hsub _ _ hold]
    | none =>
      obtain ⟨hfilled, hupdate⟩ := @Clean.fill _ _ slot.2 hclean (by omega) found.entry
      rw [writeCell_eq (by omega)]
      refine ⟨_, rfl, hfilled, by simpa using hlen, fun i => ⟨fun hslot' => ?_, fun hslot' => ?_⟩⟩
      · rw [hslot] at hslot'
        injection hslot' with hslot'
        have hi : i = slot.2 := by rw [hslot']
        rw [hi, hupdate, update_self, hinherited]
      have hi : i ≠ slot.2 := by
        rintro rfl
        exact hslot' (by rw [hslot, ← href])
      rw [hupdate, update_of_ne hi]

lemma inheritHandle_global (hclean : Clean table) (h : InheritsGlobal s parent handle) :
    inheritHandle s parent handle table = .error .outOfBounds := by
  obtain ⟨hglobal, found, hfound, hin⟩ := h
  have hfar := handleToIndex_global hglobal
  have hmax := hclean.valid.count_max
  have hread : readPtr table (handleToIndex handle) = .error .outOfBounds := by
    have hcell : table.entries[(handleToIndex handle).toNat]? = none := by
      rw [getElem?_eq_none_iff]
      unfold HandleTable.count at hmax
      omega
    rw [readPtr, if_neg (by omega), hcell]
  unfold inheritHandle
  rw [hfound]
  simp only [hin, if_false, hread]

def Listed (parent : Pid) (handles : List Handle) (i : Nat) : Prop :=
  ∃ handle ∈ handles, slotOf parent handle = some (some parent, i)

lemma inheritHandles_spec (hs : s.Valid) (hparent : s.handles parent = some parentTable)
    (hclean : Clean table) (hlen : table.entries.length = parentTable.count)
    (hsub : ∀ i entry, table.lookup i = some entry → parentTable.inherited i = some entry)
    (handles : List Handle) (hgood : ∀ handle ∈ handles, ¬InheritsGlobal s parent handle) :
    ∃ table', inheritHandles s parent handles table = .ok table' ∧ Clean table' ∧
      table'.entries.length = parentTable.count ∧
      (∀ i entry, table'.lookup i = some entry → parentTable.inherited i = some entry) ∧
      ∀ i, (Listed parent handles i → table'.lookup i = parentTable.inherited i) ∧
        (¬Listed parent handles i → table'.lookup i = table.lookup i) := by
  induction handles generalizing table with
  | nil =>
    refine ⟨table, rfl, hclean, hlen, hsub, fun i => ⟨?_, fun _ => rfl⟩⟩
    rintro ⟨handle, hmem, _⟩
    cases hmem
  | cons handle handles ih =>
    obtain ⟨table₁, hone, hclean₁, hlen₁, hlookup₁⟩ :=
      inheritHandle_spec hs hparent hclean hlen hsub (hgood handle (by simp))
    have hsub₁ : ∀ i entry, table₁.lookup i = some entry →
        parentTable.inherited i = some entry := by
      intro i entry hentry
      by_cases hslot : slotOf parent handle = some (some parent, i)
      · rw [← (hlookup₁ i).1 hslot]
        exact hentry
      · rw [(hlookup₁ i).2 hslot] at hentry
        exact hsub i entry hentry
    obtain ⟨table₂, hrest, hclean₂, hlen₂, hsub₂, hlookup₂⟩ := ih hclean₁ hlen₁ hsub₁
      (fun h hh => hgood h (mem_cons_of_mem handle hh))
    refine ⟨table₂, ?_, hclean₂, hlen₂, hsub₂, fun i => ⟨?_, ?_⟩⟩
    · rw [inheritHandles, hone]
      exact hrest
    · rintro ⟨handle', hmem, hslot⟩
      by_cases hlater : Listed parent handles i
      · exact (hlookup₂ i).1 hlater
      rw [(hlookup₂ i).2 hlater]
      obtain rfl | hmem := mem_cons.mp hmem
      · exact (hlookup₁ i).1 hslot
      · exact absurd ⟨handle', hmem, hslot⟩ hlater
    intro hnot
    have hlater : ¬Listed parent handles i := by
      rintro ⟨handle', hmem, hslot⟩
      exact hnot ⟨handle', mem_cons_of_mem handle hmem, hslot⟩
    rw [(hlookup₂ i).2 hlater]
    apply (hlookup₁ i).2
    intro hslot
    exact hnot ⟨handle, by simp, hslot⟩

lemma inheritHandles_global (hs : s.Valid) (hparent : s.handles parent = some parentTable)
    (hclean : Clean table) (hlen : table.entries.length = parentTable.count)
    (hsub : ∀ i entry, table.lookup i = some entry → parentTable.inherited i = some entry)
    {handles : List Handle} (hbad : ∃ handle ∈ handles, InheritsGlobal s parent handle) :
    inheritHandles s parent handles table = .error .outOfBounds := by
  induction handles generalizing table with
  | nil =>
    obtain ⟨handle, hmem, _⟩ := hbad
    cases hmem
  | cons handle handles ih =>
    by_cases hhead : InheritsGlobal s parent handle
    · rw [inheritHandles, inheritHandle_global hclean hhead]
    obtain ⟨table₁, hone, hclean₁, hlen₁, hlookup₁⟩ :=
      inheritHandle_spec hs hparent hclean hlen hsub hhead
    rw [inheritHandles, hone]
    apply ih hclean₁ hlen₁
    · intro i entry hentry
      by_cases hslot : slotOf parent handle = some (some parent, i)
      · rw [← (hlookup₁ i).1 hslot]
        exact hentry
      · rw [(hlookup₁ i).2 hslot] at hentry
        exact hsub i entry hentry
    obtain ⟨handle', hmem, hbad⟩ := hbad
    obtain rfl | hmem := mem_cons.mp hmem
    · exact absurd hbad hhead
    · exact ⟨handle', hmem, hbad⟩

end Listed

def childLookup (s : State Pid Obj) (parent : Pid) (handles : Option (List Handle))
    (stdHandles : Fin 3 → Handle) (table : HandleTable Obj) : Prop :=
  match handles with
  | none => ∀ i, table.lookup i = (s.lookup (some parent, i)).filter inheritable
  | some handles => ∀ i,
      (Listed parent (handles ++ List.ofFn stdHandles) i →
        table.lookup i = (s.lookup (some parent, i)).filter inheritable) ∧
      (¬Listed parent (handles ++ List.ofFn stdHandles) i → table.lookup i = none)

def ListsGlobal (s : State Pid Obj) (parent : Pid) (handles : Option (List Handle))
    (stdHandles : Fin 3 → Handle) : Prop :=
  ∃ listed, handles = some listed ∧
    ∃ handle ∈ listed ++ List.ofFn stdHandles, InheritsGlobal s parent handle

section Child

variable {s : State Pid Obj} {parent : Pid} {handles : Option (List Handle)}
  {stdHandles : Fin 3 → Handle}

lemma inherited_eq (hparent : s.handles parent = some parentTable) (i : Nat) :
    parentTable.inherited i = (s.lookup (some parent, i)).filter inheritable := by
  have htable : s.tableOf (some parent) = some parentTable := hparent
  simp [State.lookup, htable, HandleTable.inherited]

lemma Listed.append {parent : Pid} {first second : List Handle} {i : Nat} :
    Listed parent (first ++ second) i ↔ Listed parent first i ∨ Listed parent second i := by
  unfold Listed
  simp only [mem_append, or_and_right, exists_or]

lemma copiedTable_spec (hs : s.Valid) (hparent : s.handles parent = some parentTable)
    (hgood : ¬ListsGlobal s parent handles stdHandles) :
    ∃ table, copiedTable s parent parentTable handles stdHandles = .ok table ∧ table.Valid ∧
      childLookup s parent handles stdHandles table := by
  have hvalid : parentTable.Valid := hs (some parent) _ hparent
  cases handles with
  | none =>
    obtain ⟨table, hcopy, hok, hlookup⟩ := copyCells_spec hvalid
    refine ⟨table, hcopy, hok, fun i => ?_⟩
    rw [hlookup, inherited_eq hparent]
  | some listed =>
    obtain ⟨table, hclear, hclean, hlen, hnone⟩ := clearCells_spec hvalid
    have hlocal : ∀ handle ∈ listed ++ List.ofFn stdHandles, ¬InheritsGlobal s parent handle :=
      fun handle hmem hbad => hgood ⟨listed, rfl, handle, hmem, hbad⟩
    obtain ⟨table₁, hfirst, hclean₁, hlen₁, hsub₁, hlookup₁⟩ :=
      inheritHandles_spec hs hparent hclean hlen (fun i entry h => by rw [hnone i] at h; cases h)
        listed fun handle hmem => hlocal handle (mem_append_left _ hmem)
    obtain ⟨table₂, hsecond, hclean₂, _, _, hlookup₂⟩ :=
      inheritHandles_spec hs hparent hclean₁ hlen₁ hsub₁ (List.ofFn stdHandles)
        fun handle hmem => hlocal handle (mem_append_right _ hmem)
    refine ⟨table₂, ?_, hclean₂.valid, fun i => ⟨fun hin => ?_, fun hout => ?_⟩⟩
    · simp only [copiedTable, hclear, hfirst, hsecond]
    · rw [← inherited_eq hparent]
      by_cases hlater : Listed parent (List.ofFn stdHandles) i
      · exact (hlookup₂ i).1 hlater
      · rw [(hlookup₂ i).2 hlater]
        exact (hlookup₁ i).1 ((Listed.append.mp hin).resolve_right hlater)
    · rw [Listed.append, not_or] at hout
      rw [(hlookup₂ i).2 hout.2, (hlookup₁ i).2 hout.1, hnone i]

lemma copiedTable_global (hs : s.Valid) (hparent : s.handles parent = some parentTable)
    (hbad : ListsGlobal s parent handles stdHandles) :
    copiedTable s parent parentTable handles stdHandles = .error .outOfBounds := by
  have hvalid : parentTable.Valid := hs (some parent) _ hparent
  obtain ⟨listed, rfl, handle, hmem, hglobal⟩ := hbad
  obtain ⟨table, hclear, hclean, hlen, hnone⟩ := clearCells_spec hvalid
  have hsub : ∀ i entry, table.lookup i = some entry → parentTable.inherited i = some entry :=
    fun i entry h => by rw [hnone i] at h; cases h
  by_cases hfirst : ∃ handle ∈ listed, InheritsGlobal s parent handle
  · have herror := inheritHandles_global hs hparent hclean hlen hsub hfirst
    simp only [copiedTable, hclear, herror]
  obtain ⟨table₁, hok, hclean₁, hlen₁, hsub₁, _⟩ :=
    inheritHandles_spec hs hparent hclean hlen hsub listed
      fun handle hmem hbad => hfirst ⟨handle, hmem, hbad⟩
  have hsecond : ∃ handle ∈ List.ofFn stdHandles, InheritsGlobal s parent handle := by
    obtain hmem | hmem := mem_append.mp hmem
    · exact absurd ⟨handle, hmem, hglobal⟩ hfirst
    · exact ⟨handle, hmem, hglobal⟩
  have herror := inheritHandles_global hs hparent hclean₁ hlen₁ hsub₁ hsecond
  simp only [copiedTable, hclear, hok, herror]

theorem copyHandleTable_spec (hs : s.Valid) (env : Env Obj) (parent : Pid)
    (handles : Option (List Handle)) (stdHandles : Fin 3 → Handle)
    (hgood : env.allocOk = true → ¬ListsGlobal s parent handles stdHandles) :
    copyHandleTable env s parent handles stdHandles = .error .aborted ∨
      copyHandleTable env s parent handles stdHandles = .ok none ∨
      ∃ table, copyHandleTable env s parent handles stdHandles = .ok (some table) ∧
        table.Valid ∧ childLookup s parent handles stdHandles table := by
  unfold copyHandleTable
  cases hparent : s.handles parent with
  | none => exact .inl rfl
  | some parentTable =>
    right
    cases halloc : env.allocOk with
    | false => exact .inl rfl
    | true =>
      right
      obtain ⟨table, hcopy, hvalid, hlookup⟩ := copiedTable_spec hs hparent (hgood halloc)
      obtain ⟨table', hshrink, hvalid', hsame⟩ := shrinkHandleTable_spec hvalid env.reallocOk
      simp only [Bool.true_eq_false, if_false, hcopy, hshrink]
      refine ⟨table', rfl, hvalid', ?_⟩
      unfold childLookup at hlookup ⊢
      rwa [hsame]

lemma copyHandleTable_global (hs : s.Valid) {env : Env Obj} (halloc : env.allocOk = true)
    (hparent : (s.handles parent).isSome) (hbad : ListsGlobal s parent handles stdHandles) :
    copyHandleTable env s parent handles stdHandles = .error .outOfBounds := by
  obtain ⟨parentTable, hparent⟩ := Option.isSome_iff_exists.mp hparent
  simp only [copyHandleTable, hparent, halloc, Bool.true_eq_false, if_false,
    copiedTable_global hs hparent hbad]

end Child

end WineForge.Handles
