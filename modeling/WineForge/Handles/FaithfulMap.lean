import WineForge.Handles.Inherit
import WineForge.Library.Transition

/-!
# Handle tables are faithful maps

In runs that never close an open global handle, and never list an inheritable one for a child,
every operation stays inside its tables and changes the map in the slots it is meant to change.
The two exceptions compute the index from the obfuscated value, which lies outside every table.
-/

namespace WineForge.Handles

open Function WineForge.Library

variable {Pid Obj : Type*} {process : Pid}

lemma lookup_of_none {s : State Pid Obj} (h : s.handles process = none)
    (i : Nat) : s.lookup (some process, i) = none := by
  have htable : s.tableOf (some process) = none := h
  simp [State.lookup, htable]

lemma initial_valid {s : State Pid Obj} (h : Initial s) : s.Valid := by
  intro ref table htable
  cases ref with
  | none =>
    have hnone : s.tableOf none = none := h.1
    rw [hnone] at htable
    cases htable
  | some p =>
    have hnone : s.tableOf (some p) = none := h.2 p
    rw [hnone] at htable
    cases htable

def HoldsObject (s : State Pid Obj) (slot : Slot Pid) (obj : Obj) (access : AccessMask) : Prop :=
  ∃ stored, s.lookup slot = some ⟨obj, stored⟩ ∧ SameRights stored access

variable {s s' : State Pid Obj} {access : AccessMask} {slot : Slot Pid} {obj : Obj}

lemma HoldsObject.of_eq (h : HoldsObject s slot obj access) (heq : s'.lookup slot = s.lookup slot) :
    HoldsObject s' slot obj access := by
  obtain ⟨stored, hstored, hrights⟩ := h
  exact ⟨stored, heq.trans hstored, hrights⟩

def Designates (s : State Pid Obj) (process : Pid) (handle : Handle) (obj : Obj)
    (access : AccessMask) : Prop :=
  ∃ found, getHandle s process handle = .ok (some found) ∧ found.entry.ptr = obj ∧
    SameRights found.entry.access access

variable {handle : Handle}

lemma HoldsObject.designates {s : State Pid Obj} (hs : s.Valid) (h : HoldsObject s slot obj access)
    (hslot : slotOf process handle = some slot) : Designates s process handle obj access := by
  obtain ⟨stored, hstored, hrights⟩ := h
  refine ⟨⟨slot.1, slot.2, ⟨obj, stored⟩⟩, ?_, rfl, hrights⟩
  rw [getHandle_eq hs, hslot]
  simp [hstored]

variable [DecidableEq Pid]

def TakesNoGlobalIndex (s : State Pid Obj) (a : Env Obj × Op Pid Obj) : Prop :=
  match a.2 with
  | .close process handle => ¬(handleIsGlobal handle = true ∧ Closes s a.1 process handle)
  | .copyTable process parent handles stdHandles =>
    s.handles process = none → (s.handles parent).isSome → a.1.allocOk = true →
      ¬ListsGlobal s parent handles stdHandles
  | _ => True

def Effect (env : Env Obj) (s s' : State Pid Obj) : Op Pid Obj → Result → Prop
  | .alloc process obj access _, .handle handle =>
    (handle = 0 ∧ s'.lookup = s.lookup) ∨
      Allocated s.lookup s'.lookup (some process) handle obj (uncheckedAccess env obj access)
  | .allocChecked process obj access _, .handle handle =>
    (handle = 0 ∧ s'.lookup = s.lookup) ∨
      ∃ granted, checkedAccess env obj access = some granted ∧
        Allocated s.lookup s'.lookup (some process) handle obj granted
  | .close process handle, .status status =>
    (status ≠ .success ∧ s'.lookup = s.lookup) ∨
      (status = .success ∧ ∃ slot, slotOf process handle = some slot ∧ (s.lookup slot).isSome ∧
        s'.lookup = update s.lookup slot none)
  | .setFlags process handle _ _, .flags _ =>
    s'.lookup = s.lookup ∨
      ∃ slot entry stored, slotOf process handle = some slot ∧ s.lookup slot = some entry ∧
        SameRights stored entry.access ∧
        s'.lookup = update s.lookup slot (some ⟨entry.ptr, stored⟩)
  | .duplicate src srcHandle dst access _ options, .handle handle =>
    DuplicateHandleOutcome env s src srcHandle dst access options s' handle
  | .newTable process, .done => s.handles process = none ∧ s'.lookup = s.lookup
  | .copyTable process parent handles stdHandles, .done =>
    s.handles process = none ∧ (s'.lookup = s.lookup ∨
      ∃ table, childLookup s parent handles stdHandles table ∧
        ∀ slot, s'.lookup slot = if slot.1 = some process then table.lookup slot.2
          else s.lookup slot)
  | .closeAll process, .done =>
    ∀ slot, s'.lookup slot = if slot.1 = some process then none else s.lookup slot
  | _, _ => False

def BadAccess (result : Except Fault (State Pid Obj × Result)) : Prop :=
  result = .error .outOfBounds ∨ result = .error .uninitialised

def Behaves (s : State Pid Obj) (env : Env Obj) (op : Op Pid Obj) : Prop :=
  exec s env op = .error .aborted ∨
    ∃ s' r, exec s env op = .ok (s', r) ∧ s'.Valid ∧ Effect env s s' op r

lemma readCells_ok {table : HandleTable Obj} (h : table.Valid) (n : Nat)
    (hn : (n : Int) ≤ table.last + 1) : readCells table n = .ok () := by
  induction n with
  | zero => rfl
  | succ n ih =>
    rw [readCells, readPtr_eq h (by omega)]
    exact ih (by omega)

lemma closeProcessHandles_spec {s : State Pid Obj} (hs : s.Valid) (process : Pid) :
    ∃ s', closeProcessHandles s process = .ok s' ∧ s'.Valid ∧
      ∀ slot, s'.lookup slot = if slot.1 = some process then none else s.lookup slot := by
  unfold closeProcessHandles
  cases htable : s.handles process with
  | none =>
    refine ⟨s, rfl, hs, ?_⟩
    rintro ⟨ref, i⟩
    dsimp only
    split
    · rename_i href
      rw [href, lookup_of_none htable]
    · rfl
  | some table =>
    have hge := (hs (some process) _ htable).last_ge
    have hread := readCells_ok (hs (some process) _ htable) (table.last + 1).toNat (by omega)
    have htables : ∀ ref, State.tableOf
        { s with handles := update s.handles process none } ref =
          if ref = some process then none else s.tableOf ref := by
      rintro (_ | p)
      · simp [State.tableOf]
      · by_cases hp : p = process
        · simp [State.tableOf, hp]
        · simp [State.tableOf, hp]
    dsimp only
    rw [hread]
    refine ⟨_, rfl, ?_, ?_⟩
    · intro ref table' h
      rw [htables] at h
      split at h
      · cases h
      · exact hs ref table' h
    intro slot
    unfold State.lookup
    rw [htables]
    split <;> rfl

lemma newTable_behaves {s : State Pid Obj} (hs : s.Valid) (env : Env Obj) (process : Pid) :
    Behaves s env (.newTable process) := by
  cases hnone : s.handles process with
  | some table => exact .inl (exec_occupied env hnone).1
  | none =>
    right
    cases halloc : env.allocOk with
    | false =>
      refine ⟨s, .done, ?_, hs, hnone, rfl⟩
      simp [exec, hnone, halloc]
    | true =>
      refine ⟨s.setTable (allocHandleTable 0) (some process), .done, ?_,
        setTable_valid hs (allocHandleTable_valid (Nat.zero_le _)) _, hnone, ?_⟩
      · simp [exec, hnone, halloc]
      · apply setTable_same
        funext i
        rw [allocHandleTable_lookup, lookup_of_none hnone]

lemma copyTable_behaves {s : State Pid Obj} (hs : s.Valid) (env : Env Obj) (process parent : Pid)
    (handles : Option (List Handle)) (stdHandles : Fin 3 → Handle)
    (hgood : TakesNoGlobalIndex s (env, .copyTable process parent handles stdHandles)) :
    Behaves s env (.copyTable process parent handles stdHandles) := by
  cases hnone : s.handles process with
  | some table => exact .inl ((exec_occupied env hnone).2 parent handles stdHandles)
  | none =>
    by_cases hparent : (s.handles parent).isSome
    · obtain habort | hfail | ⟨table, hcopy, hvalid, hlookup⟩ :=
        copyHandleTable_spec hs env parent handles stdHandles (hgood hnone hparent)
      · left
        simp [exec, hnone, habort]
      · refine .inr ⟨s, .done, ?_, hs, hnone, .inl rfl⟩
        simp [exec, hnone, hfail]
      · refine .inr ⟨s.setTable table (some process), .done, ?_, setTable_valid hs hvalid _,
          hnone, .inr ⟨table, hlookup, setTable_lookup s table (some process)⟩⟩
        simp [exec, hnone, hcopy]
    · left
      have hparent' : s.handles parent = none := by simpa using hparent
      simp [exec, hnone, copyHandleTable, hparent']

lemma close_behaves {s : State Pid Obj} (hs : s.Valid) (env : Env Obj) (process : Pid)
    (handle : Handle) (hgood : TakesNoGlobalIndex s (env, .close process handle)) :
    Behaves s env (.close process handle) := by
  right
  by_cases hcloses : Closes s env process handle
  · have hlocal : handleIsGlobal handle = false := by
      by_contra hglobal
      exact hgood ⟨by simpa using hglobal, hcloses⟩
    obtain ⟨s', slot, hclose, hvalid, hslot, hopen, hupdate⟩ :=
      closeHandle_closes hs hlocal hcloses
    refine ⟨s', .status .success, ?_, hvalid, .inr ⟨rfl, slot, hslot, hopen, hupdate⟩⟩
    simp [exec, hclose]
  · obtain ⟨status, hclose, hne⟩ := closeHandle_refused hs hcloses
    refine ⟨s, .status status, ?_, hs, .inl ⟨hne, rfl⟩⟩
    simp [exec, hclose]

lemma alloc_behaves {s : State Pid Obj} (hs : s.Valid) (env : Env Obj) (process : Pid) (obj : Obj)
    (access : AccessMask) (attr : BitVec 32) :
    Behaves s env (.alloc process obj access attr) := by
  obtain habort | ⟨s', handle, halloc, hout⟩ :=
    allocHandleEntry_spec hs env process obj (uncheckedAccess env obj access) attr
  · left
    simp [exec, allocHandleNoAccessCheck, habort, withHandle]
  · refine .inr ⟨s', .handle handle, ?_, hout.valid, hout.outcome⟩
    simp [exec, allocHandleNoAccessCheck, halloc, withHandle]

lemma allocChecked_behaves {s : State Pid Obj} (hs : s.Valid) (env : Env Obj) (process : Pid)
    (obj : Obj) (access : AccessMask) (attr : BitVec 32) :
    Behaves s env (.allocChecked process obj access attr) := by
  cases hchecked : checkedAccess env obj access with
  | none =>
    refine .inr ⟨s, .handle 0, ?_, hs, .inl ⟨rfl, rfl⟩⟩
    simp [exec, allocHandle, hchecked, withHandle]
  | some granted =>
    obtain habort | ⟨s', handle, halloc, hout⟩ :=
      allocHandleEntry_spec hs env process obj granted attr
    · left
      simp [exec, allocHandle, hchecked, habort, withHandle]
    refine .inr ⟨s', .handle handle, ?_, hout.valid, ?_⟩
    · simp [exec, allocHandle, hchecked, halloc, withHandle]
    · obtain hfail | halloc := hout.outcome
      · exact .inl hfail
      · exact .inr ⟨granted, hchecked, halloc⟩

/-- The step lemma: a step that takes no index from an obfuscated handle has its effect. -/
theorem exec_behaves {s : State Pid Obj} (hs : s.Valid) (env : Env Obj) (op : Op Pid Obj)
    (hgood : TakesNoGlobalIndex s (env, op)) : Behaves s env op := by
  cases op with
  | alloc process obj access attr => exact alloc_behaves hs env process obj access attr
  | allocChecked process obj access attr => exact allocChecked_behaves hs env process obj access attr
  | close process handle => exact close_behaves hs env process handle hgood
  | setFlags process handle mask flags =>
    obtain ⟨s', old, hset, hout⟩ := setHandleFlags_spec hs env process handle mask flags
    refine .inr ⟨s', .flags old, ?_, hout.valid, hout.outcome⟩
    simp [exec, hset]
  | duplicate src srcHandle dst access attr options =>
    obtain habort | ⟨s', handle, hdup, hout⟩ :=
      duplicateHandle_spec hs env src srcHandle dst access attr options
    · left
      simp [exec, habort, withHandle]
    · refine .inr ⟨s', .handle handle, ?_, hout.valid, hout⟩
      simp [exec, hdup, withHandle]
  | newTable process => exact newTable_behaves hs env process
  | copyTable process parent handles stdHandles =>
    exact copyTable_behaves hs env process parent handles stdHandles hgood
  | closeAll process =>
    obtain ⟨s', hclose, hvalid, hlookup⟩ := closeProcessHandles_spec hs process
    refine .inr ⟨s', .done, ?_, hvalid, hlookup⟩
    simp [exec, hclose]

variable {op : Op Pid Obj} {env : Env Obj}

lemma exec_global {s : State Pid Obj} (hs : s.Valid)
    (hbad : ¬TakesNoGlobalIndex s (env, op)) : exec s env op = .error .outOfBounds := by
  cases op with
  | close process handle =>
    obtain ⟨hglobal, hcloses⟩ := not_not.mp hbad
    simp [exec, closeHandle_global hs hglobal hcloses]
  | copyTable process parent handles stdHandles =>
    simp only [TakesNoGlobalIndex, not_forall, not_not] at hbad
    obtain ⟨hnone, hparent, halloc, hlists⟩ := hbad
    simp [exec, hnone, copyHandleTable_global hs halloc hparent hlists]
  | alloc | allocChecked | setFlags | duplicate | newTable | closeAll => exact absurd trivial hbad

theorem badAccess_iff {s : State Pid Obj} (hs : s.Valid) (env : Env Obj) (op : Op Pid Obj) :
    ¬BadAccess (exec s env op) ↔ TakesNoGlobalIndex s (env, op) := by
  constructor
  · intro h
    by_contra hbad
    exact h (.inl (exec_global hs hbad))
  · intro hgood
    obtain habort | ⟨s', r, hok, _⟩ := exec_behaves hs env op hgood
    · simp [BadAccess, habort]
    · simp [BadAccess, hok]

lemma step_eq_some {a : Env Obj × Op Pid Obj} (h : step s a = some s') :
    ∃ r, exec s a.1 a.2 = .ok (s', r) := by
  unfold step at h
  cases hexec : exec s a.1 a.2 with
  | error fault =>
    rw [hexec] at h
    cases h
  | ok result =>
    rw [hexec] at h
    injection h with h
    exact ⟨result.2, by rw [← h]⟩

lemma exec_effect (hs : s.Valid)
    {r : Result} (h : exec s env op = .ok (s', r)) : s'.Valid ∧ Effect env s s' op r := by
  have hgood : TakesNoGlobalIndex s (env, op) := by
    by_contra hbad
    rw [exec_global hs hbad] at h
    cases h
  obtain habort | ⟨s'', r', hok, hvalid, heffect⟩ := exec_behaves hs env op hgood
  · rw [habort] at h
    cases h
  rw [hok] at h
  injection h with h
  injection h with hstate hresult
  subst hstate hresult
  exact ⟨hvalid, heffect⟩

lemma Reaches.valid {good : State Pid Obj → Env Obj × Op Pid Obj → Prop}
    {init : State Pid Obj → Prop} (hinit : ∀ s, init s → s.Valid) {s : State Pid Obj}
    (h : Reaches step good init s) : s.Valid := by
  apply h.invariant hinit
  intro t a t' ht _ hstep
  obtain ⟨r, hexec⟩ := step_eq_some hstep
  exact (exec_effect ht hexec).1

/-- The operation closes the slot: itself, with its process, or as the source of a duplicate. -/
def Releases (slot : Slot Pid) : Op Pid Obj → Prop
  | .close process handle => slotOf process handle = some slot
  | .closeAll process => slot.1 = some process
  | .duplicate src srcHandle dst _ _ options =>
    options &&& duplicateCloseSource ≠ 0 ∧ some src = dst ∧ slotOf src srcHandle = some slot
  | _ => False

lemma HoldsObject.allocated (h : HoldsObject s slot obj access) {ref : Option Pid}
    {newObj : Obj} {newAccess : AccessMask}
    (halloc : Allocated s.lookup s'.lookup ref handle newObj newAccess) :
    HoldsObject s' slot obj access := by
  obtain ⟨i, stored, _, _, hnone, _, hupdate⟩ := halloc
  apply h.of_eq
  rw [hupdate, update_of_ne]
  rintro rfl
  obtain ⟨stored', hstored', _⟩ := h
  rw [hnone] at hstored'
  cases hstored'

lemma HoldsObject.step (h : HoldsObject s slot obj access) {r : Result}
    (heffect : Effect env s s' op r) (hkeep : ¬Releases slot op) :
    HoldsObject s' slot obj access := by
  cases op with
  | alloc process newObj newAccess attr =>
    cases r with
    | handle handle =>
      obtain ⟨_, hsame⟩ | halloc := heffect
      · exact h.of_eq (by rw [hsame])
      · exact h.allocated halloc
    | _ => exact heffect.elim
  | allocChecked process newObj newAccess attr =>
    cases r with
    | handle handle =>
      obtain ⟨_, hsame⟩ | ⟨granted, _, halloc⟩ := heffect
      · exact h.of_eq (by rw [hsame])
      · exact h.allocated halloc
    | _ => exact heffect.elim
  | close process handle =>
    cases r with
    | status status =>
      obtain ⟨_, hsame⟩ | ⟨_, slot', hslot', _, hupdate⟩ := heffect
      · exact h.of_eq (by rw [hsame])
      apply h.of_eq
      rw [hupdate, update_of_ne]
      rintro rfl
      exact hkeep hslot'
    | _ => exact heffect.elim
  | setFlags process handle mask flags =>
    cases r with
    | flags old =>
      obtain hsame | ⟨slot', entry, stored, _, hentry, hrights, hupdate⟩ := heffect
      · exact h.of_eq (by rw [hsame])
      by_cases hslot : slot = slot'
      · -- only the reserved flags of this slot change
        subst hslot
        obtain ⟨stored', hstored', hrights'⟩ := h
        rw [hstored'] at hentry
        injection hentry with hentry
        subst hentry
        exact ⟨stored, by rw [hupdate, update_self], hrights.trans hrights'⟩
      · exact h.of_eq (by rw [hupdate, update_of_ne hslot])
    | _ => exact heffect.elim
  | duplicate src srcHandle dst newAccess attr options =>
    cases r with
    | handle handle =>
      obtain ⟨_, hsame⟩ | ⟨_, _, _, _, _, hout⟩ := heffect.outcome
      · exact h.of_eq (by rw [hsame])
      obtain ⟨_, hsame⟩ | ⟨granted, _, halloc | ⟨_, hclose, hdst, hreused⟩⟩ := hout.outcome
      · exact h.of_eq (by rw [hsame])
      · exact h.allocated halloc
      obtain ⟨slot', entry, stored, hslot', _, _, hupdate⟩ := hreused
      apply h.of_eq
      rw [hupdate, update_of_ne]
      rintro rfl
      exact hkeep ⟨hclose, hdst, hslot'⟩
    | _ => exact heffect.elim
  | newTable process =>
    cases r with
    | done => exact h.of_eq (by rw [heffect.2])
    | _ => exact heffect.elim
  | copyTable process parent handles stdHandles =>
    cases r with
    | done =>
      obtain ⟨hnone, hsame | ⟨table, _, htable⟩⟩ := heffect
      · exact h.of_eq (by rw [hsame])
      apply h.of_eq
      rw [htable, if_neg]
      intro hslot
      -- the child had no table before
      obtain ⟨stored, hstored, _⟩ := h
      obtain ⟨ref, i⟩ := slot
      dsimp only at hslot
      rw [hslot, lookup_of_none hnone] at hstored
      cases hstored
    | _ => exact heffect.elim
  | closeAll process =>
    cases r with
    | done =>
      apply h.of_eq
      rw [heffect slot, if_neg]
      exact hkeep
    | _ => exact heffect.elim

/-- Steps that neither take an index from an obfuscated handle nor release the slot of `handle`. -/
def Keeps (process : Pid) (handle : Handle) (s : State Pid Obj) (a : Env Obj × Op Pid Obj) : Prop :=
  TakesNoGlobalIndex s a ∧ ∀ slot, slotOf process handle = some slot → ¬Releases slot a.2

lemma allocated_designates {s s₁ t : State Pid Obj} (hs₁ : s₁.Valid) {ref : Option Pid}
    (halloc : Allocated s.lookup s₁.lookup ref handle obj access)
    (href : ref = none ∨ ref = some process)
    (ht : Reaches step (Keeps process handle) (fun u => u = s₁) t) :
    Designates t process handle obj access := by
  obtain ⟨i, stored, hhandle, hi, _, hrights, hupdate⟩ := halloc
  have hslot : slotOf process handle = some (ref, i) := by
    rw [hhandle]
    exact slotOf_handleOf hi href
  have hvalid : t.Valid := Reaches.valid (fun u hu => hu ▸ hs₁) ht
  have hholds : HoldsObject t (ref, i) obj access := by
    apply ht.invariant_with (fun u hu => Reaches.valid (fun v hv => hv ▸ hs₁) hu)
    · rintro u rfl
      exact ⟨stored, by rw [hupdate, update_self], hrights⟩
    · intro u a u' hu hin hkeeps hstep
      obtain ⟨r, hexec⟩ := step_eq_some hstep
      exact hin.step (exec_effect hu hexec).2 (hkeeps.2 _ hslot)
  exact hholds.designates hvalid hslot

def plainEnv : Env Unit where
  mapObjAccess _ access := access
  checkObjectAccess _ _ access := some access
  hasCurrentToken := false
  magic _ := none
  closeAllowed := true
  allocOk := true
  reallocOk := true

def bare : State Bool Unit := ⟨fun _ => none, none⟩

def madeGlobal : List (Env Unit × Op Bool Unit) :=
  [(plainEnv, .newTable false), (plainEnv, .alloc false () 1 0),
    (plainEnv, .duplicate false 4 none 0 0 (duplicateSameAccess ||| duplicateMakeGlobal))]

def inherited : List (Env Unit × Op Bool Unit) :=
  madeGlobal ++ [(plainEnv, .setFlags false 0x544a4deb 1 1)]

def faultOf {α : Type*} : Except Fault α → Option Fault
  | .error fault => some fault
  | .ok _ => none

end WineForge.Handles
