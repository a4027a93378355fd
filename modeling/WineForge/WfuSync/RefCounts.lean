import WineForge.Library.Transition

/-!
# The reference counts of the shared states

The slots of the shared pages are taken in the order of a 32-bit counter. The 16-bit count of a slot
is raised by every request for the index of an object and lowered when the object is destroyed.
-/

namespace WineForge.WfuSync

open Function Library

/-- `slot` is the field `shm_idx` of a `struct wfusync`. The histories count what was done to a slot
since it was allocated. -/
structure RefState (Obj : Type*) where
  refcount : ℕ → ℕ
  next : ℕ
  slot : Obj → Option ℕ
  /-- An assertion has failed. -/
  crashed : Bool
  -- history
  grabs : ℕ → ℕ
  drops : ℕ → ℕ

inductive RefAct (Obj : Type*)
  | createWfusync (o : Obj)
  | allocWaitSlot
  | getInprocSyncFd (o : Obj)
  | destroy (o : Obj)

variable {Obj : Type*} [DecidableEq Obj]

namespace RefState

/-- `alloc_state_slot` and the initialization of the slot. -/
def allocStateSlot (s : RefState Obj) : RefState Obj :=
  { s with
    refcount := update s.refcount s.next 1
    next := (s.next + 1) % 2 ^ 32
    grabs := update s.grabs s.next 0
    drops := update s.drops s.next 0 }

def wfusyncGrabObject (s : RefState Obj) (idx : ℕ) : RefState Obj :=
  if s.refcount idx = 0 then { s with crashed := true }
  else
    { s with
      refcount := update s.refcount idx ((s.refcount idx + 1) % 2 ^ 16)
      grabs := update s.grabs idx (s.grabs idx + 1) }

def wfusyncDestroy (s : RefState Obj) (idx : ℕ) : RefState Obj :=
  if s.refcount idx = 0 then { s with crashed := true }
  else
    { s with
      refcount := update s.refcount idx (s.refcount idx - 1)
      drops := update s.drops idx (s.drops idx + 1) }

end RefState

/-- A server whose assertion has failed does nothing. An object without a slot is not shared. -/
def refStep (s : RefState Obj) (a : RefAct Obj) : Option (RefState Obj) :=
  if s.crashed then none
  else
    match a with
    | .createWfusync o =>
      if s.slot o = none then
        some { s.allocStateSlot with slot := update s.slot o (some s.next) }
      else none
    | .allocWaitSlot => some s.allocStateSlot
    | .getInprocSyncFd o =>
      match s.slot o with
      | none => some s
      | some idx => some (s.wfusyncGrabObject idx)
    | .destroy o =>
      match s.slot o with
      | none => some s
      | some idx =>
        some { s.wfusyncDestroy idx with slot := update s.slot o none }

def RefState.Initial (s : RefState Obj) : Prop :=
  s.next = 1 ∧ (∀ o, s.slot o = none) ∧ s.crashed = false

def RefState.target (s : RefState Obj) : RefAct Obj → Option ℕ
  | .getInprocSyncFd o | .destroy o => s.slot o
  | .createWfusync _ | .allocWaitSlot => none

/-- The slot of the object has not been grabbed so often, nor have other objects on the slot been
destroyed so often, that the count is a multiple of 2^16. -/
def RefState.Counted (s : RefState Obj) (a : RefAct Obj) : Prop :=
  ∀ idx ∈ s.target a, (1 + (s.grabs idx : Int) - s.drops idx) % 2 ^ 16 ≠ 0

variable {s s' : RefState Obj}

def RefState.Inv (s : RefState Obj) : Prop :=
  ∀ o, ∀ idx ∈ s.slot o, (s.refcount idx : Int) = (1 + (s.grabs idx : Int) - s.drops idx) % 2 ^ 16

omit [DecidableEq Obj] in
lemma RefState.Inv.alloc (h : s.Inv) : s.allocStateSlot.Inv := by
  intro o idx hidx
  by_cases heq : idx = s.next
  · simp [allocStateSlot, heq]
  · simpa [allocStateSlot, heq] using h o idx hidx

omit [DecidableEq Obj] in
lemma RefState.Inv.grab (h : s.Inv) {o : Obj} {idx : ℕ} (ho : s.slot o = some idx) :
    (s.wfusyncGrabObject idx).Inv := by
  have hcount := h o idx ho
  unfold wfusyncGrabObject
  split
  · exact h
  intro o' idx' hidx'
  by_cases heq : idx' = idx
  · simp only [heq, update_self]
    omega
  · simpa [heq] using h o' idx' hidx'

omit [DecidableEq Obj] in
lemma RefState.Inv.drop (h : s.Inv) {o : Obj} {idx : ℕ} (ho : s.slot o = some idx) :
    (s.wfusyncDestroy idx).Inv := by
  have hcount := h o idx ho
  unfold wfusyncDestroy
  split
  · exact h
  intro o' idx' hidx'
  by_cases heq : idx' = idx
  · simp only [heq, update_self]
    omega
  · simpa [heq] using h o' idx' hidx'

lemma RefState.Inv.forget (h : s.Inv) (o : Obj) :
    RefState.Inv { s with slot := update s.slot o none } := by
  intro o' idx hidx
  by_cases heq : o' = o
  · simp [heq] at hidx
  · simp only [update_of_ne heq] at hidx
    exact h o' idx hidx

/-- A step keeps the count, and an assertion fails in it exactly when the count of the slot is a
multiple of 2^16. -/
lemma RefState.Inv.step {a : RefAct Obj} (h : s.Inv) (hstep : refStep s a = some s') :
    s'.Inv ∧ (s'.crashed = true ↔ ¬ s.Counted a) := by
  unfold refStep at hstep
  split at hstep
  · simp at hstep
  rename_i hcrashed
  have hquiet : s.target a = none → (s.crashed = true ↔ ¬ s.Counted a) := by
    intro htarget
    refine iff_of_false hcrashed (not_not_intro fun idx hidx => ?_)
    rw [htarget] at hidx
    simp at hidx
  have hassert : ∀ idx, s.target a = some idx →
      (s.refcount idx : Int) = (1 + (s.grabs idx : Int) - s.drops idx) % 2 ^ 16 →
      (s.refcount idx = 0 ↔ ¬ s.Counted a) := by
    intro idx htarget hcount
    have hiff : s.Counted a ↔ (1 + (s.grabs idx : Int) - s.drops idx) % 2 ^ 16 ≠ 0 := by
      unfold Counted
      rw [htarget]
      simp
    rw [hiff, ← hcount]
    omega
  cases a with
  | createWfusync o =>
    dsimp only at hstep
    split at hstep
    · cases hstep
      refine ⟨fun o' idx hidx => ?_, hquiet rfl⟩
      by_cases heq : o' = o
      · simp only [heq, update_self, Option.mem_some_iff] at hidx
        simp [allocStateSlot, ← hidx]
      · simp only [update_of_ne heq] at hidx
        exact h.alloc o' idx hidx
    · simp at hstep
  | allocWaitSlot =>
    cases hstep
    exact ⟨h.alloc, hquiet rfl⟩
  | getInprocSyncFd o =>
    dsimp only at hstep
    split at hstep
    · rename_i ho
      cases hstep
      exact ⟨h, hquiet ho⟩
    rename_i idx ho
    cases hstep
    refine ⟨h.grab ho, ?_⟩
    rw [← hassert idx ho (h o idx ho)]
    unfold wfusyncGrabObject
    split
    · rename_i hzero
      exact iff_of_true rfl hzero
    · rename_i hzero
      exact iff_of_false hcrashed hzero
  | destroy o =>
    dsimp only at hstep
    split at hstep
    · rename_i ho
      cases hstep
      exact ⟨h, hquiet ho⟩
    rename_i idx ho
    cases hstep
    have hslot : (s.wfusyncDestroy idx).slot = s.slot := by
      unfold wfusyncDestroy
      split <;> rfl
    refine ⟨hslot ▸ (h.drop ho).forget o, ?_⟩
    rw [← hassert idx ho (h o idx ho)]
    unfold wfusyncDestroy
    split
    · rename_i hzero
      exact iff_of_true rfl hzero
    · rename_i hzero
      exact iff_of_false hcrashed hzero

omit [DecidableEq Obj] in
lemma RefState.Inv.initial (h : s.Initial) : s.Inv := by
  intro o idx hidx
  rw [h.2.1 o] at hidx
  simp at hidx

/-- No assertion fails in a run whose requests and destructions all find a count that is not a
multiple of 2^16, and every other one fails. -/
theorem refcount_asserts :
    (∀ s : RefState Obj, Reaches refStep RefState.Counted RefState.Initial s → s.crashed = false) ∧
      ∀ (s s' : RefState Obj) (a : RefAct Obj), Reachable refStep RefState.Initial s →
        refStep s a = some s' → (s'.crashed = true ↔ ¬ s.Counted a) := by
  have hinv : ∀ s : RefState Obj, Reachable refStep RefState.Initial s → s.Inv := by
    intro s hs
    exact hs.invariant (fun _ => .initial) fun _ _ _ h _ hstep => (h.step hstep).1
  constructor
  · intro s hs
    cases hs with
    | start hinitial => exact hinitial.2.2
    | next hr hcounted hstep =>
      have hiff := ((hinv _ hr.reachable).step hstep).2
      rw [← Bool.not_eq_true]
      exact fun hcrashed => hiff.mp hcrashed hcounted
  · intro s s' a hs hstep
    exact ((hinv s hs).step hstep).2

/-- An object is created, requested once and destroyed. -/
theorem refcount_asserts_once : ∃ s : RefState Unit,
    Reaches refStep RefState.Counted RefState.Initial s ∧ s.drops 1 = 1 ∧ s.crashed = false := by
  have hstart : Reaches refStep RefState.Counted RefState.Initial
      (⟨fun _ => 0, 1, fun _ => none, false, fun _ => 0, fun _ => 0⟩ : RefState Unit) :=
    .start ⟨rfl, fun _ => rfl, rfl⟩
  have hcreated := hstart.next (a := .createWfusync ()) (by simp [RefState.Counted, RefState.target]) rfl
  have hgrabbed := hcreated.next (a := .getInprocSyncFd ())
    (by simp [RefState.Counted, RefState.target, RefState.allocStateSlot]) rfl
  have hdestroyed := hgrabbed.next (a := .destroy ())
    (by simp [RefState.Counted, RefState.target, RefState.allocStateSlot, RefState.wfusyncGrabObject])
    rfl
  exact ⟨_, hdestroyed, rfl, refcount_asserts.1 _ hdestroyed⟩

/-- The request number 65536 for the index of an object finds the count 0. -/
theorem refcount_wraps :
    ∃ s : RefState Unit, Reachable refStep RefState.Initial s ∧ s.crashed = true := by
  have hgrabs : ∀ k < 2 ^ 16, ∃ s : RefState Unit, Reachable refStep RefState.Initial s ∧
      s.slot () = some 1 ∧ s.crashed = false ∧ s.refcount 1 = (1 + k) % 2 ^ 16 := by
    intro k hk
    induction k with
    | zero =>
      have hstart : Reachable refStep RefState.Initial
          (⟨fun _ => 0, 1, fun _ => none, false, fun _ => 0, fun _ => 0⟩ : RefState Unit) :=
        .start ⟨rfl, fun _ => rfl, rfl⟩
      exact ⟨_, .next hstart (a := .createWfusync ()) trivial rfl, rfl, rfl, rfl⟩
    | succ k ih =>
      obtain ⟨s, hs, hslot, hcrashed, hcount⟩ := ih (by omega)
      have hstep : refStep s (.getInprocSyncFd ()) = some (s.wfusyncGrabObject 1) := by
        rw [refStep, if_neg (by rw [hcrashed]; decide), hslot]
      have hgrab : s.wfusyncGrabObject 1 =
          { s with
            refcount := update s.refcount 1 ((s.refcount 1 + 1) % 2 ^ 16)
            grabs := update s.grabs 1 (s.grabs 1 + 1) } := if_neg (by omega)
      refine ⟨_, .next hs trivial hstep, ?_, ?_, ?_⟩
      · rw [hgrab]
        exact hslot
      · rw [hgrab]
        exact hcrashed
      · rw [hgrab]
        dsimp only
        rw [update_self, hcount]
        omega
  obtain ⟨s, hs, hslot, hcrashed, hcount⟩ := hgrabs (2 ^ 16 - 1) (by omega)
  have hstep : refStep s (.getInprocSyncFd ()) = some (s.wfusyncGrabObject 1) := by
    rw [refStep, if_neg (by rw [hcrashed]; decide), hslot]
  refine ⟨_, .next hs trivial hstep, ?_⟩
  rw [RefState.wfusyncGrabObject, if_pos (by omega)]

end WineForge.WfuSync
