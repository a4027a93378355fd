import Mathlib.Data.List.Nodup
import WineForge.Library.Transition
import WineForge.KeyedEvents.State

/-!
# The queues of the keyed events

A wait queue holds the threads that wait on its keyed event, each of them once, and every wait ends
once.
-/

namespace WineForge.KeyedEvents

open Function Library List Option

variable {T P : Type} {s s' : State T P} {t u : T} {w : KeyedWait} {status : Status}

structure Inv (s : State T P) : Prop where
  queued : ∀ o t, t ∈ s.queue o ↔ ∃ w, s.keyed t = some w ∧ w.object = o
  nodup : ∀ o, (s.queue o).Nodup
  fresh : ∀ t w, s.keyed t = some w → w.id < s.count ∧ s.outcome w.id = none
  distinct : ∀ t u w w', s.keyed t = some w → s.keyed u = some w' → w.id = w'.id → t = u
  bound : ∀ id o, s.outcome id = some o → id < s.count ∧ s.started o.thread = true
  running : ∀ t w, s.keyed t = some w → t ∈ s.threads (s.process t)
  started : ∀ p, ∀ t ∈ s.threads p, s.started t = true ∧ s.process t = p

/-- What the end of waits leaves as it is. The waits of the signal handler of one thread may end,
and any thread may be killed. -/
structure Ends (t : T) (s s' : State T P) : Prop where
  process : s'.process = s.process
  bypassProcSuspend : s'.bypassProcSuspend = s.bypassProcSuspend
  suspend : s'.suspend = s.suspend
  procSuspend : s'.procSuspend = s.procSuspend
  keyed : ∀ u, s'.keyed u = s.keyed u ∨ s'.keyed u = none
  nested : ∀ u ≠ t, s'.keyed u ≠ none → s'.nested u = s.nested u

lemma Ends.refl (t : T) (s : State T P) : Ends t s s :=
  ⟨rfl, rfl, rfl, rfl, fun _ => .inl rfl, fun _ _ _ => rfl⟩

lemma Ends.keyed_eq (h : Ends t s s') (hu : s'.keyed u ≠ none) : s'.keyed u = s.keyed u :=
  (h.keyed u).resolve_right hu

lemma Ends.trans {s'' : State T P} (h : Ends t s s') (h' : Ends t s' s'') : Ends t s s'' := by
  refine ⟨h'.process.trans h.process, h'.bypassProcSuspend.trans h.bypassProcSuspend,
    h'.suspend.trans h.suspend, h'.procSuspend.trans h.procSuspend, fun u => ?_, fun u hu hsome => ?_⟩
  · obtain heq | hnone := h'.keyed u
    · rw [heq]
      exact h.keyed u
    · exact .inr hnone
  rw [h'.nested u hu hsome]
  apply h.nested u hu
  rw [← h'.keyed_eq hsome]
  exact hsome

section Ending

variable [DecidableEq T] [DecidableEq P]

omit [DecidableEq P] in
lemma endKeyed_eq (h : s.keyed t = some w) (status : Status) : endKeyed s t status = { s with
    keyed := update s.keyed t none
    queue := update s.queue w.object ((s.queue w.object).erase t)
    outcome := update s.outcome w.id (some ⟨t, w.kind, w.object, w.key, status⟩) } := by
  rw [endKeyed, h]

omit [DecidableEq P] in
lemma endKeyed_none (h : s.keyed t = none) (status : Status) : endKeyed s t status = s := by
  rw [endKeyed, h]

omit [DecidableEq P] in
@[simp] lemma endKeyed_keyed_self : (endKeyed s t status).keyed t = none := by
  cases h : s.keyed t with
  | none => rw [endKeyed_none h, h]
  | some w =>
    rw [endKeyed_eq h]
    exact update_self _ _ _

omit [DecidableEq P] in
lemma endKeyed_keyed_of_ne (hne : u ≠ t) : (endKeyed s t status).keyed u = s.keyed u := by
  cases h : s.keyed t with
  | none => rw [endKeyed_none h]
  | some w =>
    rw [endKeyed_eq h]
    exact update_of_ne hne _ _

omit [DecidableEq P] in
lemma endKeyed_ends (a : T) : Ends a s (endKeyed s t status) := by
  cases h : s.keyed t with
  | none =>
    rw [endKeyed_none h]
    exact Ends.refl a s
  | some w =>
    refine ⟨?_, ?_, ?_, ?_, fun u => ?_, fun u _ _ => ?_⟩
    · rw [endKeyed_eq h]
    · rw [endKeyed_eq h]
    · rw [endKeyed_eq h]
    · rw [endKeyed_eq h]
    · by_cases heq : u = t
      · exact .inr (heq ▸ endKeyed_keyed_self)
      · exact .inl (endKeyed_keyed_of_ne heq)
    · rw [endKeyed_eq h]

omit [DecidableEq P] in
lemma Inv.endKeyed (h : Inv s) (t : T) (status : Status) : Inv (endKeyed s t status) := by
  cases hkeyed : s.keyed t with
  | none =>
    rw [endKeyed_none hkeyed]
    exact h
  | some w =>
    rw [endKeyed_eq hkeyed]
    have hother : ∀ u w', update s.keyed t none u = some w' →
        u ≠ t ∧ s.keyed u = some w' := by
      intro u w' hu
      by_cases heq : u = t
      · rw [heq, update_self] at hu
        simp at hu
      · rw [update_of_ne heq] at hu
        exact ⟨heq, hu⟩
    refine ⟨fun o u => ?_, fun o => ?_, fun u w' hu => ?_, fun u v w₁ w₂ hu hv hid => ?_,
      fun id o hid => ?_, fun u w' hu => ?_, h.started⟩
    · dsimp only
      by_cases hu : u = t
      · subst hu
        refine iff_of_false (fun hmem => ?_) (by simp)
        by_cases ho : o = w.object
        · rw [ho, update_self] at hmem
          exact (h.nodup w.object).not_mem_erase hmem
        rw [update_of_ne ho] at hmem
        obtain ⟨w', hw', hobject⟩ := (h.queued o u).mp hmem
        rw [hkeyed] at hw'
        exact ho (hobject ▸ congrArg KeyedWait.object (some.inj hw').symm)
      rw [update_of_ne hu]
      by_cases ho : o = w.object
      · rw [ho, update_self, mem_erase_of_ne hu]
        exact h.queued w.object u
      · rw [update_of_ne ho]
        exact h.queued o u
    · dsimp only
      by_cases ho : o = w.object
      · rw [ho, update_self]
        exact (h.nodup w.object).erase t
      · rw [update_of_ne ho]
        exact h.nodup o
    · obtain ⟨hne, hu⟩ := hother u w' hu
      obtain ⟨hlt, hnone⟩ := h.fresh u w' hu
      refine ⟨hlt, ?_⟩
      dsimp only
      rw [update_of_ne]
      · exact hnone
      · intro hid
        exact hne (h.distinct u t w' w hu hkeyed hid)
    · exact h.distinct u v w₁ w₂ (hother u w₁ hu).2 (hother v w₂ hv).2 hid
    · dsimp only at hid
      by_cases heq : id = w.id
      · subst heq
        rw [update_self] at hid
        rw [← some.inj hid]
        exact ⟨(h.fresh t w hkeyed).1, (h.started _ t (h.running t w hkeyed)).1⟩
      · rw [update_of_ne heq] at hid
        exact h.bound id o hid
    · exact h.running u w' (hother u w' hu).2

omit [DecidableEq P] in
lemma Inv.setNested (h : Inv s) (nested : List NestedWait) : Inv (setNested s t nested) :=
  ⟨h.queued, h.nodup, h.fresh, h.distinct, h.bound, h.running, h.started⟩

omit [DecidableEq P] in
lemma setNested_ends (nested : List NestedWait) : Ends t s (setNested s t nested) :=
  ⟨rfl, rfl, rfl, rfl, fun _ => .inl rfl, fun _ hu _ => update_of_ne hu _ _⟩

lemma Inv.killThread (h : Inv s) (t : T) : Inv (killThread s t) := by
  have hended := (h.setNested (t := t) []).endKeyed t .threadIsTerminating
  have hsub : ∀ p, ∀ u ∈ (KeyedEvents.killThread s t).threads p,
      u ∈ (KeyedEvents.endKeyed (KeyedEvents.setNested s t []) t .threadIsTerminating).threads p := by
    intro p u hu
    simp only [KeyedEvents.killThread] at hu
    by_cases hp : p = (KeyedEvents.endKeyed (KeyedEvents.setNested s t []) t
        .threadIsTerminating).process t
    · rw [hp, update_self] at hu
      exact hp ▸ mem_of_mem_erase hu
    · rw [update_of_ne hp] at hu
      exact hu
  refine ⟨hended.queued, hended.nodup, hended.fresh, hended.distinct, hended.bound,
    fun u w hu => ?_, fun p u hu => hended.started p u (hsub p u hu)⟩
  have hold := hended.running u w hu
  have hne : u ≠ t := by
    rintro rfl
    have hu : (KeyedEvents.endKeyed (KeyedEvents.setNested s u []) u
      .threadIsTerminating).keyed u = some w := hu
    simp at hu
  simp only [KeyedEvents.killThread]
  by_cases hp : (KeyedEvents.endKeyed (KeyedEvents.setNested s t []) t
      .threadIsTerminating).process u = (KeyedEvents.endKeyed (KeyedEvents.setNested s t []) t
      .threadIsTerminating).process t
  · rw [hp] at hold ⊢
    rw [update_self]
    exact (mem_erase_of_ne hne).mpr hold
  · rw [update_of_ne hp]
    exact hold

@[simp] lemma killThread_keyed_self : (killThread s t).keyed t = none := endKeyed_keyed_self

lemma killThread_keyed_of_ne (hne : u ≠ t) : (killThread s t).keyed u = s.keyed u :=
  endKeyed_keyed_of_ne hne

lemma killThread_ends (a : T) : Ends a s (killThread s t) := by
  have hended : Ends a (setNested s t []) (endKeyed (setNested s t []) t .threadIsTerminating) :=
    endKeyed_ends a
  refine ⟨hended.process, hended.bypassProcSuspend, hended.suspend, hended.procSuspend, hended.keyed,
    fun u hu hsome => ?_⟩
  have hne : u ≠ t := by
    rintro rfl
    exact hsome killThread_keyed_self
  exact (hended.nested u hu hsome).trans (update_of_ne hne _ _)

lemma Inv.sendThreadWakeup (h : Inv s) (t : T) : Inv (sendThreadWakeup s t) := by
  unfold KeyedEvents.sendThreadWakeup
  split
  · exact h.killThread t
  · exact h

lemma sendThreadWakeup_ends (a : T) : Ends a s (sendThreadWakeup s t) := by
  unfold sendThreadWakeup
  split
  · exact killThread_ends a
  · exact Ends.refl a s

lemma sendThreadWakeup_keyed_of_ne (hne : u ≠ t) : (sendThreadWakeup s t).keyed u = s.keyed u := by
  unfold sendThreadWakeup
  split
  · exact killThread_keyed_of_ne hne
  · rfl

lemma sendThreadWakeup_keyed_none (h : s.keyed t = none) : (sendThreadWakeup s t).keyed t = none := by
  unfold sendThreadWakeup
  split
  · exact killThread_keyed_self
  · exact h

end Ending

/-!
## What a wake up can do

Every operation of a thread is made of a few moves: the end of a wait without success, two matching
waits that both end with success, and what concerns no keyed event.
-/

open Library Relation

variable {T P : Type} [DecidableEq T] [DecidableEq P] {s s' : State T P} {t u : T} {w : KeyedWait}
  {status : Status}

/-- The moves of one thread. -/
inductive Move (t : T) : State T P → State T P → Prop
  | unmatched (s : State T P) (status : Status) : status ≠ .success →
      Move t s (endKeyed s t status)
  | matched (s : State T P) (u : T) (w w' : KeyedWait) : u ≠ t → s.keyed t = some w →
      s.keyed u = some w' → w'.kind = matchingOp w.kind → w'.object = w.object → w'.key = w.key →
      s.process u = s.process t →
      Move t s (endKeyed (sendThreadWakeup (endKeyed s u .success) u) t .success)
  | nested (s : State T P) (nested : List NestedWait) : Move t s (setNested s t nested)
  | kill (s : State T P) : Move t s (killThread s t)
  | context (s : State T P) (context : T → Option Bool) : Move t s { s with context := context }
  | apcs (s : State T P) (systemApc userApc : T → Nat) :
      Move t s { s with systemApc := systemApc, userApc := userApc }

abbrev Moves (t : T) : State T P → State T P → Prop := ReflTransGen (Move t)

lemma Move.ends (h : Move t s s') : Ends t s s' := by
  cases h with
  | unmatched status _ => exact endKeyed_ends t
  | matched u w w' _ _ _ _ _ _ _ =>
    exact ((endKeyed_ends t).trans (sendThreadWakeup_ends t)).trans (endKeyed_ends t)
  | nested nested => exact setNested_ends nested
  | kill => exact killThread_ends t
  | context context | apcs systemApc userApc =>
    exact ⟨rfl, rfl, rfl, rfl, fun _ => .inl rfl, fun _ _ _ => rfl⟩

lemma Move.inv (h : Move t s s') (hinv : Inv s) : Inv s' := by
  cases h with
  | unmatched status _ => exact hinv.endKeyed t status
  | matched u w w' _ _ _ _ _ _ _ =>
    exact ((hinv.endKeyed u .success).sendThreadWakeup u).endKeyed t .success
  | nested nested => exact hinv.setNested nested
  | kill => exact hinv.killThread t
  | context context | apcs systemApc userApc =>
    exact ⟨hinv.queued, hinv.nodup, hinv.fresh, hinv.distinct, hinv.bound, hinv.running,
      hinv.started⟩

lemma Moves.ends (h : Moves t s s') : Ends t s s' := by
  induction h with
  | refl => exact Ends.refl t s
  | tail _ hmove ih => exact ih.trans hmove.ends

lemma Moves.inv (h : Moves t s s') (hinv : Inv s) : Inv s' := by
  induction h with
  | refl => exact hinv
  | tail _ hmove ih => exact hmove.inv ih

lemma keyedEventSignaled_eq_some (hinv : Inv s) (h : keyedEventSignaled s t w = some s') :
    ∃ u w', u ≠ t ∧ s.keyed u = some w' ∧ w'.kind = matchingOp w.kind ∧ w'.object = w.object ∧
      w'.key = w.key ∧ s.process u = s.process t ∧
      s' = sendThreadWakeup (endKeyed s u .success) u := by
  rw [keyedEventSignaled, map_eq_some_iff] at h
  obtain ⟨u, hfind, hs'⟩ := h
  have hmatch := find?_some hfind
  obtain ⟨w', hw', hobject⟩ := (hinv.queued w.object u).mp (mem_of_find?_eq_some hfind)
  simp only [matchesWait, hw', Bool.and_eq_true, decide_eq_true_eq] at hmatch
  obtain ⟨⟨⟨hne, hprocess⟩, hkind, hkey⟩, _⟩ := hmatch
  exact ⟨u, w', hne, hw', hkind, hobject, hkey, hprocess, hs'.symm⟩

lemma keyedEventSignaled_eq_none (hinv : Inv s) (h : keyedEventSignaled s t w = none) {w' : KeyedWait}
    (hne : u ≠ t) (hw' : s.keyed u = some w') (hkind : w'.kind = matchingOp w.kind)
    (hobject : w'.object = w.object) (hkey : w'.key = w.key)
    (hprocess : s.process u = s.process t) : canAcquire s u = false := by
  rw [keyedEventSignaled, map_eq_none_iff, find?_eq_none] at h
  have hmatch := h u ((hinv.queued w.object u).mpr ⟨w', hw', hobject⟩)
  simpa [matchesWait, hw', hne, hkind, hkey, hprocess] using hmatch

lemma checkKeyed_move (hinv : Inv s) (hw : s.keyed t = some w)
    (h : checkKeyed s t w = some (s', status)) : Move t s (endKeyed s' t status) := by
  unfold checkKeyed at h
  split at h
  · cases h
    exact .unmatched s .kernelApc (by decide)
  split at h
  · simp at h
  split at h
  · rename_i hsignaled
    cases h
    obtain ⟨u, w', hne, hw', hkind, hobject, hkey, hprocess, rfl⟩ :=
      keyedEventSignaled_eq_some hinv hsignaled
    exact .matched s u w w' hne hw hw' hkind hobject hkey hprocess
  split at h
  · cases h
    exact .unmatched s .userApc (by decide)
  split at h
  · cases h
    exact .unmatched s .timeout (by decide)
  · simp at h

omit [DecidableEq P] in
lemma checkNested_move {w : NestedWait} (h : checkNested s t w = some (s', status)) :
    s' = s ∨ ∃ context, s' = { s with context := context } := by
  unfold checkNested at h
  split at h
  · cases h
    exact .inl rfl
  split at h
  · cases h
    exact .inr ⟨_, rfl⟩
  split at h
  · simp at h
  split at h
  · cases h
    exact .inl rfl
  split at h
  · cases h
    exact .inl rfl
  · simp at h

lemma sendThreadWakeup_moves : Moves t s (sendThreadWakeup s t) := by
  unfold sendThreadWakeup
  split
  · exact .single (.kill s)
  · exact .refl

lemma wakeKeyed_moves (hinv : Inv s) : Moves t s (wakeKeyed s t) := by
  unfold wakeKeyed
  split
  · exact .refl
  rename_i w hw
  split
  · exact .refl
  · rename_i s₁ status hcheck
    exact (ReflTransGen.single (checkKeyed_move hinv hw hcheck)).trans sendThreadWakeup_moves

lemma wakeWaits_moves (hinv : Inv s) (nested : List NestedWait) :
    Moves t s (wakeWaits s t nested) := by
  induction nested generalizing s with
  | nil => exact wakeKeyed_moves hinv
  | cons w nested ih =>
    unfold wakeWaits
    split
    · exact .refl
    rename_i s₁ status hcheck
    have hchecked : Moves t s s₁ := by
      obtain rfl | ⟨context, rfl⟩ := checkNested_move hcheck
      · exact .refl
      · exact .single (.context s context)
    have hended : Moves t s (setNested s₁ t nested) := hchecked.tail (.nested s₁ nested)
    dsimp only
    split
    · exact hended.tail (.kill _)
    · exact hended.trans (ih (hended.inv hinv))

lemma wakeThread_moves (hinv : Inv s) : Moves t s (wakeThread s t) := wakeWaits_moves hinv _

lemma dequeueApc_moves : Moves t s (dequeueApc s t status) := by
  cases status with
  | kernelApc => exact .single (.apcs s _ s.userApc)
  | userApc => exact .single (.apcs s s.systemApc _)
  | _ => exact .refl

lemma selectKeyed_moves (hinv : Inv (waitOn s t w)) (timer : Bool) :
    Moves t (waitOn s t w) (selectKeyed s t w timer) := by
  have hw : (waitOn s t w).keyed t = some w := update_self _ _ _
  unfold selectKeyed
  dsimp only
  split
  · rename_i s₁ status hcheck
    exact (ReflTransGen.single (checkKeyed_move hinv hw hcheck)).trans dequeueApc_moves
  · split
    · exact .single (.unmatched _ .noMemory (by decide))
    · exact .refl

lemma selectNested_moves (w : NestedWait) (timer : Bool) :
    Moves t s (selectNested s t w timer) := by
  unfold selectNested
  split
  · rename_i s₁ status hcheck
    obtain rfl | ⟨context, rfl⟩ := checkNested_move hcheck
    · exact dequeueApc_moves
    · exact (ReflTransGen.single (.context s context)).trans dequeueApc_moves
  · split
    · exact .refl
    · exact .single (.nested s _)

lemma threadTimeout_moves (hinv : Inv s) (h : threadTimeout s t = some s') : Moves t s s' := by
  unfold threadTimeout at h
  split at h
  · rename_i w nested _
    have hended : Moves t s (setNested s t nested) := .single (.nested s nested)
    split at h
    · simp at h
    split at h
    · cases h
      exact .refl
    rw [some.injEq] at h
    rw [← h]
    split
    · exact hended.tail (.kill _)
    · exact hended.trans (wakeThread_moves (hended.inv hinv))
  · split at h
    · simp at h
    split at h
    · cases h
      exact .refl
    · rw [some.injEq] at h
      rw [← h]
      exact (ReflTransGen.single (.unmatched s .timeout (by decide))).trans sendThreadWakeup_moves
  · simp at h

end WineForge.KeyedEvents
