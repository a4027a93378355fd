import WineForge.KeyedEvents.Pairs

/-!
# No two matching waits are blocked

Between requests a wait and a release that match are both blocked only if one of the threads is
suspended or runs its signal handler.
-/

namespace WineForge.KeyedEvents

open Function Library List Option Relation

variable {T P : Type} {s s' : State T P} {t u x : T} {w : KeyedWait} {status : Status}

def Ready (s : State T P) (t : T) : Prop :=
  s.nested t = [] ∧ s.suspend t = 0 ∧
    (s.bypassProcSuspend t = true ∨ s.procSuspend (s.process t) = 0)

/-- Two threads that could wake each other up. -/
structure Conflict (s : State T P) (t u : T) : Prop where
  waits : ∃ w w', s.keyed t = some w ∧ s.keyed u = some w' ∧ w'.kind = matchingOp w.kind ∧
    w'.object = w.object ∧ w'.key = w.key
  process : s.process u = s.process t
  left : Ready s t
  right : Ready s u

lemma matchingOp_matchingOp (kind : Kind) : matchingOp (matchingOp kind) = kind := by
  cases kind <;> rfl

lemma Conflict.symm (h : Conflict s t u) : Conflict s u t := by
  obtain ⟨⟨w, w', hw, hw', hkind, hobject, hkey⟩, hprocess, hleft, hright⟩ := h
  refine ⟨⟨w', w, hw', hw, ?_, hobject.symm, hkey.symm⟩, hprocess.symm, hright, hleft⟩
  rw [hkind, matchingOp_matchingOp]

lemma Conflict.ne (h : Conflict s t u) : u ≠ t := by
  rintro rfl
  obtain ⟨w, w', hw, hw', hkind, _, _⟩ := h.waits
  rw [hw] at hw'
  rw [← some.inj hw'] at hkind
  cases hw : w.kind with
  | wait | release => exact absurd (hw ▸ hkind) (by decide)

lemma Conflict.keyed_left (h : Conflict s t u) : s.keyed t ≠ none := by
  obtain ⟨w, _, hw, _⟩ := h.waits
  rw [hw]
  exact some_ne_none w

lemma Ready.not_suspended (h : Ready s t) : isThreadSuspended s t = false := by
  obtain ⟨_, hsuspend, hprocess⟩ := h
  unfold isThreadSuspended
  split
  · rfl
  rw [if_neg (not_not_intro hsuspend)]
  obtain hbypass | hprocess := hprocess
  · simp [hbypass]
  · simp [hprocess]

def Settled (s : State T P) (t : T) : Prop := ∀ u, ¬ Conflict s t u

def CalmExcept (s : State T P) (among : T → Prop) : Prop :=
  ∀ t u, Conflict s t u → among t ∨ among u

lemma Settled.of_keyed (h : s.keyed t = none) : Settled s t := fun _ hc => hc.keyed_left h

lemma Settled.of_not_ready (h : ¬ Ready s t) : Settled s t := fun _ hc => h hc.left

lemma Ends.conflict (h : Ends x s s') (hc : Conflict s' t u) (ht : t ≠ x) (hu : u ≠ x) :
    Conflict s t u := by
  have hkeyedt := h.keyed_eq hc.keyed_left
  have hkeyedu := h.keyed_eq hc.symm.keyed_left
  have hready : ∀ v ≠ x, s'.keyed v ≠ none → Ready s' v → Ready s v := by
    intro v hv hkeyed hready
    rw [Ready, h.nested v hv hkeyed, h.suspend, h.bypassProcSuspend, h.procSuspend, h.process]
      at hready
    exact hready
  refine ⟨?_, ?_, hready t ht hc.keyed_left hc.left, hready u hu hc.symm.keyed_left hc.right⟩
  · rw [← hkeyedt, ← hkeyedu]
    exact hc.waits
  · rw [← h.process]
    exact hc.process

lemma CalmExcept.ends {among among' : T → Prop} (h : CalmExcept s among) (hends : Ends x s s')
    (hsettled : Settled s' x) (hamong : ∀ t ≠ x, among t → among' t) : CalmExcept s' among' := by
  intro t u hc
  have ht : t ≠ x := by
    rintro rfl
    exact hsettled u hc
  have hu : u ≠ x := by
    rintro rfl
    exact hsettled t hc.symm
  exact (h t u (hends.conflict hc ht hu)).imp (hamong t ht) (hamong u hu)

section Waking

variable [DecidableEq T] [DecidableEq P]

lemma killThread_settled : Settled (killThread s t) t := .of_keyed killThread_keyed_self

lemma Settled.of_checkKeyed (hinv : Inv s) (hw : s.keyed t = some w)
    (hcheck : checkKeyed s t w = none) : Settled s t := by
  intro u hc
  have hsignaled : keyedEventSignaled s t w = none := by
    unfold checkKeyed at hcheck
    split at hcheck
    · simp at hcheck
    rw [hc.left.not_suspended, if_neg (by decide)] at hcheck
    split at hcheck
    · simp at hcheck
    · assumption
  obtain ⟨w₁, w', hw₁, hw', hkind, hobject, hkey⟩ := hc.waits
  rw [hw] at hw₁
  have heq := some.inj hw₁
  subst heq
  have hacquire := keyedEventSignaled_eq_none hinv hsignaled hc.ne hw' hkind hobject hkey hc.process
  rw [canAcquire, hc.right.1, hc.right.not_suspended] at hacquire
  exact absurd hacquire (by decide)

lemma wakeKeyed_settled (hinv : Inv s) : Settled (wakeKeyed s t) t := by
  unfold wakeKeyed
  split
  · rename_i hnone
    exact .of_keyed hnone
  rename_i w hw
  split
  · rename_i hcheck
    exact .of_checkKeyed hinv hw hcheck
  · exact .of_keyed (sendThreadWakeup_keyed_none endKeyed_keyed_self)

/-- By induction on the waits of the signal handler. One that is not done stays above the wait on
the keyed event. -/
lemma wakeWaits_settled (hinv : Inv s) {nested : List NestedWait} (hnested : s.nested t = nested) :
    Settled (wakeWaits s t nested) t := by
  induction nested generalizing s with
  | nil => exact wakeKeyed_settled hinv
  | cons w nested ih =>
    unfold wakeWaits
    split
    · refine .of_not_ready fun hready => ?_
      rw [Ready, hnested] at hready
      exact absurd hready.1 (by simp)
    rename_i s₁ status hcheck
    have hinv₁ : Inv s₁ := by
      obtain rfl | ⟨context, rfl⟩ := checkNested_move hcheck
      · exact hinv
      · exact (Move.context (t := t) s context).inv hinv
    dsimp only
    split
    · exact killThread_settled
    · exact ih (hinv₁.setNested nested) (update_self _ _ _)

lemma wakeThread_settled (hinv : Inv s) : Settled (wakeThread s t) t := wakeWaits_settled hinv rfl

lemma selectKeyed_settled (hinv : Inv (waitOn s t w)) (timer : Bool) :
    Settled (selectKeyed s t w timer) t := by
  have hw : (waitOn s t w).keyed t = some w := update_self _ _ _
  unfold selectKeyed
  dsimp only
  split
  · rename_i s₁ status hcheck
    refine .of_keyed ?_
    have hends : Ends t (endKeyed s₁ t status) (dequeueApc (endKeyed s₁ t status) t status) :=
      Moves.ends dequeueApc_moves
    obtain heq | hnone := hends.keyed t
    · rw [heq]
      exact endKeyed_keyed_self
    · exact hnone
  rename_i hcheck
  split
  · exact .of_keyed endKeyed_keyed_self
  · exact .of_checkKeyed hinv hw hcheck

def Calm (s : State T P) : Prop := CalmExcept s fun _ => False

omit [DecidableEq T] [DecidableEq P] in
lemma Calm.settled (h : Calm s) (t : T) : Settled s t := by
  intro u hc
  exact (h t u hc).elim id id

omit [DecidableEq T] [DecidableEq P] in
lemma Calm.initial (h : Initial s) : Calm s := by
  intro t u hc
  exact absurd (h.2.2.2.1 t) hc.keyed_left

omit [DecidableEq T] [DecidableEq P] in
lemma Calm.of_ready {among : T → Prop} (h : Calm s) (hkeyed : s'.keyed = s.keyed)
    (hprocess : ∀ t, s.keyed t ≠ none → s'.process t = s.process t)
    (hready : ∀ t, s.keyed t ≠ none → Ready s' t → Ready s t ∨ among t) : CalmExcept s' among := by
  intro t u hc
  have hkeyedt : s.keyed t ≠ none := hkeyed ▸ hc.keyed_left
  have hkeyedu : s.keyed u ≠ none := hkeyed ▸ hc.symm.keyed_left
  obtain hleft | hamong := hready t hkeyedt hc.left
  · obtain hright | hamong := hready u hkeyedu hc.right
    · refine absurd ⟨hkeyed ▸ hc.waits, ?_, hleft, hright⟩ (h.settled t u)
      rw [← hprocess t hkeyedt, ← hprocess u hkeyedu]
      exact hc.process
    · exact .inr hamong
  · exact .inl hamong

omit [DecidableEq T] [DecidableEq P] in
lemma Calm.ends (h : Calm s) (hends : Ends t s s') (hsettled : Settled s' t) : Calm s' :=
  CalmExcept.ends h hends hsettled fun _ _ => id

omit [DecidableEq P] in
lemma Calm.waitOn (h : Calm s) : CalmExcept (waitOn s t w) (· = t) := by
  intro x u hc
  by_cases hx : x = t
  · exact .inl hx
  by_cases hu : u = t
  · exact .inr hu
  have hkeep : ∀ v ≠ t, (KeyedEvents.waitOn s t w).keyed v = s.keyed v :=
    fun v hv => update_of_ne hv _ _
  have hwaits := hc.waits
  rw [hkeep x hx, hkeep u hu] at hwaits
  exact absurd ⟨hwaits, hc.process, hc.left, hc.right⟩ (h.settled x u)

lemma Calm.wakeThread (h : Calm s) (hinv : Inv s) (t : T) : Calm (wakeThread s t) :=
  h.ends (wakeThread_moves hinv).ends (wakeThread_settled hinv)

lemma CalmExcept.wakeThreads {among : T → Prop} {threads : List T} (hinv : Inv s)
    (hamong : ∀ t, among t → s.bypassProcSuspend t = false ∧ s.suspend t = 0)
    (h : CalmExcept s fun t => t ∈ threads ∧ among t) : Calm (wakeThreads s threads) := by
  induction threads generalizing s with
  | nil =>
    intro t u hc
    exact (h t u hc).imp (fun hmem => absurd hmem.1 not_mem_nil)
      fun hmem => absurd hmem.1 not_mem_nil
  | cons x threads ih =>
    rw [KeyedEvents.wakeThreads, foldl_cons]
    split
    · have hmoves := wakeThread_moves (t := x) hinv
      have hends := hmoves.ends
      refine ih (hmoves.inv hinv) (fun t ht => ?_) (h.ends hends (wakeThread_settled hinv) ?_)
      · rw [hends.bypassProcSuspend, hends.suspend]
        exact hamong t ht
      · intro t hne ht
        exact ⟨(mem_cons.mp ht.1).resolve_left hne, ht.2⟩
    rename_i hskip
    have hx : ¬ among x := by
      intro hx
      obtain ⟨hbypass, hsuspend⟩ := hamong x hx
      exact hskip (by simp [hbypass, hsuspend])
    have hrest : ∀ t, t ∈ x :: threads ∧ among t → t ∈ threads ∧ among t := by
      rintro t ⟨hmem, ht⟩
      refine ⟨(mem_cons.mp hmem).resolve_left ?_, ht⟩
      rintro rfl
      exact hx ht
    exact ih hinv hamong fun t u hc => (h t u hc).imp (hrest t) (hrest u)

lemma Calm.threadTimeout (h : Calm s) (hinv : Inv s) (hstep : threadTimeout s t = some s') :
    Calm s' := by
  refine h.ends (threadTimeout_moves hinv hstep).ends ?_
  unfold KeyedEvents.threadTimeout at hstep
  split at hstep
  · rename_i w nested _
    have hended : Inv (setNested s t nested) := hinv.setNested nested
    split at hstep
    · simp at hstep
    split at hstep
    · cases hstep
      exact h.settled t
    rw [some.injEq] at hstep
    rw [← hstep]
    split
    · exact killThread_settled
    · exact wakeThread_settled hended
  · split at hstep
    · simp at hstep
    split at hstep
    · cases hstep
      exact h.settled t
    · rw [some.injEq] at hstep
      rw [← hstep]
      exact .of_keyed (sendThreadWakeup_keyed_none endKeyed_keyed_self)
  · simp at hstep

lemma Calm.selectNested (h : Calm s) (w : NestedWait) (timer : Bool) :
    Calm (selectNested s t w timer) := by
  have hends : Ends t s (KeyedEvents.selectNested s t w timer) :=
    Moves.ends (selectNested_moves w timer)
  unfold KeyedEvents.selectNested at hends ⊢
  split at hends
  · rename_i s₁ status hcheck
    have hnested : (dequeueApc s₁ t status).nested = s.nested := by
      have hchecked : s₁.nested = s.nested := by
        obtain rfl | ⟨context, rfl⟩ := checkNested_move hcheck
        · rfl
        · rfl
      rw [← hchecked]
      cases status <;> rfl
    have hkeyed : (dequeueApc s₁ t status).keyed = s.keyed := by
      have hchecked : s₁.keyed = s.keyed := by
        obtain rfl | ⟨context, rfl⟩ := checkNested_move hcheck
        · rfl
        · rfl
      rw [← hchecked]
      cases status <;> rfl
    refine h.of_ready hkeyed (fun u _ => congrFun hends.process u) fun u _ hready => .inl ?_
    rw [Ready, hnested, hends.suspend, hends.bypassProcSuspend, hends.procSuspend, hends.process]
      at hready
    exact hready
  · split
    · exact h
    rename_i hpush
    rw [if_neg hpush] at hends
    refine h.ends hends (.of_not_ready fun hready => ?_)
    have hempty := hready.1
    simp only [setNested, update_self] at hempty
    simp at hempty

lemma Calm.step {op : Op T P} (h : Calm s) (hinv : Inv s) (hstep : step s op = some s') :
    Calm s' := by
  have hsame : ∀ s' : State T P, s'.keyed = s.keyed → s'.process = s.process →
      (∀ t, Ready s' t → Ready s t) → Calm s' := fun s' hkeyed hprocess hready =>
    h.of_ready hkeyed (fun t _ => congrFun hprocess t) fun t _ ht => .inl (hready t ht)
  cases op with
  | newThread t p suspend bypass =>
    simp only [KeyedEvents.step] at hstep
    split at hstep
    · simp at hstep
    rename_i hstarted
    cases hstep
    have hne : ∀ u, s.keyed u ≠ none → u ≠ t := by
      rintro u hu rfl
      obtain ⟨w, hw⟩ := ne_none_iff_exists'.mp hu
      exact hstarted (hinv.started _ u (hinv.running u w hw)).1
    refine h.of_ready rfl (fun u hu => update_of_ne (hne u hu) _ _) fun u hu hready => ?_
    rw [Ready] at hready
    dsimp only at hready
    rw [update_of_ne (hne u hu), update_of_ne (hne u hu), update_of_ne (hne u hu)] at hready
    exact .inl hready
  | select t kind object key alertable when timer =>
    simp only [KeyedEvents.step] at hstep
    split at hstep
    · simp at hstep
    rename_i hguard
    obtain ⟨hrunning, _, hkeyed⟩ : running s t = true ∧ s.nested t = [] ∧ s.keyed t = none := by
      simpa using hguard
    split at hstep
    · cases hstep
      exact h
    cases hstep
    have hwait : Inv (KeyedEvents.waitOn s t ⟨s.count, kind, object, key, alertable, when⟩) :=
      hinv.waitOn (of_decide_eq_true hrunning) hkeyed rfl
    exact h.waitOn.ends (selectKeyed_moves hwait timer).ends (selectKeyed_settled hwait timer)
      fun u hu heq => hu heq
  | nested t w timer =>
    simp only [KeyedEvents.step, ite_none_right_eq_some, some.injEq] at hstep
    exact hstep.2 ▸ h.selectNested w timer
  | timeout t => exact h.threadTimeout hinv hstep
  | queueApc t system =>
    have hqueued : ∀ systemApc userApc, Calm { s with systemApc := systemApc, userApc := userApc } ∧
          Inv { s with systemApc := systemApc, userApc := userApc } :=
      fun systemApc userApc =>
        ⟨hsame _ rfl rfl fun _ => id, (Move.apcs (t := t) s systemApc userApc).inv hinv⟩
    simp only [KeyedEvents.step] at hstep
    split at hstep
    · cases hstep
      exact h
    split at hstep
    · cases hstep
      obtain ⟨hcalm, hinv⟩ := hqueued (update s.systemApc t (s.systemApc t + 1)) s.userApc
      split
      · exact hcalm.wakeThread hinv t
      · exact hcalm
    cases hstep
    obtain ⟨hcalm, hinv⟩ := hqueued s.systemApc (update s.userApc t (s.userApc t + 1))
    split
    · exact hcalm.wakeThread hinv t
    · exact hcalm
  | cancelApc t system =>
    cases hstep
    cases system <;> exact hsame _ rfl rfl fun _ => id
  | suspendThread t context =>
    simp only [KeyedEvents.step] at hstep
    split at hstep
    · cases hstep
      refine hsame _ rfl rfl fun u hready => ⟨hready.1, ?_, hready.2.2⟩
      have hsuspend := hready.2.1
      dsimp only at hsuspend
      by_cases hu : u = t
      · rw [hu, update_self] at hsuspend
        exact absurd hsuspend (Nat.succ_ne_zero _)
      · rw [update_of_ne hu] at hsuspend
        exact hsuspend
    · cases hstep
      exact h
  | resumeThread t =>
    simp only [KeyedEvents.step] at hstep
    split at hstep
    · cases hstep
      exact h
    cases hstep
    have hinv' : Inv { s with suspend := update s.suspend t (s.suspend t - 1) } :=
      (Change.environment s _ s.procSuspend s.context s.systemApc s.userApc s.broken s.now).inv
        hinv
    have hexcept : CalmExcept { s with suspend := update s.suspend t (s.suspend t - 1) }
        (· = t) := by
      refine h.of_ready rfl (fun _ _ => rfl) fun u _ hready => ?_
      by_cases hu : u = t
      · exact .inr hu
      have hsuspend := hready.2.1
      dsimp only at hsuspend
      rw [update_of_ne hu] at hsuspend
      exact .inl ⟨hready.1, hsuspend, hready.2.2⟩
    split
    · rename_i hsuspended
      refine hexcept.ends (Ends.refl t _) (.of_not_ready fun hready => ?_) fun u hu heq => hu heq
      rw [hready.not_suspended] at hsuspended
      exact absurd hsuspended (by decide)
    · exact hexcept.ends (wakeThread_moves hinv').ends (wakeThread_settled hinv')
        fun u hu heq => hu heq
  | suspendProcess p contexts =>
    cases hstep
    refine hsame _ rfl rfl fun u hready => ⟨hready.1, hready.2.1, hready.2.2.imp_right ?_⟩
    intro hsuspend
    dsimp only at hsuspend
    by_cases hp : s.process u = p
    · rw [hp, update_self] at hsuspend
      exact absurd hsuspend (Nat.succ_ne_zero _)
    · rw [update_of_ne hp] at hsuspend
      exact hsuspend
  | resumeProcess p =>
    simp only [KeyedEvents.step] at hstep
    split at hstep
    · simp at hstep
    cases hstep
    have hinv' : Inv { s with
        procSuspend := update s.procSuspend p (s.procSuspend p - 1) } :=
      (Change.environment s s.suspend _ s.context s.systemApc s.userApc s.broken s.now).inv hinv
    have hready : ∀ u, Ready { s with
        procSuspend := update s.procSuspend p (s.procSuspend p - 1) } u →
        Ready s u ∨ s.bypassProcSuspend u = false ∧ s.suspend u = 0 ∧ s.process u = p := by
      rintro u ⟨hnested, hsuspend, hprocess⟩
      cases hbypass : s.bypassProcSuspend u with
      | true => exact .inl ⟨hnested, hsuspend, .inl hbypass⟩
      | false =>
        by_cases hp : s.process u = p
        · exact .inr ⟨rfl, hsuspend, hp⟩
        have hzero := hprocess.resolve_left (by simp [hbypass])
        dsimp only at hzero
        rw [update_of_ne hp] at hzero
        exact .inl ⟨hnested, hsuspend, .inr hzero⟩
    split
    · rename_i hsuspended
      refine hsame _ rfl rfl fun u hu => ?_
      obtain hold | ⟨hbypass, _, hp⟩ := hready u hu
      · exact hold
      · have hzero := hu.2.2.resolve_left (by simp [hbypass])
        rw [hp] at hzero
        exact absurd hzero hsuspended
    let among : T → Prop := fun u => s.bypassProcSuspend u = false ∧ s.suspend u = 0
    have hamong : ∀ u, among u → s.bypassProcSuspend u = false ∧ s.suspend u = 0 := fun _ => id
    refine CalmExcept.wakeThreads hinv' hamong
      (h.of_ready rfl (fun _ _ => rfl) fun u hkeyed hu => ?_)
    refine (hready u hu).imp_right ?_
    rintro ⟨hbypass, hsuspend, hp⟩
    obtain ⟨w, hw⟩ := ne_none_iff_exists'.mp hkeyed
    exact ⟨hp ▸ hinv.running u w hw, hbypass, hsuspend⟩
  | context t context | breakThread t | advance time =>
    cases hstep
    exact hsame _ rfl rfl fun _ => id
  | killThread t =>
    simp only [KeyedEvents.step, ite_none_right_eq_some, some.injEq] at hstep
    exact hstep.2 ▸ h.ends (killThread_ends t) killThread_settled

/-- In every run a wait or a release that succeeds has a partner of its own, and no two matching
waits of threads that are ready are both blocked. -/
theorem keyed_events_pair (s : State T P) (hrun : Reachable step Initial s) :
    Paired s ∧ ∀ t u w w', s.keyed t = some w → s.keyed u = some w' →
      w'.kind = matchingOp w.kind → w'.object = w.object → w'.key = w.key →
      s.process u = s.process t → ¬ (Ready s t ∧ Ready s u) := by
  have hinv : ∀ s : State T P, Reachable step Initial s → Inv s := fun s hs =>
    hs.invariant (fun _ => Inv.initial) fun _ _ _ hinv _ hstep => (step_changes hinv hstep).inv hinv
  have hpaired : Paired s := hrun.invariant_with hinv (fun _ => Paired.initial)
    fun _ _ _ hinv hpaired _ hstep => (step_changes hinv hstep).paired hinv hpaired
  have hcalm : Calm s := hrun.invariant_with hinv (fun _ => Calm.initial)
    fun _ _ _ hinv hcalm _ hstep => hcalm.step hinv hstep
  refine ⟨hpaired, fun t u w w' hw hw' hkind hobject hkey hprocess hready => ?_⟩
  exact hcalm.settled t u ⟨⟨w, w', hw, hw', hkind, hobject, hkey⟩, hprocess, hready.1, hready.2⟩

end Waking

def noThreads : State (Fin 2) Unit where
  process := fun _ => ()
  threads := fun _ => []
  started := fun _ => false
  bypassProcSuspend := fun _ => false
  suspend := fun _ => 0
  procSuspend := fun _ => 0
  context := fun _ => none
  systemApc := fun _ => 0
  userApc := fun _ => 0
  broken := fun _ => false
  nested := fun _ => []
  keyed := fun _ => none
  queue := fun _ => []
  now := 0
  count := 0
  outcome := fun _ => none

lemma noThreads_initial : Initial noThreads :=
  ⟨fun _ => rfl, fun _ => rfl, fun _ => rfl, fun _ => rfl, fun _ => rfl, rfl, fun _ => rfl⟩

def waitThenRelease (suspension : List (Op (Fin 2) Unit)) : List (Op (Fin 2) Unit) :=
  [.newThread 0 () 0 false, .newThread 1 () 0 false, .select 0 .wait 0 4 false none true] ++
    suspension ++ [.select 1 .release 0 4 false none true]

theorem keyed_events_pair_release : ∃ s, run step noThreads (waitThenRelease []) = some s ∧
      s.outcome 0 = some ⟨0, .wait, 0, 4, .success⟩ ∧ Paired s := by
  have hrun : ((run step noThreads (waitThenRelease [])).map fun s => s.outcome 0) =
      some (some ⟨0, .wait, 0, 4, .success⟩) := by decide
  obtain ⟨s, hs, houtcome⟩ := map_eq_some_iff.mp hrun
  exact ⟨s, hs, houtcome,
    (keyed_events_pair s (reachable_of_run (.start noThreads_initial) _ hs)).1⟩

/-- A suspended thread does not leave its wait. -/
theorem keyed_events_both_blocked :
    ∃ s w w', run step noThreads (waitThenRelease [.suspendThread 0 false]) = some s ∧
      s.keyed 0 = some w ∧ s.keyed 1 = some w' ∧ w'.kind = matchingOp w.kind ∧
      w'.object = w.object ∧ w'.key = w.key ∧ s.process 1 = s.process 0 := by
  have hrun : ((run step noThreads (waitThenRelease [.suspendThread 0 false])).map
      fun s => (s.keyed 0, s.keyed 1)) =
      some (some ⟨0, .wait, 0, 4, false, none⟩, some ⟨1, .release, 0, 4, false, none⟩) := by decide
  obtain ⟨s, hs, hkeyed⟩ := map_eq_some_iff.mp hrun
  obtain ⟨hleft, hright⟩ := Prod.mk.inj hkeyed
  exact ⟨s, _, _, hs, hleft, hright, rfl, rfl, rfl, rfl⟩

end WineForge.KeyedEvents
