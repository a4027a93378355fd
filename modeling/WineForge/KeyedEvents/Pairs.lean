import WineForge.KeyedEvents.Queues

/-!
# Matching waits

What a request can do to the keyed events, and the one to one correspondence between the waits and
the releases that have succeeded.
-/

namespace WineForge.KeyedEvents

open Function Library List Option Relation

variable {T P : Type} [DecidableEq T] [DecidableEq P] {s s' : State T P} {t u : T} {w : KeyedWait}
  {status : Status}

/-- What a request is made of. -/
inductive Change : State T P → State T P → Prop
  | move {s s' : State T P} (t : T) : Move t s s' → Change s s'
  | wait (s : State T P) (t : T) (w : KeyedWait) : running s t = true → s.keyed t = none →
      w.id = s.count → Change s (waitOn s t w)
  | newThread (s : State T P) (t : T) (p : P) (suspend : T → Nat) (bypass : T → Bool) :
      s.started t = false → Change s { s with
        started := update s.started t true
        process := update s.process t p
        threads := update s.threads p (s.threads p ++ [t])
        suspend := suspend
        bypassProcSuspend := bypass }
  | environment (s : State T P) (suspend : T → Nat) (procSuspend : P → Nat)
      (context : T → Option Bool) (systemApc userApc : T → Nat) (broken : T → Bool) (now : Nat) :
      Change s { s with
        suspend := suspend
        procSuspend := procSuspend
        context := context
        systemApc := systemApc
        userApc := userApc
        broken := broken
        now := now }

abbrev Changes : State T P → State T P → Prop := ReflTransGen Change

lemma Moves.changes (h : Moves t s s') : Changes s s' := by
  induction h with
  | refl => exact .refl
  | tail _ hmove ih => exact ih.tail (.move t hmove)

omit [DecidableEq P] in
lemma Inv.waitOn (h : Inv s) (hrunning : t ∈ s.threads (s.process t)) (hkeyed : s.keyed t = none)
    (hid : w.id = s.count) : Inv (waitOn s t w) := by
  have hnone : ∀ o, t ∉ s.queue o := by
    intro o hmem
    obtain ⟨w', hw', _⟩ := (h.queued o t).mp hmem
    rw [hkeyed] at hw'
    simp at hw'
  have hcases : ∀ u w', update s.keyed t (some w) u = some w' →
      u = t ∧ w' = w ∨ u ≠ t ∧ s.keyed u = some w' := by
    intro u w' hu
    by_cases heq : u = t
    · subst heq
      rw [update_self] at hu
      exact .inl ⟨rfl, (some.inj hu).symm⟩
    · rw [update_of_ne heq] at hu
      exact .inr ⟨heq, hu⟩
  have hfresh : ∀ u w', s.keyed u = some w' → w'.id ≠ w.id := by
    intro u w' hu heq
    have hlt := (h.fresh u w' hu).1
    omega
  refine ⟨fun o u => ?_, fun o => ?_, fun u w' hu => ?_, fun u v w₁ w₂ hu hv heq => ?_,
    fun id o ho => ?_, fun u w' hu => ?_, h.started⟩
  · dsimp only [KeyedEvents.waitOn]
    by_cases hu : u = t
    · subst hu
      rw [update_self]
      by_cases ho : o = w.object
      · subst ho
        simp
      rw [update_of_ne ho]
      refine iff_of_false (hnone o) ?_
      rintro ⟨w', hw', hobject⟩
      exact ho (hobject ▸ congrArg KeyedWait.object (some.inj hw').symm)
    rw [update_of_ne hu]
    by_cases ho : o = w.object
    · subst ho
      rw [update_self, mem_append, mem_singleton, or_iff_left hu]
      exact h.queued _ u
    · rw [update_of_ne ho]
      exact h.queued o u
  · dsimp only [KeyedEvents.waitOn]
    by_cases ho : o = w.object
    · subst ho
      rw [update_self]
      exact nodup_append.mpr ⟨h.nodup _, nodup_singleton t, fun u hu v hv heq =>
        hnone w.object (mem_singleton.mp hv ▸ heq ▸ hu)⟩
    · rw [update_of_ne ho]
      exact h.nodup o
  · dsimp only [KeyedEvents.waitOn]
    obtain ⟨_, rfl⟩ | ⟨_, hu⟩ := hcases u w' hu
    · refine ⟨by omega, ?_⟩
      by_contra hsome
      obtain ⟨o, ho⟩ := ne_none_iff_exists'.mp hsome
      have hlt := (h.bound w'.id o ho).1
      omega
    · exact ⟨Nat.lt_succ_of_lt (h.fresh u w' hu).1, (h.fresh u w' hu).2⟩
  · obtain ⟨rfl, rfl⟩ | ⟨_, hu'⟩ := hcases u w₁ hu
    · obtain ⟨rfl, _⟩ | ⟨_, hv'⟩ := hcases v w₂ hv
      · rfl
      · exact absurd heq.symm (hfresh v w₂ hv')
    · obtain ⟨_, rfl⟩ | ⟨_, hv'⟩ := hcases v w₂ hv
      · exact absurd heq (hfresh u w₁ hu')
      · exact h.distinct u v w₁ w₂ hu' hv' heq
  · exact ⟨Nat.lt_succ_of_lt (h.bound id o ho).1, (h.bound id o ho).2⟩
  · obtain ⟨rfl, _⟩ | ⟨_, hu⟩ := hcases u w' hu
    · exact hrunning
    · exact h.running u w' hu

lemma Inv.newThread (h : Inv s) (hstarted : s.started t = false) (p : P) (suspend : T → Nat)
    (bypass : T → Bool) : Inv { s with
      started := update s.started t true
      process := update s.process t p
      threads := update s.threads p (s.threads p ++ [t])
      suspend := suspend
      bypassProcSuspend := bypass } := by
  have hne : ∀ u, s.started u = true → u ≠ t := by
    rintro u hu rfl
    rw [hstarted] at hu
    exact absurd hu (by decide)
  refine ⟨h.queued, h.nodup, h.fresh, h.distinct, fun id o ho => ?_, fun u w' hu => ?_,
    fun q u hu => ?_⟩
  · obtain ⟨hlt, ho⟩ := h.bound id o ho
    refine ⟨hlt, ?_⟩
    dsimp only
    rw [update_of_ne (hne _ ho)]
    exact ho
  · have hrunning := h.running u w' hu
    dsimp only
    rw [update_of_ne (hne u (h.started _ u hrunning).1)]
    by_cases hp : s.process u = p
    · rw [hp, update_self]
      exact mem_append_left _ (hp ▸ hrunning)
    · rw [update_of_ne hp]
      exact hrunning
  have hcases : u = t ∧ q = p ∨ u ∈ s.threads q := by
    dsimp only at hu
    by_cases hq : q = p
    · subst hq
      rw [update_self, mem_append, mem_singleton] at hu
      exact hu.elim .inr fun heq => .inl ⟨heq, rfl⟩
    · rw [update_of_ne hq] at hu
      exact .inr hu
  dsimp only
  obtain ⟨rfl, rfl⟩ | hu := hcases
  · exact ⟨update_self _ _ _, update_self _ _ _⟩
  · obtain ⟨hu, hprocess⟩ := h.started q u hu
    rw [update_of_ne (hne u hu), update_of_ne (hne u hu)]
    exact ⟨hu, hprocess⟩

lemma Change.inv (h : Change s s') (hinv : Inv s) : Inv s' := by
  cases h with
  | move t hmove => exact hmove.inv hinv
  | wait t w hrunning hkeyed hid =>
    exact hinv.waitOn (of_decide_eq_true hrunning) hkeyed hid
  | newThread t p suspend bypass hstarted => exact hinv.newThread hstarted p suspend bypass
  | environment suspend procSuspend context systemApc userApc broken now =>
    exact ⟨hinv.queued, hinv.nodup, hinv.fresh, hinv.distinct, hinv.bound, hinv.running,
      hinv.started⟩

lemma Changes.inv (h : Changes s s') (hinv : Inv s) : Inv s' := by
  induction h with
  | refl => exact hinv
  | tail _ hchange ih => exact hchange.inv ih

/-- `resume_process`, for the threads that it wakes up. -/
def wakeThreads (s : State T P) (threads : List T) : State T P :=
  threads.foldl (fun s t =>
    if !s.bypassProcSuspend t && s.suspend t = 0 then wakeThread s t else s) s

lemma wakeThreads_changes (hinv : Inv s) (threads : List T) :
    Changes s (wakeThreads s threads) := by
  induction threads generalizing s with
  | nil => exact .refl
  | cons t threads ih =>
    rw [wakeThreads, foldl_cons]
    split
    · have hmoves := wakeThread_moves (t := t) hinv
      exact hmoves.changes.trans (ih (hmoves.inv hinv))
    · exact ih hinv

lemma step_changes {op : Op T P} (hinv : Inv s) (hstep : step s op = some s') : Changes s s' := by
  cases op with
  | newThread t p suspend bypass =>
    simp only [step] at hstep
    split at hstep
    · simp at hstep
    · rename_i hstarted
      cases hstep
      exact .single (.newThread s t p _ _ (Bool.not_eq_true _ ▸ hstarted))
  | select t kind object key alertable when timer =>
    simp only [step] at hstep
    split at hstep
    · simp at hstep
    rename_i hguard
    obtain ⟨hrunning, _, hkeyed⟩ : running s t = true ∧ s.nested t = [] ∧ s.keyed t = none := by
      simpa using hguard
    split at hstep
    · cases hstep
      exact .refl
    cases hstep
    have hwait : Change s (waitOn s t ⟨s.count, kind, object, key, alertable, when⟩) :=
      .wait s t _ hrunning hkeyed rfl
    exact (ReflTransGen.single hwait).trans (selectKeyed_moves (hwait.inv hinv) timer).changes
  | nested t w timer =>
    simp only [step, ite_none_right_eq_some, some.injEq] at hstep
    exact hstep.2 ▸ (selectNested_moves w timer).changes
  | timeout t => exact (threadTimeout_moves hinv hstep).changes
  | queueApc t system =>
    have hqueued : ∀ systemApc userApc,
        Moves t s { s with systemApc := systemApc, userApc := userApc } :=
      fun systemApc userApc => .single (.apcs s systemApc userApc)
    simp only [step] at hstep
    split at hstep
    · cases hstep
      exact .refl
    split at hstep
    · cases hstep
      have hmoves := hqueued (update s.systemApc t (s.systemApc t + 1)) s.userApc
      split
      · exact hmoves.changes.trans (wakeThread_moves (hmoves.inv hinv)).changes
      · exact hmoves.changes
    cases hstep
    have hmoves := hqueued s.systemApc (update s.userApc t (s.userApc t + 1))
    split
    · exact hmoves.changes.trans (wakeThread_moves (hmoves.inv hinv)).changes
    · exact hmoves.changes
  | cancelApc t system =>
    cases hstep
    exact (dequeueApc_moves (t := t)).changes
  | suspendThread t context =>
    simp only [step] at hstep
    split at hstep
    · cases hstep
      exact .single (.environment s _ s.procSuspend _ s.systemApc s.userApc s.broken s.now)
    · cases hstep
      exact .refl
  | resumeThread t =>
    simp only [step] at hstep
    split at hstep
    · cases hstep
      exact .refl
    cases hstep
    have hresumed : Change s { s with suspend := update s.suspend t (s.suspend t - 1) } :=
      .environment s _ s.procSuspend s.context s.systemApc s.userApc s.broken s.now
    split
    · exact .single hresumed
    · exact (ReflTransGen.single hresumed).trans (wakeThread_moves (hresumed.inv hinv)).changes
  | suspendProcess p contexts =>
    cases hstep
    exact .single (.environment s s.suspend _ _ s.systemApc s.userApc s.broken s.now)
  | resumeProcess p =>
    simp only [step] at hstep
    split at hstep
    · simp at hstep
    cases hstep
    have hresumed : Change s
        { s with procSuspend := update s.procSuspend p (s.procSuspend p - 1) } :=
      .environment s s.suspend _ s.context s.systemApc s.userApc s.broken s.now
    split
    · exact .single hresumed
    · exact (ReflTransGen.single hresumed).trans (wakeThreads_changes (hresumed.inv hinv) _)
  | context t context =>
    cases hstep
    exact .single (.environment s s.suspend s.procSuspend _ s.systemApc s.userApc s.broken s.now)
  | killThread t =>
    simp only [step, ite_none_right_eq_some, some.injEq] at hstep
    exact hstep.2 ▸ .single (.move t (.kill s))
  | breakThread t =>
    cases hstep
    exact .single (.environment s s.suspend s.procSuspend s.context s.systemApc s.userApc _ s.now)
  | advance time =>
    cases hstep
    exact .single
      (.environment s s.suspend s.procSuspend s.context s.systemApc s.userApc s.broken _)

omit [DecidableEq T] [DecidableEq P] in
lemma Inv.initial (h : Initial s) : Inv s := by
  obtain ⟨_, hthreads, _, hkeyed, hqueue, _, houtcome⟩ := h
  refine ⟨fun o t => ?_, fun o => ?_, fun t w ht => ?_, fun t u w _ ht => ?_, fun id o ho => ?_,
    fun t w ht => ?_, fun p t ht => ?_⟩
  · simp [hqueue, hkeyed]
  · rw [hqueue]
    exact nodup_nil
  · rw [hkeyed] at ht
    simp at ht
  · rw [hkeyed] at ht
    simp at ht
  · rw [houtcome] at ho
    simp at ho
  · rw [hkeyed] at ht
    simp at ht
  · rw [hthreads] at ht
    exact absurd ht (not_mem_nil)

/-- The partner of a wait that has succeeded is a matching wait that has succeeded as well, of
which it is the partner. -/
def Paired (s : State T P) : Prop :=
  ∃ partner : Nat → Nat, ∀ id o, s.outcome id = some o → o.status = .success →
    ∃ o', s.outcome (partner id) = some o' ∧ o'.status = .success ∧
      o'.kind = matchingOp o.kind ∧ o'.object = o.object ∧ o'.key = o.key ∧
      s.process o'.thread = s.process o.thread ∧ partner (partner id) = id

omit [DecidableEq T] [DecidableEq P] in
lemma Paired.initial (h : Initial s) : Paired s := by
  obtain ⟨_, _, _, _, _, _, houtcome⟩ := h
  refine ⟨id, fun id o ho => ?_⟩
  rw [houtcome] at ho
  simp at ho

omit [DecidableEq T] [DecidableEq P] in
lemma Paired.of_outcome (h : Paired s) (houtcome : s'.outcome = s.outcome)
    (hprocess : ∀ id o, s.outcome id = some o → s'.process o.thread = s.process o.thread) :
    Paired s' := by
  obtain ⟨partner, hpartner⟩ := h
  refine ⟨partner, fun id o ho hsuccess => ?_⟩
  rw [houtcome] at ho ⊢
  obtain ⟨o', ho', hstatus, hkind, hobject, hkey, hsame, hinvol⟩ := hpartner id o ho hsuccess
  refine ⟨o', ho', hstatus, hkind, hobject, hkey, ?_, hinvol⟩
  rw [hprocess id o ho, hprocess _ o' ho']
  exact hsame

omit [DecidableEq P] in
lemma Paired.endKeyed (h : Paired s) (hinv : Inv s) (hstatus : status ≠ .success) :
    Paired (endKeyed s t status) := by
  cases hw : s.keyed t with
  | none =>
    rw [endKeyed_none hw]
    exact h
  | some w =>
    rw [endKeyed_eq hw]
    obtain ⟨partner, hpartner⟩ := h
    have hnone : s.outcome w.id = none := (hinv.fresh t w hw).2
    have hkeep : ∀ id o, o.status = .success →
        (update s.outcome w.id (some ⟨t, w.kind, w.object, w.key, status⟩) id = some o ↔
          s.outcome id = some o) := by
      intro id o ho
      by_cases hid : id = w.id
      · rw [hid, update_self, hnone]
        refine iff_of_false (fun heq => hstatus ?_) (by simp)
        rw [← some.inj heq] at ho
        exact ho
      · rw [update_of_ne hid]
    refine ⟨partner, fun id o ho hsuccess => ?_⟩
    obtain ⟨o', ho', hstatus', hrest⟩ := hpartner id o ((hkeep id o hsuccess).mp ho) hsuccess
    exact ⟨o', (hkeep _ o' hstatus').mpr ho', hstatus', hrest⟩

lemma Paired.killThread (h : Paired s) (hinv : Inv s) : Paired (killThread s t) := by
  have hnested : Paired (setNested s t []) := h.of_outcome rfl fun _ _ _ => rfl
  have hended : Paired (KeyedEvents.endKeyed (setNested s t []) t .threadIsTerminating) :=
    hnested.endKeyed (hinv.setNested []) (by decide)
  exact hended.of_outcome rfl fun _ _ _ => rfl

lemma sendThreadWakeup_outcome (h : s.keyed t = none) :
    (sendThreadWakeup s t).outcome = s.outcome := by
  unfold sendThreadWakeup
  split
  · have hnested : (setNested s t []).keyed t = none := h
    simp only [killThread, endKeyed_none hnested]
    rfl
  · rfl

lemma Paired.matched (h : Paired s) (hinv : Inv s) {w w' : KeyedWait} (hne : u ≠ t)
    (hw : s.keyed t = some w) (hw' : s.keyed u = some w') (hkind : w'.kind = matchingOp w.kind)
    (hobject : w'.object = w.object) (hkey : w'.key = w.key)
    (hprocess : s.process u = s.process t) :
    Paired (KeyedEvents.endKeyed (sendThreadWakeup (KeyedEvents.endKeyed s u .success) u) t
      .success) := by
  let s₁ := sendThreadWakeup (KeyedEvents.endKeyed s u .success) u
  have hprocess₁ : s₁.process = s.process :=
    ((endKeyed_ends t).trans (sendThreadWakeup_ends t)).process
  have hw₁ : s₁.keyed t = some w := by
    rw [sendThreadWakeup_keyed_of_ne hne.symm, endKeyed_keyed_of_ne hne.symm]
    exact hw
  have houtcome₁ : s₁.outcome =
      update s.outcome w'.id (some ⟨u, w'.kind, w'.object, w'.key, .success⟩) := by
    rw [sendThreadWakeup_outcome endKeyed_keyed_self, endKeyed_eq hw']
  have hids : w'.id ≠ w.id := fun heq => hne (hinv.distinct u t w' w hw' hw heq)
  have hnone := (hinv.fresh t w hw).2
  have hnone' := (hinv.fresh u w' hw').2
  obtain ⟨partner, hpartner⟩ := h
  refine ⟨update (update partner w.id w'.id) w'.id w.id, fun id o ho hsuccess => ?_⟩
  rw [endKeyed_eq hw₁] at ho ⊢
  dsimp only at ho ⊢
  rw [houtcome₁] at ho ⊢
  rw [hprocess₁]
  by_cases hid : id = w.id
  · subst hid
    rw [update_self] at ho
    have ho := some.inj ho
    subst ho
    refine ⟨⟨u, w'.kind, w'.object, w'.key, .success⟩, ?_, rfl, hkind, hobject, hkey, hprocess, ?_⟩
    · rw [update_of_ne hids.symm, update_self, update_of_ne hids, update_self]
    · rw [update_of_ne hids.symm, update_self, update_self]
  rw [update_of_ne hid] at ho
  by_cases hid' : id = w'.id
  · subst hid'
    rw [update_self] at ho
    have ho := some.inj ho
    subst ho
    refine ⟨⟨t, w.kind, w.object, w.key, .success⟩, ?_, rfl, ?_, hobject.symm, hkey.symm,
      hprocess.symm, ?_⟩
    · rw [update_self, update_self]
    · rw [hkind]
      cases w.kind <;> rfl
    · rw [update_self, update_of_ne hids.symm, update_self]
  rw [update_of_ne hid'] at ho
  obtain ⟨o', ho', hstatus, hkind', hobject', hkey', hsame, hinvol⟩ := hpartner id o ho hsuccess
  have hpw : partner id ≠ w.id := by
    intro heq
    rw [heq, hnone] at ho'
    simp at ho'
  have hpw' : partner id ≠ w'.id := by
    intro heq
    rw [heq, hnone'] at ho'
    simp at ho'
  rw [update_of_ne hid', update_of_ne hid]
  refine ⟨o', ?_, hstatus, hkind', hobject', hkey', hsame, ?_⟩
  · rw [update_of_ne hpw, update_of_ne hpw']
    exact ho'
  · rw [update_of_ne hpw', update_of_ne hpw]
    exact hinvol

lemma Change.paired (h : Change s s') (hinv : Inv s) (hpaired : Paired s) : Paired s' := by
  cases h with
  | move t hmove =>
    cases hmove with
    | unmatched status hstatus => exact hpaired.endKeyed hinv hstatus
    | matched u w w' hne hw hw' hkind hobject hkey hprocess =>
      exact hpaired.matched hinv hne hw hw' hkind hobject hkey hprocess
    | nested nested | context context | apcs systemApc userApc =>
      exact hpaired.of_outcome rfl fun _ _ _ => rfl
    | kill => exact hpaired.killThread hinv
  | wait t w _ _ _ => exact hpaired.of_outcome rfl fun _ _ _ => rfl
  | newThread t p suspend bypass hstarted =>
    refine hpaired.of_outcome rfl fun id o ho => update_of_ne ?_ _ _
    rintro rfl
    have hthread := (hinv.bound id o ho).2
    rw [hstarted] at hthread
    exact absurd hthread (by decide)
  | environment suspend procSuspend context systemApc userApc broken now =>
    exact hpaired.of_outcome rfl fun _ _ _ => rfl

lemma Changes.paired (h : Changes s s') (hinv : Inv s) (hpaired : Paired s) : Paired s' := by
  induction h with
  | refl => exact hpaired
  | tail hchanges hchange ih => exact hchange.paired (Changes.inv hchanges hinv) ih

end WineForge.KeyedEvents
