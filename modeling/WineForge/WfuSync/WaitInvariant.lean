import WineForge.WfuSync.WaitSections

/-!
# The invariant of blocking waits

What every step of the wait loop keeps besides the account of its wakes: the type and the range
of the object, what the threads may compare with and remember, and the books of the server's
wait queue.
-/

namespace WineForge.WfuSync

open Function Library Option

def LoopThread.role : LoopThread → Role
  | .loop _ | .consume _ | .clock _ true | .sleep _ _ true | .select false
  | .queued false false => .attempt
  | .asleep _ => .asleep
  | .wake .one => .wakeOne
  | .wake .all => .wakeAll
  | _ => .idle

variable {ι : Type*} {kind : WaitKind} {s s' : LoopState ι}

/-- Only a wait for a mutex compares with a loaded value, and it stops when it is refused. -/
def LoopThread.Ok (kind : WaitKind) : LoopThread → Prop
  | .sleep _ value _ => kind ≠ .mutex → value = 0
  | .clock _ true => kind ≠ .mutex
  | .load _ => kind = .mutex
  | _ => True

/-- The invariant of every run. An event with a value other than 0 and 1 was never slept on. -/
structure LoopInv (kind : WaitKind) (s : LoopState ι) : Prop where
  type : s.obj.word.type = kind.type
  range : UnitsInRange kind s.obj
  value : kind = .event → s.obj.low = 0 ∨ s.obj.low = 1 ∨ ∀ t, (s.threads t).role ≠ .asleep
  ok : ∀ t, (s.threads t).Ok kind
  busy : ∀ t, s.server = .check t ∨ s.server = .satisfy t → ∃ all checked,
    s.threads t = .queued all checked
  unchecked : ∀ t all, s.threads t = .queued all false → s.server = .check t ∨ s.server = .satisfy t

variable {o o' : WfusyncState} {p : LoopThread} {t : ι}

lemma admitted_type {op : SignalOp} {generation : ℕ}
    (htype : o.word.type = kind.type) (h : op.admitted generation o = true) :
    op.type = kind.type := by
  rw [← htype]
  simp only [SignalOp.admitted, wfusyncLockGranted, Bool.and_eq_true, decide_eq_true_eq] at h
  exact h.1.1.1.symm

/-- What a step of a client thread leaves behind. -/
structure ClientNext (kind : WaitKind) (o o' : WfusyncState) (p p' : LoopThread) : Prop where
  keeps : Keeps kind o o'
  ok : p'.Ok kind
  queued : ∀ all checked, p ≠ .queued all checked ∧ p' ≠ .queued all checked
  asleep : p'.role = .asleep → ∃ c v refused, p = .sleep c v refused ∧ o.low = v ∧ o' = o

lemma clientStep_next {tid : Int} {choice : Choice} {p' : LoopThread}
    {satisfied : Bool} (htype : o.word.type = kind.type)
    (hok : p.Ok kind) (h : clientStep kind tid o choice p = some (o', p', satisfied)) :
    ClientNext kind o o' p p' := by
  cases p with
  | outside | request _ | wake _ | select _ | queued _ _ => cases h
  | enter c =>
    cases h
    refine ⟨.refl kind o, ?_, ?_, ?_⟩ <;> split <;> simp [LoopThread.role, LoopThread.Ok]
  | first c =>
    cases h
    refine ⟨consumeState_keeps kind tid o, ?_, ?_, ?_⟩ <;> rw [afterFirst] <;>
      split_ifs <;> simp [LoopThread.role, LoopThread.Ok]
  | loop c =>
    simp only [clientStep] at h
    split at h <;> cases h <;> exact ⟨.refl kind o, trivial, by simp, by simp [LoopThread.role]⟩
  | consume c =>
    cases h
    refine ⟨consumeState_keeps kind tid o, ?_, ?_, ?_⟩ <;> rw [afterConsume] <;>
      split_ifs <;> simp_all [LoopThread.role, LoopThread.Ok]
  | clock c refused =>
    cases choice with
    | expire =>
      simp only [clientStep, ite_none_right_eq_some, some.injEq] at h
      cases h.2
      exact ⟨.refl kind o, trivial, by simp, by simp [LoopThread.role]⟩
    | go | unsupported =>
      cases h
      refine ⟨.refl kind o, ?_, ?_, ?_⟩ <;> cases refused <;> split <;>
        simp_all [LoopThread.role, LoopThread.Ok]
  | load c =>
    cases h
    have hmutex : kind = .mutex := hok
    exact ⟨.refl kind o, fun hne => absurd hmutex hne, by simp, by simp [LoopThread.role]⟩
  | sleep c value refused =>
    cases choice with
    | unsupported =>
      cases h
      exact ⟨.refl kind o, trivial, by simp, by simp [LoopThread.role]⟩
    | go | expire =>
      cases h
      refine ⟨.refl kind o, ?_, ?_, ?_⟩ <;> split <;> simp_all [LoopThread.role, LoopThread.Ok]
  | asleep c =>
    cases choice with
    | go | unsupported =>
      cases h
      exact ⟨.refl kind o, trivial, by simp, by simp [LoopThread.role]⟩
    | expire =>
      cases h
      refine ⟨.refl kind o, ?_, ?_, ?_⟩ <;> split <;> simp [LoopThread.role, LoopThread.Ok]
  | poll =>
    cases h
    exact ⟨consumeState_keeps kind tid o, trivial, by simp, by simp [LoopThread.role]⟩
  | waitAll generation ready =>
    cases h
    exact ⟨waitAllLocalEntry_keeps kind tid generation ready o, trivial, by simp,
      by simp [LoopThread.role]⟩
  | signal op generation =>
    simp only [clientStep, SignalOp.client_eq] at h
    by_cases hadmitted : op.admitted generation o = true
    · simp only [hadmitted, if_true, SignalOp.locked_status, if_false] at h
      have hkeeps := locked_keeps (admitted_type htype hadmitted) tid o
      split at h
      · cases h
        exact ⟨hkeeps, trivial, by simp, by simp [LoopThread.role]⟩
      rename_i w _
      cases h
      refine ⟨hkeeps, trivial, by simp, ?_⟩
      cases w <;> simp [LoopThread.role]
    · simp only [hadmitted] at h
      cases h
      exact ⟨.refl kind o, trivial, by simp, by simp [LoopThread.role]⟩

/-- Two threads between which the server's bookkeeping sees no difference. -/
structure Follows (kind : WaitKind) (o' : WfusyncState) (p p' : LoopThread) : Prop where
  ok : p'.Ok kind
  asleep : p'.role = .asleep → p.role = .asleep ∨ (kind = .event → o'.low = 0)
  queued : ∀ all checked, p' = .queued all checked ↔ p = .queued all checked

lemma Follows.refl (h : p.Ok kind) : Follows kind o' p p :=
  ⟨h, .inl, fun _ _ => Iff.rfl⟩

lemma Follows.roused (h : p.Ok kind) : Follows kind o' p p.roused := by
  cases p with
  | asleep c => exact ⟨trivial, by simp [LoopThread.roused, LoopThread.role], by simp [LoopThread.roused]⟩
  | _ => exact .refl h

lemma follows_update [DecidableEq ι] (h : ∀ u, (s.threads u).Ok kind)
    (ht : Follows kind o' (s.threads t) p) (u : ι) :
    Follows kind o' (s.threads u) (update s.threads t p u) := by
  by_cases hut : u = t
  · subst hut
    rwa [update_self]
  · rw [update_of_ne hut]
    exact .refl (h u)

lemma LoopInv.frame (hinv : LoopInv kind s) (hkeeps : Keeps kind s.obj s'.obj)
    (hserver : ∀ t, s'.server = .check t ∨ s'.server = .satisfy t ↔
      s.server = .check t ∨ s.server = .satisfy t)
    (hthreads : ∀ t, Follows kind s'.obj (s.threads t) (s'.threads t)) : LoopInv kind s' := by
  refine ⟨hkeeps.type.trans hinv.type, hkeeps.range hinv.range, ?_, fun t => (hthreads t).ok, ?_, ?_⟩
  · intro hevent
    rcases (hkeeps.value hevent).1 with hsame | h0 | h1
    · rcases hinv.value hevent with h0 | h1 | hnone
      · exact .inl (hsame.trans h0)
      · exact .inr (.inl (hsame.trans h1))
      by_cases hzero : s'.obj.low = 0
      · exact .inl hzero
      refine .inr (.inr fun t ht => ?_)
      rcases (hthreads t).asleep ht with hbefore | hlow
      · exact hnone t hbefore
      · exact hzero (hlow hevent)
    · exact .inl h0
    · exact .inr (.inl h1)
  · intro t ht
    obtain ⟨all, checked, hqueued⟩ := hinv.busy t ((hserver t).mp ht)
    exact ⟨all, checked, ((hthreads t).queued all checked).mpr hqueued⟩
  · intro t all hqueued
    exact (hserver t).mpr (hinv.unchecked t all (((hthreads t).queued all false).mp hqueued))

lemma LoopInv.requeue [DecidableEq ι] (hinv : LoopInv kind s)
    (hkeeps : Keeps kind s.obj s'.obj) (hthreads : s'.threads = update s.threads t p)
    (hok : p.Ok kind) (hasleep : p.role ≠ .asleep)
    (hbusy : ∀ u, s'.server = .check u ∨ s'.server = .satisfy u → ∃ all checked,
      s'.threads u = .queued all checked)
    (hunchecked : ∀ u all, s'.threads u = .queued all false →
      s'.server = .check u ∨ s'.server = .satisfy u) : LoopInv kind s' := by
  have hothers : ∀ u, u ≠ t → s'.threads u = s.threads u := by
    intro u hut
    rw [hthreads, update_of_ne hut]
  have hself : s'.threads t = p := by rw [hthreads, update_self]
  refine ⟨hkeeps.type.trans hinv.type, hkeeps.range hinv.range, ?_, ?_, hbusy, hunchecked⟩
  · intro hevent
    rcases (hkeeps.value hevent).1 with hsame | h0 | h1
    · rw [hsame]
      rcases hinv.value hevent with h0 | h1 | hnone
      · exact .inl h0
      · exact .inr (.inl h1)
      refine .inr (.inr fun u => ?_)
      by_cases hut : u = t
      · rwa [hut, hself]
      · rw [hothers u hut]
        exact hnone u
    · exact .inl h0
    · exact .inr (.inl h1)
  · intro u
    by_cases hut : u = t
    · rwa [hut, hself]
    · rw [hothers u hut]
      exact hinv.ok u

lemma LoopInv.checked (hinv : LoopInv kind s)
    (h : ∀ u, s.server = .check u ∨ s.server = .satisfy u → u = t) {u : ι} {all : Bool}
    (hqueued : s.threads u = .queued all false) : u = t :=
  h u (hinv.unchecked u all hqueued)

lemma wakeThreads_follows [DecidableEq ι] [Fintype ι] {w : Wake} {target : Option ι}
    {f' : ι → LoopThread} (h : ∀ u, (s.threads u).Ok kind)
    (hwake : wakeThreads w target s.threads = some f') (u : ι) :
    Follows kind o' (s.threads u) (f' u) := by
  cases w with
  | all =>
    cases hwake
    exact .roused (h u)
  | one =>
    cases target with
    | none =>
      simp only [wakeThreads, ite_none_right_eq_some, some.injEq] at hwake
      obtain ⟨-, rfl⟩ := hwake
      exact .refl (h u)
    | some t =>
      simp only [wakeThreads, ite_none_right_eq_some, some.injEq] at hwake
      obtain ⟨-, rfl⟩ := hwake
      exact follows_update h (.roused (h t)) u

lemma server_keeps {op : SignalOp} {tid : Int}
    (htype : o.word.type = kind.type) : Keeps kind o (op.server tid o).state := by
  unfold SignalOp.server
  split
  · rename_i h
    exact locked_keeps (h.symm.trans htype) tid o
  · exact .refl kind o

lemma LoopState.signal_server (s : LoopState ι) (op : SignalOp) (tid : Int) :
    (s.signal op tid).server = .idle ∨ ∃ w, (s.signal op tid).server = .wake w := by
  simp only [LoopState.signal]
  cases (op.server tid s.obj).wake with
  | none => exact .inl rfl
  | some w => exact .inr ⟨w, rfl⟩

/-- Every step keeps the invariant. -/
theorem LoopInv.step [DecidableEq ι] [Fintype ι] {T : ThreadIds ι} {a : LoopAct ι} (hinv : LoopInv kind s)
    (hstep : loopStep kind T s a = some s') : LoopInv kind s' := by
  cases a with
  | call t p =>
    simp only [loopStep, ite_none_right_eq_some, some.injEq] at hstep
    obtain ⟨⟨hout, hstart⟩, rfl⟩ := hstep
    refine hinv.frame (.refl kind s.obj) (fun _ => Iff.rfl) (follows_update hinv.ok ?_)
    rw [hout]
    unfold LoopThread.start at hstart
    split at hstart <;> first | exact ⟨trivial, by simp [LoopThread.role], by simp⟩ | cases hstart
  | run t choice =>
    obtain ⟨⟨o, p, satisfied⟩, hclient, rfl⟩ := map_eq_some_iff.mp hstep
    have hnext := clientStep_next hinv.type (hinv.ok t) hclient
    refine hinv.frame hnext.keeps (fun _ => Iff.rfl) (follows_update hinv.ok ⟨hnext.ok, ?_, ?_⟩)
    · intro hasleep
      obtain ⟨c, v, refused, hp, hlow, hsame⟩ := hnext.asleep hasleep
      have hok := hinv.ok t
      rw [hp] at hok
      refine .inr fun hevent => ?_
      have hzero : v = 0 := hok (by simp [hevent])
      change o.low = 0
      rw [hsame, hlow, hzero]
    · intro all checked
      exact ⟨fun h => absurd h (hnext.queued all checked).2,
        fun h => absurd h (hnext.queued all checked).1⟩
  | wake t target =>
    simp only [loopStep] at hstep
    split at hstep
    · rename_i w hw
      obtain ⟨f, hf, rfl⟩ := map_eq_some_iff.mp hstep
      refine hinv.frame (.refl kind s.obj) (fun _ => Iff.rfl) fun u => ?_
      by_cases hut : u = t
      · subst hut
        simp only [LoopState.goto, update_self]
        rw [hw]
        exact ⟨trivial, by simp [LoopThread.role], by simp⟩
      · simp only [LoopState.goto, update_of_ne hut]
        exact wakeThreads_follows hinv.ok hf u
    · cases hstep
  | exit t =>
    simp only [loopStep, ite_none_right_eq_some, some.injEq] at hstep
    obtain ⟨⟨hidle, -, htype⟩, rfl⟩ := hstep
    have hmutex : kind = .mutex := by
      rw [hinv.type] at htype
      cases kind <;> first | rfl | cases htype
    refine hinv.frame ⟨?_, ?_, ?_⟩ (fun u => ?_) fun u => .refl (hinv.ok u)
    · simp only [LoopState.put, wfusyncAbandonMutex]
      split <;> rfl
    · intro _ hk
      simp [hmutex] at hk
    · intro hk
      simp [hmutex] at hk
    · rw [hidle]
      split <;> simp
  | serve t =>
    simp only [loopStep] at hstep
    split at hstep
    · rename_i op hidle hreq
      cases hstep
      refine hinv.frame (server_keeps hinv.type) (fun u => ?_) (follows_update hinv.ok ?_)
      · rcases LoopState.signal_server s op (T.tid t) with h | ⟨w, h⟩ <;>
          simp [LoopState.goto, h, hidle]
      · rw [hreq]
        exact ⟨trivial, by simp [LoopThread.role], by simp⟩
    · cases hstep
  | serverSignal op tid =>
    simp only [loopStep, ite_none_right_eq_some, some.injEq] at hstep
    obtain ⟨hidle, rfl⟩ := hstep
    refine hinv.frame (server_keeps hinv.type) (fun u => ?_) fun u => .refl (hinv.ok u)
    rcases LoopState.signal_server s op tid with h | ⟨w, h⟩ <;> simp [h, hidle]
  | serverWake target =>
    simp only [loopStep] at hstep
    split at hstep
    · rename_i w hw
      obtain ⟨f, hf, rfl⟩ := map_eq_some_iff.mp hstep
      exact hinv.frame (.refl kind s.obj) (fun u => by simp [hw]) (wakeThreads_follows hinv.ok hf)
    · cases hstep
  | enqueue t =>
    simp only [loopStep] at hstep
    split at hstep
    · rename_i all hidle hselect
      cases hstep
      refine hinv.requeue (.flags kind s.obj _ _ _) rfl trivial (by cases all <;> simp [LoopThread.role]) ?_ ?_
      · intro u hu
        have hut : t = u := by simpa [LoopState.goto] using hu
        exact ⟨all, false, by simp [LoopState.goto, hut]⟩
      intro u all' hqueued
      by_cases hut : u = t
      · exact .inl (by rw [hut]; rfl)
      · have hbefore : s.threads u = .queued all' false := by
          simpa [LoopState.goto, LoopState.addWaiter, hut] using hqueued
        rcases hinv.unchecked u all' hbefore with h | h <;> rw [hidle] at h <;> cases h
    · cases hstep
  | recheck t =>
    simp only [loopStep] at hstep
    split at hstep
    · rename_i all checked hidle hqueued
      cases hstep
      have hsame : s.threads = update s.threads t (.queued all checked) := by
        rw [← hqueued, update_eq_self]
      refine hinv.requeue (.refl kind s.obj) hsame trivial
        (by cases all <;> cases checked <;> simp [LoopThread.role]) ?_ ?_
      · intro u hu
        have hut : t = u := by simpa using hu
        exact ⟨all, checked, hut ▸ hqueued⟩
      · intro u all' hqueued'
        rcases hinv.unchecked u all' hqueued' with h | h <;> rw [hidle] at h <;> cases h
    · cases hstep
  | check ready =>
    simp only [loopStep] at hstep
    split at hstep
    · rename_i t hcheck
      have honly : ∀ u, s.server = .check u ∨ s.server = .satisfy u → u = t := by
        intro u hu
        simpa [hcheck, eq_comm] using hu
      split at hstep
      · rename_i all checked hqueued
        split at hstep
        · cases hstep
          have hsame : s.threads = update s.threads t (.queued all checked) := by
            rw [← hqueued, update_eq_self]
          refine hinv.requeue (.refl kind s.obj) hsame trivial
            (by cases all <;> cases checked <;> simp [LoopThread.role]) ?_ ?_
          · intro u hu
            have hut : t = u := by simpa using hu
            exact ⟨all, checked, hut ▸ hqueued⟩
          · intro u all' hqueued'
            exact .inr (by rw [hinv.checked honly hqueued'])
        cases hstep
        refine hinv.requeue (.refl kind s.obj) rfl trivial
          (by cases all <;> simp [LoopThread.role]) (by simp [LoopState.goto]) ?_
        intro u all' hqueued'
        by_cases hut : u = t
        · subst hut
          simp [LoopState.goto] at hqueued'
        · have hbefore : s.threads u = .queued all' false := by
            simpa [LoopState.goto, hut] using hqueued'
          exact absurd (hinv.checked honly hbefore) hut
      · cases hstep
    · cases hstep
  | satisfied =>
    simp only [loopStep] at hstep
    split at hstep
    · rename_i t hsatisfy
      have honly : ∀ u, s.server = .check u ∨ s.server = .satisfy u → u = t := by
        intro u hu
        simpa [hsatisfy, eq_comm] using hu
      cases hstep
      refine hinv.requeue (satisfiedFor_keeps kind (T.tid t) s.obj) rfl trivial
        (by simp [LoopThread.role]) (by simp [LoopState.goto]) ?_
      intro u all' hqueued'
      by_cases hut : u = t
      · subst hut
        simp [LoopState.goto] at hqueued'
      · have hbefore : s.threads u = .queued all' false := by
          simpa [LoopState.goto, LoopState.put, hut] using hqueued'
        exact absurd (hinv.checked honly hbefore) hut
    · cases hstep
  | retire =>
    simp only [loopStep] at hstep
    split at hstep
    · rename_i hretire
      cases hstep
      exact hinv.frame (.flags kind s.obj _ _ _) (fun u => by simp [hretire])
        fun u => .refl (hinv.ok u)
    · cases hstep
  | leave t =>
    simp only [loopStep] at hstep
    split at hstep
    · rename_i all checked hidle _
      cases hstep
      refine hinv.requeue (.flags kind s.obj _ _ _) rfl trivial (by simp [LoopThread.role])
        (by simp [LoopState.goto, LoopState.removeWaiter, hidle]) ?_
      intro u all' hqueued'
      by_cases hut : u = t
      · subst hut
        simp [LoopState.goto] at hqueued'
      · have hbefore : s.threads u = .queued all' false := by
          simpa [LoopState.goto, LoopState.removeWaiter, hut] using hqueued'
        rcases hinv.unchecked u all' hbefore with h | h <;> rw [hidle] at h <;> cases h
    · cases hstep
  | setMulti multiWaiters =>
    simp only [loopStep, ite_none_right_eq_some, some.injEq] at hstep
    obtain ⟨-, rfl⟩ := hstep
    exact hinv.frame (.flags kind s.obj _ _ _) (fun _ => Iff.rfl) fun u => .refl (hinv.ok u)
  | guard t =>
    simp only [loopStep, ite_none_right_eq_some, some.injEq] at hstep
    obtain ⟨⟨hidle, -⟩, rfl⟩ := hstep
    exact hinv.frame (.flags kind s.obj _ _ _) (fun u => by simp [hidle]) fun u => .refl (hinv.ok u)
  | commit ready =>
    simp only [loopStep] at hstep
    split at hstep
    · rename_i t hguarded
      have hframe : ∀ o n, Keeps kind s.obj o →
          LoopInv kind { s with obj := o, taken := n, server := .unguard } := fun o n hkeeps =>
        hinv.frame hkeeps (fun u => by simp [hguarded]) fun u => .refl (hinv.ok u)
      split at hstep
      · cases hstep
        exact hframe _ _ (.refl kind s.obj)
      split at hstep
      · rename_i o htake
        split at hstep
        · cases hstep
          exact hframe _ _ (tryWaitAllTake_keeps kind (T.tid t) htake)
        · cases hstep
          exact hframe _ _ (.refl kind s.obj)
      · cases hstep
        exact hframe _ _ (.refl kind s.obj)
    · cases hstep
  | unguard =>
    simp only [loopStep] at hstep
    split at hstep
    · rename_i hunguard
      cases hstep
      exact hinv.frame (.flags kind s.obj _ _ _) (fun u => by simp [hunguard])
        fun u => .refl (hinv.ok u)
    · cases hstep

end WineForge.WfuSync
