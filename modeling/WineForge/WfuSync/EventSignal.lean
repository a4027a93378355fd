import WineForge.WfuSync.LostWakeups

/-!
# Events: one wait for one signal

An auto-reset event satisfies at most one wait between two transitions of its value from zero.
A client takes the value in one section. The server looks at the value and takes it in two, but
a thread with an entry in the wait queue keeps the clients away from the event in between.
-/

namespace WineForge.WfuSync

open Function Library Option

variable {ι : Type*} {s s' : LoopState ι}

def LoopThread.isQueued : LoopThread → Bool
  | .queued _ _ => true
  | _ => false

def LoopServer.isRetire : LoopServer ι → Bool
  | .retire => true
  | _ => false

/-- `wfusync_try_wait_all` holds its guard. -/
def LoopServer.guards : LoopServer ι → Bool
  | .guarded _ | .unguard => true
  | _ => false

def TakesSignal (o o' : WfusyncState) (satisfied : Bool) : Prop :=
  o'.high = o.high ∧ (satisfied = true → o.high = 0 → o.low ≠ 0 ∧ o'.low = 0)

lemma consumeState_takes (tid : Int) (o : WfusyncState) :
    TakesSignal o (WaitKind.event.consumeState tid o).2
      (WaitKind.event.consumeState tid o).1.satisfied := by
  rw [consumeState_eq]
  split
  · simp only [WaitKind.consumeLocked, consumeEventStateLocked, consumeAutoEventState]
    by_cases hlow : o.low = 0
    · simp [hlow, TakesSignal, NtStatus.satisfied]
    by_cases hhigh : o.high = 0
    · by_cases hone : o.low = 1
      · simp [hhigh, hone, TakesSignal]
      · simp [hlow, hhigh, hone, TakesSignal, NtStatus.satisfied]
    · simp [hlow, hhigh, TakesSignal]
  · exact ⟨rfl, fun h => by cases h⟩

lemma waitAllLocalEntry_takes (tid : Int) (generation : ℕ) (ready : Bool) (o : WfusyncState) :
    TakesSignal o (waitAllLocalEntry .event tid generation ready o).2
      (waitAllLocalEntry .event tid generation ready o).1 := by
  unfold waitAllLocalEntry
  split
  · split
    · exact ⟨rfl, fun h => by cases h⟩
    rename_i hcheck
    split
    · refine ⟨rfl, fun _ _ => ⟨fun hlow => ?_, rfl⟩⟩
      simp [waitAllLocalCheck, hlow] at hcheck
    · exact ⟨rfl, fun h => by cases h⟩
  · exact ⟨rfl, fun h => by cases h⟩

variable {o o' : WfusyncState} {tid : Int} {choice : Choice} {p p' : LoopThread} {satisfied : Bool}

lemma tryWaitAllTake_takes (tid : Int)
    (h : tryWaitAllTake .event tid o = some o') : TakesSignal o o' true := by
  simp only [tryWaitAllTake] at h
  split_ifs at h with hlow hhigh
  · cases h
    exact ⟨rfl, fun _ _ => ⟨hlow, rfl⟩⟩
  · cases h
    exact ⟨rfl, fun _ hzero => absurd hzero hhigh⟩

lemma satisfiedFor_takes (tid : Int) (hlow : o.low ≠ 0) :
    TakesSignal o (satisfiedFor .event tid o) true := by
  simp only [satisfiedFor, wfusyncEventSatisfied]
  split
  · exact ⟨rfl, fun _ _ => ⟨hlow, rfl⟩⟩
  · exact ⟨rfl, fun _ hzero => absurd hzero ‹_›⟩

lemma clientStep_takes (htype : o.word.type = .event)
    (h : clientStep .event tid o choice p = some (o', p', satisfied)) :
    TakesSignal o o' satisfied := by
  have hidle : TakesSignal o o false := ⟨rfl, fun h => by cases h⟩
  cases p with
  | outside | request _ | wake _ | select _ | queued _ _ => cases h
  | enter c | load c =>
    cases h
    exact hidle
  | first c | consume c | poll =>
    cases h
    exact consumeState_takes tid o
  | loop c =>
    simp only [clientStep] at h
    split at h <;> cases h <;> exact hidle
  | clock c refused =>
    cases choice with
    | expire =>
      simp only [clientStep, ite_none_right_eq_some, some.injEq] at h
      cases h.2
      exact hidle
    | go | unsupported =>
      cases h
      exact hidle
  | sleep c value refused | asleep c =>
    cases choice <;> cases h <;> exact hidle
  | waitAll generation ready =>
    cases h
    exact waitAllLocalEntry_takes tid generation ready o
  | signal op generation =>
    simp only [clientStep, SignalOp.client_eq] at h
    by_cases hadmitted : op.admitted generation o = true
    · simp only [hadmitted, if_true, SignalOp.locked_status, if_false] at h
      have hkeeps : Keeps .event o (op.locked tid o).state :=
        locked_keeps (admitted_type htype hadmitted) tid o
      have hhigh := (hkeeps.value rfl).2
      split at h <;> cases h <;> exact ⟨hhigh, fun h => by cases h⟩
    · simp only [hadmitted] at h
      cases h
      exact hidle

lemma clientStep_frozen {kind : WaitKind} (hflag : o.word.serverWaiters = true)
    (h : clientStep kind tid o choice p = some (o', p', satisfied)) : o' = o := by
  have hrefused : ∀ type, wfusyncLockGranted o type = false := by
    intro type
    simp [wfusyncLockGranted, hflag]
  have hconsume : kind.consumeState tid o = (.notImplemented, o) := by
    rw [consumeState_eq, hrefused]
    rfl
  cases p with
  | outside | request _ | wake _ | select _ | queued _ _ => cases h
  | enter c | load c =>
    cases h
    rfl
  | first c | consume c | poll =>
    simp only [clientStep, hconsume, some.injEq, Prod.mk.injEq] at h
    exact h.1.symm
  | loop c =>
    simp only [clientStep] at h
    split at h <;> cases h <;> rfl
  | clock c refused =>
    cases choice with
    | expire =>
      simp only [clientStep, ite_none_right_eq_some, some.injEq] at h
      cases h.2
      rfl
    | go | unsupported =>
      cases h
      rfl
  | sleep c value refused | asleep c =>
    cases choice <;> cases h <;> rfl
  | waitAll generation ready =>
    simp only [clientStep, waitAllLocalEntry, hrefused, Bool.false_eq_true, false_and, if_false,
      some.injEq, Prod.mk.injEq] at h
    exact h.1.symm
  | signal op generation =>
    have hadmitted : op.admitted generation o = false := by
      simp [SignalOp.admitted, hrefused]
    simp only [clientStep, SignalOp.client_eq, hadmitted] at h
    cases h
    rfl

lemma consumeState_word (tid : Int) (o : WfusyncState) :
    (WaitKind.event.consumeState tid o).2.word = o.word := by
  rw [consumeState_eq]
  split
  · exact consumeLocked_word .event tid o
  · rfl

lemma waitAllLocalEntry_word (tid : Int) (generation : ℕ) (ready : Bool) (o : WfusyncState) :
    (waitAllLocalEntry .event tid generation ready o).2.word = o.word := by
  unfold waitAllLocalEntry
  split
  · split
    · rfl
    · split <;> rfl
  · rfl

lemma clientStep_word (h : clientStep .event tid o choice p = some (o', p', satisfied)) :
    o'.word = o.word := by
  cases p with
  | outside | request _ | wake _ | select _ | queued _ _ => cases h
  | enter c | load c =>
    cases h
    rfl
  | first c | consume c | poll =>
    cases h
    exact consumeState_word tid o
  | loop c =>
    simp only [clientStep] at h
    split at h <;> cases h <;> rfl
  | clock c refused =>
    cases choice with
    | expire =>
      simp only [clientStep, ite_none_right_eq_some, some.injEq] at h
      cases h.2
      rfl
    | go | unsupported =>
      cases h
      rfl
  | sleep c value refused | asleep c =>
    cases choice <;> cases h <;> rfl
  | waitAll generation ready =>
    cases h
    exact waitAllLocalEntry_word tid generation ready o
  | signal op generation =>
    simp only [clientStep, SignalOp.client_eq] at h
    by_cases hadmitted : op.admitted generation o = true
    · simp only [hadmitted, if_true, SignalOp.locked_status, if_false] at h
      split at h <;> cases h <;> exact locked_word op tid o
    · simp only [hadmitted] at h
      cases h
      rfl

/-! ### The books of the server and the signal -/

section EventInv

variable [Fintype ι]

/-- The counter of the server waiters and the flag it stands behind, what the server found out
before it satisfies a wait, and the number of waits satisfied by the current signal. -/
structure EventInv (s : LoopState ι) : Prop where
  waiters : s.waiters = census LoopThread.isQueued s.threads + s.server.isRetire.toNat
  flag : 0 < s.waiters → s.obj.word.serverWaiters = true
  guards : s.server.guards = true → s.waiters = 0
  satisfy : ∀ t, s.server = .satisfy t → s.obj.low ≠ 0
  once : s.obj.high = 0 → s.taken + (if s.obj.low = 0 then 0 else 1) ≤ 1

variable {o : WfusyncState} {satisfied : Bool}

lemma EventInv.put_once (hinv : EventInv s)
    (htakes : TakesSignal s.obj o satisfied) (hhigh : o.high = 0) :
    (s.put o satisfied).taken + (if o.low = 0 then 0 else 1) ≤ 1 := by
  have honce := hinv.once (htakes.1.symm.trans hhigh)
  simp only [LoopState.put]
  cases satisfied with
  | true =>
    obtain ⟨hbefore, hafter⟩ := htakes.2 rfl (htakes.1.symm.trans hhigh)
    simp only [hbefore, if_false] at honce
    simp only [hbefore, hafter, false_and, if_false, if_true, Bool.toNat_true]
    omega
  | false =>
    by_cases hbefore : s.obj.low = 0
    · by_cases hafter : o.low = 0
      · simpa [hbefore, hafter] using honce
      · simp [hbefore, hafter]
    · simp only [hbefore, if_false] at honce
      simp only [hbefore, false_and, if_false, Bool.toNat_false]
      split <;> omega

variable [DecidableEq ι]

lemma census_queued_update {t : ι} {p : LoopThread} (threads : ι → LoopThread) :
    census LoopThread.isQueued (update threads t p) + (threads t).isQueued.toNat =
    census LoopThread.isQueued threads + p.isQueued.toNat :=
  census_update LoopThread.isQueued threads t p

lemma EventInv.client (hinv : EventInv s) (hloop : LoopInv .event s)
    (htakes : TakesSignal s.obj o satisfied)
    (hword : o.word.serverWaiters = s.obj.word.serverWaiters)
    (hfrozen : s.obj.word.serverWaiters = true → o = s.obj)
    (hobj : s'.obj = o) (htaken : s'.taken = (s.put o satisfied).taken)
    (hwaiters : s'.waiters = s.waiters) (hserver : s'.server = s.server)
    (hqueued : ∀ u, (s'.threads u).isQueued = (s.threads u).isQueued) : EventInv s' := by
  refine ⟨?_, ?_, ?_, ?_, ?_⟩
  · rw [hwaiters, hserver, hinv.waiters, census_congr hqueued]
  · rw [hwaiters, hobj, hword]
    exact hinv.flag
  · rw [hwaiters, hserver]
    exact hinv.guards
  · intro t ht
    rw [hserver] at ht
    -- The wait that is being satisfied has an entry in the queue, so the flag is set.
    obtain ⟨all, checked, hqueue⟩ := hloop.busy t (.inr ht)
    have hpos : 0 < s.waiters := by
      have hone := census_queued_update (t := t) (p := .outside) s.threads
      rw [hqueue] at hone
      have hw := hinv.waiters
      simp only [LoopThread.isQueued, Bool.toNat_true, Bool.toNat_false] at hone
      omega
    rw [hobj, hfrozen (hinv.flag hpos)]
    exact hinv.satisfy t ht
  · intro hhigh
    rw [hobj] at hhigh ⊢
    rw [htaken]
    exact hinv.put_once htakes hhigh

omit [DecidableEq ι] in
lemma EventInv.server (hinv : EventInv s) (htakes : TakesSignal s.obj o satisfied)
    (hword : o.word.serverWaiters = s.obj.word.serverWaiters)
    (hobj : s'.obj = o) (htaken : s'.taken = (s.put o satisfied).taken)
    (hwaiters : s'.waiters = s.waiters) (hretire : s'.server.isRetire = s.server.isRetire)
    (hguards : s'.server.guards = true → s.server.guards = true)
    (hsatisfy : ∀ t, s'.server ≠ .satisfy t)
    (hqueued : ∀ u, (s'.threads u).isQueued = (s.threads u).isQueued) : EventInv s' := by
  refine ⟨?_, ?_, ?_, fun t ht => absurd ht (hsatisfy t), ?_⟩
  · rw [hwaiters, hretire, hinv.waiters, census_congr hqueued]
  · rw [hwaiters, hobj, hword]
    exact hinv.flag
  · rw [hwaiters]
    exact fun h => hinv.guards (hguards h)
  intro hhigh
  rw [hobj] at hhigh ⊢
  rw [htaken]
  exact hinv.put_once htakes hhigh

omit [Fintype ι] in
lemma isQueued_update {t : ι} {p : LoopThread} (h : p.isQueued = (s.threads t).isQueued) (u : ι) :
    (update s.threads t p u).isQueued = (s.threads u).isQueued := by
  by_cases hut : u = t
  · rw [hut, update_self, h]
  · rw [update_of_ne hut]

omit [DecidableEq ι] [Fintype ι] in
lemma put_same (s : LoopState ι) : s.put s.obj false = s := by
  have hno : ¬(s.obj.low = 0 ∧ s.obj.low ≠ 0) := fun h => h.2 h.1
  simp only [LoopState.put, hno, if_false, Bool.toNat_false, add_zero]

lemma wakeThreads_isQueued {w : Wake} {target : Option ι} {f' : ι → LoopThread}
    (hwake : wakeThreads w target s.threads = some f') (u : ι) :
    (f' u).isQueued = (s.threads u).isQueued := by
  have hroused : ∀ p : LoopThread, p.roused.isQueued = p.isQueued := by
    intro p
    cases p <;> rfl
  cases w with
  | all =>
    cases hwake
    exact hroused _
  | one =>
    cases target with
    | none =>
      simp only [wakeThreads, ite_none_right_eq_some, some.injEq] at hwake
      rw [← hwake.2]
    | some t =>
      simp only [wakeThreads, ite_none_right_eq_some, some.injEq] at hwake
      rw [← hwake.2]
      exact isQueued_update (hroused _) u

variable {T : ThreadIds ι}

omit [DecidableEq ι] in
lemma EventInv.signal (hinv : EventInv s) (hloop : LoopInv .event s) {op : SignalOp} {tid : Int}
    (hserver : s.server = .idle) (hobj : s'.obj = (op.server tid s.obj).state)
    (htaken : s'.taken = (s.put (op.server tid s.obj).state false).taken)
    (hwaiters : s'.waiters = s.waiters) (hnext : s'.server = (s.signal op tid).server)
    (hqueued : ∀ u, (s'.threads u).isQueued = (s.threads u).isQueued) : EventInv s' := by
  have htakes : TakesSignal s.obj (op.server tid s.obj).state false :=
    ⟨((server_keeps hloop.type).value rfl).2, fun h => by cases h⟩
  refine hinv.server htakes (by rw [server_word]) hobj htaken hwaiters ?_ ?_ ?_ hqueued
  · rw [hnext, hserver]
    rcases s.signal_server op tid with h | ⟨w, h⟩
    · rw [h]
    · rw [h]
      rfl
  · rw [hnext]
    rcases s.signal_server op tid with h | ⟨w, h⟩ <;> (rw [h]; intro hg; cases hg)
  · rw [hnext]
    rcases s.signal_server op tid with h | ⟨w, h⟩ <;> (rw [h]; intro t ht; cases ht)

omit [DecidableEq ι] in
lemma EventInv.remove_flag (hinv : EventInv s) (hpos : 0 < s.waiters) :
    0 < s.waiters - 1 → (s.obj.word.serverWaiters && decide (s.waiters ≠ 1)) = true := by
  intro hmore
  have hne : s.waiters ≠ 1 := by omega
  simp [hinv.flag hpos, hne]

/-- Every step keeps the books, and the event satisfies one wait for one signal. -/
theorem EventInv.step {a : LoopAct ι} (hinv : EventInv s) (hloop : LoopInv .event s)
    (hstep : loopStep .event T s a = some s') : EventInv s' := by
  have hidle : TakesSignal s.obj s.obj false := ⟨rfl, fun h => by cases h⟩
  have hsame : s.taken = (s.put s.obj false).taken := by rw [put_same]
  cases a with
  | call t p =>
    simp only [loopStep, ite_none_right_eq_some, some.injEq] at hstep
    obtain ⟨⟨hout, hstart⟩, rfl⟩ := hstep
    refine hinv.client hloop hidle rfl (fun _ => rfl) rfl hsame rfl rfl (isQueued_update ?_)
    rw [hout]
    unfold LoopThread.start at hstart
    split at hstart <;> first | rfl | cases hstart
  | run t choice =>
    obtain ⟨⟨o, p, satisfied⟩, hclient, rfl⟩ := map_eq_some_iff.mp hstep
    refine hinv.client hloop (clientStep_takes hloop.type hclient)
      (by rw [clientStep_word hclient]) (fun hflag => clientStep_frozen hflag hclient) rfl rfl rfl
      rfl (isQueued_update ?_)
    have hnext := clientStep_next hloop.type (hloop.ok t) hclient
    have hnot : ∀ q : LoopThread, (∀ all checked, q ≠ .queued all checked) →
        q.isQueued = false := by
      intro q hq
      cases q with
      | queued all checked => exact absurd rfl (hq all checked)
      | _ => rfl
    exact (hnot _ fun all checked => (hnext.queued all checked).2).trans
      (hnot _ fun all checked => (hnext.queued all checked).1).symm
  | wake t target =>
    simp only [loopStep] at hstep
    split at hstep
    · rename_i w hw
      obtain ⟨f, hf, rfl⟩ := map_eq_some_iff.mp hstep
      refine hinv.client hloop hidle rfl (fun _ => rfl) rfl hsame rfl rfl fun u => ?_
      by_cases hut : u = t
      · simp [LoopState.goto, hut, hw, LoopThread.isQueued]
      · simp only [LoopState.goto, update_of_ne hut]
        exact wakeThreads_isQueued hf u
    · cases hstep
  | exit t =>
    simp only [loopStep, ite_none_right_eq_some, some.injEq] at hstep
    obtain ⟨⟨-, -, htype⟩, rfl⟩ := hstep
    rw [hloop.type] at htype
    cases htype
  | serve t =>
    simp only [loopStep] at hstep
    split at hstep
    · rename_i op hserver hreq
      cases hstep
      refine hinv.signal hloop hserver rfl rfl rfl rfl (isQueued_update ?_)
      rw [LoopState.signal, LoopState.put, hreq]
      rfl
    · cases hstep
  | serverSignal op tid =>
    simp only [loopStep, ite_none_right_eq_some, some.injEq] at hstep
    obtain ⟨hserver, rfl⟩ := hstep
    exact hinv.signal hloop hserver rfl rfl rfl rfl fun _ => rfl
  | serverWake target =>
    simp only [loopStep] at hstep
    split at hstep
    · rename_i w hw
      obtain ⟨f, hf, rfl⟩ := map_eq_some_iff.mp hstep
      exact hinv.server hidle rfl rfl hsame rfl (by rw [hw]; rfl) (fun h => by cases h)
        (fun t h => by cases h) (wakeThreads_isQueued hf)
    · cases hstep
  | enqueue t =>
    simp only [loopStep] at hstep
    split at hstep
    · rename_i all hserver hselect
      cases hstep
      have hcount := census_queued_update (t := t) (p := .queued all false) s.threads
      have hwaiters := hinv.waiters
      rw [hselect] at hcount
      rw [hserver] at hwaiters
      simp only [LoopThread.isQueued, LoopServer.isRetire, Bool.toNat_true, Bool.toNat_false]
        at hcount hwaiters
      refine ⟨?_, fun _ => rfl, fun h => (by cases h), fun u h => (by cases h), hinv.once⟩
      simp only [LoopState.goto, LoopState.addWaiter, LoopServer.isRetire, Bool.toNat_false]
      omega
    · cases hstep
  | recheck t =>
    simp only [loopStep] at hstep
    split at hstep
    · rename_i all checked hserver _
      cases hstep
      exact hinv.server hidle rfl rfl hsame rfl (by rw [hserver]; rfl) (fun h => by cases h)
        (fun t h => by cases h) fun _ => rfl
    · cases hstep
  | check ready =>
    simp only [loopStep] at hstep
    split at hstep
    · rename_i t hcheck
      split at hstep
      · rename_i all checked hqueued
        split at hstep
        · rename_i hsignaled
          cases hstep
          refine ⟨?_, hinv.flag, fun h => (by cases h), fun _ _ => ?_, hinv.once⟩
          · rw [hinv.waiters, hcheck]
            rfl
          · simpa [WaitKind.type, signaledFor, wfusyncEventSignaled] using hsignaled.1
        cases hstep
        refine hinv.server hidle rfl rfl hsame rfl (by rw [hcheck]; rfl) (fun h => by cases h)
          (fun t h => by cases h) (isQueued_update ?_)
        rw [hqueued]
        rfl
      · cases hstep
    · cases hstep
  | satisfied =>
    simp only [loopStep] at hstep
    split at hstep
    · rename_i t hsatisfy
      cases hstep
      obtain ⟨all, checked, hqueued⟩ := hloop.busy t (.inr hsatisfy)
      have hcount := census_queued_update (t := t) (p := .outside) s.threads
      have hwaiters := hinv.waiters
      rw [hqueued] at hcount
      rw [hsatisfy] at hwaiters
      simp only [LoopThread.isQueued, LoopServer.isRetire, Bool.toNat_true, Bool.toNat_false]
        at hcount hwaiters
      refine ⟨?_, ?_, fun h => (by cases h), fun u h => (by cases h), ?_⟩
      · simp only [LoopState.goto, LoopState.put, LoopServer.isRetire, Bool.toNat_true]
        omega
      · intro hpos
        change (satisfiedFor .event (T.tid t) s.obj).word.serverWaiters = true
        rw [satisfiedFor_word]
        exact hinv.flag hpos
      · exact hinv.put_once (satisfiedFor_takes (T.tid t) (hinv.satisfy t hsatisfy))
    · cases hstep
  | retire =>
    simp only [loopStep] at hstep
    split at hstep
    · rename_i hretire
      cases hstep
      have hwaiters := hinv.waiters
      rw [hretire] at hwaiters
      simp only [LoopServer.isRetire, Bool.toNat_true] at hwaiters
      refine ⟨?_, hinv.remove_flag (by omega), fun h => (by cases h), fun u h => (by cases h),
        hinv.once⟩
      simp only [LoopState.removeWaiter, LoopServer.isRetire, Bool.toNat_false]
      omega
    · cases hstep
  | leave t =>
    simp only [loopStep] at hstep
    split at hstep
    · rename_i all checked hserver hqueued
      cases hstep
      have hcount := census_queued_update (t := t) (p := .outside) s.threads
      have hwaiters := hinv.waiters
      rw [hqueued] at hcount
      rw [hserver] at hwaiters
      simp only [LoopThread.isQueued, LoopServer.isRetire, Bool.toNat_true, Bool.toNat_false]
        at hcount hwaiters
      refine ⟨?_, hinv.remove_flag (by omega), ?_, ?_, hinv.once⟩
      · simp only [LoopState.goto, LoopState.removeWaiter, hserver, LoopServer.isRetire,
          Bool.toNat_false]
        omega
      · simp [LoopState.goto, LoopState.removeWaiter, hserver, LoopServer.guards]
      · simp [LoopState.goto, LoopState.removeWaiter, hserver]
    · cases hstep
  | setMulti multiWaiters =>
    simp only [loopStep, ite_none_right_eq_some, some.injEq] at hstep
    obtain ⟨hserver, rfl⟩ := hstep
    exact ⟨hinv.waiters, hinv.flag, hinv.guards, hinv.satisfy, hinv.once⟩
  | guard t =>
    simp only [loopStep, ite_none_right_eq_some, some.injEq] at hstep
    obtain ⟨⟨hserver, hflag⟩, rfl⟩ := hstep
    have hnone : s.waiters = 0 := by
      by_contra hne
      have hset := hinv.flag (by omega)
      rw [hflag] at hset
      cases hset
    refine ⟨?_, fun _ => rfl, fun _ => hnone, fun u h => (by cases h), hinv.once⟩
    rw [hinv.waiters, hserver]
    rfl
  | commit ready =>
    simp only [loopStep] at hstep
    split at hstep
    · rename_i t hguarded
      have hunguard : EventInv { s with server := .unguard } :=
        hinv.server hidle rfl rfl hsame rfl (by rw [hguarded]; rfl)
          (fun _ => by rw [hguarded]; rfl) (fun t h => by cases h) fun _ => rfl
      split at hstep
      · cases hstep
        exact hunguard
      split at hstep
      · rename_i o htake
        split at hstep
        · cases hstep
          exact hinv.server (tryWaitAllTake_takes (T.tid t) htake)
            (by rw [tryWaitAllTake_word htake]) rfl rfl rfl (by rw [hguarded]; rfl)
            (fun _ => by rw [hguarded]; rfl) (fun t h => by cases h) fun _ => rfl
        · cases hstep
          exact hunguard
      · cases hstep
        exact hunguard
    · cases hstep
  | unguard =>
    simp only [loopStep] at hstep
    split at hstep
    · rename_i hunguard
      cases hstep
      have hnone : s.waiters = 0 := hinv.guards (by rw [hunguard]; rfl)
      refine ⟨?_, fun hpos => ?_, fun h => (by cases h), fun u h => (by cases h), hinv.once⟩
      · rw [hinv.waiters, hunguard]
        rfl
      · exact absurd hpos (by rw [hnone]; exact lt_irrefl 0)
    · cases hstep

omit [DecidableEq ι] in
lemma LoopState.Created.eventInv (h : s.Created .event) : EventInv s := by
  obtain ⟨-, -, hwaiters, hthreads, hserver, htaken⟩ := h
  have hnone : census LoopThread.isQueued s.threads = 0 := by
    rw [census_eq_zero]
    intro t
    rw [hthreads t]
    rfl
  refine ⟨?_, ?_, fun _ => hwaiters, ?_, ?_⟩
  · rw [hwaiters, hnone, hserver]
    rfl
  · intro hpos
    omega
  · intro t ht
    rw [hserver] at ht
    cases ht
  · intro _
    rw [htaken]
    split <;> omega

/-- An auto-reset event satisfies at most one wait for one signal, in every run. In a run in
which no refused waiter times out on a signaled event without someone else being bound for it,
nobody sleeps on a signaled event in a quiet state. -/
theorem event_signal (T : ThreadIds ι) :
    (∀ s, Reachable (loopStep .event T) (LoopState.Created .event) s →
      s.obj.high = 0 → s.taken ≤ 1) ∧
    ∀ s, Reaches (loopStep .event T) (Supervised .event) (LoopState.Created .event) s →
      s.Quiet → s.obj.low ≠ 0 → ∀ t c, s.threads t ≠ .asleep c := by
  constructor
  · intro s h hauto
    have hloop : ∀ s, Reachable (loopStep .event T) (LoopState.Created .event) s →
        LoopInv .event s :=
      fun _ hr => hr.invariant (fun _ hs => hs.inv) fun _ _ _ hinv _ hst => hinv.step hst
    have hinv : EventInv s := h.invariant_with hloop (fun _ hs => hs.eventInv)
      fun _ _ _ hl hinv _ hst => hinv.step hl hst
    have honce := hinv.once hauto
    omega
  · intro s h hquiet hlow t c
    refine supervised_quiet T h hquiet ?_ t c
    simp only [WaitKind.units, hlow, if_false]
    split <;> simp

end EventInv

/-- A sleeper is woken by `SetEvent` and takes the signal; a second one leaves it set. -/
def signalActs : List (LoopAct (Fin 3)) :=
  waitActs 0 true ++ [.call 2 (.signal .setEvent 0), .run 2 .go, .wake 2 (some 0), .run 0 .go,
    .run 0 .go, .call 2 (.signal .setEvent 0), .run 2 .go, .wake 2 none]

theorem event_signal_twice :
    ∃ s, run (loopStep .event threeThreads) (created .event 0 0) signalActs = some s ∧
      s.obj.low = 1 ∧ s.taken ≤ 1 ∧ ∀ t c, s.threads t ≠ .asleep c := by
  have hcreated : LoopState.Created .event (created .event 0 0) :=
    ⟨rfl, fun h => (by cases h), rfl, fun _ => rfl, rfl, rfl⟩
  have hrelease : ∀ s : LoopState (Fin 3), ReleaseCovered .event s .setEvent := by
    intro s count hkind
    cases hkind
  refine ⟨_, rfl, rfl, ?_, ?_⟩
  · exact (event_signal threeThreads).1 _ (reachable_of_run (.start hcreated) signalActs rfl) rfl
  refine (event_signal threeThreads).2 _
    (Reaches.run (.start hcreated) signalActs ?_ rfl) ?_ (by decide)
  · refine ⟨trivial, trivial, trivial, trivial, trivial, trivial, fun h => (by cases h), trivial,
      fun _ => hrelease _, trivial, trivial, trivial, trivial, fun _ => hrelease _, trivial,
      trivial⟩
  · exact quiet_three rfl (.inl rfl) (.inl rfl) rfl

/-- The woken waiter is refused while `wfusync_try_wait_all` holds its guard, and its deadline
has passed. -/
def refusedActs : List (LoopAct (Fin 3)) :=
  waitActs 0 true ++ waitActs 1 false ++
    [.call 2 (.signal .setEvent 0), .run 2 .go, .wake 2 (some 0), .run 0 .go, .guard 2,
      .run 0 .go, .commit false, .unguard, .run 0 .expire]

theorem event_lost_wakeup :
    ¬ ∀ s, Reachable (loopStep .event threeThreads) (LoopState.Created .event) s →
      s.Quiet → s.obj.low ≠ 0 → ∀ t c, s.threads t ≠ .asleep c := by
  intro hall
  have hcreated : Reachable (loopStep .event threeThreads) (LoopState.Created .event)
      (created .event 0 0) :=
    .start ⟨rfl, fun h => (by cases h), rfl, fun _ => rfl, rfl, rfl⟩
  have hlost := reachable_of_run hcreated refusedActs rfl
  exact hall _ hlost (quiet_three rfl (.inl rfl) (.inr ⟨_, rfl⟩) rfl) (by decide) 1 ⟨false, 0⟩ rfl

end WineForge.WfuSync
