import WineForge.WfuSync.WaitInvariant

/-!
# Lost wakeups

The threads of the wait loop form a wait queue: its units are what the object has to offer, and
each thread and the server has the role of its control state. All steps but three are moves of
the queue. The three are the release of units without a wake, the sleep on an owner that was
loaded as free, and the timeout of a waiter that did not get the lock.
-/

namespace WineForge.WfuSync

open Function Library Option WaitQueue

variable {ι : Type*}

def LoopServer.role : LoopServer ι → Role
  | .wake .one => .wakeOne
  | .wake .all => .wakeAll
  | _ => .idle

def roles (threads : ι → LoopThread) (server : LoopServer ι) : Option ι → Role
  | none => server.role
  | some t => (threads t).role

def LoopState.queue (kind : WaitKind) (s : LoopState ι) : WaitQueue (Option ι) :=
  ⟨kind.units s.obj, roles s.threads s.server⟩

def wakeRole : Option Wake → Role
  | none => .idle
  | some .one => .wakeOne
  | some .all => .wakeAll

variable {kind : WaitKind} {s s' : LoopState ι}

lemma queue_eq {u : Option ℕ} {r : Option ι → Role} (hunits : kind.units s.obj = u)
    (hroles : roles s.threads s.server = r) : s.queue kind = ⟨u, r⟩ := by
  rw [LoopState.queue, hunits, hroles]

lemma queue_congr [Fintype ι] (hcov : (s.queue kind).Covered)
    (hobj : s'.obj.low = s.obj.low ∧ s'.obj.high = s.obj.high)
    (hroles : roles s'.threads s'.server = roles s.threads s.server) :
    (s'.queue kind).Covered := by
  rw [queue_eq (units_congr hobj.1 hobj.2) hroles]
  exact hcov

section Roles

variable [DecidableEq ι] (threads : ι → LoopThread) (server : LoopServer ι)

lemma roles_update (t : ι) (p : LoopThread) : roles (update threads t p) server =
      update (roles threads server) (some t) p.role := by
  funext i
  cases i with
  | none => simp [roles]
  | some u =>
    by_cases hut : u = t
    · subst hut
      simp [roles]
    · simp [roles, hut]

lemma roles_server (server' : LoopServer ι) :
    roles threads server' = update (roles threads server) none server'.role := by
  funext i
  cases i with
  | none | some u => simp [roles]

lemma roles_update_same {t : ι} {p : LoopThread} (h : p.role = (threads t).role) :
    roles (update threads t p) server = roles threads server := by
  rw [roles_update, h]
  exact update_eq_self (some t) (roles threads server)

lemma roles_server_same {server' : LoopServer ι} (h : server'.role = server.role) :
    roles threads server' = roles threads server := by
  rw [roles_server threads server, h]
  exact update_eq_self none (roles threads server)

lemma LoopThread.isAsleep_iff (p : LoopThread) : p.isAsleep = true ↔ p.role = .asleep := by
  unfold LoopThread.isAsleep LoopThread.role
  split <;> split <;> simp_all

lemma LoopThread.roused_role (p : LoopThread) :
    p.roused.role = if p.role = .asleep then .attempt else p.role := by
  cases p with
  | asleep c => simp [LoopThread.roused, LoopThread.role]
  | _ =>
    split
    · rename_i h
      simp [← LoopThread.isAsleep_iff, LoopThread.isAsleep] at h
    · rfl

end Roles

lemma LoopServer.role_ne_asleep (v : LoopServer ι) : v.role ≠ .asleep := by
  unfold LoopServer.role
  split <;> simp

lemma LoopServer.wake_role (w : Wake) : (LoopServer.wake w : LoopServer ι).role =
    wakeRole (some w) := by
  cases w <;> rfl

lemma roles_ne_asleep {threads : ι → LoopThread} {server : LoopServer ι}
    (h : ∀ t, (threads t).role ≠ .asleep) (i : Option ι) : roles threads server i ≠ .asleep := by
  cases i with
  | none => exact server.role_ne_asleep
  | some t => exact h t

lemma LoopState.Created.inv (h : s.Created kind) : LoopInv kind s := by
  obtain ⟨hword, hrange, -, hthreads, hserver, -⟩ := h
  refine ⟨by rw [hword], hrange, fun _ => .inr (.inr fun t => ?_), fun t => ?_, ?_, ?_⟩
  · rw [hthreads t]
    simp [LoopThread.role]
  · rw [hthreads t]
    trivial
  · intro t ht
    simp [hserver] at ht
  · intro t all ht
    simp [hthreads t] at ht

lemma LoopState.Created.covered [Fintype ι] (h : s.Created kind) : (s.queue kind).Covered := by
  obtain ⟨-, -, -, hthreads, -, -⟩ := h
  have hnone : (s.queue kind).count .asleep = 0 := by
    rw [count_eq_zero]
    refine roles_ne_asleep fun t => ?_
    rw [hthreads t]
    simp [LoopThread.role]
  exact .inr (.inl (by omega))

lemma LoopState.Quiet.rest (h : s.Quiet) (i : Option ι) :
    (s.queue kind).role i = .idle ∨ (s.queue kind).role i = .asleep := by
  obtain ⟨hserver, hthreads⟩ := h
  cases i with
  | none =>
    left
    change s.server.role = .idle
    rw [hserver]
    rfl
  | some t =>
    change (s.threads t).role = .idle ∨ (s.threads t).role = .asleep
    rcases hthreads t with hout | ⟨c, hasleep⟩ | ⟨all, hqueued⟩
    · rw [hout]
      exact .inl rfl
    · rw [hasleep]
      exact .inr rfl
    · rw [hqueued]
      cases all <;> exact .inl rfl

section Supervised

variable [DecidableEq ι] [Fintype ι]

/-- A release onto a semaphore that still has units issues no wake: the sleepers must have
wakes due to them, or the units must be spoken for. -/
def ReleaseCovered (kind : WaitKind) (s : LoopState ι) (op : SignalOp) : Prop :=
  ∀ count, kind = .semaphore → op = .releaseSemaphore count → 0 < s.obj.low →
    s.obj.low + count.toNat ≤ s.obj.high →
    Covered ⟨some (s.obj.low + count.toNat).toNat, roles s.threads s.server⟩

/-- The side condition of a step. A wait that times out after its attempt was refused, and a
sleep on a mutex that was loaded as free or abandoned, must leave the units covered as well. -/
def Supervised (kind : WaitKind) (s : LoopState ι) : LoopAct ι → Prop
  | .run t choice =>
    match s.threads t with
    | .signal op generation => op.admitted generation s.obj = true → ReleaseCovered kind s op
    | .clock _ true =>
      choice = .expire → ((s.queue kind).move (some t) .idle (kind.units s.obj)).Covered
    | .sleep _ value _ =>
      kind = .mutex → choice ≠ .unsupported → s.obj.low = value → value ≤ 0 →
        ((s.queue kind).move (some t) .asleep (kind.units s.obj)).Covered
    | _ => True
  | .serve t =>
    match s.threads t with
    | .request op => ReleaseCovered kind s op
    | _ => True
  | .serverSignal op _ => ReleaseCovered kind s op
  | _ => True

lemma wakeThreads_covered {w : Wake} {target : Option ι} {f f' : ι → LoopThread}
    {server : LoopServer ι} {u : Option ℕ} {i : Option ι}
    (hcov : Covered ⟨u, roles f server⟩)
    (hi : roles f server i = wakeRole (some w))
    (h : wakeThreads w target f = some f') :
    (move ⟨u, roles f' server⟩ i .idle u).Covered := by
  cases w with
  | all =>
    cases h
    have hroles : roles (fun t => (f t).roused) server =
        relocate (fun r => decide (r = .asleep)) .attempt (roles f server) := by
      funext j
      cases j with
      | none => simp [relocate, roles, LoopServer.role_ne_asleep]
      | some t => by_cases hr : (f t).role = .asleep <;>
          simp [relocate, roles, LoopThread.roused_role, hr]
    rw [hroles]
    exact hcov.step (.wakeAll i hi)
  | one =>
    cases target with
    | none =>
      simp only [wakeThreads, ite_none_right_eq_some, some.injEq] at h
      obtain ⟨hnone, rfl⟩ := h
      refine hcov.step (.wakeNone i hi (roles_ne_asleep fun t ht => ?_))
      rw [← LoopThread.isAsleep_iff, hnone] at ht
      cases ht
    | some t =>
      simp only [wakeThreads, ite_none_right_eq_some, some.injEq] at h
      obtain ⟨hasleep, rfl⟩ := h
      have hrole : (f t).role = .asleep := (LoopThread.isAsleep_iff _).mp hasleep
      have hroused : (f t).roused.role = .attempt := by
        rw [LoopThread.roused_role, if_pos hrole]
      rw [roles_update, hroused]
      exact hcov.step (.wakeSome i (some t) hi hrole)

lemma consume_covered {t : ι} {tid : Int} (htid : 0 < tid) (hinv : LoopInv kind s)
    (hcov : (s.queue kind).Covered) (hattempt : (s.threads t).role = .attempt) {r : Role}
    (hr : r = if (kind.consumeState tid s.obj).1.satisfied ∨
      (kind.consumeState tid s.obj).1 = .timeout then .idle else .attempt) :
    ((s.queue kind).move (some t) r (kind.units (kind.consumeState tid s.obj).2)).Covered := by
  rcases consumeState_spec kind htid s.obj with ⟨hsat, hsettles⟩ | ⟨hsat, hsame, htimeout⟩
  · rw [hr, if_pos (.inl hsat)]
    exact hcov.step (.settle (some t) _ hattempt hsettles)
  rw [hsame]
  by_cases hstatus : (kind.consumeState tid s.obj).1 = .timeout
  · rw [hr, if_pos (.inr hstatus)]
    rcases htimeout hstatus with hzero | ⟨hevent, hne0, hne1⟩
    · refine hcov.step (.settle (some t) _ hattempt ?_)
      rw [LoopState.queue, hzero]
      exact .of_empty
    -- Nobody fell asleep on an event with an odd value.
    have hnone : ∀ u, (s.threads u).role ≠ .asleep := by
      rcases hinv.value hevent with h0 | h1 | hnone
      · exact absurd h0 hne0
      · exact absurd h1 hne1
      · exact hnone
    exact hcov.step (.relinquish (some t) hattempt (roles_ne_asleep hnone))
  · rw [hr, if_neg (by simp [hsat, hstatus])]
    exact hcov.step (.proceed (some t) _ _ (.inl hattempt.symm) (.refl _))

lemma sleep_covered {t : ι} {c : WaitArgs} {value : Int} {refused : Bool}
    (hinv : LoopInv kind s) (hcov : (s.queue kind).Covered)
    (hp : s.threads t = .sleep c value refused)
    (hbefore : (s.threads t).role = .idle ∨ (s.threads t).role = .attempt)
    (hsup : kind = .mutex → value ≤ 0 →
      ((s.queue kind).move (some t) .asleep (kind.units s.obj)).Covered)
    (hlow : s.obj.low = value) :
    ((s.queue kind).move (some t) .asleep (kind.units s.obj)).Covered := by
  have hempty : kind.units s.obj = some 0 →
      ((s.queue kind).move (some t) .asleep (kind.units s.obj)).Covered :=
    fun h0 => hcov.step (.sleep (some t) hbefore h0)
  have hok := hinv.ok t
  rw [hp] at hok
  cases kind with
  | event | semaphore =>
    have hzero : value = 0 := hok (by simp)
    exact hempty (by simp [WaitKind.units, hlow, hzero])
  | mutex =>
    by_cases hfree : value ≤ 0
    · exact hsup rfl hfree
    · exact hempty (by simp [WaitKind.units, hlow, hfree])

lemma LoopThread.wake_role (w : Wake) : (LoopThread.wake w).role = wakeRole (some w) := by
  cases w <;> rfl

lemma publishes_covered {op : SignalOp} {o : WfusyncState} {w : Option Wake} {i : Option ι}
    (hcov : (s.queue kind).Covered) (hidle : (s.queue kind).role i = .idle)
    (hrelease : ReleaseCovered kind s op) (h : Publishes kind op s.obj o w) :
    ((s.queue kind).move i (wakeRole w) (kind.units o)).Covered := by
  cases h with
  | quiet hdrains => exact hcov.step (.proceed i _ _ (.inl hidle.symm) hdrains)
  | one k hk hunits =>
    rw [hunits]
    exact hcov.step (.post i k hidle hk)
  | all => exact hcov.step (.postAll i _ hidle)
  | raise count hkind hop hpos hfit hunits =>
    have hsame : (s.queue kind).move i .idle (kind.units o) =
        ⟨kind.units o, roles s.threads s.server⟩ := by
      rw [← hidle]
      exact congrArg _ (update_eq_self i _)
    rw [wakeRole, hsame, hunits]
    exact hrelease count hkind hop hpos hfit

lemma clientStep_covered {t : ι} {tid : Int} {choice : Choice} {o : WfusyncState}
    {p : LoopThread} {satisfied : Bool} (htid : 0 < tid) (hinv : LoopInv kind s)
    (hcov : (s.queue kind).Covered) (hsup : Supervised kind s (.run t choice))
    (h : clientStep kind tid s.obj choice (s.threads t) = some (o, p, satisfied)) :
    ((s.queue kind).move (some t) p.role (kind.units o)).Covered := by
  have hrole : (s.queue kind).role (some t) = (s.threads t).role := rfl
  have hdrain : ∀ u, Drains (kind.units s.obj) u → ∀ r : Role,
      r = (s.threads t).role ∨ ((s.threads t).role = .idle ∧ r = .attempt) →
      ((s.queue kind).move (some t) r u).Covered :=
    fun u hu r hr => hcov.step (.proceed (some t) r u hr hu)
  cases hp : s.threads t with
  | outside | request _ | wake _ | select _ | queued _ _ =>
    rw [hp] at h
    cases h
  | enter c =>
    rw [hp] at h
    cases h
    refine hdrain _ (.refl _) _ ?_
    rw [hp]
    split <;> simp [LoopThread.role]
  | first c =>
    rw [hp] at h
    cases h
    refine hdrain _ ?_ _ ?_
    · rcases consumeState_spec kind htid s.obj with ⟨-, hsettles⟩ | ⟨-, hsame, -⟩
      · exact hsettles.drains
      · rw [hsame]
        exact .refl _
    · rw [hp, afterFirst]
      split_ifs <;> simp [LoopThread.role]
  | loop c =>
    rw [hp] at h
    simp only [clientStep] at h
    split at h
    · cases h
      exact hdrain _ (.refl _) _ (by simp [hp, LoopThread.role])
    · cases h
      exact hdrain _ (.refl _) _ (by simp [hp, LoopThread.role])
  | consume c =>
    rw [hp] at h
    cases h
    refine consume_covered htid hinv hcov (by rw [hp]; rfl) ?_
    rw [afterConsume]
    split_ifs <;> simp_all [LoopThread.role]
  | clock c refused =>
    rw [hp] at h
    cases choice with
    | expire =>
      simp only [clientStep, ite_none_right_eq_some, some.injEq] at h
      cases h.2
      cases refused with
      | false => exact hdrain _ (.refl _) _ (by simp [hp, LoopThread.role])
      | true =>
        simp only [Supervised, hp] at hsup
        exact hsup trivial
    | go | unsupported =>
      cases h
      refine hdrain _ (.refl _) _ ?_
      rw [hp]
      split
      · rename_i hmutex
        have hok := hinv.ok t
        rw [hp] at hok
        cases refused with
        | false => simp [LoopThread.role]
        | true => exact absurd hmutex hok
      · cases refused <;> simp [LoopThread.role]
  | load c =>
    rw [hp] at h
    cases h
    exact hdrain _ (.refl _) _ (by simp [hp, LoopThread.role])
  | sleep c value refused =>
    rw [hp] at h
    have hbefore : (s.threads t).role = .idle ∨ (s.threads t).role = .attempt := by
      rw [hp]
      cases refused <;> simp [LoopThread.role]
    have hretry : ((s.queue kind).move (some t) .attempt (kind.units s.obj)).Covered := by
      refine hdrain _ (.refl _) _ ?_
      rcases hbefore with hr | hr <;> simp [hr]
    by_cases hchoice : choice = .unsupported
    · subst hchoice
      cases h
      exact hretry
    have hnext : o = s.obj ∧ p = if s.obj.low = value then .asleep c else .loop c := by
      cases choice with
      | unsupported => exact absurd rfl hchoice
      | go | expire =>
        cases h
        exact ⟨rfl, rfl⟩
    obtain ⟨rfl, rfl⟩ := hnext
    by_cases hlow : s.obj.low = value
    · rw [if_pos hlow]
      refine sleep_covered hinv hcov hp hbefore (fun hmutex hfree => ?_) hlow
      simp only [Supervised, hp] at hsup
      exact hsup hmutex hchoice hlow hfree
    · rw [if_neg hlow]
      exact hretry
  | asleep c =>
    rw [hp] at h
    have hrouse : ∀ r : Role, r = .idle ∨ r = .attempt →
        ((s.queue kind).move (some t) r (kind.units s.obj)).Covered :=
      fun r hr => hcov.step (.rouse (some t) r (by rw [hrole, hp]; rfl) hr)
    cases choice with
    | go | unsupported =>
      cases h
      exact hrouse _ (.inr rfl)
    | expire =>
      cases h
      split
      · exact hrouse _ (.inl rfl)
      · exact hrouse _ (.inr rfl)
  | poll =>
    rw [hp] at h
    cases h
    refine hdrain _ ?_ _ (by simp [hp, LoopThread.role])
    rcases consumeState_spec kind htid s.obj with ⟨-, hsettles⟩ | ⟨-, hsame, -⟩
    · exact hsettles.drains
    · rw [hsame]
      exact .refl _
  | waitAll generation ready =>
    rw [hp] at h
    cases h
    exact hdrain _ (waitAllLocalEntry_drains kind htid generation ready s.obj) _
      (by simp [hp, LoopThread.role])
  | signal op generation =>
    rw [hp] at h
    simp only [Supervised, hp] at hsup
    have hidle : (s.queue kind).role (some t) = .idle := by
      rw [hrole, hp]
      rfl
    simp only [clientStep, SignalOp.client_eq] at h
    by_cases hadmitted : op.admitted generation s.obj = true
    · simp only [hadmitted, if_true, SignalOp.locked_status, if_false] at h
      have hpub := locked_publishes (admitted_type hinv.type hadmitted) hinv.range tid
      split at h
      · rename_i hwake
        cases h
        rw [hwake] at hpub
        have hcovered := publishes_covered hcov hidle (hsup hadmitted) hpub
        exact hcovered
      rename_i w hwake
      cases h
      rw [hwake] at hpub
      rw [LoopThread.wake_role]
      exact publishes_covered hcov hidle (hsup hadmitted) hpub
    · simp only [hadmitted] at h
      cases h
      exact hdrain _ (.refl _) _ (by simp [hp, LoopThread.role])

lemma signal_covered {op : SignalOp} {tid : Int} (hinv : LoopInv kind s)
    (hcov : (s.queue kind).Covered) (hidle : s.server = .idle)
    (hrelease : ReleaseCovered kind s op) : ((s.signal op tid).queue kind).Covered := by
  have hrole : (s.queue kind).role none = .idle := by
    change s.server.role = .idle
    rw [hidle]
    rfl
  have hserver : (s.signal op tid).server.role = wakeRole (op.server tid s.obj).wake := by
    simp only [LoopState.signal]
    rcases (op.server tid s.obj).wake with _ | w
    · rfl
    · exact LoopServer.wake_role w
  have hqueue : (s.signal op tid).queue kind =
      (s.queue kind).move none (wakeRole (op.server tid s.obj).wake)
        (kind.units (op.server tid s.obj).state) := by
    rw [← hserver]
    exact queue_eq rfl (roles_server s.threads s.server _)
  rw [hqueue]
  by_cases htype : s.obj.word.type = op.type
  · have hpub := locked_publishes (htype.symm.trans hinv.type) hinv.range tid
    simp only [SignalOp.server, if_pos htype]
    exact publishes_covered hcov hrole hrelease hpub
  · simp only [SignalOp.server, if_neg htype]
    exact hcov.step (.proceed none _ _ (.inl hrole.symm) (.refl _))

variable (T : ThreadIds ι)

/-- Every supervised step keeps the units covered. -/
theorem covered_step {a : LoopAct ι} (hinv : LoopInv kind s) (hcov : (s.queue kind).Covered)
    (hsup : Supervised kind s a) (hstep : loopStep kind T s a = some s') :
    (s'.queue kind).Covered := by
  cases a with
  | call t p =>
    simp only [loopStep, ite_none_right_eq_some, some.injEq] at hstep
    obtain ⟨⟨hout, hstart⟩, rfl⟩ := hstep
    have hrole : p.role = (s.threads t).role := by
      rw [hout]
      unfold LoopThread.start at hstart
      split at hstart <;> first | rfl | cases hstart
    exact queue_congr hcov ⟨rfl, rfl⟩ (roles_update_same s.threads s.server hrole)
  | run t choice =>
    obtain ⟨⟨o, p, satisfied⟩, hclient, rfl⟩ := map_eq_some_iff.mp hstep
    have hqueue : (((s.put o satisfied).goto t p).queue kind) =
        (s.queue kind).move (some t) p.role (kind.units o) := by
      rw [LoopState.queue, LoopState.goto, LoopState.put, roles_update]
      rfl
    rw [hqueue]
    exact clientStep_covered (T.pos t) hinv hcov hsup hclient
  | wake t target =>
    simp only [loopStep] at hstep
    split at hstep
    · rename_i w hw
      obtain ⟨f, hf, rfl⟩ := map_eq_some_iff.mp hstep
      have hi : roles s.threads s.server (some t) = wakeRole (some w) := by
        rw [roles, hw, LoopThread.wake_role]
      rw [queue_eq rfl (roles_update f s.server t .outside)]
      exact wakeThreads_covered hcov hi hf
    · cases hstep
  | exit t =>
    simp only [loopStep, ite_none_right_eq_some, some.injEq] at hstep
    obtain ⟨⟨hidle, -, -⟩, rfl⟩ := hstep
    have hrole : (s.queue kind).role none = .idle := by
      change s.server.role = .idle
      rw [hidle]
      rfl
    by_cases howner : (wfusyncAbandonMutex (T.tid t) s.obj).1 = true
    · have hroles : roles s.threads
          (if (wfusyncAbandonMutex (T.tid t) s.obj).1 = true then .wake .all else .idle) =
          update (roles s.threads s.server) none .wakeAll := by
        rw [if_pos howner]
        exact roles_server s.threads s.server (.wake .all)
      rw [queue_eq rfl hroles]
      exact hcov.step (.postAll none _ hrole)
    have hsame : (wfusyncAbandonMutex (T.tid t) s.obj).2 = s.obj := by
      unfold wfusyncAbandonMutex at howner ⊢
      split at howner
      · rw [if_pos ‹_›]
      · exact absurd rfl howner
    refine queue_congr hcov ⟨congrArg WfusyncState.low hsame, congrArg WfusyncState.high hsame⟩ ?_
    rw [if_neg howner, hidle]
    rfl
  | serve t =>
    simp only [loopStep] at hstep
    split at hstep
    · rename_i op hidle hreq
      cases hstep
      simp only [Supervised, hreq] at hsup
      have hrole : LoopThread.outside.role = (s.threads t).role := by
        rw [hreq]
        rfl
      exact queue_congr (signal_covered hinv hcov hidle hsup) ⟨rfl, rfl⟩
        (roles_update_same s.threads _ hrole)
    · cases hstep
  | serverSignal op tid =>
    simp only [loopStep, ite_none_right_eq_some, some.injEq] at hstep
    obtain ⟨hidle, rfl⟩ := hstep
    exact signal_covered hinv hcov hidle hsup
  | serverWake target =>
    simp only [loopStep] at hstep
    split at hstep
    · rename_i w hw
      obtain ⟨f, hf, rfl⟩ := map_eq_some_iff.mp hstep
      have hi : roles s.threads s.server none = wakeRole (some w) := by
        rw [roles, hw, LoopServer.wake_role]
      rw [queue_eq rfl (roles_server f s.server .idle)]
      exact wakeThreads_covered hcov hi hf
    · cases hstep
  | enqueue t =>
    simp only [loopStep] at hstep
    split at hstep
    · rename_i all hidle hselect
      cases hstep
      have hrole : (LoopThread.queued all false).role = (s.threads t).role := by
        rw [hselect]
        cases all <;> rfl
      refine queue_congr hcov ⟨rfl, rfl⟩ ?_
      refine (roles_update_same s.threads _ hrole).trans (roles_server_same s.threads s.server ?_)
      rw [hidle]
      rfl
    · cases hstep
  | recheck t =>
    simp only [loopStep] at hstep
    split at hstep
    · rename_i hidle _
      cases hstep
      refine queue_congr hcov ⟨rfl, rfl⟩ (roles_server_same s.threads s.server ?_)
      rw [hidle]
      rfl
    · cases hstep
  | check ready =>
    simp only [loopStep] at hstep
    split at hstep
    · rename_i t hcheck
      have hidle : (LoopServer.idle : LoopServer ι).role = s.server.role := by
        rw [hcheck]
        rfl
      split at hstep
      · rename_i all checked hqueued
        split at hstep
        · cases hstep
          exact queue_congr hcov ⟨rfl, rfl⟩ (roles_server_same s.threads s.server hidle)
        rename_i hfails
        cases hstep
        have hroles : roles (update s.threads t (.queued all true)) .idle =
            update (roles s.threads s.server) (some t) .idle := by
          rw [roles_update, roles_server_same s.threads s.server hidle]
          cases all <;> rfl
        rw [queue_eq rfl hroles]
        by_cases hattempt : (s.threads t).role = .attempt
        · -- A wait for one object whose attempt ends here found it unsignaled.
          have hall : all = false := by
            cases all with
            | false => rfl
            | true =>
              rw [hqueued] at hattempt
              cases hattempt
          have hempty : kind.units s.obj = some 0 := by
            have hunsignaled : signaledFor kind.type (T.tid t) s.obj = false := by
              simpa [hall] using hfails
            exact signaledFor_eq_false kind hunsignaled
          have hsettles : Settles (kind.units s.obj) (kind.units s.obj) := by
            rw [hempty]
            exact .of_empty
          exact hcov.step (.settle (some t) _ hattempt hsettles)
        · have hrole : (s.threads t).role = .idle := by
            rw [hqueued] at hattempt ⊢
            cases all <;> cases checked <;> first | rfl | exact absurd rfl hattempt
          exact hcov.step (.proceed (some t) _ _ (.inl hrole.symm) (.refl _))
      · cases hstep
    · cases hstep
  | satisfied =>
    simp only [loopStep] at hstep
    split at hstep
    · rename_i t hsatisfy
      cases hstep
      obtain ⟨all, checked, hqueued⟩ := hinv.busy t (.inr hsatisfy)
      have hsettles := satisfiedFor_settles kind (T.pos t) s.obj
      have hroles : roles (update s.threads t .outside) .retire =
          update (roles s.threads s.server) (some t) .idle := by
        rw [roles_update, roles_server_same s.threads s.server (by rw [hsatisfy]; rfl)]
        rfl
      rw [queue_eq rfl hroles]
      by_cases hattempt : (s.threads t).role = .attempt
      · exact hcov.step (.settle (some t) _ hattempt hsettles)
      have hrole : (s.threads t).role = .idle := by
        rw [hqueued] at hattempt ⊢
        cases all <;> cases checked <;> first | rfl | exact absurd rfl hattempt
      exact hcov.step (.proceed (some t) _ _ (.inl hrole.symm) hsettles.drains)
    · cases hstep
  | retire =>
    simp only [loopStep] at hstep
    split at hstep
    · rename_i hretire
      cases hstep
      refine queue_congr hcov ⟨rfl, rfl⟩ (roles_server_same s.threads s.server ?_)
      rw [hretire]
      rfl
    · cases hstep
  | leave t =>
    simp only [loopStep] at hstep
    split at hstep
    · rename_i all checked hidle hqueued
      cases hstep
      have hchecked : checked = true := by
        cases checked with
        | true => rfl
        | false => rcases hinv.unchecked t all hqueued with h | h <;> rw [hidle] at h <;> cases h
      refine queue_congr hcov ⟨rfl, rfl⟩ (roles_update_same s.threads s.server ?_)
      rw [hqueued, hchecked]
      cases all <;> rfl
    · cases hstep
  | setMulti multiWaiters =>
    simp only [loopStep, ite_none_right_eq_some, some.injEq] at hstep
    obtain ⟨-, rfl⟩ := hstep
    exact queue_congr hcov ⟨rfl, rfl⟩ rfl
  | guard t =>
    simp only [loopStep, ite_none_right_eq_some, some.injEq] at hstep
    obtain ⟨⟨hidle, -⟩, rfl⟩ := hstep
    refine queue_congr hcov ⟨rfl, rfl⟩ (roles_server_same s.threads s.server ?_)
    rw [hidle]
    rfl
  | commit ready =>
    simp only [loopStep] at hstep
    split at hstep
    · rename_i t hguarded
      have hroles : roles s.threads .unguard = roles s.threads s.server :=
        roles_server_same s.threads s.server (by rw [hguarded]; rfl)
      split at hstep
      · cases hstep
        exact queue_congr hcov ⟨rfl, rfl⟩ hroles
      split at hstep
      · rename_i o htake
        split at hstep
        · cases hstep
          rw [queue_eq rfl hroles]
          exact hcov.drain (tryWaitAllTake_drains kind (T.pos t) htake)
        · cases hstep
          exact queue_congr hcov ⟨rfl, rfl⟩ hroles
      · cases hstep
        exact queue_congr hcov ⟨rfl, rfl⟩ hroles
    · cases hstep
  | unguard =>
    simp only [loopStep] at hstep
    split at hstep
    · rename_i hunguard
      cases hstep
      refine queue_congr hcov ⟨rfl, rfl⟩ (roles_server_same s.threads s.server ?_)
      rw [hunguard]
      rfl
    · cases hstep

section

variable (h : Reaches (loopStep kind T) (Supervised kind) (LoopState.Created kind) s)

include h

/-- The units are covered in every run of supervised steps. -/
theorem supervised_covered : (s.queue kind).Covered :=
  h.invariant_with
    (fun _ hr => hr.invariant (fun _ hs => hs.inv) fun _ _ _ hinv _ hst => hinv.step hst)
    (fun _ hs => hs.covered) fun _ _ _ hinv hcov hgood hst => covered_step T hinv hcov hgood hst

/-- In a quiet state nobody sleeps while the object has a unit to offer. -/
theorem supervised_quiet
    (hquiet : s.Quiet) (hunits : kind.units s.obj ≠ some 0) (t : ι) (c : WaitArgs) :
    s.threads t ≠ .asleep c := by
  intro ht
  refine (supervised_covered T h).rest hquiet.rest hunits (some t) ?_
  change (s.threads t).role = .asleep
  rw [ht]
  rfl

lemma supervised_expire (hquiet : s.Quiet) {t : ι} {c : WaitArgs} (ht : s.threads t = .asleep c)
    (hstep : loopStep kind T s (.run t .expire) = some s') : kind.units s'.obj = some 0 := by
  have hsame : s'.obj = s.obj := by
    simp only [loopStep, ht, clientStep, map_some, some.injEq] at hstep
    rw [← hstep]
    rfl
  rw [hsame]
  by_contra hunits
  exact supervised_quiet T h hquiet hunits t c ht

end

end Supervised

def created (kind : WaitKind) (low high : Int) : LoopState (Fin 3) :=
  ⟨⟨low, high, 0, ⟨kind.type, false, false, false⟩⟩, 0, fun _ => .outside, .idle, 0⟩

def waitActs (t : Fin 3) (timed : Bool) : List (LoopAct (Fin 3)) :=
  [.call t (.enter ⟨timed, 0⟩), .run t .go, .run t .go, .run t .go, .run t .go, .run t .go,
    .run t .go]

lemma quiet_three {s : LoopState (Fin 3)} (hserver : s.server = .idle)
    (h0 : s.threads 0 = .outside ∨ ∃ c, s.threads 0 = .asleep c)
    (h1 : s.threads 1 = .outside ∨ ∃ c, s.threads 1 = .asleep c)
    (h2 : s.threads 2 = .outside) : s.Quiet := by
  refine ⟨hserver, fun t => ?_⟩
  match t with
  | 0 => exact h0.imp_right .inl
  | 1 => exact h1.imp_right .inl
  | 2 => exact .inl h2

/-- No wakeup of a semaphore is lost in a run in which every release onto a semaphore that still
has units finds its sleepers covered, and no refused waiter times out on them. -/
theorem semaphore_no_lost_wakeup [DecidableEq ι] [Fintype ι] (T : ThreadIds ι)
    (h : Reaches (loopStep .semaphore T) (Supervised .semaphore) (LoopState.Created .semaphore) s)
    (hquiet : s.Quiet) :
    (0 < s.obj.low → ∀ t c, s.threads t ≠ .asleep c) ∧
      ∀ t c s', s.threads t = .asleep c → loopStep .semaphore T s (.run t .expire) = some s' →
        s'.obj.low ≤ 0 := by
  refine ⟨fun hlow t c => ?_, fun t c s' ht hstep => ?_⟩
  · refine supervised_quiet T h hquiet ?_ t c
    simp only [WaitKind.units, ne_eq, some.injEq]
    omega
  · have hunits := supervised_expire T h hquiet ht hstep
    simp only [WaitKind.units, some.injEq] at hunits
    omega

def broadcastActs : List (LoopAct (Fin 3)) :=
  waitActs 0 true ++ [.call 2 (.signal (.releaseSemaphore 2) 0), .run 2 .go, .wake 2 none,
    .run 0 .go, .run 0 .go]

/-- The sleeper takes one of two units. -/
theorem semaphore_no_lost_wakeup_broadcast :
    ∃ s, run (loopStep .semaphore threeThreads) (created .semaphore 0 2) broadcastActs = some s ∧
      s.obj.low = 1 ∧ ∀ t c, s.threads t ≠ .asleep c := by
  have hcreated : Reaches (loopStep .semaphore threeThreads) (Supervised .semaphore)
      (LoopState.Created .semaphore) (created .semaphore 0 2) :=
    .start ⟨rfl, fun _ => by decide, rfl, fun _ => rfl, rfl, rfl⟩
  refine ⟨_, rfl, rfl, ?_⟩
  refine (semaphore_no_lost_wakeup threeThreads (hcreated.run broadcastActs ?_ rfl) ?_).1
    (by decide)
  · refine ⟨trivial, trivial, trivial, trivial, trivial, trivial, ?_, trivial, ?_, trivial, trivial,
      trivial, trivial⟩
    · intro h
      cases h
    · intro _ count _ _ hpos
      exact absurd hpos (by decide)
  · exact quiet_three rfl (.inl rfl) (.inl rfl) rfl

/-- A second unit is released before the thread that was woken for the first one took it. -/
theorem semaphore_lost_wakeup :
    ¬ ∀ s, Reachable (loopStep .semaphore threeThreads) (LoopState.Created .semaphore) s →
      s.Quiet → 0 < s.obj.low → ∀ t c, s.threads t ≠ .asleep c := by
  intro hall
  have hcreated : Reachable (loopStep .semaphore threeThreads) (LoopState.Created .semaphore)
      (created .semaphore 0 2) :=
    .start ⟨rfl, fun _ => by decide, rfl, fun _ => rfl, rfl, rfl⟩
  have hlost := reachable_of_run hcreated (waitActs 0 false ++ waitActs 1 false ++
      [.call 2 (.signal (.releaseSemaphore 1) 0), .run 2 .go, .wake 2 (some 0),
        .call 2 (.signal (.releaseSemaphore 1) 0), .run 2 .go, .run 0 .go, .run 0 .go]) rfl
  exact hall _ hlost (quiet_three rfl (.inl rfl) (.inr ⟨_, rfl⟩) rfl) (by decide) 1 ⟨false, 0⟩ rfl

/-- No wakeup of a mutex is lost in a run in which every waiter that falls asleep on an owner
that it loaded as free or abandoned finds its wake due, or another waiter bound for the mutex. -/
theorem mutex_no_lost_wakeup [DecidableEq ι] [Fintype ι] (T : ThreadIds ι)
    (h : Reaches (loopStep .mutex T) (Supervised .mutex) (LoopState.Created .mutex) s)
    (hquiet : s.Quiet) :
    (s.obj.low ≤ 0 → ∀ t c, s.threads t ≠ .asleep c) ∧
      ∀ t c s', s.threads t = .asleep c → loopStep .mutex T s (.run t .expire) = some s' →
        0 < s'.obj.low := by
  refine ⟨fun hlow t c => ?_, fun t c s' ht hstep => ?_⟩
  · refine supervised_quiet T h hquiet ?_ t c
    simp [WaitKind.units, hlow]
  · have hunits := supervised_expire T h hquiet ht hstep
    by_contra hlow
    have hfree : s'.obj.low ≤ 0 := by omega
    simp [WaitKind.units, hfree] at hunits

/-- A thread sleeps on the owner of a mutex, acquires it when it is released, and releases it. -/
def handoverActs : List (LoopAct (Fin 3)) :=
  [.call 0 (.enter ⟨true, 0⟩), .run 0 .go, .run 0 .go, .run 0 .go, .run 0 .go, .run 0 .go,
    .run 0 .go, .run 0 .go, .call 2 (.signal .releaseMutex 0), .run 2 .go, .wake 2 (some 0),
    .run 0 .go, .run 0 .go, .call 0 (.signal .releaseMutex 0), .run 0 .go, .wake 0 none]

/-- After the handover the mutex is free and nobody sleeps. -/
theorem mutex_no_lost_wakeup_handover :
    ∃ s, run (loopStep .mutex threeThreads) (created .mutex 3 1) handoverActs = some s ∧
      s.obj.low = 0 ∧ ∀ t c, s.threads t ≠ .asleep c := by
  have hcreated : Reaches (loopStep .mutex threeThreads) (Supervised .mutex)
      (LoopState.Created .mutex) (created .mutex 3 1) :=
    .start ⟨rfl, fun h => (by cases h), rfl, fun _ => rfl, rfl, rfl⟩
  refine ⟨_, rfl, rfl, ?_⟩
  refine (mutex_no_lost_wakeup threeThreads (hcreated.run handoverActs ?_ rfl) ?_).1 (by decide)
  · have hrelease : ∀ s : LoopState (Fin 3), ReleaseCovered .mutex s .releaseMutex := by
      intro s count hkind
      cases hkind
    refine ⟨trivial, trivial, trivial, trivial, trivial, trivial, trivial, ?_, trivial,
      fun _ => hrelease _, trivial, trivial, trivial, trivial, fun _ => hrelease _, trivial,
      trivial⟩
    intro _ _ hvalue hfree
    exact absurd (hvalue ▸ hfree) (by decide)
  · exact quiet_three rfl (.inl rfl) (.inl rfl) rfl

/-- The mutex is released between the failed attempt and the load of its owner. -/
theorem mutex_lost_wakeup :
    ¬ ∀ s, Reachable (loopStep .mutex threeThreads) (LoopState.Created .mutex) s →
      s.Quiet → s.obj.low ≤ 0 → ∀ t c, s.threads t ≠ .asleep c := by
  intro hall
  have hcreated : Reachable (loopStep .mutex threeThreads) (LoopState.Created .mutex)
      (created .mutex 3 1) :=
    .start ⟨rfl, fun h => (by cases h), rfl, fun _ => rfl, rfl, rfl⟩
  have hlost := reachable_of_run hcreated
    ([.call 0 (.enter ⟨true, 0⟩), .run 0 .go, .run 0 .go, .run 0 .go, .run 0 .go, .run 0 .go] ++
      [.call 2 (.signal .releaseMutex 0), .run 2 .go, .wake 2 none, .run 0 .go, .run 0 .go]) rfl
  exact hall _ hlost (quiet_three rfl (.inr ⟨_, rfl⟩) (.inl rfl) rfl) (by decide) 0 ⟨true, 0⟩ rfl

end WineForge.WfuSync
