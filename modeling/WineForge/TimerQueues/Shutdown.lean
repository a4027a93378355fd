import WineForge.TimerQueues.Deletion

/-!
# The runs of a queue

Everything but the loop of `RtlDeleteTimerQueueEx` goes well in every run: with a busy timer in
front of the last one the loop visits it again, and with two it never ends.
-/

namespace WineForge.TimerQueues

open Library List Option

/-- The callbacks of a timer that are queued or running, or that the thread is about to queue. -/
def State.callbacksOf (s : State) (t : TimerId) : Nat := s.callbacks.count t + s.thread.holds t

def State.leaving (s : State) : Prop := s.thread = .signaled ∨ s.thread = .exited

/-- The invariant of the runs. -/
structure Sound (s : State) : Prop where
  good : Good s.queue s.callbacksOf s.leaving
  exited : s.thread = .exited → s.queue.quit = true ∧ s.queue.timers = []

variable {s : State} {t : TimerId} {q : TimerQueue} {n : TimerId → Nat} {leaving : Prop}

lemma Good.congr {n' : TimerId → Nat} {leaving' : Prop}
    (h : Good q n leaving) (hn : ∀ t, n' t = n t) (hleaving : leaving → leaving') :
    Good q n' leaving' := by
  obtain rfl : n' = n := funext hn
  exact ⟨{ h.inv with exit := fun hquit hnil => (h.inv.exit hquit hnil).imp_right hleaving },
    h.quitting⟩

lemma Sound.mem_of_callback (h : Sound s) (ht : s.callbacksOf t ≠ 0) : t ∈ s.queue.timers := by
  rw [h.good.inv.listed, isSome_iff_ne_none]
  exact fun hnone => ht (h.good.inv.idle t hnone)

lemma Sound.not_exited (h : Sound s) (ht : t ∈ s.queue.timers) : s.thread ≠ .exited := by
  intro hexited
  rw [(h.exited hexited).2] at ht
  simp at ht

lemma sound_call (hthread : s.thread ≠ .exited) {res : Except Fault TimerQueue}
    (hres : ∃ q, res = .ok q ∧ Good q s.callbacksOf s.leaving) :
    ∃ s', s.call res = .ok s' ∧ Sound s' := by
  obtain ⟨q, rfl, hgood⟩ := hres
  exact ⟨_, rfl, hgood, fun hexited => absurd hexited hthread⟩

lemma Sound.cleanup (h : Sound s) (s' : State) (hthread : s'.thread ≠ .exited) (ht : s.callbacksOf t = s'.callbacksOf t + 1)
    (hn : ∀ u, u ≠ t → s'.callbacksOf u = s.callbacksOf u) (hleaving : s.leaving → s'.leaving) :
    ∃ s'', s'.call (timerCleanupCallback s.queue t) = .ok s'' ∧ Sound s'' := by
  obtain ⟨q, hq, hgood⟩ := timerCleanupCallback_spec h.good ht hn
  rw [hq]
  exact ⟨_, rfl, hgood.congr (fun _ => rfl) hleaving, fun hexited => absurd hexited hthread⟩

lemma Sound.thread (h : Sound s) {thread : ThreadPc} (hholds : ∀ t, thread.holds t = s.thread.holds t)
    (hleaving : s.leaving → { s with thread := thread }.leaving)
    (hexited : thread = .exited → s.queue.quit = true ∧ s.queue.timers = []) :
    Sound { s with thread := thread } := by
  refine ⟨h.good.congr (fun t => ?_) hleaving, hexited⟩
  unfold State.callbacksOf
  rw [hholds t]

lemma Sound.step (h : Sound s) {a : Act} {res : Except Fault State} (hstep : step s a = some res) :
    ∃ s', res = .ok s' ∧ Sound s' := by
  cases a with
  | create now dueTime period executeInTimerThread =>
    unfold TimerQueues.step at hstep
    dsimp only at hstep
    split at hstep
    · simp at hstep
    · rename_i hthread
      cases hstep
      exact sound_call hthread (rtlCreateTimer_spec h.good now dueTime period executeInTimerThread)
  | update t now dueTime period =>
    unfold TimerQueues.step at hstep
    dsimp only at hstep
    split at hstep
    · rename_i hsome
      cases hstep
      obtain ⟨timer, hget⟩ := isSome_iff_exists.mp hsome
      exact sound_call (h.not_exited (h.good.inv.mem hget))
        (rtlUpdateTimer_spec h.good hget now dueTime period)
    · simp at hstep
  | delete t event =>
    unfold TimerQueues.step at hstep
    dsimp only at hstep
    split at hstep
    · rename_i hsome
      cases hstep
      obtain ⟨timer, hget⟩ := isSome_iff_exists.mp hsome
      exact sound_call (h.not_exited (h.good.inv.mem hget)) (rtlDeleteTimer_spec h.good hget event)
    · simp at hstep
  | deleteQueue fuel =>
    unfold TimerQueues.step at hstep
    dsimp only at hstep
    split at hstep
    · simp at hstep
    rename_i hquit
    have hthread : s.thread ≠ .exited := fun hexited => hquit (h.exited hexited).1
    by_cases hnil : s.queue.timers = []
    · obtain ⟨q, hq, hgood⟩ := rtlDeleteTimerQueueEx_nil h.good.inv hnil hquit fuel
      rw [hq] at hstep
      cases hstep
      exact sound_call hthread ⟨q, rfl, hgood⟩
    obtain ⟨_, hnone⟩ | ⟨taken, q, _, hq, hgood⟩ := rtlDeleteTimerQueueEx_spec h.good.inv hnil fuel
    · rw [hnone] at hstep
      simp at hstep
    · rw [hq] at hstep
      cases hstep
      exact sound_call hthread ⟨q, rfl, hgood⟩
  | finish t =>
    unfold TimerQueues.step at hstep
    dsimp only at hstep
    split at hstep
    · rename_i hmem
      cases hstep
      have hpos : 0 < s.callbacks.count t := count_pos_iff.mpr hmem
      have hthread : s.thread ≠ .exited := h.not_exited (h.mem_of_callback (t := t) (by
        unfold State.callbacksOf
        omega))
      refine h.cleanup _ hthread ?_ ?_ id
      · unfold State.callbacksOf
        dsimp only
        rw [count_erase_self]
        omega
      · intro u hu
        unfold State.callbacksOf
        rw [count_erase_of_ne hu]
    · simp at hstep
  | wake =>
    unfold TimerQueues.step at hstep
    dsimp only at hstep
    split at hstep
    · rename_i timeout hthread
      split at hstep
      · cases hstep
        refine ⟨_, rfl, ?_, fun hexited => absurd hexited (by simp)⟩
        have hn : ∀ t, State.callbacksOf ⟨{ s.queue with event := false }, .signaled, s.callbacks⟩ t =
            s.callbacksOf t := by
          intro t
          unfold State.callbacksOf
          rw [hthread]
          rfl
        have hgood := h.good.congr hn fun _ => trivial
        exact ⟨{ hgood.inv with exit := fun _ _ => .inr (.inl rfl) }, hgood.quitting⟩
      · simp at hstep
    · simp at hstep
  | timeOut =>
    unfold TimerQueues.step at hstep
    dsimp only at hstep
    split at hstep
    · rename_i timeout hthread
      split at hstep
      · simp at hstep
      cases hstep
      refine ⟨_, rfl, h.thread (fun t => by rw [hthread]; rfl) (fun hleaving => ?_) nofun⟩
      rw [State.leaving, hthread] at hleaving
      simp at hleaving
    · simp at hstep
  | checkQuit =>
    unfold TimerQueues.step at hstep
    dsimp only at hstep
    split at hstep
    · rename_i hthread
      cases hstep
      refine ⟨_, rfl, ?_⟩
      by_cases hdone : s.queue.quit = true ∧ s.queue.timers = []
      · rw [if_pos hdone]
        exact h.thread (fun t => by rw [hthread]; rfl) (fun _ => .inr rfl) fun _ => hdone
      rw [if_neg hdone]
      have hn : ∀ t, { s with thread := .adjusting }.callbacksOf t = s.callbacksOf t := by
        intro t
        unfold State.callbacksOf
        rw [hthread]
        rfl
      have hgood := h.good.congr hn fun _ => trivial
      exact ⟨⟨{ hgood.inv with exit := fun hquit hnil => absurd ⟨hquit, hnil⟩ hdone },
        hgood.quitting⟩, nofun⟩
    · simp at hstep
  | expire now =>
    unfold TimerQueues.step at hstep
    dsimp only at hstep
    split at hstep
    · rename_i hthread
      cases hstep
      have hholds : ∀ t, s.callbacksOf t = s.callbacks.count t := by
        intro t
        unfold State.callbacksOf
        rw [hthread]
        rfl
      have hleaving : ¬ s.leaving := by
        rw [State.leaving, hthread]
        simp
      obtain hnone | ⟨q, t, hsome, hgood⟩ := queueTimerExpire_spec h.good now
      · rw [hnone]
        exact ⟨_, rfl, h.thread (fun t => by rw [hthread]; rfl) (fun hl => absurd hl hleaving) nofun⟩
      rw [hsome]
      refine ⟨_, rfl, (hgood _ ?_ ?_).congr (fun _ => rfl) (fun hl => absurd hl hleaving), nofun⟩
      · rw [hholds t]
        exact congrArg _ (if_pos rfl)
      · intro u hu
        rw [hholds u]
        exact congrArg _ (if_neg fun heq => hu heq.symm)
    · simp at hstep
  | submit success =>
    unfold TimerQueues.step at hstep
    dsimp only at hstep
    split at hstep
    · rename_i t hthread
      cases hstep
      have hself : s.callbacksOf t = s.callbacks.count t + 1 := by
        unfold State.callbacksOf
        rw [hthread]
        exact congrArg _ (if_pos rfl)
      have hother : ∀ u, u ≠ t → s.callbacksOf u = s.callbacks.count u := by
        intro u hu
        unfold State.callbacksOf
        rw [hthread]
        exact congrArg _ (if_neg fun heq => hu heq.symm)
      have hleaving : ¬ s.leaving := by
        rw [State.leaving, hthread]
        simp
      have hmem := h.mem_of_callback (t := t) (by omega)
      obtain ⟨timer, hget, _⟩ := h.good.inv.get hmem
      rw [get_eq hget]
      by_cases hflag : timer.executeInTimerThread = true
      · refine ⟨_, if_pos hflag, h.thread (fun u => by rw [hthread]; rfl)
          (fun hl => absurd hl hleaving) nofun⟩
      cases success with
      | true =>
        refine ⟨_, (if_neg hflag).trans (if_pos rfl), h.good.congr (fun u => ?_)
          (fun hl => absurd hl hleaving), nofun⟩
        by_cases hu : u = t
        · subst hu
          rw [hself]
          exact count_cons_self
        · rw [hother u hu]
          exact count_cons_of_ne fun heq => hu heq.symm
      | false =>
        have hcleanup := h.cleanup { s with thread := .adjusting } (t := t) nofun hself
          (fun u hu => (hother u hu).symm) fun hl => absurd hl hleaving
        obtain ⟨s', hs', hsound⟩ := hcleanup
        exact ⟨s', (if_neg hflag).trans ((if_neg Bool.false_ne_true).trans hs'), hsound⟩
    · simp at hstep
  | finishInThread =>
    unfold TimerQueues.step at hstep
    dsimp only at hstep
    split at hstep
    · rename_i t hthread
      cases hstep
      refine h.cleanup { s with thread := .adjusting } (t := t) nofun ?_ ?_ ?_
      · unfold State.callbacksOf
        rw [hthread]
        exact congrArg _ (if_pos rfl)
      · intro u hu
        unfold State.callbacksOf
        rw [hthread]
        exact congrArg _ (if_neg fun heq => hu heq.symm).symm
      · rw [State.leaving, hthread]
        simp
    · simp at hstep
  | getTimeout now =>
    unfold TimerQueues.step at hstep
    dsimp only at hstep
    split at hstep
    · rename_i hthread
      cases hstep
      obtain ⟨timeout, htimeout⟩ := queueGetTimeout_spec h.good now
      rw [htimeout]
      refine ⟨_, rfl, h.thread (fun t => by rw [hthread]; rfl) (fun hleaving => ?_) nofun⟩
      rw [State.leaving, hthread] at hleaving
      simp at hleaving
    · simp at hstep

lemma sound_initial : Sound initial := by
  refine ⟨⟨?_, nofun⟩, nofun⟩
  constructor
  · exact nodup_nil
  · exact fun t => ⟨fun hmem => absurd hmem (by simp [initial]), nofun⟩
  · exact fun t hmem => absurd hmem (by simp [initial])
  · exact fun t => (if_neg fun hlt => Nat.not_lt_zero t hlt.1).symm
  · exact nofun
  · exact fun t _ => rfl
  · exact nofun
  · exact List.Pairwise.nil
  · rfl
  · exact nofun

lemma sound_of_reachable (h : Reachable next (· = initial) s) : Sound s := by
  refine Reaches.invariant (fun s hs => hs ▸ sound_initial) (fun s a s' hsound _ hnext => ?_) h
  unfold next at hnext
  split at hnext
  · rename_i s'' hstep
    cases hnext
    obtain ⟨t, heq, hsound'⟩ := hsound.step hstep
    cases heq
    exact hsound'
  · simp at hnext

/-- What holds between two sections, and that no step has a fault. -/
structure Safe (s : State) : Prop where
  sorted : s.queue.timers.Pairwise fun a b => s.queue.expireOf a ≤ s.queue.expireOf b
  nodup : s.queue.timers.Nodup
  listed : ∀ t, t ∈ s.queue.timers ↔ (s.queue.timer t).isSome = true
  destroyed : ∀ t timer, s.queue.timer t = some timer → timer.destroy = true →
    timer.expire = expireNever
  runcount : ∀ t timer, s.queue.timer t = some timer → timer.runcount = s.callbacksOf t
  held : ∀ t, 0 < s.callbacksOf t → (s.queue.timer t).isSome = true
  /-- A timer is freed once, and it is in the list until then. -/
  freed : ∀ t, s.queue.freed.count t = if t < s.queue.created ∧ t ∉ s.queue.timers then 1 else 0
  released : s.queue.quit = true → (∀ t, s.callbacksOf t = 0) → s.queue.timers = []
  faultless : ∀ a fault, step s a ≠ some (.error fault)
  /-- The thread is signaled to exit once, when the last timer is gone. -/
  exitSignals : s.queue.exitSignals = if s.queue.quit = true ∧ s.queue.timers = [] then 1 else 0
  exitPending : s.queue.quit = true → s.queue.timers = [] →
    s.queue.event = true ∨ s.thread = .signaled ∨ s.thread = .exited
  exited : s.thread = .exited → s.queue.quit = true ∧ s.queue.timers = []

lemma Sound.safe (h : Sound s) : Safe s where
  sorted := h.good.inv.sorted.imp UInt64.le_iff_toNat_le.mpr
  nodup := h.good.inv.nodup
  listed := h.good.inv.listed
  destroyed t timer hget hdestroy := (h.good.inv.destroyed t timer hget hdestroy).1
  runcount := h.good.inv.runcount
  held t ht := (h.good.inv.listed t).mp (h.mem_of_callback ht.ne')
  freed := h.good.inv.freed
  released hquit hidle := by
    apply eq_nil_iff_forall_not_mem.mpr
    intro t ht
    obtain ⟨timer, hget, _⟩ := h.good.inv.get ht
    exact (h.good.inv.destroyed t timer hget (h.good.quitting hquit t timer hget)).2 (hidle t)
  faultless a fault hstep := by
    obtain ⟨s', heq, _⟩ := h.step hstep
    cases heq
  exitSignals := h.good.inv.exitSignals
  exitPending := h.good.inv.exit
  exited := h.exited

/-- The section of `RtlDeleteTimerQueueEx` ends, and its loop visits each timer once. -/
def VisitsOnce (q : TimerQueue) : Prop :=
  ∃ fuel q', rtlDeleteTimerQueueEx fuel q = some (.ok (q', q.timers))

def OnlyLastBusy (q : TimerQueue) : Prop :=
  ∀ t ∈ q.timers.dropLast, ∀ timer, q.timer t = some timer → timer.runcount = 0

lemma onlyLastBusy_iff (h : Inv q n leaving) :
    OnlyLastBusy q ↔ ∀ t ∈ q.timers.dropLast, busy n t = false := by
  constructor
  · intro hbusy t ht
    obtain ⟨timer, hget, hcount⟩ := h.get ((dropLast_sublist q.timers).subset ht)
    exact decide_eq_false (not_not.mpr (hcount.symm.trans (hbusy t ht timer hget)))
  · intro hbusy t ht timer hget
    exact (h.runcount t timer hget).trans (not_not.mp (of_decide_eq_false (hbusy t ht)))

lemma visitsOnce_iff (h : Inv q n leaving)
    (hquit : q.quit ≠ true) : VisitsOnce q ↔ OnlyLastBusy q := by
  rw [onlyLastBusy_iff h, ← rotateWalk_once]
  by_cases hnil : q.timers = []
  · obtain ⟨q', hq', _⟩ := rtlDeleteTimerQueueEx_nil h hnil hquit 0
    refine ⟨fun _ => ⟨1, by rw [hnil]; rfl⟩, fun _ => ⟨0, q', ?_⟩⟩
    rw [hq', hnil]
  refine exists_congr fun fuel => ?_
  obtain ⟨hrotation, hnone⟩ | ⟨taken, q', hrotation, hsome, _⟩ := rtlDeleteTimerQueueEx_spec h hnil fuel
  · rw [hrotation, hnone]
    simp
  · rw [hrotation, hsome]
    simp

/-- In every run all is well but for the loop over the timers, which visits each of them once iff
none but the last has callbacks. -/
theorem timer_queue_shutdown (s : State) (h : Reachable next (· = initial) s) :
    Safe s ∧ (s.queue.quit = false → (VisitsOnce s.queue ↔ OnlyLastBusy s.queue)) := by
  have hsound := sound_of_reachable h
  refine ⟨hsound.safe, fun hquit => visitsOnce_iff hsound.good.inv ?_⟩
  rw [hquit]
  exact Bool.false_ne_true

def firing : List Act := [.create 0 0 0 false, .wake, .checkQuit, .getTimeout 0, .timeOut, .expire 0,
  .submit true, .getTimeout 0]

theorem timer_queue_shutdown_firing : ∃ s, run next initial firing = some s ∧ Safe s ∧
    (s.queue.quit = false → (VisitsOnce s.queue ↔ OnlyLastBusy s.queue)) :=
  ⟨_, rfl, timer_queue_shutdown _ (reachable_of_run (.start rfl) firing rfl)⟩

/-- Two timers with callbacks move to the end of the list in turns. -/
theorem deletion_never_ends : ∃ s, run next initial (firing ++ firing) = some s ∧
    ∀ fuel, rtlDeleteTimerQueueEx fuel s.queue = none := by
  have hrun : (run next initial (firing ++ firing)).map (fun s => (s.queue.timers,
      (s.queue.timer 0).map QueueTimer.runcount, (s.queue.timer 1).map QueueTimer.runcount)) =
      some ([0, 1], some 1, some 1) := by
    decide +kernel
  obtain ⟨s, hs, heq⟩ := map_eq_some_iff.mp hrun
  simp only [Prod.mk.injEq] at heq
  obtain ⟨htimers, hfirst, hsecond⟩ := heq
  have hinv := (sound_of_reachable (reachable_of_run (.start rfl) _ hs)).good.inv
  obtain ⟨timer, hget, hcount⟩ := map_eq_some_iff.mp hfirst
  obtain ⟨timer', hget', hcount'⟩ := map_eq_some_iff.mp hsecond
  rw [hinv.runcount 0 timer hget] at hcount
  rw [hinv.runcount 1 timer' hget'] at hcount'
  exact ⟨s, hs, rtlDeleteTimerQueueEx_busy hinv (t := 0) (u := 1) (by decide) (hinv.mem hget)
    (hinv.mem hget') (by omega) (by omega)⟩

end WineForge.TimerQueues
