import WineForge.Library.ListWalk
import WineForge.TimerQueues.Lists

/-!
# The sections of the code

No section has a fault, and each keeps the invariant. The deletion of a queue walks over its list as
`rotateWalk` does, where a timer with callbacks is busy.
-/

namespace WineForge.TimerQueues

open Bool Function Library List Option

variable {q : TimerQueue} {n : TimerId → Nat} {leaving : Prop} {t : TimerId} {timer : QueueTimer}

def AllDestroyed (q : TimerQueue) : Prop := ∀ t timer, q.timer t = some timer → timer.destroy = true

lemma set_without (q : TimerQueue) (t : TimerId) (timer : QueueTimer) (removals : List Nat) :
    (q.set t timer).without t removals = q.without t removals := by
  rw [TimerQueue.without, TimerQueue.without, TimerQueue.set, update_idem]

lemma queueRemoveTimer_eq (ht : q.timer t = some timer) (hcount : timer.runcount = 0)
    (hdestroy : timer.destroy = true) :
    ∃ removals, queueRemoveTimer q t = .ok (q.without t removals) := by
  have hassert : ¬ (timer.runcount ≠ 0 ∨ timer.destroy = false) := by simp [hcount, hdestroy]
  rw [queueRemoveTimer, get_eq ht]
  exact ⟨_, if_neg hassert⟩

lemma queueMoveTimer_eq (ht : q.timer t = some timer) (time : UInt64)
    (hquit : q.quit = true → timer.destroy = true ∧ time = expireNever) (setEvent : Bool) :
    ∃ event, queueMoveTimer q t time setEvent = .ok (q.put t { timer with expire := time }
      ({ q with timers := q.timers.erase t }.place t time) event q.created) := by
  have hget : ({ q with timers := q.timers.erase t } : TimerQueue).get t = .ok timer := get_eq ht
  have hassert : ¬ (q.quit = true ∧ ¬ (timer.destroy = true ∧ time = expireNever)) :=
    fun h => h.2 (hquit h.1)
  rw [queueMoveTimer, queueAddTimer, hget]
  exact ⟨_, if_neg hassert⟩

lemma Inv.move (h : Inv q n leaving) (ht : t ∈ q.timers) (timer : QueueTimer) (event : Bool)
    (hcount : timer.runcount = n t)
    (hdestroy : timer.destroy = true → timer.expire = expireNever ∧ n t ≠ 0) :
    Inv (q.put t timer ({ q with timers := q.timers.erase t }.place t timer.expire) event q.created)
      n leaving := by
  have hsorted : SortedBy ({ q with timers := q.timers.erase t } : TimerQueue).key
      (q.timers.erase t) := h.sorted.sublist erase_sublist
  have hcreated : ∀ u, u < q.created ↔ u = t ∨ u < q.created := by
    intro u
    refine ⟨.inr, fun hu => hu.elim (fun heq => ?_) id⟩
    rw [heq]
    exact h.created t ht
  exact h.put (h.count_freed_eq_zero ht) (fun hquit => ne_nil_of_mem ht hquit.2) event hcreated
    (place_perm _ t _) (place_sorted hsorted h.nodup.not_mem_erase timer) hcount hdestroy

lemma queueDestroyTimer_spec (h : Inv q n leaving) (ht : t ∈ q.timers) :
    ∃ q', queueDestroyTimer q t = .ok q' ∧ Inv q' n leaving ∧ q'.quit = q.quit ∧
      q'.timers = (if n t = 0 then q.timers.erase t else q.timers.erase t ++ [t]) ∧
      ∀ u timer, q'.timer u = some timer →
        timer.destroy = true ∨ u ≠ t ∧ q.timer u = some timer := by
  obtain ⟨timer, hget, hcount⟩ := h.get ht
  have hself := set_timer_self q t { timer with destroy := true }
  rw [queueDestroyTimer, get_eq hget]
  by_cases hidle : n t = 0
  · obtain ⟨removals, hremove⟩ := queueRemoveTimer_eq hself (hcount.trans hidle) rfl
    rw [set_without] at hremove
    refine ⟨q.without t removals, ?_, h.without ht hidle (fun _ _ => rfl) removals, rfl, ?_, ?_⟩
    · exact (if_pos (hcount.trans hidle)).trans hremove
    · exact (if_pos hidle).symm
    intro u timer' hget'
    by_cases hu : u = t
    · subst hu
      exact absurd ((update_self u _ q.timer).symm.trans hget') (by simp)
    · exact .inr ⟨hu, (update_of_ne hu _ _).symm.trans hget'⟩
  obtain ⟨event, hmove⟩ := queueMoveTimer_eq (q := q.set t { timer with destroy := true })
    hself expireNever (fun _ => ⟨rfl, rfl⟩) false
  have hinv := h.move ht { timer with destroy := true, expire := expireNever } event hcount fun _ => ⟨rfl, hidle⟩
  have hsame : (q.set t { timer with destroy := true }).put t
        { timer with destroy := true, expire := expireNever } (q.timers.erase t ++ [t]) event
        q.created =
      q.put t { timer with destroy := true, expire := expireNever } (q.timers.erase t ++ [t]) event
        q.created := by
    rw [TimerQueue.put, TimerQueue.put, TimerQueue.set, update_idem]
  refine ⟨_, ?_, hinv, rfl, ?_, ?_⟩
  · exact (if_neg fun hzero => hidle (hcount.symm.trans hzero)).trans (hmove.trans (congrArg _ hsame))
  · exact (if_neg hidle).symm
  intro u timer' hget'
  by_cases hu : u = t
  · subst hu
    have heq := some.inj ((update_self u _ q.timer).symm.trans hget')
    exact .inl (heq ▸ rfl)
  · exact .inr ⟨hu, (update_of_ne hu _ _).symm.trans hget'⟩

/-- The invariant, with what `RtlDeleteTimerQueueEx` leaves behind. -/
structure Good (q : TimerQueue) (n : TimerId → Nat) (leaving : Prop) : Prop where
  inv : Inv q n leaving
  quitting : q.quit = true → AllDestroyed q

lemma Good.destroyed (h : Good q n leaving) (ht : q.timer t = some timer) (hquit : q.quit = true) :
    timer.destroy = true ∧ timer.expire = expireNever := by
  have hdestroy := h.quitting hquit t timer ht
  exact ⟨hdestroy, (h.inv.destroyed t timer ht hdestroy).1⟩

lemma AllDestroyed.update {q' : TimerQueue} (h : AllDestroyed q) (ht : q.timer t = some timer)
    (timer' : QueueTimer) (hdestroy : timer'.destroy = timer.destroy)
    (hq' : q'.timer = update q.timer t (some timer')) : AllDestroyed q' := by
  intro u timer'' hget
  rw [hq'] at hget
  by_cases hu : u = t
  · subst hu
    rw [update_self] at hget
    rw [← some.inj hget, hdestroy]
    exact h u timer ht
  · rw [update_of_ne hu] at hget
    exact h u timer'' hget

lemma AllDestroyed.without (h : AllDestroyed q) (t : TimerId) (removals : List Nat) :
    AllDestroyed (q.without t removals) := by
  intro u timer hget
  by_cases hu : u = t
  · subst hu
    exact absurd ((update_self u _ q.timer).symm.trans hget) (by simp)
  · exact h u timer ((update_of_ne hu _ _).symm.trans hget)

section

variable (h : Good q n leaving)

include h

lemma timerCleanupCallback_spec {n' : TimerId → Nat} (ht : n t = n' t + 1)
    (hn : ∀ u, u ≠ t → n' u = n u) :
    ∃ q', timerCleanupCallback q t = .ok q' ∧ Good q' n' leaving := by
  have hmem : t ∈ q.timers := by
    rw [h.inv.listed, isSome_iff_ne_none]
    intro hnone
    exact absurd (ht.symm.trans (h.inv.idle t hnone)) (Nat.succ_ne_zero _)
  obtain ⟨timer, hget, hcount⟩ := h.inv.get hmem
  have hpos : timer.runcount ≠ 0 := by omega
  have hless : timer.runcount - 1 = n' t := by omega
  have hself := set_timer_self q t { timer with runcount := timer.runcount - 1 }
  have hquit : q.quit = true → AllDestroyed (q.set t { timer with runcount := timer.runcount - 1 }) :=
    fun hquit => (h.quitting hquit).update hget { timer with runcount := timer.runcount - 1 } rfl rfl
  have hstep : timerCleanupCallback q t =
      if timer.destroy = true ∧ timer.runcount - 1 = 0 then
        queueRemoveTimer (q.set t { timer with runcount := timer.runcount - 1 }) t
      else .ok (q.set t { timer with runcount := timer.runcount - 1 }) := by
    rw [timerCleanupCallback, get_eq hget]
    exact if_neg hpos
  rw [hstep]
  split
  · rename_i hlast
    obtain ⟨removals, hremove⟩ := queueRemoveTimer_eq hself hlast.2 hlast.1
    rw [set_without] at hremove
    exact ⟨_, hremove, h.inv.without hmem (hless.symm.trans hlast.2) hn removals,
      fun hq => (h.quitting hq).without t removals⟩
  rename_i hmore
  have hwaits : timer.destroy = true → n' t ≠ 0 :=
    fun hdestroy hzero => hmore ⟨hdestroy, hless.trans hzero⟩
  exact ⟨_, rfl, h.inv.set hget _ rfl rfl hless hn hwaits, hquit⟩

lemma queueTimerExpire_spec (now : UInt64) : queueTimerExpire q now = .ok (q, none) ∨
      ∃ q' t, queueTimerExpire q now = .ok (q', some t) ∧
        ∀ n' : TimerId → Nat, n' t = n t + 1 → (∀ u, u ≠ t → n' u = n u) → Good q' n' leaving := by
  unfold queueTimerExpire
  split
  · exact .inl rfl
  rename_i t rest htimers
  have hmem : t ∈ q.timers := by
    rw [htimers]
    exact mem_cons_self
  obtain ⟨timer, hget, hcount⟩ := h.inv.get hmem
  rw [get_eq hget]
  by_cases hdue : timer.destroy = false ∧ timer.expire ≤ now
  · right
    have hquit : q.quit ≠ true := fun hquit =>
      false_ne_true (hdue.1.symm.trans (h.quitting hquit t timer hget))
    obtain ⟨event, hmove⟩ := queueMoveTimer_eq
      (q := q.set t { timer with runcount := timer.runcount + 1 }) (set_timer_self q t _)
      (nextExpire timer now) (fun hq => absurd hq hquit) false
    refine ⟨_, t, (if_pos hdue).trans (congrArg (· >>= fun q => .ok (q, some t)) hmove), ?_⟩
    intro n' hn' hother
    have hinv := h.inv.set hget { timer with runcount := timer.runcount + 1 } rfl rfl
      ((congrArg (· + 1) hcount).trans hn'.symm) hother
      fun hdestroy => absurd (hdue.1.symm.trans hdestroy) false_ne_true
    refine ⟨hinv.move hmem _ event ((congrArg (· + 1) hcount).trans hn'.symm) ?_,
      fun hq => absurd hq hquit⟩
    exact fun hdestroy => absurd (hdue.1.symm.trans hdestroy) false_ne_true
  · exact .inl (if_neg hdue)

lemma queueGetTimeout_spec (now : UInt64) : ∃ timeout, queueGetTimeout q now = .ok timeout := by
  unfold queueGetTimeout
  split
  · exact ⟨_, rfl⟩
  rename_i t rest htimers
  have hmem : t ∈ q.timers := by
    rw [htimers]
    exact mem_cons_self
  obtain ⟨timer, hget, _⟩ := h.inv.get hmem
  have hassert : ¬ (timer.destroy = true ∧ timer.expire ≠ expireNever) :=
    fun hbad => hbad.2 (h.inv.destroyed t timer hget hbad.1).1
  rw [get_eq hget]
  by_cases hnever : timer.expire ≠ expireNever
  · exact ⟨_, (if_neg hassert).trans (if_pos hnever)⟩
  · exact ⟨_, (if_neg hassert).trans (if_neg hnever)⟩

lemma rtlCreateTimer_spec (now : UInt64) (dueTime period : UInt32) (executeInTimerThread : Bool) :
    ∃ q', rtlCreateTimer q now dueTime period executeInTimerThread = .ok q' ∧
      Good q' n leaving := by
  have hfresh : q.created ∉ q.timers := fun hmem => lt_irrefl _ (h.inv.created _ hmem)
  have hnone : q.timer q.created = none := by
    rw [← not_isSome_iff_eq_none, ← h.inv.listed]
    exact hfresh
  have hfreed : q.freed.count q.created = 0 := by
    rw [h.inv.freed, if_neg fun hlt => lt_irrefl _ hlt.1]
  unfold rtlCreateTimer
  by_cases hquit : q.quit = true
  · rw [if_pos hquit]
    refine ⟨_, rfl, ⟨h.inv.nodup, h.inv.listed, ?_, ?_, h.inv.runcount, h.inv.idle, h.inv.destroyed,
      h.inv.sorted, h.inv.exitSignals, h.inv.exit⟩, h.quitting⟩
    · exact fun t ht => (h.inv.created t ht).trans (Nat.lt_succ_self _)
    intro t
    by_cases ht : t = q.created
    · subst ht
      have hcount : (q.created :: q.freed).count q.created = q.freed.count q.created + 1 :=
        count_cons_self
      rw [hfreed] at hcount
      exact hcount.trans (if_pos ⟨Nat.lt_succ_self _, hfresh⟩).symm
    have hcount : (q.created :: q.freed).count t = q.freed.count t :=
      count_cons_of_ne fun heq => ht heq.symm
    have hiff : (t < q.created + 1 ∧ t ∉ q.timers) ↔ (t < q.created ∧ t ∉ q.timers) := by
      rw [Nat.lt_succ_iff_lt_or_eq, or_iff_left ht]
    exact hcount.trans ((h.inv.freed t).trans (if_congr hiff.symm rfl rfl))
  · rw [if_neg hquit]
    generalize hnew : (⟨0, period, executeInTimerThread, 0, false, none⟩ : QueueTimer) = new
    have hcount : new.runcount = n q.created := by
      rw [← hnew, h.inv.idle _ hnone]
    have hdestroy : new.destroy = false := by rw [← hnew]
    generalize hq' : ({ q with created := q.created + 1 } : TimerQueue).set q.created new = q'
    have hget : q'.timer q.created = some new := by
      rw [← hq']
      exact set_timer_self _ _ _
    have hassert : ¬ (q'.quit = true ∧ ¬ (new.destroy = true ∧
        now + dueTime.toUInt64 = expireNever)) := by
      rw [← hq']
      exact fun hq => hquit hq.1
    have hput : ∀ timer timers event, { q'.set q.created timer with timers := timers, event := event } =
        q.put q.created timer timers event (q.created + 1) := by
      intro timer timers event
      rw [← hq', set_set]
      rfl
    have hkey : ∀ timer, (q'.set q.created timer).key = (q.set q.created timer).key := by
      intro timer
      rw [← hq', set_set]
      rfl
    have hsorted : SortedBy q'.key q'.timers := by
      rw [← hq']
      apply h.inv.sorted.congr
      intro t ht
      exact set_key_of_ne fun heq => hfresh (heq ▸ ht)
    have htimers : q'.timers = q.timers := by
      rw [← hq']
      rfl
    have hperm : (q'.place q.created (now + dueTime.toUInt64)).Perm
        (q.created :: q.timers.erase q.created) := by
      rw [erase_of_not_mem hfresh, ← htimers]
      exact place_perm _ _ _
    have hplace := place_sorted hsorted (htimers ▸ hfresh)
      { new with expire := now + dueTime.toUInt64 }
    rw [hkey] at hplace
    have hcreated : ∀ u, u < q.created + 1 ↔ u = q.created ∨ u < q.created :=
      fun u => Nat.lt_succ_iff_lt_or_eq.trans or_comm
    rw [queueAddTimer, get_eq hget]
    refine ⟨_, (if_neg hassert).trans (congrArg Except.ok (hput _ _ _)), ?_,
      fun hq => absurd hq hquit⟩
    exact h.inv.put hfreed (fun hq => hquit hq.1) _ hcreated hperm hplace hcount
      fun hd => absurd (hdestroy.symm.trans hd) false_ne_true

lemma rtlUpdateTimer_spec (ht : q.timer t = some timer) (now : UInt64) (dueTime period : UInt32) :
    ∃ q', rtlUpdateTimer q t now dueTime period = .ok q' ∧ Good q' n leaving := by
  rw [rtlUpdateTimer, get_eq ht]
  by_cases hnever : timer.expire ≠ expireNever
  · have hcount := h.inv.runcount t timer ht
    have hquit : q.quit ≠ true := fun hquit => hnever (h.destroyed ht hquit).2
    obtain ⟨event, hmove⟩ := queueMoveTimer_eq (q := q.set t { timer with period := period })
      (set_timer_self q t _) (now + dueTime.toUInt64) (fun hq => absurd hq hquit) true
    have hinv := h.inv.set ht { timer with period := period } rfl rfl hcount
      (fun _ _ => rfl) fun hdestroy => (h.inv.destroyed t timer ht hdestroy).2
    refine ⟨_, (if_pos hnever).trans hmove, hinv.move (h.inv.mem ht) _ event hcount ?_,
      fun hq => absurd hq hquit⟩
    exact fun hdestroy => absurd (h.inv.destroyed t timer ht hdestroy).1 hnever
  · exact ⟨q, if_neg hnever, h⟩

lemma rtlDeleteTimer_spec (ht : q.timer t = some timer) (event : Option Nat) :
    ∃ q', rtlDeleteTimer q t event = .ok q' ∧ Good q' n leaving := by
  have hcount := h.inv.runcount t timer ht
  have hinv := h.inv.set ht { timer with event := event } rfl rfl hcount
    (fun _ _ => rfl) fun hdestroy => (h.inv.destroyed t timer ht hdestroy).2
  have hquit : q.quit = true → AllDestroyed (q.set t { timer with event := event }) :=
    fun hquit => (h.quitting hquit).update ht { timer with event := event } rfl rfl
  obtain ⟨q', hdestroy, hinv', hsame, _, hmarks⟩ := queueDestroyTimer_spec hinv (h.inv.mem ht)
  rw [rtlDeleteTimer, get_eq ht]
  refine ⟨q', hdestroy, hinv', fun hq => ?_⟩
  intro u timer' hget
  obtain hmark | ⟨_, hget⟩ := hmarks u timer' hget
  · exact hmark
  · exact hquit (hsame.symm.trans hq) u timer' hget

end

end WineForge.TimerQueues
