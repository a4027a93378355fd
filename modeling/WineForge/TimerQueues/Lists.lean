import WineForge.TimerQueues.State

/-!
# The list of a queue

The invariant of a queue, and what each section of the code makes of it.
-/

namespace WineForge.TimerQueues

open Function Library List Option

def TimerQueue.key (q : TimerQueue) (t : TimerId) : Nat := (q.expireOf t).toNat

/-- What holds of a queue outside of its sections, where `n` counts the callbacks of each timer and
`leaving` says that the thread has been woken up for the last time. -/
structure Inv (q : TimerQueue) (n : TimerId → Nat) (leaving : Prop) : Prop where
  nodup : q.timers.Nodup
  listed : ∀ t, t ∈ q.timers ↔ (q.timer t).isSome = true
  created : ∀ t ∈ q.timers, t < q.created
  freed : ∀ t, q.freed.count t = if t < q.created ∧ t ∉ q.timers then 1 else 0
  runcount : ∀ t timer, q.timer t = some timer → timer.runcount = n t
  idle : ∀ t, q.timer t = none → n t = 0
  destroyed : ∀ t timer, q.timer t = some timer → timer.destroy = true →
    timer.expire = expireNever ∧ n t ≠ 0
  sorted : SortedBy q.key q.timers
  exitSignals : q.exitSignals = if q.quit = true ∧ q.timers = [] then 1 else 0
  exit : q.quit = true → q.timers = [] → q.event = true ∨ leaving

section Memory

variable {q : TimerQueue} {t u : TimerId} {timer : QueueTimer}

lemma get_eq (h : q.timer t = some timer) : q.get t = .ok timer := by
  rw [TimerQueue.get, h]

lemma expireOf_eq (h : q.timer t = some timer) : q.expireOf t = timer.expire := by
  rw [TimerQueue.expireOf, h]

@[simp] lemma set_timer_self (q : TimerQueue) (t : TimerId) (timer : QueueTimer) :
    (q.set t timer).timer t = some timer := update_self t _ _

lemma set_timer_of_ne (h : u ≠ t) : (q.set t timer).timer u = q.timer u :=
  update_of_ne h _ _

lemma set_key_of_ne (h : u ≠ t) : (q.set t timer).key u = q.key u := by
  rw [TimerQueue.key, TimerQueue.key, TimerQueue.expireOf, TimerQueue.expireOf, set_timer_of_ne h]

lemma set_key_self (q : TimerQueue) (t : TimerId) (timer : QueueTimer) :
    (q.set t timer).key t = timer.expire.toNat := by
  rw [TimerQueue.key, expireOf_eq (set_timer_self q t timer)]

lemma set_set (q : TimerQueue) (t : TimerId) (timer timer' : QueueTimer) :
    (q.set t timer).set t timer' = q.set t timer' := by
  rw [TimerQueue.set, TimerQueue.set, TimerQueue.set, update_idem]

lemma le_expireNever (time : UInt64) : time.toNat ≤ expireNever.toNat :=
  Nat.le_of_lt_succ time.toNat_lt

lemma place_perm (q : TimerQueue) (t : TimerId) (time : UInt64) :
    (q.place t time).Perm (t :: q.timers) := by
  unfold TimerQueue.place
  split
  · exact insertBefore_perm _ t q.timers
  · exact perm_append_singleton t q.timers

lemma place_sorted (h : SortedBy q.key q.timers) (ht : t ∉ q.timers) (timer : QueueTimer) :
    SortedBy (q.set t timer).key (q.place t timer.expire) := by
  have hkey : ∀ cur ∈ q.timers, (q.set t timer).key cur = q.key cur := by
    intro cur hcur
    exact set_key_of_ne fun heq => ht (heq ▸ hcur)
  have hsorted : SortedBy (q.set t timer).key q.timers := h.congr hkey
  unfold TimerQueue.place
  split
  · have hstop : ∀ cur ∈ q.timers, decide (timer.expire < q.expireOf cur) =
        decide ((q.set t timer).key t < (q.set t timer).key cur) := by
      intro cur hcur
      rw [set_key_self, hkey cur hcur, decide_eq_decide, UInt64.lt_iff_toNat_lt]
      rfl
    rw [insertBefore_congr hstop]
    exact hsorted.insertBefore
  rename_i hnever
  have hnever : timer.expire = expireNever := not_not.mp hnever
  apply hsorted.append
  intro cur hcur
  rw [set_key_self, hnever]
  exact le_expireNever _

end Memory

def TimerQueue.put (q : TimerQueue) (t : TimerId) (timer : QueueTimer) (timers : List TimerId)
    (event : Bool) (created : Nat) : TimerQueue :=
  { q with
    timer := update q.timer t (some timer)
    timers := timers
    event := event
    created := created }

def TimerQueue.without (q : TimerQueue) (t : TimerId) (removals : List Nat) : TimerQueue :=
  { q with
    timer := update q.timer t none
    timers := q.timers.erase t
    event := q.event || (q.quit && (q.timers.erase t).isEmpty)
    freed := t :: q.freed
    removals := removals
    exitSignals := q.exitSignals + (q.quit && (q.timers.erase t).isEmpty).toNat }

section Changes

variable {q : TimerQueue} {n : TimerId → Nat} {leaving : Prop} {t : TimerId} {timer : QueueTimer}

section

variable (h : Inv q n leaving)

include h

lemma Inv.mem (ht : q.timer t = some timer) : t ∈ q.timers :=
  (h.listed t).mpr (by rw [ht]; rfl)

lemma Inv.get (ht : t ∈ q.timers) : ∃ timer, q.timer t = some timer ∧ timer.runcount = n t := by
  obtain ⟨timer, hget⟩ := isSome_iff_exists.mp ((h.listed t).mp ht)
  exact ⟨timer, hget, h.runcount t timer hget⟩

lemma Inv.count_freed_eq_zero (ht : t ∈ q.timers) : q.freed.count t = 0 := by
  rw [h.freed t, if_neg fun hfreed => hfreed.2 ht]

lemma Inv.exitSignals_eq_zero (hopen : ¬ (q.quit = true ∧ q.timers = [])) : q.exitSignals = 0 := by
  rw [h.exitSignals, if_neg hopen]

lemma Inv.put (hnew : q.freed.count t = 0)
    (hopen : ¬ (q.quit = true ∧ q.timers = [])) {timers : List TimerId} (event : Bool) {created : Nat}
    (hcreated : ∀ u, u < created ↔ u = t ∨ u < q.created)
    (hperm : timers.Perm (t :: q.timers.erase t)) (hsorted : SortedBy (q.set t timer).key timers)
    (hcount : timer.runcount = n t)
    (hdestroy : timer.destroy = true → timer.expire = expireNever ∧ n t ≠ 0) :
    Inv (q.put t timer timers event created) n leaving := by
  have hself : t ∈ timers := hperm.mem_iff.mpr mem_cons_self
  have hmem : ∀ u, u ≠ t → (u ∈ timers ↔ u ∈ q.timers) := by
    intro u hu
    rw [hperm.mem_iff, mem_cons, mem_erase_of_ne hu]
    exact ⟨fun h => h.resolve_left hu, .inr⟩
  have hne : timers ≠ [] := ne_nil_of_mem hself
  have hget : ∀ u, u ≠ t → (q.put t timer timers event created).timer u = q.timer u :=
    fun u hu => update_of_ne hu _ _
  have hgetself : (q.put t timer timers event created).timer t = some timer :=
    update_self t _ q.timer
  constructor
  · exact hperm.nodup_iff.mpr (nodup_cons.mpr ⟨h.nodup.not_mem_erase, h.nodup.erase t⟩)
  · intro u
    by_cases hu : u = t
    · subst hu
      rw [hgetself]
      exact ⟨fun _ => rfl, fun _ => hself⟩
    · rw [hget u hu, ← h.listed]
      exact hmem u hu
  · intro u hu
    apply (hcreated u).mpr
    by_cases hut : u = t
    · exact .inl hut
    · exact .inr (h.created u ((hmem u hut).mp hu))
  · intro u
    by_cases hu : u = t
    · subst hu
      exact hnew.trans (if_neg fun hfreed => hfreed.2 hself).symm
    · have hiff : (u < created ∧ u ∉ timers) ↔ (u < q.created ∧ u ∉ q.timers) := by
        rw [hcreated, hmem u hu, or_iff_right hu]
      exact (h.freed u).trans (if_congr hiff.symm rfl rfl)
  · intro u timer' hget'
    by_cases hu : u = t
    · subst hu
      rw [hgetself] at hget'
      exact (some.inj hget') ▸ hcount
    · exact h.runcount u timer' ((hget u hu).symm.trans hget')
  · intro u hnone
    by_cases hu : u = t
    · subst hu
      exact absurd (hgetself.symm.trans hnone) (by simp)
    · exact h.idle u ((hget u hu).symm.trans hnone)
  · intro u timer' hget'
    by_cases hu : u = t
    · subst hu
      rw [hgetself] at hget'
      exact (some.inj hget') ▸ hdestroy
    · exact h.destroyed u timer' ((hget u hu).symm.trans hget')
  · exact hsorted
  · exact (h.exitSignals_eq_zero hopen).trans (if_neg fun hquit => hne hquit.2).symm
  · exact fun _ hnil => absurd hnil hne

lemma Inv.without {n' : TimerId → Nat} (ht : t ∈ q.timers) (hidle : n' t = 0)
    (hn : ∀ u, u ≠ t → n' u = n u) (removals : List Nat) :
    Inv (q.without t removals) n' leaving := by
  have hself : t ∉ q.timers.erase t := h.nodup.not_mem_erase
  have hmem : ∀ u, u ≠ t → (u ∈ q.timers.erase t ↔ u ∈ q.timers) :=
    fun u hu => mem_erase_of_ne hu
  have hget : ∀ u, u ≠ t → (q.without t removals).timer u = q.timer u :=
    fun u hu => update_of_ne hu _ _
  have hgetself : (q.without t removals).timer t = none := update_self t _ q.timer
  have hzero : q.exitSignals = 0 :=
    h.exitSignals_eq_zero fun hquit => ne_nil_of_mem ht hquit.2
  constructor
  · exact h.nodup.erase t
  · intro u
    by_cases hu : u = t
    · subst hu
      rw [hgetself]
      exact ⟨fun hmem => absurd hmem hself, fun hsome => absurd hsome (by simp)⟩
    · rw [hget u hu, ← h.listed]
      exact hmem u hu
  · exact fun u hu => h.created u (mem_of_mem_erase hu)
  · intro u
    by_cases hu : u = t
    · subst hu
      have hcount : (u :: q.freed).count u = q.freed.count u + 1 := count_cons_self
      rw [h.count_freed_eq_zero ht] at hcount
      exact hcount.trans (if_pos ⟨h.created u ht, hself⟩).symm
    have hcount : (t :: q.freed).count u = q.freed.count u := count_cons_of_ne fun heq => hu heq.symm
    have hiff : (u < q.created ∧ u ∉ q.timers.erase t) ↔ (u < q.created ∧ u ∉ q.timers) := by
      rw [hmem u hu]
    exact hcount.trans ((h.freed u).trans (if_congr hiff.symm rfl rfl))
  · intro u timer' hget'
    by_cases hu : u = t
    · subst hu
      exact absurd (hgetself.symm.trans hget') (by simp)
    · rw [hn u hu]
      exact h.runcount u timer' ((hget u hu).symm.trans hget')
  · intro u hnone
    by_cases hu : u = t
    · exact hu ▸ hidle
    · rw [hn u hu]
      exact h.idle u ((hget u hu).symm.trans hnone)
  · intro u timer' hget'
    by_cases hu : u = t
    · subst hu
      exact absurd (hgetself.symm.trans hget') (by simp)
    · rw [hn u hu]
      exact h.destroyed u timer' ((hget u hu).symm.trans hget')
  · have hkey : ∀ u ∈ q.timers.erase t, (q.without t removals).key u = q.key u := by
      intro u hu
      rw [TimerQueue.key, TimerQueue.key, TimerQueue.expireOf, TimerQueue.expireOf,
        hget u fun heq => hself (heq ▸ hu)]
    exact (h.sorted.sublist erase_sublist).congr hkey
  · have hsignals : (q.without t removals).exitSignals =
        (q.quit && (q.timers.erase t).isEmpty).toNat := by
      rw [TimerQueue.without, hzero, Nat.zero_add]
    rw [hsignals]
    by_cases hquit : q.quit = true ∧ q.timers.erase t = []
    · have hexit : (q.quit && (q.timers.erase t).isEmpty) = true := by
        rw [hquit.1, hquit.2]
        rfl
      rw [hexit]
      exact (if_pos hquit).symm
    have hexit : (q.quit && (q.timers.erase t).isEmpty) = false := by
      rw [← Bool.not_eq_true, Bool.and_eq_true, List.isEmpty_iff]
      exact hquit
    rw [hexit]
    exact (if_neg hquit).symm
  · intro hquit hnil
    have hquit : q.quit = true := hquit
    have hnil : q.timers.erase t = [] := hnil
    have hevent : (q.event || (q.quit && (q.timers.erase t).isEmpty)) = true := by
      rw [hquit, hnil]
      exact Bool.or_true _
    exact .inl hevent

lemma Inv.set {n' : TimerId → Nat}
    (ht : q.timer t = some timer) (timer' : QueueTimer) (hexpire : timer'.expire = timer.expire)
    (hdestroy : timer'.destroy = timer.destroy) (hcount : timer'.runcount = n' t)
    (hn : ∀ u, u ≠ t → n' u = n u) (hwaits : timer.destroy = true → n' t ≠ 0) :
    Inv (q.set t timer') n' leaving := by
  have hmem := h.mem ht
  constructor
  · exact h.nodup
  · intro u
    by_cases hu : u = t
    · subst hu
      rw [set_timer_self]
      exact ⟨fun _ => rfl, fun _ => hmem⟩
    · rw [set_timer_of_ne hu]
      exact h.listed u
  · exact h.created
  · exact h.freed
  · intro u timer'' hget
    by_cases hu : u = t
    · subst hu
      rw [set_timer_self] at hget
      exact (some.inj hget) ▸ hcount
    · rw [set_timer_of_ne hu] at hget
      rw [hn u hu]
      exact h.runcount u timer'' hget
  · intro u hnone
    by_cases hu : u = t
    · subst hu
      simp at hnone
    · rw [set_timer_of_ne hu] at hnone
      rw [hn u hu]
      exact h.idle u hnone
  · intro u timer'' hget hdestroyed
    by_cases hu : u = t
    · subst hu
      rw [set_timer_self] at hget
      obtain rfl := some.inj hget
      rw [hexpire]
      exact ⟨(h.destroyed u timer ht (hdestroy ▸ hdestroyed)).1, hwaits (hdestroy ▸ hdestroyed)⟩
    · rw [set_timer_of_ne hu] at hget
      rw [hn u hu]
      exact h.destroyed u timer'' hget hdestroyed
  · have hkey : ∀ u ∈ q.timers, (q.set t timer').key u = q.key u := by
      intro u _
      by_cases hu : u = t
      · subst hu
        rw [set_key_self, TimerQueue.key, expireOf_eq ht, hexpire]
      · exact set_key_of_ne hu
    exact h.sorted.congr hkey
  · exact h.exitSignals
  · exact h.exit

end

end Changes

end WineForge.TimerQueues
