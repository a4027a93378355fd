import WineForge.ThreadpoolTimers.State

/-!
# The lists of timers

Both lists are sorted, and a timer is in one of them while it is pending.
-/

namespace WineForge.ThreadpoolTimers

open Function Library List

variable {T : Type}

def State.timeout (s : State T) (t : T) : Nat := (s.timer t).timeout

structure Linked (s : State T) : Prop where
  sorted : ∀ queue, SortedBy s.timeout (s.timers queue)
  nodup : ∀ queue, (s.timers queue).Nodup
  disjoint : ∀ t, t ∈ s.timers .abs → t ∉ s.timers .rel
  pending : ∀ t, (s.timer t).pending = true ↔ ∃ queue, t ∈ s.timers queue
  initialized : ∀ t, (s.timer t).pending = true → (s.timer t).initialized = true

variable {s : State T} {t u : T} {queue queue' : Queue} {timer : Timer}

lemma Linked.isPending (h : Linked s) (ht : t ∈ s.timers queue) : (s.timer t).pending = true :=
  (h.pending t).mpr ⟨queue, ht⟩

lemma Linked.congr {s' : State T} (h : Linked s) (htimers : s'.timers = s.timers)
    (htimeout : ∀ u, (s'.timer u).pending = true → (s'.timer u).timeout = (s.timer u).timeout)
    (hpending : ∀ u, (s'.timer u).pending = (s.timer u).pending)
    (hinit : ∀ u, (s'.timer u).pending = true → (s'.timer u).initialized = true) : Linked s' := by
  have hmem : ∀ u queue, u ∈ s.timers queue → (s'.timer u).pending = true := by
    intro u queue hu
    rw [hpending]
    exact h.isPending hu
  constructor
  · intro queue
    rw [htimers]
    exact (h.sorted queue).congr fun u hu => htimeout u (hmem u queue hu)
  · rw [htimers]
    exact h.nodup
  · rw [htimers]
    exact h.disjoint
  · intro u
    rw [htimers, hpending]
    exact h.pending u
  · exact hinit

variable [DecidableEq T]

lemma unlink_timer_self (s : State T) (t : T) :
    (s.unlink t).timer t = { s.timer t with pending := false } := update_self t _ _

lemma unlink_timer_of_ne (s : State T) (hu : u ≠ t) : (s.unlink t).timer u = s.timer u :=
  update_of_ne hu _ _

lemma unlink_timeout (s : State T) (t u : T) : (s.unlink t).timeout u = s.timeout u := by
  unfold State.timeout
  by_cases hu : u = t
  · rw [hu, unlink_timer_self]
  · rw [unlink_timer_of_ne s hu]

lemma Linked.not_mem_unlink (h : Linked s) (t : T) (queue : Queue) :
    t ∉ (s.unlink t).timers queue := (h.nodup queue).not_mem_erase

lemma mem_unlink (hu : u ≠ t) : u ∈ (s.unlink t).timers queue ↔ u ∈ s.timers queue :=
  mem_erase_of_ne hu

lemma Linked.unlink (h : Linked s) (t : T) : Linked (s.unlink t) := by
  constructor
  · intro queue
    exact ((h.sorted queue).sublist erase_sublist).congr fun u _ => unlink_timeout s t u
  · exact fun queue => (h.nodup queue).erase t
  · intro u hu
    exact fun hu' => h.disjoint u (mem_of_mem_erase hu) (mem_of_mem_erase hu')
  · intro u
    by_cases hu : u = t
    · subst hu
      rw [unlink_timer_self]
      exact ⟨nofun, fun ⟨queue, hmem⟩ => absurd hmem (h.not_mem_unlink u queue)⟩
    · rw [unlink_timer_of_ne s hu, h.pending u]
      exact exists_congr fun queue => (mem_unlink hu).symm
  · intro u hu
    by_cases hut : u = t
    · subst hut
      rw [unlink_timer_self] at hu
      simp at hu
    · rw [unlink_timer_of_ne s hut] at hu ⊢
      exact h.initialized u hu

lemma link_timer_self (s : State T) (queue : Queue) (t : T) (timer : Timer) :
    (s.link queue t timer).timer t = { timer with pending := true } := update_self t _ _

lemma link_timer_of_ne (s : State T) (queue : Queue) (hu : u ≠ t) (timer : Timer) :
    (s.link queue t timer).timer u = s.timer u := update_of_ne hu _ _

lemma link_timers_self (s : State T) (queue : Queue) (t : T) (timer : Timer) :
    (s.link queue t timer).timers queue =
      insertBefore (fun other => decide (timer.timeout < (s.timer other).timeout)) t
        (s.timers queue) := update_self queue _ _

lemma link_timers_of_ne (s : State T) (hqueue : queue' ≠ queue) (t : T) (timer : Timer) :
    (s.link queue t timer).timers queue' = s.timers queue' := update_of_ne hqueue _ _

lemma mem_link : u ∈ (s.link queue t timer).timers queue' ↔
    queue' = queue ∧ u = t ∨ u ∈ s.timers queue' := by
  by_cases hqueue : queue' = queue
  · subst hqueue
    rw [link_timers_self, mem_insertBefore]
    simp
  · rw [link_timers_of_ne s hqueue]
    simp [hqueue]

lemma Linked.link (h : Linked s) (ht : ∀ queue, t ∉ s.timers queue) (queue : Queue)
    (hinit : timer.initialized = true) : Linked (s.link queue t timer) := by
  have htimeout : ∀ queue', ∀ u ∈ s.timers queue',
      (s.link queue t timer).timeout u = s.timeout u := by
    intro queue' u hu
    unfold State.timeout
    have hne : u ≠ t := by
      rintro rfl
      exact ht queue' hu
    rw [link_timer_of_ne s queue hne]
  have hself : (s.link queue t timer).timeout t = timer.timeout := by
    unfold State.timeout
    rw [link_timer_self]
  have hsorted : ∀ queue', SortedBy (s.link queue t timer).timeout (s.timers queue') :=
    fun queue' => (h.sorted queue').congr (htimeout queue')
  constructor
  · intro queue'
    by_cases hqueue : queue' = queue
    · subst hqueue
      have hstop : ∀ other ∈ s.timers queue', decide (timer.timeout < (s.timer other).timeout) =
          decide ((s.link queue' t timer).timeout t < (s.link queue' t timer).timeout other) := by
        intro other hother
        rw [hself, htimeout queue' other hother]
        rfl
      rw [link_timers_self, insertBefore_congr hstop]
      exact (hsorted queue').insertBefore
    · rw [link_timers_of_ne s hqueue]
      exact hsorted queue'
  · intro queue'
    by_cases hqueue : queue' = queue
    · subst hqueue
      rw [link_timers_self, (insertBefore_perm _ t _).nodup_iff]
      exact nodup_cons.mpr ⟨ht queue', h.nodup queue'⟩
    · rw [link_timers_of_ne s hqueue]
      exact h.nodup queue'
  · intro u habs hrel
    obtain ⟨hqueue, rfl⟩ | hmem := mem_link.mp habs
    · obtain ⟨hqueue', _⟩ | hmem := mem_link.mp hrel
      · exact absurd (hqueue.trans hqueue'.symm) (by simp)
      · exact ht .rel hmem
    · obtain ⟨_, heq⟩ | hmem' := mem_link.mp hrel
      · exact ht .abs (heq ▸ hmem)
      · exact h.disjoint u hmem hmem'
  · intro u
    by_cases hu : u = t
    · subst hu
      rw [link_timer_self]
      exact ⟨fun _ => ⟨queue, mem_link.mpr (.inl ⟨rfl, rfl⟩)⟩, fun _ => rfl⟩
    rw [link_timer_of_ne s queue hu, h.pending u]
    refine exists_congr fun queue' => ?_
    rw [mem_link]
    exact ⟨.inr, fun hmem => hmem.resolve_left fun heq => hu heq.2⟩
  · intro u hu
    by_cases hut : u = t
    · subst hut
      rw [link_timer_self]
      exact hinit
    · rw [link_timer_of_ne s queue hut] at hu ⊢
      exact h.initialized u hu

end WineForge.ThreadpoolTimers
