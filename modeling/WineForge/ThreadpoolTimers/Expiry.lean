import WineForge.ThreadpoolTimers.Linked

/-!
# Expired timers

The loop submits the expired timers of a list one by one. A periodic one gets a time in the future,
so the loop does not come to it again.
-/

namespace WineForge.ThreadpoolTimers

open Library List

variable {T : Type} {s s' : State T} {t u : T} {queue : Queue} {queueNow relNow : Nat}

def expired (s : State T) (queue : Queue) (queueNow : Nat) : List T :=
  (s.timers queue).filter fun t => decide (s.timeout t ≤ queueNow)

def Timer.recurs (timer : Timer) : Prop := timer.period ≠ 0 ∧ timer.shutdown = false

lemma lt_nextExpiry (queue : Queue) (timer : Timer) (relNow : Nat) :
    relNow < nextExpiry queue timer relNow := by
  have hlater : ∀ timeout, relNow < if timeout ≤ relNow then relNow + 1 else timeout := by
    intro timeout
    split
    · exact Nat.lt_succ_self relNow
    · rename_i hlt
      exact Nat.lt_of_not_le hlt
  exact hlater _

/-- What has been done for the expired timers `ts` of a list. -/
structure Submitted (queue : Queue) (relNow : Nat) (ts : List T) (s s' : State T) : Prop where
  linked : Linked s'
  submitted : s'.submitted = s.submitted ++ ts
  recurring : ∀ t ∈ ts, (s.timer t).recurs → t ∈ s'.timers .rel ∧ relNow < s'.timeout t
  done : ∀ t ∈ ts, ¬ (s.timer t).recurs → (s'.timer t).pending = false
  others : ∀ t ∉ ts, s'.timer t = s.timer t
  mem : ∀ queue, ∀ t ∉ ts, t ∈ s'.timers queue ↔ t ∈ s.timers queue
  initialized : ∀ t, (s'.timer t).initialized = (s.timer t).initialized
  objcount : s'.objcount = s.objcount
  objects : s'.objects = s.objects

lemma Submitted.refl (h : Linked s) : Submitted queue relNow [] s s where
  linked := h
  submitted := (append_nil _).symm
  recurring := nofun
  done := nofun
  others _ _ := rfl
  mem _ _ _ := Iff.rfl
  initialized _ := rfl
  objcount := rfl
  objects := rfl

lemma Submitted.cons {ts : List T} {s'' : State T} (h : Submitted queue relNow [t] s s')
    (h' : Submitted queue relNow ts s' s'') (ht : t ∉ ts) :
    Submitted queue relNow (t :: ts) s s'' := by
  have hsame : ∀ u ∈ ts, s'.timer u = s.timer u := fun u hu =>
    h.others u fun heq => ht (mem_singleton.mp heq ▸ hu)
  have hself : t ∈ [t] := mem_cons_self
  constructor
  · exact h'.linked
  · rw [h'.submitted, h.submitted, append_assoc, singleton_append]
  · intro u hu hrecurs
    cases mem_cons.mp hu with
    | inl heq =>
      subst heq
      obtain ⟨hmem, hlater⟩ := h.recurring u hself hrecurs
      refine ⟨(h'.mem .rel u ht).mpr hmem, ?_⟩
      unfold State.timeout at hlater ⊢
      rw [h'.others u ht]
      exact hlater
    | inr hmem => exact h'.recurring u hmem (hsame u hmem ▸ hrecurs)
  · intro u hu hrecurs
    cases mem_cons.mp hu with
    | inl heq =>
      subst heq
      rw [h'.others u ht]
      exact h.done u hself hrecurs
    | inr hmem => exact h'.done u hmem (hsame u hmem ▸ hrecurs)
  · intro u hu
    rw [mem_cons, not_or] at hu
    rw [h'.others u hu.2, h.others u fun heq => hu.1 (mem_singleton.mp heq)]
  · intro queue u hu
    rw [mem_cons, not_or] at hu
    rw [h'.mem queue u hu.2, h.mem queue u fun heq => hu.1 (mem_singleton.mp heq)]
  · exact fun u => (h'.initialized u).trans (h.initialized u)
  · exact h'.objcount.trans h.objcount
  · exact h'.objects.trans h.objects

variable [DecidableEq T]

lemma Linked.submitTimer (h : Linked s) (ht : t ∈ s.timers queue) (relNow : Nat) :
    Submitted queue relNow [t] s (submitTimer queue relNow t s) := by
  have hunlinked : Linked { s.unlink t with submitted := s.submitted ++ [t] } :=
    (h.unlink t).congr rfl (fun _ _ => rfl) (fun _ => rfl) (h.unlink t).initialized
  have hinit : (s.timer t).initialized = true := h.initialized t (h.isPending ht)
  unfold ThreadpoolTimers.submitTimer
  dsimp only
  split
  · rename_i hrecurs
    have hself := link_timer_self { s.unlink t with submitted := s.submitted ++ [t] } .rel t
      { s.timer t with timeout := nextExpiry queue (s.timer t) relNow }
    have hother : ∀ u, u ≠ t → _ := fun u hu =>
      link_timer_of_ne { s.unlink t with submitted := s.submitted ++ [t] } .rel hu
        { s.timer t with timeout := nextExpiry queue (s.timer t) relNow }
    constructor
    · exact hunlinked.link (fun queue => h.not_mem_unlink t queue) .rel hinit
    · rfl
    · intro u hu _
      rw [mem_singleton.mp hu]
      refine ⟨mem_link.mpr (.inl ⟨rfl, rfl⟩), ?_⟩
      unfold State.timeout
      rw [hself]
      exact lt_nextExpiry queue (s.timer t) relNow
    · intro u hu hnot
      rw [mem_singleton.mp hu] at hnot
      exact absurd hrecurs hnot
    · intro u hu
      have hne : u ≠ t := fun heq => hu (mem_singleton.mpr heq)
      rw [hother u hne]
      exact unlink_timer_of_ne s hne
    · intro queue' u hu
      have hne : u ≠ t := fun heq => hu (mem_singleton.mpr heq)
      rw [mem_link, or_iff_right fun heq => hne heq.2]
      exact mem_unlink hne
    · intro u
      by_cases hu : u = t
      · rw [hu, hself]
      · rw [hother u hu]
        exact congrArg Timer.initialized (unlink_timer_of_ne s hu)
    · rfl
    · rfl
  · rename_i hrecurs
    constructor
    · exact hunlinked
    · rfl
    · intro u hu hnot
      rw [mem_singleton.mp hu] at hnot
      exact absurd hnot hrecurs
    · intro u hu _
      rw [mem_singleton.mp hu]
      exact congrArg Timer.pending (unlink_timer_self s t)
    · intro u hu
      exact unlink_timer_of_ne s fun heq => hu (mem_singleton.mpr heq)
    · intro queue' u hu
      exact mem_unlink fun heq => hu (mem_singleton.mpr heq)
    · intro u
      by_cases hu : u = t
      · have hself := congrArg Timer.initialized (unlink_timer_self s t)
        rw [hu]
        exact hself
      · exact congrArg Timer.initialized (unlink_timer_of_ne s hu)
    · rfl
    · rfl

lemma expired_submitTimer (h : Linked s) {rest : List T} (htimers : s.timers queue = t :: rest)
    (hnow : queue = .abs ∨ queueNow = relNow) :
    expired (submitTimer queue relNow t s) queue queueNow =
      rest.filter fun u => decide (s.timeout u ≤ queueNow) := by
  have hmem : t ∈ s.timers queue := by
    rw [htimers]
    exact mem_cons_self
  have hturn := h.submitTimer hmem relNow
  have hnodup := h.nodup queue
  rw [htimers, nodup_cons] at hnodup
  have hsame : rest.filter (fun u => decide ((submitTimer queue relNow t s).timeout u ≤ queueNow)) =
      rest.filter fun u => decide (s.timeout u ≤ queueNow) := by
    apply filter_congr
    intro u hu
    have hne : u ∉ [t] := fun heq => hnodup.1 (mem_singleton.mp heq ▸ hu)
    unfold State.timeout
    rw [hturn.others u hne]
  have herase : (s.timers queue).erase t = rest := by rw [htimers, erase_cons_head]
  rw [← hsame]
  unfold expired
  by_cases hrecurs : (s.timer t).recurs
  · have hlink : ∃ timer, submitTimer queue relNow t s =
        State.link { s.unlink t with submitted := s.submitted ++ [t] } .rel t timer :=
      ⟨_, if_pos hrecurs⟩
    obtain ⟨timer, hlink⟩ := hlink
    obtain hqueue | hqueue : queue = .abs ∨ queue = .rel := by cases queue <;> simp
    · have hlist : (submitTimer queue relNow t s).timers queue = rest := by
        rw [hlink, link_timers_of_ne _ (by rw [hqueue]; decide)]
        exact herase
      rw [hlist]
    have hnow : queueNow = relNow := hnow.resolve_left (by rw [hqueue]; decide)
    have hlater : decide ((submitTimer queue relNow t s).timeout t ≤ queueNow) = false := by
      rw [hnow]
      exact decide_eq_false (Nat.not_le.mpr (hturn.recurring t mem_cons_self hrecurs).2)
    have hlist : ∃ stop, (submitTimer queue relNow t s).timers queue = insertBefore stop t rest := by
      rw [hlink, hqueue, link_timers_self, ← herase, hqueue]
      exact ⟨_, rfl⟩
    obtain ⟨stop, hlist⟩ := hlist
    rw [hlist]
    apply filter_insertBefore
    exact hlater
  · have hlist : (submitTimer queue relNow t s).timers queue = rest := by
      have hdone : submitTimer queue relNow t s =
        { s.unlink t with submitted := s.submitted ++ [t] } := if_neg hrecurs
      rw [hdone]
      exact herase
    rw [hlist]

lemma submitExpiredTimers_spec (hnow : queue = .abs ∨ queueNow = relNow) (fuel : Nat) (h : Linked s) :
    (∀ s', submitExpiredTimers queue queueNow relNow fuel s = some s' →
        Submitted queue relNow (expired s queue queueNow) s s' ∧ expired s' queue queueNow = []) ∧
      ((expired s queue queueNow).length < fuel →
        (submitExpiredTimers queue queueNow relNow fuel s).isSome = true) := by
  induction fuel generalizing s with
  | zero => exact ⟨nofun, fun hlt => absurd hlt (Nat.not_lt_zero _)⟩
  | succ fuel ih =>
    rw [submitExpiredTimers]
    split
    · rename_i hnil
      have hexpired : expired s queue queueNow = [] := by
        unfold expired
        rw [hnil]
        rfl
      rw [hexpired]
      exact ⟨fun s' hs' => Option.some.inj hs' ▸ ⟨Submitted.refl h, hexpired⟩, fun _ => rfl⟩
    rename_i t rest htimers
    have hmem : t ∈ s.timers queue := by
      rw [htimers]
      exact mem_cons_self
    have hpending : ¬ (s.timer t).pending = false := by
      rw [h.isPending hmem]
      decide
    rw [if_neg hpending]
    split
    · rename_i hlater
      have hexpired : expired s queue queueNow = [] := by
        apply filter_eq_nil_iff.mpr
        intro u hu
        have hsorted := h.sorted queue
        rw [htimers] at hsorted hu
        have hle : s.timeout t ≤ s.timeout u := hsorted.head_le hu
        have hlater : queueNow < s.timeout t := hlater
        rw [decide_eq_true_eq]
        omega
      rw [hexpired]
      exact ⟨fun s' hs' => Option.some.inj hs' ▸ ⟨Submitted.refl h, hexpired⟩, fun _ => rfl⟩
    · rename_i hdue
      have hdue : decide (s.timeout t ≤ queueNow) = true := decide_eq_true (Nat.le_of_not_lt hdue)
      have hturn := h.submitTimer hmem relNow
      have hrest := expired_submitTimer h htimers hnow
      have hexpired : expired s queue queueNow =
          t :: expired (submitTimer queue relNow t s) queue queueNow := by
        rw [hrest]
        unfold expired
        rw [htimers, filter_cons, hdue, if_pos rfl]
      have hnot : t ∉ expired (submitTimer queue relNow t s) queue queueNow := by
        have hnodup := h.nodup queue
        rw [htimers, nodup_cons] at hnodup
        rw [hrest]
        exact fun hin => hnodup.1 (mem_of_mem_filter hin)
      obtain ⟨hspec, hends⟩ := ih hturn.linked
      rw [hexpired]
      refine ⟨fun s' hs' => ?_, fun hlt => hends (Nat.lt_of_succ_lt_succ hlt)⟩
      obtain ⟨hsubmitted, hnone⟩ := hspec s' hs'
      exact ⟨hturn.cons hsubmitted hnot, hnone⟩

end WineForge.ThreadpoolTimers
