import WineForge.TimerQueues.Sections

/-!
# Deleting a queue

The loop of `RtlDeleteTimerQueueEx` saves the entry behind the one that it visits. The entries in
front have been freed or moved to the end, so it always visits the first one.
-/

namespace WineForge.TimerQueues

open Library List

variable {q : TimerQueue} {n : TimerId → Nat} {leaving : Prop} {t : TimerId}

def busy (n : TimerId → Nat) (t : TimerId) : Bool := decide (n t ≠ 0)

lemma next_of_cons {t : TimerId} {rest : List TimerId} (h : q.timers = t :: rest) :
    q.next (some t) = rest.head? := by
  rw [TimerQueue.next, h]
  exact if_pos rfl

lemma destroyLoop_turn {q' : TimerQueue} {temp : Option TimerId}
    (h : queueDestroyTimer q t = .ok q') (fuel : Nat) :
    destroyLoop (fuel + 1) q (some t) temp =
      (destroyLoop fuel q' temp (q'.next temp)).map fun res =>
        res.map fun (q, visited) => (q, t :: visited) := by
  rw [destroyLoop, h]

/-- The loop walks over the list as `rotateWalk` does. -/
lemma destroyLoop_spec (fuel : Nat) (h : Inv q n leaving) :
    (rotateWalk (busy n) fuel q.timers = none ∧
        destroyLoop fuel q q.timers.head? (q.next q.timers.head?) = none) ∨
      ∃ taken q', rotateWalk (busy n) fuel q.timers = some taken ∧
        destroyLoop fuel q q.timers.head? (q.next q.timers.head?) = some (.ok (q', taken)) ∧
        Inv q' n leaving ∧ q'.quit = q.quit ∧ AllDestroyed q' := by
  induction fuel generalizing q with
  | zero => exact .inl ⟨rfl, rfl⟩
  | succ fuel ih =>
    match htimers : q.timers with
    | [] =>
      right
      refine ⟨[], q, rfl, rfl, h, rfl, fun t timer hget => ?_⟩
      exact absurd (htimers ▸ h.mem hget) (by simp)
    | t :: rest =>
      have hmem : t ∈ q.timers := by
        rw [htimers]
        exact mem_cons_self
      obtain ⟨q', hdestroy, hinv, hquit, htimers', hmarks⟩ := queueDestroyTimer_spec h hmem
      have herase : q.timers.erase t = rest := by rw [htimers, erase_cons_head]
      rw [herase] at htimers'
      rw [head?_cons, next_of_cons htimers, destroyLoop_turn hdestroy]
      cases rest with
      | nil =>
        cases fuel with
        | zero => exact .inl ⟨rfl, rfl⟩
        | succ fuel =>
          right
          refine ⟨[t], q', rfl, rfl, hinv, hquit, fun u timer hget => ?_⟩
          obtain hmark | ⟨hne, hget⟩ := hmarks u timer hget
          · exact hmark
          · have hu := h.mem hget
            rw [htimers] at hu
            exact absurd (mem_singleton.mp hu) hne
      | cons r rest =>
        have hbusy : q'.timers = if busy n t then r :: rest ++ [t] else r :: rest := by
          rw [htimers']
          by_cases hidle : n t = 0
          · simp [busy, hidle]
          · simp [busy, hidle]
        have hhead : q'.timers.head? = some r := by
          rw [hbusy]
          split <;> rfl
        have hloop := ih hinv
        rw [hhead, hbusy] at hloop
        rw [rotateWalk, head?_cons]
        obtain ⟨hrotation, hnone⟩ | ⟨taken, q'', hrotation, hsome, hinv', hquit', hmarks'⟩ := hloop
        · rw [hrotation, hnone]
          exact .inl ⟨rfl, rfl⟩
        · rw [hrotation, hsome]
          exact .inr ⟨t :: taken, q'', rfl, rfl, hinv', hquit'.trans hquit, hmarks'⟩

lemma Inv.setQuit (h : Inv q n leaving) (hne : q.timers ≠ []) :
    Inv { q with quit := true } n leaving := by
  have hzero := h.exitSignals_eq_zero fun hquit => hne hquit.2
  exact ⟨h.nodup, h.listed, h.created, h.freed, h.runcount, h.idle, h.destroyed, h.sorted,
    hzero.trans (if_neg fun hquit => hne hquit.2).symm, fun _ hnil => absurd hnil hne⟩

lemma rtlDeleteTimerQueueEx_eq {rest : List TimerId} (h : q.timers = t :: rest) (fuel : Nat) :
    rtlDeleteTimerQueueEx fuel q = destroyLoop fuel { q with quit := true } q.timers.head?
      (({ q with quit := true } : TimerQueue).next q.timers.head?) := by
  rw [rtlDeleteTimerQueueEx]
  rw [h]
  rfl

lemma rtlDeleteTimerQueueEx_nil (h : Inv q n leaving) (hnil : q.timers = []) (hquit : q.quit ≠ true)
    (fuel : Nat) :
    ∃ q', rtlDeleteTimerQueueEx fuel q = some (.ok (q', [])) ∧ Good q' n leaving := by
  have hzero := h.exitSignals_eq_zero fun hq => hquit hq.1
  refine ⟨{ q with quit := true, event := true, exitSignals := q.exitSignals + 1 }, ?_, ?_, ?_⟩
  · rw [rtlDeleteTimerQueueEx]
    rw [hnil]
    rfl
  · exact ⟨h.nodup, h.listed, h.created, h.freed, h.runcount, h.idle, h.destroyed, h.sorted,
      (congrArg (· + 1) hzero).trans (if_pos ⟨rfl, hnil⟩).symm, fun _ _ => .inl rfl⟩
  intro _ t timer hget
  have hmem := h.mem hget
  rw [hnil] at hmem
  simp at hmem

lemma rtlDeleteTimerQueueEx_spec (h : Inv q n leaving) (hne : q.timers ≠ []) (fuel : Nat) :
    (rotateWalk (busy n) fuel q.timers = none ∧ rtlDeleteTimerQueueEx fuel q = none) ∨
      ∃ taken q', rotateWalk (busy n) fuel q.timers = some taken ∧
        rtlDeleteTimerQueueEx fuel q = some (.ok (q', taken)) ∧ Good q' n leaving := by
  obtain ⟨t, rest, htimers⟩ := exists_cons_of_ne_nil hne
  have hloop := destroyLoop_spec fuel (h.setQuit hne)
  rw [rtlDeleteTimerQueueEx_eq htimers]
  obtain hnone | ⟨taken, q', hrotation, hsome, hinv, _, hmarks⟩ := hloop
  · exact .inl hnone
  · exact .inr ⟨taken, q', hrotation, hsome, hinv, fun _ => hmarks⟩

lemma rtlDeleteTimerQueueEx_busy (h : Inv q n leaving) {u : TimerId} (hne : t ≠ u)
    (ht : t ∈ q.timers) (hu : u ∈ q.timers) (hbusy : n t ≠ 0) (hbusy' : n u ≠ 0) (fuel : Nat) :
    rtlDeleteTimerQueueEx fuel q = none := by
  have hnone := rotateWalk_busy (busy n) hne (decide_eq_true hbusy) (decide_eq_true hbusy') fuel ht hu
  obtain ⟨_, hloop⟩ | ⟨taken, q', hsome, _⟩ :=
    rtlDeleteTimerQueueEx_spec h (ne_nil_of_mem ht) fuel
  · exact hloop
  · exact absurd (hnone.symm.trans hsome) (by simp)

end WineForge.TimerQueues
