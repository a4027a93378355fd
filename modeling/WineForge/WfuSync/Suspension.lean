import WineForge.WfuSync.SharedLocks

/-!
# Suspended and terminated holders of a lock bit

The server spins until the lock bit is clear, and only the holder clears it. Suspending or
terminating a thread inside a lock-held section leaves the bit to a thread that does not run.
-/

namespace WineForge.WfuSync

open Function Library Option

variable {ι : Type*} [DecidableEq ι] {s s' : SharedState ι}

def SharedState.runs (s : SharedState ι) : Option ι → Prop
  | none => True
  | some t => (s.clients t).status = .running

def StopsOutside (s : SharedState ι) : SharedAct ι → Prop
  | .suspend t | .terminate t => ∀ idx ∈ (s.clients t).held, (s.mem idx).word.locked = false
  | _ => True

def StoppedOutside (s : SharedState ι) : Prop :=
  ∀ t, (s.clients t).status ≠ .running →
    ∀ idx ∈ (s.clients t).held, (s.mem idx).word.type = .unknown

variable {a : SharedAct ι} {t : ι}

lemma sharedStep_unknown (h : sharedStep s a = some s') {idx : ℕ}
    (hlt : idx < s.next) (hidx : (s.mem idx).word.type = .unknown) :
    (s'.mem idx).word.type = .unknown := by
  cases sharedStep_cases h with
  | client t heffect => rw [(heffect.flags idx).1, hidx]
  | serve _ hserve => rw [(serve_effect hserve).types idx, hidx]
  | create low high type _ _ heq =>
    rw [heq]
    simp only [update_of_ne hlt.ne, hidx]
  | destroy j _ _ _ heq =>
    rw [heq]
    by_cases hj : idx = j
    · simp only [hj, update_self]
    · simp only [update_of_ne hj, hidx]
  | setMulti j flag _ heq =>
    rw [heq]
    by_cases hj : idx = j
    · simp only [hj, update_self, ← hidx]
    · simp only [update_of_ne hj, hidx]
  | status _ _ heq | begins _ _ _ _ heq | map _ heq =>
    rw [heq]
    exact hidx

omit [DecidableEq ι] in
lemma ClientEffect.status_eq (h : ClientEffect s s' t) (u : ι) :
    (s'.clients u).status = (s.clients u).status := by
  by_cases hu : u = t
  · rw [hu, h.status]
  · rw [h.others u hu]

lemma setClient_held (t u : ι) (status : ThreadStatus) :
    ((s.setClient t { s.clients t with status := status }).clients u).held =
      (s.clients u).held := by
  change (update s.clients t _ u).held = _
  by_cases hu : u = t
  · rw [hu, update_self]
  · rw [update_of_ne hu]

lemma sharedStep_held (h : sharedStep s a = some s')
    (ht : (s.clients t).status ≠ .running) : (s'.clients t).held = (s.clients t).held := by
  cases sharedStep_cases h with
  | client u heffect =>
    have hne : t ≠ u := by
      intro heq
      rw [heq] at ht
      exact ht heffect.running
    rw [heffect.others t hne]
  | status u status heq =>
    rw [heq]
    exact setClient_held u t status
  | serve _ hserve => rw [(serve_effect hserve).clients]
  | begins _ _ _ _ heq | create _ _ _ _ _ heq | destroy _ _ _ _ heq | setMulti _ _ _ heq
  | map _ heq => rw [heq]

lemma sharedStep_stops (h : sharedStep s a = some s')
    (hrunning : (s.clients t).status = .running) (hstopped : (s'.clients t).status ≠ .running) :
    (a = .suspend t ∨ a = .terminate t) ∧ s'.mem = s.mem ∧
      (s'.clients t).held = (s.clients t).held := by
  have hsame : s'.clients = s.clients → False := by
    intro heq
    rw [heq] at hstopped
    exact hstopped hrunning
  have hclient : ∀ u, ClientEffect s s' u → False := by
    intro u heffect
    rw [heffect.status_eq t] at hstopped
    exact hstopped hrunning
  have hset : ∀ u status, s' = s.setClient u { s.clients u with status := status } →
      u = t ∧ s'.mem = s.mem ∧ (s'.clients t).held = (s.clients t).held := by
    intro u status heq
    refine ⟨?_, by rw [heq]; rfl, by rw [heq]; exact setClient_held u t status⟩
    by_contra hne
    apply hstopped
    rw [heq]
    change (update s.clients u _ t).status = _
    rw [update_of_ne (Ne.symm hne), hrunning]
  cases a with
  | suspend u =>
    simp only [sharedStep, ite_none_right_eq_some, some.injEq] at h
    obtain ⟨rfl, hrest⟩ := hset u .suspended h.2.symm
    exact ⟨.inl rfl, hrest⟩
  | terminate u =>
    simp only [sharedStep, ite_none_right_eq_some, some.injEq] at h
    obtain ⟨rfl, hrest⟩ := hset u .dead h.2.symm
    exact ⟨.inr rfl, hrest⟩
  | resume u =>
    simp only [sharedStep, ite_none_right_eq_some, some.injEq] at h
    obtain ⟨rfl, _⟩ := hset u .running h.2.symm
    rw [h.1.2] at hrunning
    cases hrunning
  | tryLock u idx kind | access u | write u idx low high generation | unlock u idx =>
    exact (hclient u (clientStep_effect rfl h)).elim
  | serve => exact (hsame (serve_effect h).clients).elim
  | map idx =>
    simp only [sharedStep, some.injEq] at h
    exact (hsame (by rw [← h])).elim
  | _ =>
    simp only [sharedStep, ite_none_right_eq_some, some.injEq] at h
    exact (hsame (by rw [← h.2])).elim

lemma StoppedOutside.step (hinv : OwnerInv s) (h : StoppedOutside s)
    (hgood : StopsOutside s a) (hstep : sharedStep s a = some s') : StoppedOutside s' := by
  intro t ht idx hidx
  by_cases hrunning : (s.clients t).status = .running
  · obtain ⟨haction, hmem, hheld⟩ := sharedStep_stops hstep hrunning ht
    rw [hheld] at hidx
    have hfree : (s.mem idx).word.locked = false := by
      rcases haction with rfl | rfl <;> exact hgood idx hidx
    rw [hmem]
    rcases hinv.locks.locked (some t) idx hidx with hlocked | hunknown
    · rw [hfree] at hlocked
      cases hlocked
    · exact hunknown
  · rw [sharedStep_held hstep hrunning] at hidx
    exact sharedStep_unknown hstep (hinv.bound (some t) idx hidx) (h t hrunning idx hidx)

lemma stopped_outside (h : Reaches sharedStep StopsOutside SharedState.Initial s) :
    StoppedOutside s :=
  h.invariant_with (fun _ hs => owner_inv hs.reachable)
    (fun _ hs t ht => absurd (by rw [hs.2.2.1 t]) ht)
    fun _ _ _ hinv hs hgood hstep => hs.step hinv hgood hstep

/-- In a run in which threads are suspended and terminated outside their lock-held sections
only, every set lock bit has exactly one holder, and that holder runs. -/
theorem lock_holder_runs (h : Reaches sharedStep StopsOutside SharedState.Initial s) (idx : ℕ)
    (hlocked : (s.mem idx).word.locked = true) :
    ∃ t, s.holds t idx ∧ s.runs t ∧ ∀ u, s.holds u idx → u = t := by
  have hinv := owner_inv h.reachable
  obtain ⟨t, ht⟩ := hinv.locks.holder idx hlocked
  refine ⟨t, ht, ?_, fun u hu => hinv.locks.exclusive u t idx hu ht⟩
  cases t with
  | none => trivial
  | some t =>
    by_contra hstopped
    have hunknown := stopped_outside h t hstopped idx ht
    have hfree := hinv.untyped idx hunknown
    rw [hlocked] at hfree
    cases hfree

def emptyServer : SharedState (Fin 3) where
  mem _ := ⟨0, 0, 0, ⟨.unknown, false, false, false⟩⟩
  mapped _ := false
  next := 1
  generations := 1
  counts _ := 0
  clients _ := ⟨∅, none, .running⟩
  queue := []
  task := .idle

lemma emptyServer_initial : emptyServer.Initial :=
  ⟨fun _ => rfl, fun _ => rfl, fun _ => rfl, rfl, rfl⟩

def lockActs : List (SharedAct (Fin 3)) :=
  [.create 0 0 .event, .tryLock 0 1 .event, .access 0, .access 0]

/-- Thread 1 is suspended while thread 0 holds the lock. -/
theorem lock_holder_runs_other :
    ∃ s, run sharedStep emptyServer (lockActs ++ [.suspend 1]) = some s ∧
      (s.mem 1).word.locked = true ∧ ∃ t, s.holds t 1 ∧ s.runs t := by
  have hreach : ∀ s, run sharedStep emptyServer (lockActs ++ [.suspend 1]) = some s →
      Reaches sharedStep StopsOutside SharedState.Initial s := by
    intro s hs
    refine Reaches.run (.start emptyServer_initial) _ ?_ hs
    exact ⟨trivial, trivial, trivial, trivial, fun idx hidx => absurd hidx (Finset.notMem_empty idx),
      trivial⟩
  refine ⟨_, rfl, rfl, ?_⟩
  obtain ⟨t, hholds, hruns, _⟩ := lock_holder_runs (hreach _ rfl) 1 rfl
  exact ⟨t, hholds, hruns⟩

/-- The server waits for a lock bit whose only holder is suspended. -/
theorem lock_holder_suspended :
    ¬ ∀ s : SharedState (Fin 3), Reachable sharedStep SharedState.Initial s →
      ∀ idx, (s.mem idx).word.locked = true → ∃ t, s.holds t idx ∧ s.runs t := by
  intro hall
  have hreach : Reachable sharedStep SharedState.Initial emptyServer := .start emptyServer_initial
  have hstuck := reachable_of_run hreach
    (lockActs ++ [.suspend 0, .request 1 (.signal .setEvent 1), .serve, .serve]) rfl
  obtain ⟨t, hholds, hruns⟩ := hall _ hstuck 1 rfl
  cases t with
  | none => exact Bool.false_ne_true hholds.1
  | some t =>
    obtain rfl | rfl | rfl : t = 0 ∨ t = 1 ∨ t = 2 := by omega
    · cases hruns
    · exact Finset.notMem_empty 1 hholds
    · exact Finset.notMem_empty 1 hholds

end WineForge.WfuSync
