import WineForge.CriticalSections.Handoff

/-!
# One owner, one grant

Runs of enters and leaves: at most one thread owns the section, its fields describe the owner, and
a section that becomes free goes to one of the waiters.
-/

namespace WineForge.CriticalSections

open AddressWaits Function Library List Option

variable {T : Type} {s s' : State T} {t : T}

/-- Before each increment fewer than `2^31 - 1` levels and waiters are counted, and the process does
not shut down. -/
def Fair (s : State T) : Op T → Prop
  | .next t =>
    s.pc t = .increment ∨ s.pc t = .tryIncrement → s.lockCount.toInt < 2 ^ 31 - 2
  | .shutdown => False
  | _ => True

lemma Initial.inv (h : Initial s) : Inv s := by
  obtain ⟨hcount, _, howning, hsemaphore, hshutdown, hqueue, hphase, hpc, hdepth, hcommitted⟩ := h
  have hgrants : s.lockSemaphore.grants = 0 := by
    obtain heq | ⟨max, _, heq⟩ := hsemaphore
    · rw [heq]
      rfl
    · rw [heq]
      rfl
  have hnone : ∀ t, s.pc t ≠ .unwait := fun t => by simp [hpc]
  constructor
  · refine ⟨0, .free hdepth hcommitted hgrants hnone, ?_⟩
    rw [hcount, hcommitted]
    rfl
  · rw [hcount]
    decide
  · intro t
    simp [PcInv, hpc, hdepth, hcommitted]
  · intro t ht
    rw [howning] at ht
    simp at ht
  · rw [hcommitted]
    exact nodup_nil
  · intro count max heq
    obtain hvalue | ⟨max', hmax, hhandle⟩ := hsemaphore
    · rw [hvalue] at heq
      simp at heq
    · rw [hhandle] at heq
      obtain ⟨_, rfl⟩ := LockSemaphore.handle.inj heq
      exact hmax
  · refine ⟨?_, ?_, ?_⟩
    · rw [hqueue]
      exact nodup_nil
    · intro t addr hmem
      rw [hqueue] at hmem
      simp at hmem
    · intro t addr hasleep
      rw [hphase] at hasleep
      simp at hasleep
  · intro t
    rw [hpc, hphase]
    rfl
  · intro _ v hdormant
    have hmem := hdormant.1
    rw [hqueue] at hmem
    simp at hmem
  · exact hshutdown

section Steps

variable [DecidableEq T]

lemma next_inv (h : Inv s)
    (hroom : s.pc t = .increment ∨ s.pc t = .tryIncrement → s.lockCount.toInt < 2 ^ 31 - 2)
    (hnext : next s t = some s') : Inv s' := by
  unfold next at hnext
  cases hpc : s.pc t <;> simp only [hpc, some.injEq, reduceCtorEq] at hnext
  case tryGrab spin =>
    rw [← hnext]
    split
    · rename_i hfree
      exact h.grab (eq_neg_one_iff.mp hfree) (by simp [hpc])
    · exact h.spinning (.inl ⟨spin, .inl hpc⟩) (by simp)
  case tryOwner spin =>
    exact hnext ▸ h.tryOwner hpc
  case tryIncrement =>
    exact hnext ▸ h.tryIncrement hpc (hroom (.inr hpc))
  case spin count =>
    cases count with
    | zero =>
      simp only [some.injEq] at hnext
      exact hnext ▸ h.spinning (.inr ⟨0, .inl hpc⟩) (by simp)
    | succ count =>
      simp only [some.injEq] at hnext
      rw [← hnext]
      apply h.spinning (.inr ⟨count + 1, .inl hpc⟩)
      split
      · simp
      · split
        · simp
        · simp
  case spinGrab count =>
    rw [← hnext]
    split
    · rename_i hfree
      exact h.grab (eq_neg_one_iff.mp hfree) (by simp [hpc])
    · exact h.spinning (.inr ⟨count, .inr hpc⟩) (by simp)
  case increment =>
    exact hnext ▸ h.increment hpc (hroom (.inl hpc))
  case checkOwner =>
    exact hnext ▸ h.checkOwner hpc
  case recurse =>
    exact hnext ▸ h.recurse hpc
  case waitSection =>
    have hself := h.threads t
    simp only [PcInv, hpc] at hself
    simp only [hpc, h.running, Bool.false_eq_true, if_false, some.injEq] at hnext
    rw [← hnext]
    apply h.setPc (by simp [hpc]) (by rfl) (by simp [hpc])
    simpa [PcInv, State.setPc] using hself
  case waitSemaphore =>
    exact h.waitSemaphore hpc hnext
  case compare =>
    exact hnext ▸ h.compare hpc
  case waiting =>
    obtain ⟨futexes, hresume, rfl⟩ := map_eq_some_iff.mp hnext
    exact h.resume hpc hresume
  case setOwner =>
    exact hnext ▸ h.setOwner hpc
  case setRecursion =>
    exact hnext ▸ h.setRecursion hpc
  case leaveRecursive =>
    exact hnext ▸ h.leaveRecursive hpc
  case clearOwner =>
    exact hnext ▸ h.clearOwner hpc
  case release =>
    exact hnext ▸ h.release hpc
  case unwait =>
    exact hnext ▸ h.unwait hpc
  case wakeSingle =>
    rw [← hnext]
    have hout : s.futexes.phase t = .out := h.out_of_pc (by simp [hpc]) (by simp [hpc])
    apply h.wakeStep (h.futexes.wakeSingle hout ()) (.inl hpc)
    · intro u hne
      obtain ⟨heq, _⟩ | ⟨w, _, heq⟩ := Futexes.wakeSingle_cases s.futexes t ()
      · rw [heq]
      · rw [heq]
        exact update_of_ne hne _ _
    · obtain ⟨heq, _⟩ | ⟨w, _, heq⟩ := Futexes.wakeSingle_cases s.futexes t ()
      · rw [heq]
        exact .inl hout
      · rw [heq]
        exact .inr ⟨[w], update_self _ _ _⟩
    · exact fun v hv => (Futexes.dormant_wakeSingle hv).1
    · intro _ v hv
      obtain ⟨w, hmem, hgone⟩ := (Futexes.dormant_wakeSingle hv).2 rfl
      exact ⟨w, (h.queued_committed hmem).2, fun hdormant => hgone hdormant.1⟩
  case waking =>
    obtain ⟨futexes, halert, rfl⟩ := map_eq_some_iff.mp hnext
    apply h.wakeStep (h.futexes.alertNext halert) (.inr hpc)
    · intro u hne
      obtain ⟨_, rfl⟩ | ⟨w, tids, _, rfl⟩ := Futexes.alertNext_cases halert
      · exact update_of_ne hne _ _
      · exact update_of_ne hne _ _
    · obtain ⟨_, rfl⟩ | ⟨w, tids, _, rfl⟩ := Futexes.alertNext_cases halert
      · exact .inl (update_self _ _ _)
      · exact .inr ⟨tids, update_self _ _ _⟩
    · exact fun v hv => Futexes.dormant_alertNext halert hv
    · simp [hpc]

lemma Inv.timeout {futexes : Futexes T Unit} (h : Inv s)
    (htimeout : s.futexes.timeout t = some futexes) : Inv { s with futexes := futexes } := by
  have hinv := h.futexes.timeout htimeout
  obtain ⟨addr, hphase, rfl⟩ := Futexes.timeout_eq_some.mp htimeout
  have hpc : s.pc t = .waiting := by
    have hlinked := h.linked t
    cases hpc : s.pc t with
    | waiting => rfl
    | waking =>
      rw [hpc] at hlinked
      obtain ⟨tids, htids⟩ := hlinked
      simp [htids] at hphase
    | _ =>
      rw [hpc] at hlinked
      have hout : s.futexes.phase t = .out := hlinked
      simp [hout] at hphase
  have hself := h.threads t
  have hsame : s.setPc t .waiting = s := by simp [State.setPc, ← hpc]
  have hresult := @Inv.of_futexes T s t _ .waiting _ h hinv
    (fun u hne => update_of_ne hne _ _) (.inr (update_self _ _ _))
    (by simp [hpc]) (by rw [hsame]; exact hself) ?_ (by simp [hpc])
  · rw [hsame] at hresult
    exact hresult
  rintro _ v ⟨hmem, hasleep⟩
  have hne : v ≠ t := by
    rintro rfl
    simp at hasleep
  exact ⟨hmem, by simpa [hne] using hasleep⟩

lemma step_inv {op : Op T} (h : Inv s) (hfair : Fair s op) (hstep : step s op = some s') :
    Inv s' := by
  cases op with
  | next t => exact next_inv h hfair hstep
  | shutdown => exact absurd hfair id
  | alert t =>
    rw [← some.inj hstep]
    exact { h with futexes := h.futexes.alert t }
  | timeout t =>
    obtain ⟨futexes, htimeout, rfl⟩ := map_eq_some_iff.mp hstep
    exact h.timeout htimeout
  | leave t =>
    rw [step] at hstep
    split at hstep
    · simp at hstep
    · rename_i hmatched
      have hmatched := not_or.mp hmatched
      exact some.inj hstep ▸ h.leave (not_not.mp hmatched.1) (Nat.pos_of_ne_zero hmatched.2)
  | enter t =>
    rw [step] at hstep
    split at hstep
    · simp at hstep
    rename_i hpc
    have hpc := not_not.mp hpc
    have hself := h.threads t
    simp only [PcInv, hpc] at hself
    rw [← some.inj hstep]
    split
    · apply h.setPc (by simp [hpc]) (by rfl) (by simp [hpc])
      simpa [PcInv, State.setPc, Described] using hself
    · apply h.setPc (by simp [hpc]) (by rfl) (by simp [hpc])
      simpa [PcInv, State.setPc, Described] using hself
  | tryEnter t =>
    rw [step] at hstep
    split at hstep
    · simp at hstep
    rename_i hpc
    have hpc := not_not.mp hpc
    have hself := h.threads t
    simp only [PcInv, hpc] at hself
    rw [← some.inj hstep]
    apply h.setPc (by simp [hpc]) (by rfl) (by simp [hpc])
    simpa [PcInv, State.setPc, Described] using hself

/-- A step changes the levels of an owner, or makes an owner of a thread that finds the section
free or takes the only grant. -/
lemma next_depth (h : Inv s) (hnext : next s t = some s') :
    s'.depth = s.depth ∨ s.depth t > 0 ∧ (∀ u ≠ t, s'.depth u = s.depth u) ∨
      s' = grab s t ∧ s.lockCount.toInt = -1 ∨
      ∃ lockSemaphore, s' = obtain s t lockSemaphore ∧ t ∈ s.committed ∧
        s.lockSemaphore.grants = 1 ∧ lockSemaphore.grants = 0 := by
  have hself := h.threads t
  have hothers : ∀ depth, ∀ u ≠ t, update s.depth t depth u = s.depth u :=
    fun depth u hne => update_of_ne hne _ _
  unfold next at hnext
  cases hpc : s.pc t <;> simp only [hpc, some.injEq, reduceCtorEq] at hnext
  case tryGrab _ | spinGrab _ =>
    rw [← hnext]
    split
    · rename_i hfree
      exact .inr (.inr (.inl ⟨rfl, eq_neg_one_iff.mp hfree⟩))
    · exact .inl rfl
  case tryOwner _ | checkOwner =>
    rw [← hnext]
    split
    · exact .inl rfl
    · exact .inl rfl
  case tryIncrement =>
    simp only [PcInv, hpc] at hself
    rw [← hnext]
    exact .inr (.inl ⟨hself.1, hothers _⟩)
  case spin count =>
    cases count with
    | zero | succ count =>
      simp only [some.injEq] at hnext
      exact .inl (hnext ▸ rfl)
  case increment =>
    rw [← hnext]
    unfold increment
    dsimp only
    split
    · rename_i hpos
      exact .inr (.inl ⟨hpos, hothers _⟩)
    split
    · rename_i hfree
      exact .inr (.inr (.inl ⟨rfl, add_one_eq_zero_iff.mp hfree⟩))
    · exact .inl rfl
  case recurse | setOwner | setRecursion | clearOwner =>
    exact .inl (hnext ▸ rfl)
  case waitSection =>
    simp only [hpc, h.running, Bool.false_eq_true, if_false, some.injEq] at hnext
    exact .inl (hnext ▸ rfl)
  case waitSemaphore =>
    simp only [PcInv, hpc] at hself
    obtain ⟨rfl, _⟩ | ⟨lockSemaphore, rfl, hgranted, htaken, _⟩ := h.waitSemaphore_cases hnext
    · exact .inl rfl
    · exact .inr (.inr (.inr ⟨lockSemaphore, rfl, hself.2, hgranted, htaken⟩))
  case compare =>
    rw [← hnext]
    split
    · exact .inl rfl
    · exact .inl rfl
  case waiting =>
    obtain ⟨futexes, _, rfl⟩ := map_eq_some_iff.mp hnext
    refine .inl ?_
    split
    · rfl
    · rfl
  case leaveRecursive =>
    simp only [PcInv, hpc] at hself
    rw [← hnext]
    exact .inr (.inl ⟨by omega, hothers _⟩)
  case release =>
    simp only [PcInv, hpc] at hself
    rw [← hnext]
    exact .inr (.inl ⟨by omega, hothers _⟩)
  case unwait =>
    rw [← hnext]
    unfold unwait
    refine .inl ?_
    split
    · split
      · rfl
      · rfl
    · rfl
  case wakeSingle =>
    rw [← hnext]
    unfold wake
    refine .inl ?_
    split
    · rfl
    · rfl
  case waking =>
    obtain ⟨futexes, _, rfl⟩ := map_eq_some_iff.mp hnext
    unfold wake
    refine .inl ?_
    split
    · rfl
    · rfl

lemma step_owner {op : Op T} {u : T} (h : Inv s) (hstep : step s op = some s')
    (hzero : s.depth u = 0) (hpos : s'.depth u > 0) :
    ((∀ v, s.depth v = 0) ∧ s.committed = []) ∨
      u ∈ s.committed ∧ s.lockSemaphore.grants = 1 ∧ s'.lockSemaphore.grants = 0 ∧
        s'.committed = s.committed.erase u := by
  have hsame : s'.depth = s.depth → False := by
    intro heq
    rw [heq] at hpos
    omega
  cases op with
  | next t =>
    obtain heq | ⟨hold, hothers⟩ | ⟨rfl, hfree⟩ | ⟨lockSemaphore, rfl, hmem, hgranted, htaken⟩ :=
      next_depth h hstep
    · exact absurd heq hsame
    · have hne : u ≠ t := by
        rintro rfl
        omega
      rw [hothers u hne] at hpos
      omega
    · obtain ⟨hnone, hcommitted, _⟩ := h.free_of_count hfree
      exact .inl ⟨hnone, hcommitted⟩
    have heq : u = t := by
      by_contra hne
      simp [obtain, State.setPc, State.setDepth, hne] at hpos
      omega
    subst heq
    exact .inr ⟨hmem, hgranted, htaken, rfl⟩
  | enter t | tryEnter t | leave t =>
    rw [step] at hstep
    split at hstep
    · simp at hstep
    · exact absurd (some.inj hstep ▸ rfl) hsame
  | timeout t =>
    obtain ⟨futexes, _, rfl⟩ := map_eq_some_iff.mp hstep
    exact absurd rfl hsame
  | alert t | shutdown => exact absurd (some.inj hstep ▸ rfl) hsame

end Steps

/-- The thread waits for the semaphore without a grant, or sleeps without an alert. -/
def Blocked (s : State T) (t : T) : Prop :=
  (s.pc t = .waitSemaphore ∧ ∃ max, s.lockSemaphore = .handle 0 max) ∨
    s.pc t = .waiting ∧ s.futexes.Asleep t

lemma Inv.rest (h : Inv s) (hfree : ∀ t, s.depth t = 0)
    (hrest : ∀ t, s.pc t = .idle ∨ Blocked s t) : s.committed = [] := by
  have hphase : ∀ u, s.futexes.phase u = .out ∨ s.futexes.Asleep u := by
    intro u
    obtain hpc | ⟨hpc, _⟩ | ⟨_, hasleep⟩ := hrest u
    · exact .inl (h.out_of_pc (by simp [hpc]) (by simp [hpc]))
    · exact .inl (h.out_of_pc (by simp [hpc]) (by simp [hpc]))
    · exact .inr hasleep
  obtain ⟨d, hstage, _⟩ := h.stage
  cases hstage with
  | free _ hcommitted => exact hcommitted
  | held t hpos =>
    rw [hfree t] at hpos
    exact absurd hpos (Nat.lt_irrefl 0)
  | granting t _ _ _ hunwait =>
    have hpc := (hunwait t).mpr rfl
    obtain hpc' | ⟨hpc', _⟩ | ⟨hpc', _⟩ := hrest t <;> simp [hpc] at hpc'
  | granted _ hcommitted hgrants =>
    -- every committed waiter sleeps in the fallback, with its entry queued
    have hdormant : ∀ u ∈ s.committed, s.lockSemaphore.Fallback ∧ s.futexes.Dormant u () := by
      intro u hu
      have hself := h.threads u
      obtain hpc | ⟨_, max, hsemaphore⟩ | ⟨hpc, hasleep⟩ := hrest u
      · simp only [PcInv, hpc] at hself
        exact absurd hu hself.2
      · rw [hsemaphore] at hgrants
        exact absurd hgrants (by simp [LockSemaphore.grants])
      · simp only [PcInv, hpc] at hself
        obtain ⟨addr, haddr⟩ := hasleep.1
        exact ⟨hself.2.2, h.futexes.rest hphase haddr⟩
    by_contra
    obtain ⟨v, hv⟩ := exists_mem_of_ne_nil _ hcommitted
    obtain ⟨⟨granted, hvalue⟩, hsleep⟩ := hdormant v hv
    have hgrant : s.lockSemaphore = .value true := by
      rw [hvalue] at hgrants
      cases granted with
      | true => exact hvalue
      | false => simp [LockSemaphore.grants] at hgrants
    obtain ⟨u, hu | ⟨hmem, hactive⟩⟩ := h.wake hgrant v hsleep
    · obtain hpc | ⟨hpc, _⟩ | ⟨hpc, _⟩ := hrest u <;> simp [hu] at hpc
    · exact hactive (hdormant u hmem).2

/-- The thread has left the section to its waiters, and its grant is not published yet. -/
def Granting (s : State T) (t : T) : Prop := s.pc t = .unwait

/-- Critical sections have at most one owner, whom the fields describe, and hand the section over
with one grant. -/
theorem critical_section_hand_off [DecidableEq T] (s : State T) (hs : Reaches step Fair Initial s) :
    (∀ t u, s.depth t > 0 → s.depth u > 0 → t = u) ∧
    ((∀ t, s.depth t > 0 → s.pc t = .idle →
        s.owningThread = some t ∧ s.recursionCount.toNat = s.depth t) ∧
      ∀ t, s.owningThread = some t → s.depth t > 0) ∧
    ((∀ t, s.depth t > 0 → s.lockCount.toInt + 1 = s.depth t + s.committed.length) ∧
      ((∀ t, s.depth t = 0) → s.lockCount.toInt + 1 = s.committed.length)) ∧
    ((s.lockSemaphore.grants ≤ 1 ∧ (∀ t u, Granting s t → Granting s u → t = u) ∧
        ∀ t, Granting s t → s.lockSemaphore.grants = 0) ∧
      (((∃ t, Granting s t) ∨ s.lockSemaphore.grants = 1) ↔
        (∀ t, s.depth t = 0) ∧ s.committed ≠ [])) ∧
    (∀ op s' t, step s op = some s' → s.depth t = 0 → s'.depth t > 0 → s.committed ≠ [] →
      t ∈ s.committed ∧ s.lockSemaphore.grants = 1 ∧ s'.lockSemaphore.grants = 0 ∧
        s'.committed = s.committed.erase t) ∧
    ((∀ t, s.depth t = 0) → (∀ t, s.pc t = .idle ∨ Blocked s t) → s.committed = []) := by
  have hinv : Inv s := hs.invariant (fun _ => Initial.inv) fun _ _ _ h hfair => step_inv h hfair
  refine ⟨fun t u ht hu => ?_, ⟨fun t ht hpc => ?_, hinv.owning⟩,
    ⟨fun t ht => (hinv.held_of_depth ht).2.2, fun hnone => ?_⟩, ?_, ?_, hinv.rest⟩
  · by_contra hne
    have hzero := hinv.unique hu hne
    omega
  · have hself := hinv.threads t
    simp only [PcInv, hpc] at hself
    exact hself.1 ht
  · obtain ⟨d, hstage, hcount⟩ := hinv.stage
    cases hstage with
    | held t hpos => exact absurd (hnone t) (Nat.ne_of_gt hpos)
    | free | granting | granted => simpa using hcount
  · obtain ⟨d, hstage, _⟩ := hinv.stage
    unfold Granting
    cases hstage with
    | free hnone hcommitted hgrants hunwait | granting t hnone hcommitted hgrants hunwait
      | granted hnone hcommitted hgrants hunwait =>
      simp [hnone, hcommitted, hgrants, hunwait]
    | held t hpos _ hgrants hunwait =>
      have hsome : ¬∀ u, s.depth u = 0 := fun hnone => by
        rw [hnone t] at hpos
        exact absurd hpos (Nat.lt_irrefl 0)
      simp [hsome, hgrants, hunwait]
  · intro op s' t hstep hzero hpos hwaiters
    obtain ⟨_, hcommitted⟩ | hgrant := step_owner hinv hstep hzero hpos
    · exact absurd hcommitted hwaiters
    · exact hgrant

def unlocked (T : Type) : State T where
  lockCount := -1
  recursionCount := 0
  owningThread := none
  lockSemaphore := .value false
  spinCount := 0
  shutdown := false
  futexes := ⟨[], fun _ => false, fun _ => .out⟩
  pc _ := .idle
  depth _ := 0
  committed := []

lemma unlocked_initial (T : Type) : Initial (unlocked T) :=
  ⟨rfl, rfl, rfl, .inl rfl, rfl, rfl, fun _ => rfl, fun _ => rfl, fun _ => rfl, rfl⟩

/-- The second thread waits until the first one leaves the section, and obtains it. -/
def enterAndWait : List (Op (Fin 2)) :=
  [.enter 0, .next 0, .next 0, .next 0, .enter 1, .next 1, .next 1, .next 1, .next 1, .next 1,
    .leave 0, .next 0, .next 0, .next 0, .next 0, .next 0, .next 0, .next 1, .next 1, .next 1]

theorem critical_section_hand_off_waiter :
    ∃ s, run step (unlocked (Fin 2)) enterAndWait = some s ∧ s.depth 1 > 0 ∧
      s.lockCount.toInt + 1 = s.depth 1 + s.committed.length := by
  have hrun : (run step (unlocked (Fin 2)) enterAndWait).isSome = true := by decide
  obtain ⟨s, hs⟩ := isSome_iff_exists.mp hrun
  have hdepth : (run step (unlocked (Fin 2)) enterAndWait).map (·.depth 1) = some 1 := by decide
  have hpos : s.depth 1 > 0 := by
    rw [hs] at hdepth
    have hdepth : s.depth 1 = 1 := some.inj hdepth
    omega
  have hreach : Reaches step Fair Initial s := by
    apply (Reaches.start (unlocked_initial (Fin 2))).run enterAndWait _ hs
    refine ⟨trivial, fun _ => by decide, fun _ => by decide, fun _ => by decide, trivial,
      fun _ => by decide, fun _ => by decide, fun _ => by decide, fun _ => by decide,
      fun _ => by decide, trivial, fun _ => by decide, fun _ => by decide, fun _ => by decide,
      fun _ => by decide, fun _ => by decide, fun _ => by decide, fun _ => by decide,
      fun _ => by decide, fun _ => by decide, trivial⟩
  exact ⟨s, hs, hpos, (critical_section_hand_off s hreach).2.2.1.1 1 hpos⟩

/-! ### Shutdown, and the limit of `LockCount` -/

def enterAfterShutdown : List (Op (Fin 2)) :=
  [.enter 0, .next 0, .next 0, .next 0, .shutdown, .enter 1, .next 1, .next 1, .next 1]

lemma enter_again (n : Nat) :
    ∃ s, Reachable step (Initial (T := Unit)) s ∧ s.spinCount = 0 ∧ s.pc () = .idle ∧
      s.owningThread = some () ∧ s.depth () = n + 1 ∧ s.committed = [] ∧
      s.lockCount = BitVec.ofNat 32 n := by
  induction n with
  | zero =>
    have hrun : run step (unlocked Unit) [.enter (), .next (), .next (), .next ()] =
        some { unlocked Unit with
          lockCount := 0
          recursionCount := 1
          owningThread := some ()
          depth := fun _ => 1 } := by
      rfl
    exact ⟨_, reachable_of_run (.start (unlocked_initial Unit)) _ hrun, rfl, rfl, rfl, rfl, rfl, rfl⟩
  | succ n ih =>
    obtain ⟨s, hreach, hspin, hpc, howning, hdepth, hcommitted, hcount⟩ := ih
    have hpos : s.depth () > 0 := by omega
    let s₁ := s.setPc () .increment
    have hstep₁ : step s (.enter ()) = some s₁ := by
      rw [step, if_neg (not_not.mpr hpc), if_neg (not_not.mpr hspin)]
    let s₂ : State Unit :=
      { (s₁.setPc () .checkOwner).setDepth () (s.depth () + 1) with lockCount := s.lockCount + 1 }
    have hstep₂ : step s₁ (.next ()) = some s₂ := by
      have hpc₁ : s₁.pc () = .increment := by simp [s₁, State.setPc]
      exact congrArg some (if_pos hpos)
    have hstep₃ : step s₂ (.next ()) = some (s₂.setPc () .recurse) := by
      have hpc₂ : s₂.pc () = .checkOwner := by simp [s₂, State.setPc, State.setDepth]
      rw [step, next, hpc₂]
      rw [if_pos (show s₂.owningThread = some () from howning)]
    let s₄ : State Unit :=
      { (s₂.setPc () .recurse).setPc () .idle with recursionCount := s.recursionCount + 1 }
    have hstep₄ : step (s₂.setPc () .recurse) (.next ()) = some s₄ := by
      have hpc₃ : (s₂.setPc () .recurse).pc () = .recurse := by simp [State.setPc]
      rfl
    refine ⟨s₄, .next (.next (.next (.next hreach trivial hstep₁) trivial hstep₂) trivial hstep₃)
      trivial hstep₄, hspin, ?_, howning, ?_, hcommitted, ?_⟩
    · simp [s₄, State.setPc]
    · simp [s₄, s₂, State.setPc, State.setDepth, hdepth]
    · change s.lockCount + 1 = _
      rw [hcount]
      exact (BitVec.ofNat_add _ _).symm

/-- During process termination two threads own a section, and `2^31 + 1` levels of one thread do
not fit into `LockCount`. -/
theorem critical_section_two_owners :
    (∃ s, Reachable step (Initial (T := Fin 2)) s ∧ s.depth 0 > 0 ∧ s.depth 1 > 0) ∧
    ∃ s, Reachable step (Initial (T := Unit)) s ∧ s.pc () = .idle ∧ s.depth () > 0 ∧
      s.lockCount.toInt + 1 ≠ s.depth () + s.committed.length := by
  constructor
  · have hrun : (run step (unlocked (Fin 2)) enterAfterShutdown).isSome = true := by decide
    obtain ⟨s, hs⟩ := isSome_iff_exists.mp hrun
    have hdepth : (run step (unlocked (Fin 2)) enterAfterShutdown).map
        (fun s => (s.depth 0, s.depth 1)) = some (1, 1) := by decide
    rw [hs] at hdepth
    obtain ⟨hzero, hone⟩ := Prod.mk.inj (some.inj hdepth)
    refine ⟨s, reachable_of_run (.start (unlocked_initial (Fin 2))) _ hs, ?_, ?_⟩
    · omega
    · omega
  · obtain ⟨s, hreach, _, hpc, _, hdepth, hcommitted, hcount⟩ := enter_again (2 ^ 31)
    refine ⟨s, hreach, hpc, by omega, ?_⟩
    have htoInt : (BitVec.ofNat 32 (2 ^ 31)).toInt = -2 ^ 31 := by decide
    rw [hcount, hcommitted, hdepth, htoInt, length_nil]
    omega

end WineForge.CriticalSections
