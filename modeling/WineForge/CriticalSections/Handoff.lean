import WineForge.CriticalSections.Ownership

/-!
# Hand-off of a critical section

Every step keeps the account of owners, waiters and grants, and a grant that is outstanding finds
a waiter that is awake or gets a wake.
-/

namespace WineForge.CriticalSections

open AddressWaits Function Library List

variable {T : Type} {s s' : State T} {t : T}

lemma Inv.free_of_count (h : Inv s) (hfree : s.lockCount.toInt = -1) :
    (∀ t, s.depth t = 0) ∧ s.committed = [] ∧ s.lockSemaphore.grants = 0 ∧
      ∀ t, s.pc t ≠ .unwait := by
  obtain ⟨d, hstage, hcount⟩ := h.stage
  have hnone : s.committed.length = 0 := by omega
  cases hstage with
  | free hdepth hcommitted hgrants hunwait => exact ⟨hdepth, hcommitted, hgrants, hunwait⟩
  | held u hpos => omega
  | granting u _ hcommitted | granted _ hcommitted =>
    exact absurd (length_eq_zero_iff.mp hnone) hcommitted

lemma Inv.held_of_depth (h : Inv s) (hpos : s.depth t > 0) :
    s.lockSemaphore.grants = 0 ∧ (∀ t, s.pc t ≠ .unwait) ∧
      s.lockCount.toInt + 1 = s.depth t + s.committed.length := by
  obtain ⟨d, hstage, hcount⟩ := h.stage
  cases hstage with
  | free hdepth | granting u hdepth | granted hdepth =>
    rw [hdepth t] at hpos
    exact absurd hpos (Nat.lt_irrefl 0)
  | held u _ hothers hgrants hunwait =>
    have heq : t = u := by
      by_contra hne
      rw [hothers t hne] at hpos
      exact absurd hpos (Nat.lt_irrefl 0)
    rw [heq]
    exact ⟨hgrants, hunwait, hcount⟩

section Steps

variable [DecidableEq T]

lemma not_unwait_update {pc : Pc} (h : ∀ u, s.pc u ≠ .unwait) (hpc : pc ≠ .unwait) (u : T) :
    update s.pc t pc u ≠ .unwait := by
  by_cases heq : u = t
  · rw [heq, update_self]
    exact hpc
  · rw [update_of_ne heq]
    exact h u

lemma zero_of_others {depth : Nat} (h : ∀ u ≠ t, s.depth u = 0) :
    ∀ u ≠ t, update s.depth t depth u = 0 := by
  intro u hne
  rw [update_of_ne hne]
  exact h u hne

lemma held_stage {depth : Nat} {pc : Pc} (hpos : depth > 0) (hothers : ∀ u ≠ t, s.depth u = 0)
    (hgrants : s.lockSemaphore.grants = 0) (hunwait : ∀ u, s.pc u ≠ .unwait)
    (hpc : pc ≠ .unwait) (committed : List T) :
    Stage (update s.depth t depth) committed s.lockSemaphore.grants
      (fun u => update s.pc t pc u = .unwait) depth := by
  have hself : update s.depth t depth t = depth := update_self _ _ _
  have hheld := @Stage.held T (update s.depth t depth) committed s.lockSemaphore.grants
    (fun u => update s.pc t pc u = .unwait) t (by rw [hself]; exact hpos)
    (zero_of_others hothers) hgrants (not_unwait_update hunwait hpc)
  rw [hself] at hheld
  exact hheld

lemma Inv.grab (h : Inv s) (hfree : s.lockCount.toInt = -1)
    (hpc : s.pc t ≠ .waiting ∧ s.pc t ≠ .waking ∧ s.pc t ≠ .wakeSingle) : Inv (grab s t) := by
  obtain ⟨hdepth, hcommitted, hgrants, hunwait⟩ := h.free_of_count hfree
  apply h.of_count (h.out_of_pc hpc.1 hpc.2.1) (by rfl) hpc.2.2 (fun _ _ => Iff.rfl) (fun _ => id)
    h.nodup
  · exact fun _ => Nat.one_pos
  · refine ⟨1, held_stage Nat.one_pos (fun u _ => hdepth u) hgrants hunwait (by simp) _, ?_⟩
    rw [hcommitted]
    rfl
  · decide
  · simp [PcInv, State.setPc, State.setDepth, hcommitted]

lemma Inv.increment (h : Inv s) (hpc : s.pc t = .increment)
    (hroom : s.lockCount.toInt < 2 ^ 31 - 2) : Inv (increment s t) := by
  have hself := h.threads t
  simp only [PcInv, hpc] at hself
  have hout : s.futexes.phase t = .out := h.out_of_pc (by simp [hpc]) (by simp [hpc])
  have hadd : (s.lockCount + 1).toInt = s.lockCount.toInt + 1 := toInt_add_one (by omega)
  unfold CriticalSections.increment
  dsimp only
  split
  · rename_i hpos
    obtain ⟨hgrants, hunwait, hcount⟩ := h.held_of_depth hpos
    obtain ⟨howning, hrecursion⟩ := hself.1 hpos
    apply h.of_count hout (by rfl) (by simp [hpc]) (fun _ _ => Iff.rfl) (fun _ => id) h.nodup
    · exact fun _ => Nat.succ_pos _
    · refine ⟨s.depth t + 1, held_stage (Nat.succ_pos _) (fun u hne => h.unique hpos hne) hgrants
        hunwait (by simp) _, ?_⟩
      rw [hadd]
      omega
    · omega
    · simp only [PcInv, State.setPc, State.setDepth, update_self, Described]
      refine ⟨fun _ => ⟨⟨howning, ?_⟩, hself.2⟩, fun hzero => absurd hzero (Nat.succ_ne_zero _)⟩
      omega
  · have hzero : s.depth t = 0 := by omega
    split
    · rename_i hfree
      exact h.grab (add_one_eq_zero_iff.mp hfree) (by simp [hpc])
    rename_i hlocked
    have hlocked : s.lockCount.toInt ≠ -1 := fun heq => hlocked (add_one_eq_zero_iff.mpr heq)
    have hdepth : update s.depth t 0 = s.depth := by simp [← hzero]
    have hresult := @Inv.of_count T s t (t :: s.committed) _ .checkOwner 0 (s.lockCount + 1) h
      hout (by rfl) (by simp [hpc])
      (fun u hne => by simp [hne]) (fun u hu => mem_cons_of_mem t hu)
      (nodup_cons.mpr ⟨hself.2, h.nodup⟩) ?_ ?_ (by omega) ?_
    · simpa only [State.setDepth, State.setPc, hdepth] using hresult
    · intro howning
      have hpos := h.owning t howning
      omega
    · rw [hdepth]
      obtain ⟨d, hstage, hcount⟩ := h.stage
      refine ⟨d, ?_, by rw [hadd, length_cons]; omega⟩
      have hunwaiting : ∀ u, update s.pc t .checkOwner u = .unwait ↔
          s.pc u = .unwait := by
        intro u
        by_cases heq : u = t
        · subst heq
          simp [hpc]
        · simp [heq]
      refine Stage.congr ?_ hunwaiting
      cases hstage with
      | free _ hcommitted =>
        rw [hcommitted] at hcount
        exact absurd hcount (by simp; omega)
      | held u hpos hothers hgrants hunwait => exact .held u hpos hothers hgrants hunwait
      | granting u hnone _ hgrants hunwait =>
        exact .granting u hnone (cons_ne_nil _ _) hgrants hunwait
      | granted hnone _ hgrants hunwait =>
        exact .granted hnone (cons_ne_nil _ _) hgrants hunwait
    · simp [PcInv, State.setPc, State.setDepth]

lemma Inv.tryIncrement (h : Inv s) (hpc : s.pc t = .tryIncrement)
    (hroom : s.lockCount.toInt < 2 ^ 31 - 2) :
    Inv { (s.setPc t .recurse).setDepth t (s.depth t + 1) with lockCount := s.lockCount + 1 } := by
  have hself := h.threads t
  simp only [PcInv, hpc] at hself
  obtain ⟨hpos, ⟨howning, hrecursion⟩, hmem⟩ := hself
  obtain ⟨hgrants, hunwait, hcount⟩ := h.held_of_depth hpos
  have hadd : (s.lockCount + 1).toInt = s.lockCount.toInt + 1 := toInt_add_one (by omega)
  apply h.of_count (h.out_of_pc (by simp [hpc]) (by simp [hpc])) (by rfl) (by simp [hpc])
    (fun _ _ => Iff.rfl) (fun _ => id) h.nodup
  · exact fun _ => Nat.succ_pos _
  · refine ⟨s.depth t + 1, held_stage (Nat.succ_pos _) (fun u hne => h.unique hpos hne) hgrants
      hunwait (by simp) _, ?_⟩
    rw [hadd]
    omega
  · omega
  · simp only [PcInv, State.setPc, State.setDepth, update_self, Described]
    exact ⟨Nat.succ_pos _, ⟨howning, by omega⟩, hmem⟩

lemma Inv.leaveRecursive (h : Inv s) (hpc : s.pc t = .leaveRecursive) :
    Inv { (s.setPc t .idle).setDepth t (s.depth t - 1) with lockCount := s.lockCount - 1 } := by
  have hself := h.threads t
  simp only [PcInv, hpc] at hself
  obtain ⟨hlevels, ⟨howning, hrecursion⟩, hmem⟩ := hself
  have hpos : s.depth t > 0 := by omega
  obtain ⟨hgrants, hunwait, hcount⟩ := h.held_of_depth hpos
  have hsub : (s.lockCount - 1).toInt = s.lockCount.toInt - 1 := toInt_sub_one (by omega)
  have hsmall := h.small
  have hleft : s.depth t - 1 > 0 := by omega
  apply h.of_count (h.out_of_pc (by simp [hpc]) (by simp [hpc])) (by rfl) (by simp [hpc])
    (fun _ _ => Iff.rfl) (fun _ => id) h.nodup
  · exact fun _ => hleft
  · refine ⟨s.depth t - 1, held_stage hleft (fun u hne => h.unique hpos hne) hgrants hunwait
      (by simp) _, ?_⟩
    rw [hsub]
    omega
  · omega
  · simp only [PcInv, State.setPc, State.setDepth, update_self, Described]
    exact ⟨fun _ => ⟨howning, by omega⟩, hmem⟩

lemma Inv.release (h : Inv s) (hpc : s.pc t = .release) :
    let lockCount := s.lockCount - 1
    Inv { (s.setPc t (if lockCount.toInt ≥ 0 then .unwait else .idle)).setDepth t
      (s.depth t - 1) with lockCount := lockCount } := by
  have hself := h.threads t
  simp only [PcInv, hpc] at hself
  obtain ⟨hdepth, howning, hmem⟩ := hself
  have hpos : s.depth t > 0 := by omega
  obtain ⟨hgrants, hunwait, hcount⟩ := h.held_of_depth hpos
  have hsub : (s.lockCount - 1).toInt = s.lockCount.toInt - 1 := toInt_sub_one (by omega)
  have hsmall := h.small
  have hnone : ∀ u, update s.depth t (s.depth t - 1) u = 0 := by
    intro u
    by_cases heq : u = t
    · rw [heq, update_self, hdepth]
    · rw [update_of_ne heq]
      exact h.unique hpos heq
  dsimp only
  rw [hsub]
  apply h.of_count (h.out_of_pc (by simp [hpc]) (by simp [hpc])) _ (by simp [hpc])
    (fun _ _ => Iff.rfl) (fun _ => id) h.nodup
  · rw [howning]
    simp
  · refine ⟨0, ?_, by rw [hsub]; omega⟩
    split
    · refine .granting t hnone ?_ hgrants fun u => ?_
      · intro hempty
        rw [hempty] at hcount
        simp at hcount
        omega
      · by_cases heq : u = t
        · simp [heq]
        · simp [heq, hunwait u]
    · refine .free hnone (length_eq_zero_iff.mp (by omega)) hgrants ?_
      exact not_unwait_update hunwait (by simp)
  · omega
  · by_cases hwaiters : s.lockCount.toInt - 1 ≥ 0
    · rw [if_pos hwaiters]
      simp [PcInv, State.setPc, State.setDepth, hdepth, hmem]
    · rw [if_neg hwaiters]
      simp [PcInv, State.setPc, State.setDepth, hdepth, hmem]
  · split <;> rfl

lemma Inv.obtain {lockSemaphore : LockSemaphore} (h : Inv s) (hpc : s.pc t = .waitSemaphore)
    (hgranted : s.lockSemaphore.grants = 1) (htaken : lockSemaphore.grants = 0)
    (hroom : ∀ count max, lockSemaphore = .handle count max → max ≥ 1)
    (hfallback : s.lockSemaphore.Fallback → lockSemaphore.Fallback) :
    Inv (obtain s t lockSemaphore) := by
  have hself := h.threads t
  simp only [PcInv, hpc] at hself
  obtain ⟨hzero, hmem⟩ := hself
  have hout : s.futexes.phase t = .out := h.out_of_pc (by simp [hpc]) (by simp [hpc])
  have hstage : (∀ u, s.depth u = 0) ∧ (∀ u, s.pc u ≠ .unwait) ∧
      s.lockCount.toInt + 1 = s.committed.length := by
    obtain ⟨d, hstage, hcount⟩ := h.stage
    cases hstage with
    | free _ _ hgrants => omega
    | held _ _ _ hgrants => omega
    | granting _ _ _ hgrants => omega
    | granted hnone _ _ hunwait => exact ⟨hnone, hunwait, by simpa using hcount⟩
  obtain ⟨hnone, hunwait, hcount⟩ := hstage
  have hlength := length_pos_of_mem hmem
  unfold CriticalSections.obtain
  refine ⟨⟨1, ?_, ?_⟩, h.small, fun u => ?_, fun u hu => ?_, h.nodup.erase t, hroom, h.futexes,
    fun u => ?_, fun hgrant => ?_, h.running⟩
  · rw [htaken]
    have hheld := @Stage.held T (update s.depth t 1) (s.committed.erase t) 0
      (fun u => update s.pc t .setOwner u = .unwait) t (by simp)
      (zero_of_others fun u _ => hnone u) rfl (not_unwait_update hunwait (by simp))
    rw [update_self] at hheld
    exact hheld
  · dsimp only [State.setPc, State.setDepth]
    rw [length_erase_of_mem hmem]
    omega
  · by_cases heq : u = t
    · subst heq
      simp [PcInv, State.setPc, State.setDepth, h.nodup.mem_erase_iff]
    refine (h.threads u).frame ?_ ?_ ?_ (fun _ => ⟨rfl, rfl⟩) hfallback
    · simp [State.setPc, State.setDepth, heq]
    · simp [State.setPc, State.setDepth, heq]
    · simp [h.nodup.mem_erase_iff, heq]
  · have hpos := h.owning u hu
    rw [hnone u] at hpos
    exact absurd hpos (Nat.lt_irrefl 0)
  · by_cases heq : u = t
    · subst heq
      simpa [State.setPc, State.setDepth, Linked] using hout
    · simpa [State.setPc, State.setDepth, heq] using h.linked u
  · dsimp only at hgrant
    rw [hgrant] at htaken
    simp [LockSemaphore.grants] at htaken

omit [DecidableEq T] in
lemma Inv.grants_le (h : Inv s) : s.lockSemaphore.grants ≤ 1 := by
  obtain ⟨d, hstage, _⟩ := h.stage
  cases hstage with
  | free _ _ hgrants => omega
  | held _ _ _ hgrants => omega
  | granting _ _ _ hgrants => omega
  | granted _ _ hgrants => omega

lemma Inv.waitSemaphore_cases (h : Inv s) (hwait : waitSemaphore s t = some s') :
    s' = s.setPc t .compare ∧ s.lockSemaphore.Fallback ∨ ∃ lockSemaphore, s' = CriticalSections.obtain s t lockSemaphore ∧
      s.lockSemaphore.grants = 1 ∧ lockSemaphore.grants = 0 ∧
      (∀ count max, lockSemaphore = .handle count max → max ≥ 1) ∧
      (s.lockSemaphore.Fallback → lockSemaphore.Fallback) := by
  have hgrants := h.grants_le
  unfold CriticalSections.waitSemaphore at hwait
  cases hsemaphore : s.lockSemaphore with
  | handle count max =>
    simp only [hsemaphore] at hwait
    rw [hsemaphore] at hgrants
    change count ≤ 1 at hgrants
    split at hwait
    · simp at hwait
    have hone : count = 1 := by omega
    subst hone
    refine .inr ⟨_, (Option.some.inj hwait).symm, rfl, rfl, fun count max' heq => ?_, ?_⟩
    · obtain ⟨_, rfl⟩ := LockSemaphore.handle.inj heq
      exact h.room 1 max hsemaphore
    · rintro ⟨granted, hvalue⟩
      simp at hvalue
  | value granted =>
    cases granted with
    | true =>
      simp only [hsemaphore, Option.some.injEq] at hwait
      exact .inr ⟨_, hwait.symm, rfl, rfl, by simp, fun _ => ⟨false, rfl⟩⟩
    | false =>
      simp only [hsemaphore, Option.some.injEq] at hwait
      exact .inl ⟨hwait.symm, false, rfl⟩

lemma Inv.waitSemaphore (h : Inv s) (hpc : s.pc t = .waitSemaphore)
    (hwait : waitSemaphore s t = some s') : Inv s' := by
  obtain ⟨rfl, hfallback⟩ | ⟨lockSemaphore, rfl, hgranted, htaken, hroom, hfallback⟩ :=
    h.waitSemaphore_cases hwait
  · have hself := h.threads t
    simp only [PcInv, hpc] at hself
    apply h.of_fields (h.out_of_pc (by simp [hpc]) (by simp [hpc])) (by rfl) (by simp [hpc])
      (.inr ⟨rfl, rfl⟩) (.inl rfl)
    simpa [PcInv, State.setPc] using ⟨hself.1, hself.2, hfallback⟩
  · exact h.obtain hpc hgranted htaken hroom hfallback

lemma Inv.unwait (h : Inv s) (hpc : s.pc t = .unwait) : Inv (unwait s t) := by
  have hself := h.threads t
  simp only [PcInv, hpc] at hself
  have hout : s.futexes.phase t = .out := h.out_of_pc (by simp [hpc]) (by simp [hpc])
  have hstage : (∀ u, s.depth u = 0) ∧ s.committed ≠ [] ∧ s.lockSemaphore.grants = 0 ∧
      (∀ u, s.pc u = .unwait ↔ u = t) ∧ s.lockCount.toInt + 1 = s.committed.length := by
    obtain ⟨d, hstage, hcount⟩ := h.stage
    cases hstage with
    | free _ _ _ hunwait | held _ _ _ _ hunwait | granted _ _ _ hunwait =>
      exact absurd hpc (hunwait t)
    | granting u hnone hcommitted hgrants hunwait =>
      obtain rfl := (hunwait t).mp hpc
      exact ⟨hnone, hcommitted, hgrants, hunwait, by simpa using hcount⟩
  obtain ⟨hnone, hcommitted, hgrants, hunwait, hcount⟩ := hstage
  -- the grant is the only one, so the semaphore has room for it
  have hgranted : ∀ {pc : Pc} {lockSemaphore : LockSemaphore},
      pc = .idle ∨ pc = .wakeSingle → lockSemaphore.grants = 1 →
      (∀ count max, lockSemaphore = .handle count max → max ≥ 1) →
      (lockSemaphore = .value true → pc = .wakeSingle) →
      (s.lockSemaphore.Fallback → lockSemaphore.Fallback) →
      Inv { s.setPc t pc with lockSemaphore := lockSemaphore } := by
    intro pc lockSemaphore hkind hone hroom hwake hfallback
    refine ⟨⟨0, .granted hnone hcommitted hone fun u hu => ?_,
      by simpa [State.setPc] using hcount⟩, h.small,
      fun u => ?_, h.owning, h.nodup, hroom, h.futexes, fun u => ?_, fun hgrant v hv => ⟨t, ?_⟩,
      h.running⟩
    · by_cases heq : u = t
      · obtain rfl | rfl := hkind <;> simp [State.setPc, heq] at hu
      · simp [State.setPc, heq, hunwait] at hu
    · by_cases heq : u = t
      · subst heq
        obtain rfl | rfl := hkind
        · simpa [PcInv, State.setPc, hnone] using hself.2
        · simpa [PcInv, State.setPc, hnone] using hself.2
      · refine (h.threads u).frame ?_ rfl Iff.rfl (fun _ => ⟨rfl, rfl⟩) hfallback
        simp [State.setPc, heq]
    · by_cases heq : u = t
      · subst heq
        obtain rfl | rfl := hkind <;> simpa [State.setPc, Linked] using hout
      · simpa [State.setPc, heq] using h.linked u
    · exact .inl (by simpa [State.setPc] using hwake hgrant)
  unfold CriticalSections.unwait
  cases hsemaphore : s.lockSemaphore with
  | handle count max =>
    rw [hsemaphore] at hgrants
    have hcount : count = 0 := hgrants
    have hmax := h.room count max hsemaphore
    dsimp only
    rw [if_pos (by omega)]
    apply hgranted (.inl rfl)
    · rw [hcount]
      rfl
    · rintro count' max' heq
      obtain ⟨_, rfl⟩ := LockSemaphore.handle.inj heq
      exact hmax
    · simp
    · rintro ⟨granted, hvalue⟩
      simp [hsemaphore] at hvalue
  | value granted =>
    exact hgranted (.inr rfl) rfl (by simp) (fun _ => rfl) fun _ => ⟨true, rfl⟩

lemma Inv.setPc {pc : Pc} (h : Inv s) (hold : s.pc t ≠ .waiting ∧ s.pc t ≠ .waking)
    (hlinked : Linked pc (.out : Phase T Unit))
    (hpc : pc ≠ .unwait ∧ s.pc t ≠ .unwait ∧ s.pc t ≠ .wakeSingle)
    (hself : PcInv (s.setPc t pc) t) : Inv (s.setPc t pc) :=
  h.of_fields (h.out_of_pc hold.1 hold.2) hlinked hpc (.inr ⟨rfl, rfl⟩) (.inl rfl) hself

omit [DecidableEq T] in
lemma Inv.owning_iff {k : Nat} (h : Inv s) (hdescribed : s.depth t > 0 → Described s t k) :
    s.owningThread = some t ↔ s.depth t > 0 :=
  ⟨h.owning t, fun hpos => (hdescribed hpos).1⟩

lemma Inv.spinning (h : Inv s) (hpc : (∃ spin, s.pc t = .tryGrab spin ∨ s.pc t = .tryOwner spin) ∨
      ∃ count, s.pc t = .spin count ∨ s.pc t = .spinGrab count) {pc : Pc}
    (hkind : pc = .idle ∨ pc = .increment ∨ (∃ spin, pc = .tryOwner spin) ∨
      ∃ count, pc = .spin count ∨ pc = .spinGrab count) : Inv (s.setPc t pc) := by
  have hself : (s.depth t > 0 → Described s t 0) ∧ t ∉ s.committed := by
    have hself := h.threads t
    obtain ⟨spin, hpc | hpc⟩ | ⟨count, hpc | hpc⟩ := hpc <;> simpa only [PcInv, hpc] using hself
  have hgoal : PcInv (s.setPc t pc) t := by
    obtain rfl | rfl | ⟨spin, rfl⟩ | ⟨count, rfl | rfl⟩ := hkind <;>
      simpa [PcInv, State.setPc, Described] using hself
  apply h.setPc _ _ _ hgoal
  · obtain ⟨spin, hpc | hpc⟩ | ⟨count, hpc | hpc⟩ := hpc <;> simp [hpc]
  · obtain rfl | rfl | ⟨spin, rfl⟩ | ⟨count, rfl | rfl⟩ := hkind <;> rfl
  · obtain ⟨spin, hpc | hpc⟩ | ⟨count, hpc | hpc⟩ := hpc <;>
      obtain rfl | rfl | ⟨spin, rfl⟩ | ⟨count, rfl | rfl⟩ := hkind <;> simp [hpc]

lemma Inv.tryOwner {spin : Bool} (h : Inv s) (hpc : s.pc t = .tryOwner spin) :
    Inv (if s.owningThread = some t then s.setPc t .tryIncrement
      else s.setPc t (if spin then .spin s.spinCount else .idle)) := by
  have hself := h.threads t
  simp only [PcInv, hpc] at hself
  split
  · rename_i howner
    have hpos := (h.owning_iff hself.1).mp howner
    apply h.setPc (by simp [hpc]) (by rfl) (by simp [hpc])
    simpa [PcInv, State.setPc, Described] using ⟨hpos, hself.1 hpos, hself.2⟩
  · apply h.spinning (.inl ⟨spin, .inr hpc⟩)
    cases spin <;> simp

lemma Inv.checkOwner (h : Inv s) (hpc : s.pc t = .checkOwner) :
    Inv (s.setPc t (if s.owningThread = some t then .recurse else .waitSection)) := by
  have hself := h.threads t
  simp only [PcInv, hpc] at hself
  have howning := h.owning_iff fun hpos => (hself.1 hpos).1
  split
  · rename_i howner
    have hpos := howning.mp howner
    apply h.setPc (by simp [hpc]) (by rfl) (by simp [hpc])
    simpa [PcInv, State.setPc, Described] using ⟨hpos, hself.1 hpos⟩
  rename_i hother
  have hzero : s.depth t = 0 := Nat.eq_zero_of_not_pos fun hpos => hother (howning.mpr hpos)
  apply h.setPc (by simp [hpc]) (by rfl) (by simp [hpc])
  simpa [PcInv, State.setPc] using ⟨hzero, hself.2 hzero⟩

omit [DecidableEq T] in
lemma Inv.depth_lt (h : Inv s) (hpos : s.depth t > 0) : s.depth t < 2 ^ 31 := by
  obtain ⟨_, _, hcount⟩ := h.held_of_depth hpos
  have hsmall := h.small
  omega

lemma Inv.recurse (h : Inv s) (hpc : s.pc t = .recurse) :
    Inv { s.setPc t .idle with recursionCount := s.recursionCount + 1 } := by
  have hself := h.threads t
  simp only [PcInv, hpc] at hself
  obtain ⟨hpos, ⟨howning, hrecursion⟩, hmem⟩ := hself
  have hlt := h.depth_lt hpos
  apply h.of_fields (h.out_of_pc (by simp [hpc]) (by simp [hpc])) (by rfl) (by simp [hpc])
    (.inl hpos) (.inl rfl)
  have hadd : (s.recursionCount + 1).toNat = s.recursionCount.toNat + 1 := by bv_omega
  simp only [PcInv, State.setPc, update_self, Described, hadd]
  exact ⟨fun _ => ⟨howning, by omega⟩, hmem⟩

lemma Inv.setOwner (h : Inv s) (hpc : s.pc t = .setOwner) :
    Inv { s.setPc t .setRecursion with owningThread := some t } := by
  have hself := h.threads t
  simp only [PcInv, hpc] at hself
  have hpos : s.depth t > 0 := by omega
  apply h.of_fields (h.out_of_pc (by simp [hpc]) (by simp [hpc])) (by rfl) (by simp [hpc])
    (.inl hpos) (.inr (.inr ⟨rfl, hpos⟩))
  simpa [PcInv, State.setPc] using hself

lemma Inv.setRecursion (h : Inv s) (hpc : s.pc t = .setRecursion) :
    Inv { s.setPc t .idle with recursionCount := 1 } := by
  have hself := h.threads t
  simp only [PcInv, hpc] at hself
  obtain ⟨hdepth, howning, hmem⟩ := hself
  apply h.of_fields (h.out_of_pc (by simp [hpc]) (by simp [hpc])) (by rfl) (by simp [hpc])
    (.inl (by omega)) (.inl rfl)
  simp only [PcInv, State.setPc, update_self, Described]
  exact ⟨fun _ => ⟨howning, hdepth.symm⟩, hmem⟩

lemma Inv.clearOwner (h : Inv s) (hpc : s.pc t = .clearOwner) :
    Inv { s.setPc t .release with owningThread := none } := by
  have hself := h.threads t
  simp only [PcInv, hpc] at hself
  obtain ⟨hdepth, _, hmem⟩ := hself
  apply h.of_fields (h.out_of_pc (by simp [hpc]) (by simp [hpc])) (by rfl) (by simp [hpc])
    (.inl (by omega)) (.inr (.inl rfl))
  simpa [PcInv, State.setPc] using ⟨hdepth, hmem⟩

lemma Inv.leave (h : Inv s) (hpc : s.pc t = .idle) (hpos : s.depth t > 0) :
    let recursionCount := s.recursionCount - 1
    Inv { s.setPc t (if recursionCount = 0 then .clearOwner
      else if recursionCount.toInt > 0 then .leaveRecursive else .idle) with
      recursionCount := recursionCount } := by
  have hself := h.threads t
  simp only [PcInv, hpc] at hself
  obtain ⟨hdescribed, hmem⟩ := hself
  obtain ⟨howning, hrecursion⟩ := hdescribed hpos
  have hlt := h.depth_lt hpos
  have hsub : (s.recursionCount - 1).toNat = s.depth t - 1 := by bv_omega
  have hlast : s.recursionCount - 1 = 0 ↔ s.depth t = 1 := by
    rw [← BitVec.toNat_inj, hsub]
    change s.depth t - 1 = 0 ↔ _
    omega
  have hmore : (s.recursionCount - 1).toInt = (s.depth t - 1 : Nat) := by
    rw [BitVec.toInt_eq_toNat_of_lt (by omega), hsub]
  have hout : s.futexes.phase t = .out := h.out_of_pc (by simp [hpc]) (by simp [hpc])
  dsimp only
  by_cases hone : s.depth t = 1
  · rw [if_pos (hlast.mpr hone)]
    apply h.of_fields hout (by rfl) (by simp [hpc]) (.inl hpos) (.inl rfl)
    simp only [PcInv, State.setPc, update_self, Described, hsub]
    exact ⟨hone, ⟨howning, by omega⟩, hmem⟩
  rw [if_neg (mt hlast.mp hone), if_pos (by omega)]
  apply h.of_fields hout (by rfl) (by simp [hpc]) (.inl hpos) (.inl rfl)
  simp only [PcInv, State.setPc, update_self, Described, hsub]
  exact ⟨by omega, ⟨howning, by omega⟩, hmem⟩

omit [DecidableEq T] in
lemma Inv.queued_committed (h : Inv s) (hmem : (t, ()) ∈ s.futexes.queue) :
    s.pc t = .waiting ∧ t ∈ s.committed := by
  have hphase := h.futexes.queued t () hmem
  have hlinked := h.linked t
  have hself := h.threads t
  cases hpc : s.pc t with
  | waiting =>
    simp only [PcInv, hpc] at hself
    exact ⟨rfl, hself.2.1⟩
  | waking =>
    rw [hpc] at hlinked
    obtain ⟨tids, htids⟩ := hlinked
    simp [htids] at hphase
  | _ =>
    rw [hpc] at hlinked
    have hout : s.futexes.phase t = .out := hlinked
    simp [hout] at hphase

lemma Inv.compare (h : Inv s) (hpc : s.pc t = .compare) :
    Inv (if s.lockSemaphore = .value false then
      { s.setPc t .waiting with futexes := s.futexes.wait t () }
      else s.setPc t .waitSemaphore) := by
  have hself := h.threads t
  simp only [PcInv, hpc] at hself
  have hout : s.futexes.phase t = .out := h.out_of_pc (by simp [hpc]) (by simp [hpc])
  split
  · rename_i hnone
    apply h.of_futexes (h.futexes.wait hout)
    · exact fun u hne => update_of_ne hne _ _
    · exact .inl (update_self _ _ _)
    · simp [hpc]
    · simpa [PcInv, State.setPc] using hself
    · simp [hnone]
    · simp [hpc]
  · apply h.setPc (by simp [hpc]) (by rfl) (by simp [hpc])
    simpa [PcInv, State.setPc] using ⟨hself.1, hself.2.1⟩

lemma Inv.resume {futexes : Futexes T Unit} (h : Inv s) (hpc : s.pc t = .waiting)
    (hresume : s.futexes.resume t = some futexes) :
    Inv (match futexes.phase t with
      | .out => { s.setPc t .waitSemaphore with futexes := futexes }
      | _ => { s with futexes := futexes }) := by
  have hself := h.threads t
  simp only [PcInv, hpc] at hself
  have hsub : ∀ v, futexes.Dormant v () → s.futexes.Dormant v () :=
    fun v hv => (Futexes.dormant_resume hresume hv).1
  have hinv := h.futexes.resume hresume
  obtain ⟨addr, _, _, rfl⟩ | ⟨addr, _, rfl⟩ := Futexes.resume_cases hresume
  · dsimp only
    rw [update_self]
    have hsame : s.setPc t .waiting = s := by simp [State.setPc, ← hpc]
    have hresult := @Inv.of_futexes T s t _ .waiting _ h hinv
      (fun u hne => update_of_ne hne _ _) (.inr (update_self _ _ _))
      (by simp [hpc]) (by simpa [PcInv, State.setPc] using hself) (fun _ v => hsub v)
      (by simp [hpc])
    rw [hsame] at hresult
    exact hresult
  dsimp only
  rw [update_self]
  apply h.of_futexes hinv (fun u hne => update_of_ne hne _ _)
  · exact update_self _ _ _
  · simp [hpc]
  · simpa [PcInv, State.setPc] using ⟨hself.1, hself.2.1⟩
  · exact fun _ v => hsub v
  · simp [hpc]

lemma Inv.wakeStep {futexes : Futexes T Unit} (h : Inv s) (hinv : futexes.Inv)
    (hpc : s.pc t = .wakeSingle ∨ s.pc t = .waking)
    (hothers : ∀ u ≠ t, futexes.phase u = s.futexes.phase u)
    (hphase : futexes.phase t = .out ∨ ∃ tids, futexes.phase t = .alerting tids)
    (hsub : ∀ v, futexes.Dormant v () → s.futexes.Dormant v ())
    (hsingle : s.pc t = .wakeSingle → ∀ v, futexes.Dormant v () →
      ∃ u ∈ s.committed, ¬futexes.Dormant u ()) : Inv (CriticalSections.wake s t futexes) := by
  have hself : s.depth t = 0 ∧ t ∉ s.committed := by
    have hself := h.threads t
    obtain hpc | hpc := hpc <;> simpa only [PcInv, hpc] using hself
  have hunwait : s.pc t ≠ .unwait := by
    obtain hpc | hpc := hpc <;> simp [hpc]
  unfold CriticalSections.wake
  obtain hout | ⟨tids, halerting⟩ := hphase
  · rw [hout]
    apply h.of_futexes hinv hothers (by exact hout) ⟨by simp, hunwait⟩ _ (fun _ v => hsub v) hsingle
    simp [PcInv, State.setPc, hself]
  rw [halerting]
  apply h.of_futexes hinv hothers (by exact ⟨tids, halerting⟩) ⟨by simp, hunwait⟩ _ (fun _ v => hsub v)
    hsingle
  simp [PcInv, State.setPc, hself]

end Steps

end WineForge.CriticalSections
