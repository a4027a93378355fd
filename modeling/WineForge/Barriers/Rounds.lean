import WineForge.Barriers.Steps

/-!
# Rounds and runs of a barrier

The last thread to reach the barrier fills the round, and the last one to leave it begins the next
one. The phases of a barrier are its rounds: a thread's k-th call reaches the barrier in round k.
-/

namespace WineForge.Barriers

open Function Library Option

variable {ι : Type} [Fintype ι] [DecidableEq ι] {s s' : State ι} {t u : ι} {thread : Thread}

lemma ThreadInv.length_le (h : ThreadInv s t thread) (hnot : ¬Full s) :
    thread.results.length ≤ s.round := by
  have hround : AtRound s thread → thread.arrivals = s.round :=
    fun h => h.resolve_right fun h => hnot h.2
  unfold ThreadInv at h
  cases hpc : thread.pc with
  | idle | lockStructure | previous | waitPrevious | asleepPrevious =>
    simp only [hpc] at h
    have harrivals := hround h.2.1
    omega
  | incrementWaiting | incrementReached | setComplete | wakeComplete | others | waitComplete
  | asleepComplete =>
    simp only [hpc] at h
    omega
  | decrementWaiting | clearComplete | clearReached =>
    simp only [hpc] at h
    have harrivals := h.1.1
    omega
  | wakeReached | unlockStructure | wakeStructure =>
    simp only [hpc] at h
    have harrivals := h.1.1
    have hround := hround h.2
    omega

lemma reach_threads (s : State ι) (t : ι) :
    (reach s t).threads = update s.threads t ((reach s t).threads t) ∧
      ((reach s t).threads t).arrivals = (s.threads t).arrivals + 1 ∧
      ((reach s t).threads t).results = (s.threads t).results ∧
      ((reach s t).threads t).ret = (s.threads t).ret ∧
      (reach s t).reachedThreadCount = s.reachedThreadCount + 1 ∧
      (reach s t).round = s.round ∧ (reach s t).waitingThreadCount = s.waitingThreadCount := by
  unfold reach
  dsimp only
  split
  · refine ⟨?_, ?_, ?_, ?_, rfl, rfl, rfl⟩
    · simp [State.set]
    · simp [State.set]
    · simp [State.set]
    · simp [State.set]
  refine ⟨?_, ?_, ?_, ?_, rfl, rfl, rfl⟩
  · simp [State.set]
  · simp [State.set]
  · simp [State.set]
  · simp [State.set]

lemma reach_cases (s : State ι) (t : ι) : (Fintype.card ι ≤ s.reachedThreadCount + 1 ∧
      ((reach s t).threads t).pc = .setComplete ∧
      (reach s t).last = update s.last s.round (some t)) ∨
    (s.reachedThreadCount + 1 < Fintype.card ι ∧ ((reach s t).threads t).pc = .others ∧
      (reach s t).last = s.last) := by
  unfold reach totalThreadCount
  dsimp only
  split
  · rename_i hfull
    exact .inl ⟨hfull, by simp [State.set], rfl⟩
  · rename_i hnot
    exact .inr ⟨Nat.not_le.mp hnot, by simp [State.set], rfl⟩

lemma Inv.reach (h : Inv s) (hpc : (s.threads t).pc = .incrementReached) :
    Inv (Barriers.reach s t) := by
  have ht := h.threads t
  unfold ThreadInv at ht
  simp only [hpc] at ht
  obtain ⟨hlength, hround, hret⟩ := ht
  have hnot := h.not_full hround
  have hle := h.reached_le
  obtain ⟨hthreads, harrivals, hresults, hret', hreached, hround', hwaiting⟩ := reach_threads s t
  have hother : ∀ u, u ≠ t → (Barriers.reach s t).threads u = s.threads u := by
    intro u hu
    rw [hthreads, update_of_ne hu]
  have hnone : ∀ u, s.last s.round ≠ some u := by
    intro u hu
    obtain hlt | ⟨_, hfull⟩ := (h.last s.round).mp ⟨u, hu⟩
    · exact absurd hlt (lt_irrefl _)
    · exact hnot hfull
  have hcounted : ((Barriers.reach s t).threads t).pc.counted = true := by
    obtain ⟨_, hpc', _⟩ | ⟨_, hpc', _⟩ := reach_cases s t
    · rw [hpc']
      rfl
    · rw [hpc']
      rfl
  have hlast : ∀ u, u ≠ t → ∀ k, (Barriers.reach s t).last k = some u ↔ s.last k = some u := by
    intro u hu k
    obtain ⟨_, _, hlast⟩ | ⟨_, _, hlast⟩ := reach_cases s t
    · rw [hlast]
      by_cases hk : k = s.round
      · rw [hk, update_self]
        exact iff_of_false (fun heq => hu (some.inj heq).symm) (hnone u)
      · rw [update_of_ne hk]
    · rw [hlast]
  have hold : ∀ u pc, pc ≠ .incrementReached → (s.threads u).pc = pc →
      ((Barriers.reach s t).threads u).pc = pc := by
    intro u pc hne hu
    rw [hother u, hu]
    rintro rfl
    exact hne (hu.symm.trans hpc)
  refine ⟨fun u => ?_, ?_, ?_, ?_, ?_, ?_, ?_, ?_, ?_, ?_⟩
  · by_cases hu : u = t
    · subst hu
      obtain ⟨hfull, hpc', hlast'⟩ | ⟨_, hpc', hlast'⟩ := reach_cases s u
      · unfold ThreadInv
        simp only [hpc']
        refine ⟨by rw [hresults]; omega, by omega, ?_, ?_⟩
        · unfold Full at hnot ⊢
          omega
        · rw [hlast', hround', update_self]
      unfold ThreadInv
      simp only [hpc']
      refine ⟨by rw [hresults]; omega, by omega, ?_, hret'.trans hret⟩
      rw [hlast', hround']
      exact hnone u
    · rw [hother u hu]
      exact (h.threads u).transfer hround' (fun hfull => absurd hfull hnot)
        (fun hfull => absurd hfull hnot) (hlast u hu)
  · have hchange := census_change
      (p := fun thread : Thread => decide (thread.arrivals = s.round + 1)) (f := s.threads)
      (g := (Barriers.reach s t).threads) t fun u hu => by rw [hother u hu]
    have hbefore : ¬(s.threads t).arrivals = s.round + 1 := by omega
    have hafter : ((Barriers.reach s t).threads t).arrivals = s.round + 1 := by omega
    rw [decide_eq_false hbefore, decide_eq_true hafter] at hchange
    rw [hreached, hround', h.reached]
    exact hchange.symm
  · have hchange := census_change (p := fun thread : Thread => thread.pc.counted) (f := s.threads)
      (g := (Barriers.reach s t).threads) t fun u hu => by rw [hother u hu]
    have hbefore : (s.threads t).pc.counted = true := by
      rw [hpc]
      rfl
    rw [hbefore, hcounted] at hchange
    rw [hwaiting, h.waiting]
    omega
  · intro k
    rw [hround']
    obtain ⟨hfull, _, hlast'⟩ | ⟨hlt, _, hlast'⟩ := reach_cases s t
    · have hfull' : Full (Barriers.reach s t) := by
        unfold Full at hnot ⊢
        omega
      rw [hlast']
      by_cases hk : k = s.round
      · subst hk
        rw [update_self]
        exact iff_of_true ⟨t, rfl⟩ (.inr ⟨rfl, hfull'⟩)
      · rw [update_of_ne hk, h.last k]
        exact or_congr_right (iff_of_false (fun h => hk h.1) (fun h => hk h.1))
    have hnot' : ¬Full (Barriers.reach s t) := by
      unfold Full
      omega
    rw [hlast', h.last k]
    exact or_congr_right (iff_of_false (fun h => hnot h.2) (fun h => hnot' h.2))
  · intro u k hk
    have hsame : ((Barriers.reach s t).threads u).results = (s.threads u).results := by
      by_cases hu : u = t
      · rw [hu, hresults]
      · rw [hother u hu]
    rw [hsame] at hk ⊢
    rw [h.results u k hk]
    have hlt := (h.threads u).length_le hnot
    obtain ⟨_, _, hlast'⟩ | ⟨_, _, hlast'⟩ := reach_cases s t
    · rw [hlast', update_of_ne (by omega)]
    · rw [hlast']
  · have hclear : ∀ u, ((Barriers.reach s t).threads u).pc.clearing = true → False := by
      intro u hu
      by_cases hut : u = t
      · obtain ⟨_, hpc', _⟩ | ⟨_, hpc', _⟩ := reach_cases s t
        · rw [hut, hpc'] at hu
          exact absurd hu (by simp [Pc.clearing])
        · rw [hut, hpc'] at hu
          exact absurd hu (by simp [Pc.clearing])
      · rw [hother u hut] at hu
        exact hnot (h.clearing_spec hu).2.1
    exact fun u _ hu => (hclear u hu).elim
  · intro hfull
    obtain ⟨_, hpc', _⟩ | ⟨hlt, _, _⟩ := reach_cases s t
    · exact .inr (.inl ⟨t, hpc'⟩)
    · unfold Full at hfull
      omega
  · intro _
    left
    rw [hwaiting]
    exact h.waiting_pos (by rw [hpc]; rfl)
  · intro u hu
    obtain ⟨_, hpc', _⟩ | ⟨hlt, _, _⟩ := reach_cases s t
    · exact .inr ⟨t, .inl hpc'⟩
    · refine .inl fun hfull => ?_
      unfold Full at hfull
      omega
  · intro u hu
    have hut : u ≠ t := by
      rintro rfl
      rw [hu] at hcounted
      exact absurd hcounted (by simp [Pc.counted])
    rw [hother u hut] at hu
    obtain hfull | ⟨v, hv⟩ := h.asleepPrevious u hu
    · exact absurd hfull hnot
    · exact .inr ⟨v, hold v _ (by simp) hv⟩

lemma Inv.not_counted (h : Inv s) (hzero : s.waitingThreadCount = 0) (u : ι) :
    (s.threads u).pc.counted = false :=
  Bool.eq_false_iff.mpr fun hcounted => h.waiting_pos hcounted hzero

lemma Inv.clearReached (h : Inv s) (hpc : (s.threads t).pc = .clearReached) :
    Inv { s.setPc t .wakeReached with reachedThreadCount := 0, round := s.round + 1 } := by
  have ht := h.threads t
  unfold ThreadInv at ht
  simp only [hpc] at ht
  obtain ⟨⟨hlength, hret⟩, hround, hfull, hzero⟩ := ht
  have hclearing : (s.threads t).pc.clearing = true := by
    rw [hpc]
    rfl
  have hself : ({ s.setPc t .wakeReached with
      reachedThreadCount := 0, round := s.round + 1 } : State ι).threads t =
        { s.threads t with pc := .wakeReached } := set_threads_self ..
  have hother : ∀ u, u ≠ t → ({ s.setPc t .wakeReached with
      reachedThreadCount := 0, round := s.round + 1 } : State ι).threads u = s.threads u :=
    fun u hu => set_threads_of_ne s _ hu
  have hnot : ¬Full ({ s.setPc t .wakeReached with
      reachedThreadCount := 0, round := s.round + 1 } : State ι) := by
    have hpos : 0 < Fintype.card ι := Fintype.card_pos_iff.mpr ⟨t⟩
    change ¬0 = Fintype.card ι
    omega
  have hclear : ∀ u, u ≠ t → (s.threads u).pc.clearing = false :=
    fun u hu => Bool.eq_false_iff.mpr fun hclear => hu (h.unique u t hclear hclearing)
  refine ⟨fun u => ?_, ?_, ?_, fun k => ?_, ?_, ?_, ?_, ?_, ?_, ?_⟩
  · by_cases hut : u = t
    · subst hut
      rw [hself]
      exact ⟨⟨hlength, hret⟩, .inl hround⟩
    rw [hother u hut]
    have hu := h.threads u
    have harrivals := h.arrivals_of_full hfull u
    have hcounted := h.not_counted hzero u
    have hclear := hclear u hut
    unfold ThreadInv at hu ⊢
    cases hupc : (s.threads u).pc with
    | idle | lockStructure | previous | waitPrevious | asleepPrevious =>
      simp only [hupc] at hu ⊢
      exact ⟨hu.1, .inl harrivals, hu.2.2⟩
    | incrementWaiting =>
      simp only [hupc] at hu
      omega
    | incrementReached | setComplete | wakeComplete | others | waitComplete | asleepComplete
    | decrementWaiting =>
      rw [hupc] at hcounted
      exact absurd hcounted (by simp [Pc.counted])
    | clearComplete | clearReached =>
      rw [hupc] at hclear
      exact absurd hclear (by simp [Pc.clearing])
    | wakeReached | unlockStructure | wakeStructure =>
      simp only [hupc] at hu ⊢
      exact ⟨hu.1, .inl harrivals⟩
  · refine ((census_eq_zero (p := fun thread : Thread =>
      decide (thread.arrivals = s.round + 1 + 1))).mpr fun u => decide_eq_false ?_).symm
    have harrivals := h.arrivals_of_full hfull u
    by_cases hut : u = t
    · rw [hut, hself]
      dsimp only
      omega
    · rw [hother u hut]
      omega
  · refine hzero.trans (census_eq_zero.mpr fun u => ?_).symm
    by_cases hut : u = t
    · rw [hut, hself]
      rfl
    · rw [hother u hut]
      exact h.not_counted hzero u
  · refine (h.last k).trans ?_
    dsimp only
    constructor
    · omega
    · rintro (hlt | ⟨_, hfull'⟩)
      · obtain hlt | heq := lt_or_eq_of_le (Nat.lt_succ_iff.mp hlt)
        · exact .inl hlt
        · exact .inr ⟨heq, hfull⟩
      · exact absurd hfull' hnot
  · intro u k hk
    have hsame : (({ s.setPc t .wakeReached with
        reachedThreadCount := 0, round := s.round + 1 } : State ι).threads u).results =
          (s.threads u).results := by
      by_cases hut : u = t
      · rw [hut, hself]
      · rw [hother u hut]
    rw [hsame] at hk ⊢
    exact h.results u k hk
  · have hnone : ∀ u, (({ s.setPc t .wakeReached with
        reachedThreadCount := 0, round := s.round + 1 } : State ι).threads u).pc.clearing =
          false := by
      intro u
      by_cases hut : u = t
      · rw [hut, hself]
        rfl
      · rw [hother u hut]
        exact hclear u hut
    intro u v hu
    rw [hnone u] at hu
    simp at hu
  · exact fun hfull' => absurd hfull' hnot
  · exact fun hfull' => absurd hfull' hnot
  · exact fun _ _ => .inl hnot
  · refine fun _ _ => .inr ⟨t, ?_⟩
    rw [hself]

lemma Inv.spin {wait : Pc} (h : Inv s) (hwait : ThreadInv s t { s.threads t with pc := wait })
    (hcounted : wait.counted = (s.threads t).pc.counted) (hclearing : wait.clearing = false)
    (hasleep : wait ≠ .asleepComplete ∧ wait ≠ .asleepPrevious)
    (hold : (s.threads t).pc.clearing = false ∧ (s.threads t).pc ≠ .setComplete ∧
      (s.threads t).pc ≠ .wakeComplete ∧ (s.threads t).pc ≠ .wakeReached)
    (hawake : (s.threads t).pc ≠ .asleepComplete ∧ (s.threads t).pc ≠ .asleepPrevious) :
    Inv (Barriers.spin s t wait) := by
  unfold Barriers.spin
  split
  · exact h.move s.structureLockCount (h.threads t) rfl rfl (.inl rfl) hold.1 hold
      (fun hpc => absurd hpc hawake.1) fun hpc => absurd hpc hawake.2
  · exact h.move s.structureLockCount hwait rfl hcounted (.inl rfl) hclearing hold
      (fun hpc => absurd hpc hasleep.1) fun hpc => absurd hpc hasleep.2

lemma next_inv (h : Inv s) (hstep : next s t = some s') : Inv s' := by
  have ht := h.threads t
  unfold ThreadInv at ht
  unfold next at hstep
  cases hpc : (s.threads t).pc with
  | idle | asleepPrevious | asleepComplete =>
    rw [hpc] at hstep
    simp at hstep
  | lockStructure =>
    simp only [hpc] at hstep ht
    rw [← some.inj hstep]
    exact h.move _ ⟨ht.1, ht.2.1, fun _ => ht.2.2 (by simp)⟩ rfl (by rw [hpc]; rfl) (.inl rfl)
      rfl (by simp [hpc, Pc.clearing]) (fun h => absurd h (by simp)) fun h => absurd h (by simp)
  | previous =>
    simp only [hpc] at hstep ht
    rw [← some.inj hstep]
    split
    · exact h.spin ⟨ht.1, ht.2.1, fun _ => ht.2.2 (by simp)⟩ (by rw [hpc]; rfl) rfl (by simp)
        (by simp [hpc, Pc.clearing]) (by simp [hpc])
    rename_i hless
    have hnot : ¬Full s := by
      intro hfull
      exact hless (le_of_eq hfull.symm)
    have hround : (s.threads t).arrivals = s.round := ht.2.1.resolve_right fun h => hnot h.2
    exact h.move s.structureLockCount ⟨ht.1, hround, ht.2.2 (by simp)⟩ rfl (by rw [hpc]; rfl)
      (.inl rfl) rfl (by simp [hpc, Pc.clearing]) (fun h => absurd h (by simp))
      fun h => absurd h (by simp)
  | waitPrevious =>
    simp only [hpc] at hstep ht
    rw [← some.inj hstep]
    split
    · rename_i hfull
      exact h.move s.structureLockCount ⟨ht.1, ht.2.1, fun _ => ht.2.2 (by simp)⟩ rfl
        (by rw [hpc]; rfl) (.inl rfl) rfl (by simp [hpc, Pc.clearing])
        (fun h => absurd h (by simp)) fun _ => hfull
    · exact h.move s.structureLockCount ⟨ht.1, ht.2.1, fun _ => ht.2.2 (by simp)⟩ rfl
        (by rw [hpc]; rfl) (.inl rfl) rfl (by simp [hpc, Pc.clearing])
        (fun h => absurd h (by simp)) fun h => absurd h (by simp)
  | incrementWaiting =>
    simp only [hpc] at hstep
    exact some.inj hstep ▸ h.incrementWaiting hpc
  | incrementReached =>
    simp only [hpc] at hstep
    exact some.inj hstep ▸ h.reach hpc
  | setComplete =>
    simp only [hpc] at hstep
    exact some.inj hstep ▸ h.setComplete hpc
  | wakeComplete =>
    simp only [hpc] at hstep
    exact some.inj hstep ▸ h.wakeComplete hpc
  | others =>
    simp only [hpc] at hstep ht
    rw [← some.inj hstep]
    split
    · exact h.spin ht (by rw [hpc]; rfl) rfl (by simp) (by simp [hpc, Pc.clearing]) (by simp [hpc])
    rename_i hless
    have hfull : Full s := le_antisymm h.reached_le (Nat.not_lt.mp hless)
    obtain ⟨hlength, hround, hlast, hret⟩ := ht
    have hround' : (s.threads t).results.length = s.round := by omega
    refine h.move s.structureLockCount ⟨⟨hlength, ?_⟩, hround, hfull⟩ rfl (by rw [hpc]; rfl)
      (.inl rfl) rfl (by simp [hpc, Pc.clearing]) (fun h => absurd h (by simp))
      fun h => absurd h (by simp)
    rw [hround', decide_eq_false hlast, hret]
  | waitComplete =>
    simp only [hpc] at hstep ht
    rw [← some.inj hstep]
    split
    · rename_i hzero
      refine h.move s.structureLockCount ht rfl (by rw [hpc]; rfl) (.inl rfl) rfl
        (by simp [hpc, Pc.clearing]) (fun _ => ?_) fun h => absurd h (by simp)
      by_cases hfull : Full s
      · obtain hset | ⟨u, hu⟩ | hnone := h.complete hfull
        · exact absurd hzero hset
        · exact .inr ⟨u, .inl hu⟩
        · exact absurd hnone (h.waiting_pos (by rw [hpc]; rfl))
      · exact .inl hfull
    · exact h.move s.structureLockCount ht rfl (by rw [hpc]; rfl) (.inl rfl) rfl
        (by simp [hpc, Pc.clearing]) (fun h => absurd h (by simp)) fun h => absurd h (by simp)
  | decrementWaiting =>
    simp only [hpc] at hstep
    exact some.inj hstep ▸ h.decrementWaiting hpc
  | clearComplete =>
    simp only [hpc] at hstep
    exact some.inj hstep ▸ h.clearComplete hpc
  | clearReached =>
    simp only [hpc] at hstep
    exact some.inj hstep ▸ h.clearReached hpc
  | wakeReached =>
    simp only [hpc] at hstep
    exact some.inj hstep ▸ h.wakeReached hpc
  | unlockStructure =>
    simp only [hpc] at hstep ht
    rw [← some.inj hstep]
    split
    · exact h.move _ ht rfl (by rw [hpc]; rfl) (.inl rfl) rfl (by simp [hpc, Pc.clearing])
        (fun h => absurd h (by simp)) fun h => absurd h (by simp)
    · exact h.finish ht (by rw [hpc]; rfl) (by simp [hpc, Pc.clearing])
  | wakeStructure =>
    simp only [hpc] at hstep ht
    rw [← some.inj hstep]
    exact h.finish ht (by rw [hpc]; rfl) (by simp [hpc, Pc.clearing])

lemma step_inv {op : Op ι} (h : Inv s) (hstep : step s op = some s') : Inv s' := by
  cases op with
  | call t noDelete =>
    rw [step] at hstep
    split at hstep
    · rename_i hpc
      have ht := h.threads t
      unfold ThreadInv at ht
      simp only [hpc] at ht
      rw [← some.inj hstep]
      refine h.move s.structureLockCount ?_ rfl ?_ (.inl rfl) ?_ (by simp [hpc, Pc.clearing]) ?_ ?_
      · cases noDelete with
        | false | true => exact ⟨ht.1, ht.2.1, fun _ => rfl⟩
      · rw [hpc]
        cases noDelete <;> rfl
      · cases noDelete <;> rfl
      · cases noDelete <;> exact fun h => absurd h (by simp)
      · cases noDelete <;> exact fun h => absurd h (by simp)
    · simp at hstep
  | next t => exact next_inv h hstep
  | spurious t =>
    have ht := h.threads t
    unfold ThreadInv at ht
    unfold step at hstep
    cases hpc : (s.threads t).pc with
    | asleepPrevious =>
      simp only [hpc] at hstep ht
      rw [← some.inj hstep]
      exact h.move s.structureLockCount ⟨ht.1, ht.2.1, fun _ => ht.2.2 (by simp)⟩ rfl
        (by rw [hpc]; rfl) (.inl rfl) rfl (by simp [hpc, Pc.clearing])
        (fun h => absurd h (by simp)) fun h => absurd h (by simp)
    | asleepComplete =>
      simp only [hpc] at hstep ht
      rw [← some.inj hstep]
      exact h.move s.structureLockCount ht rfl (by rw [hpc]; rfl) (.inl rfl) rfl
        (by simp [hpc, Pc.clearing]) (fun h => absurd h (by simp)) fun h => absurd h (by simp)
    | _ =>
      simp only [hpc] at hstep
      simp at hstep

lemma ThreadInv.bounds (h : ThreadInv s t thread) :
    thread.results.length ≤ thread.arrivals ∧ s.round ≤ thread.arrivals ∧
      thread.arrivals ≤ s.round + 1 := by
  have hround : AtRound s thread → s.round ≤ thread.arrivals ∧ thread.arrivals ≤ s.round + 1 := by
    unfold AtRound
    omega
  unfold ThreadInv at h
  cases hpc : thread.pc with
  | idle | lockStructure | previous | waitPrevious | asleepPrevious =>
    simp only [hpc] at h
    exact ⟨le_of_eq h.1.symm, hround h.2.1⟩
  | incrementWaiting | incrementReached | setComplete | wakeComplete | others | waitComplete
  | asleepComplete =>
    simp only [hpc] at h
    omega
  | decrementWaiting | clearComplete | clearReached =>
    simp only [hpc] at h
    have hlength := h.1.1
    omega
  | wakeReached | unlockStructure | wakeStructure =>
    simp only [hpc] at h
    have hlength := h.1.1
    exact ⟨by omega, hround h.2⟩

lemma Inv.reached_all {k : Nat} (h : Inv s) (hk : k < (s.threads t).results.length) (u : ι) :
    k < (s.threads u).arrivals ∧ (k < s.round ∨ k = s.round ∧ Full s) := by
  obtain ⟨hlength, _, hle⟩ := (h.threads t).bounds
  obtain ⟨_, hround, _⟩ := (h.threads u).bounds
  by_cases hfull : Full s
  · have hu := h.arrivals_of_full hfull u
    refine ⟨by omega, ?_⟩
    obtain hlt | heq := lt_or_eq_of_le (Nat.lt_succ_iff.mp (hk.trans_le (hlength.trans hle)))
    · exact .inl hlt
    · exact .inr ⟨heq, hfull⟩
  · have hlt := (h.threads t).length_le hfull
    omega

lemma Inv.exists_behind (h : Inv s) (hnot : ¬Full s) :
    ∃ u, (s.threads u).arrivals < s.round + 1 := by
  by_contra hnone
  apply hnot
  unfold Full
  rw [h.reached]
  apply census_of_forall
  intro u
  have hge : ¬(s.threads u).arrivals < s.round + 1 := fun hlt => hnone ⟨u, hlt⟩
  have hbounds := (h.threads u).bounds
  exact decide_eq_true (by omega)

lemma Inv.exists_inside (h : Inv s) (hfull : Full s) :
    ∃ u, (s.threads u).results.length < s.round + 1 := by
  obtain hpos | ⟨u, hu⟩ := h.leaves hfull
  · rw [h.waiting] at hpos
    obtain ⟨u, hu⟩ := exists_of_census_pos (pos_of_ne_zero hpos)
    have ht := h.threads u
    unfold ThreadInv at ht
    refine ⟨u, ?_⟩
    cases hpc : (s.threads u).pc with
    | incrementReached | setComplete | wakeComplete | others | waitComplete | asleepComplete =>
      simp only [hpc] at ht
      omega
    | decrementWaiting =>
      simp only [hpc] at ht
      have hlength := ht.1.1
      omega
    | _ =>
      rw [hpc] at hu
      exact absurd hu (by simp [Pc.counted])
  · have ht := h.threads u
    unfold ThreadInv at ht
    refine ⟨u, ?_⟩
    cases hpc : (s.threads u).pc with
    | clearComplete | clearReached =>
      simp only [hpc] at ht
      have hlength := ht.1.1
      omega
    | _ =>
      rw [hpc] at hu
      exact absurd hu (by simp [Pc.clearing])

/-- Two threads pass the barrier: the first one spins once and sleeps, the second one wakes it. -/
def passing : List (Op (Fin 2)) :=
  [.call 0 false, .next 0, .next 0, .next 0, .next 0, .next 0, .next 0, .call 1 true] ++
    List.replicate 7 (.next 1)

end WineForge.Barriers
