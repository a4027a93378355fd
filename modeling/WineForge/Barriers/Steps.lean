import WineForge.Barriers.State

/-!
# The steps of `RtlBarrier`

Each step keeps the invariant: most of them only move one thread inside the round, the increment of
`reached_thread_count` may fill the round, and its reset begins the next one.
-/

namespace WineForge.Barriers

open Function Library List

variable {ι : Type} [Fintype ι] [DecidableEq ι] {s s' : State ι} {t u : ι} {thread : Thread}

omit [Fintype ι] in
lemma set_threads_self (s : State ι) (t : ι) (thread : Thread) :
    (s.set t thread).threads t = thread := update_self ..

omit [Fintype ι] in
lemma set_threads_of_ne (s : State ι) (thread : Thread) (hne : u ≠ t) :
    (s.set t thread).threads u = s.threads u := update_of_ne hne ..

omit [Fintype ι] in
lemma moves_update (hthreads : s'.threads = update s.threads t thread)
    (hround : s'.round = s.round) (hreached : s'.reachedThreadCount = s.reachedThreadCount)
    (hlast : s'.last = s.last) (harrivals : thread.arrivals = (s.threads t).arrivals)
    (hwaiting : s'.waitingThreadCount + (s.threads t).pc.counted.toNat =
      s.waitingThreadCount + thread.pc.counted.toNat) : Moves s s' t := by
  refine ⟨hround, hreached, hlast, fun u hu => ?_, ?_, ?_⟩
  · rw [hthreads, update_of_ne hu]
    exact .same _
  · rw [hthreads, update_self, harrivals]
  · rw [hthreads, update_self]
    exact hwaiting

lemma Inv.waiting_pos (h : Inv s) (ht : (s.threads t).pc.counted = true) :
    s.waitingThreadCount ≠ 0 := by
  rw [h.waiting]
  exact Nat.pos_iff_ne_zero.mp (census_pos (p := fun thread : Thread => thread.pc.counted) ht)

/-- No thread relies on one that is here. -/
@[simp] abbrev Pc.Inert (pc : Pc) : Prop :=
  pc.clearing = false ∧ pc ≠ .setComplete ∧ pc ≠ .wakeComplete ∧ pc ≠ .wakeReached

/-- The thread goes on, or its call returns. -/
abbrev Returns (s : State ι) (t : ι) (thread : Thread) : Prop :=
  thread.results = (s.threads t).results ∨
    Decided s t (s.threads t) ∧ thread.results = (s.threads t).results ++ [(s.threads t).ret]

/-- One thread moves inside the round, and nobody is woken. -/
lemma Inv.update (h : Inv s) (hthreads : s'.threads = Function.update s.threads t thread)
    (hround : s'.round = s.round) (hreached : s'.reachedThreadCount = s.reachedThreadCount)
    (hlast : s'.last = s.last) (harrivals : thread.arrivals = (s.threads t).arrivals)
    (hwaiting : s'.waitingThreadCount + (s.threads t).pc.counted.toNat =
      s.waitingThreadCount + thread.pc.counted.toNat) (ht : ThreadInv s' t thread)
    (hzero : Full s → s.waitingThreadCount = 0 → s'.waitingThreadCount = 0)
    (hresults : Returns s t thread)
    (hunique : thread.pc.clearing = true → ∀ u, u ≠ t → (s.threads u).pc.clearing = false)
    (hcomplete : Full s → s'.waitBarrierComplete ≠ 0 ∨
      (∃ u, u ≠ t ∧ (s.threads u).pc = .setComplete) ∨ s'.waitingThreadCount = 0)
    (hleaves : Full s → s'.waitingThreadCount ≠ 0 ∨ thread.pc.clearing = true ∨
      ∃ u, u ≠ t ∧ (s.threads u).pc.clearing = true)
    (hasleepComplete : thread.pc = .asleepComplete ∨ (∃ u, (s.threads u).pc = .asleepComplete) →
      ¬Full s ∨ thread.pc = .wakeComplete ∨
        ∃ u, u ≠ t ∧ ((s.threads u).pc = .setComplete ∨ (s.threads u).pc = .wakeComplete))
    (hasleepPrevious : thread.pc = .asleepPrevious ∨ (∃ u, (s.threads u).pc = .asleepPrevious) →
      Full s ∨ ∃ u, u ≠ t ∧ (s.threads u).pc = .wakeReached) : Inv s' := by
  have hself : s'.threads t = thread := hthreads ▸ update_self ..
  have hother : ∀ u, u ≠ t → s'.threads u = s.threads u := fun u hu =>
    hthreads ▸ update_of_ne hu ..
  have hkept : ∀ p : Pc → Prop, (∃ u, u ≠ t ∧ p (s.threads u).pc) → ∃ u, p (s'.threads u).pc :=
    fun p ⟨u, hu, hp⟩ => ⟨u, by rwa [hother u hu]⟩
  have hsome : ∀ u pc, (s'.threads u).pc = pc →
      thread.pc = pc ∨ ∃ u, (s.threads u).pc = pc := by
    intro u pc hu
    by_cases heq : u = t
    · rw [heq, hself] at hu
      exact .inl hu
    · rw [hother u heq] at hu
      exact .inr ⟨u, hu⟩
  refine (moves_update hthreads hround hreached hlast harrivals hwaiting).inv h
    (by rwa [hself]) hzero (by rwa [hself]) (by rwa [hself]) (fun hfull => ?_) (fun hfull => ?_)
    (fun u hu => ?_) fun u hu => ?_
  · exact (hcomplete hfull).imp_right (Or.imp_left (hkept (· = .setComplete)))
  · obtain hpos | hclear | hclear := hleaves hfull
    · exact .inl hpos
    · exact .inr ⟨t, by rwa [hself]⟩
    · exact .inr (hkept (·.clearing = true) hclear)
  · obtain hnot | hwake | hv := hasleepComplete (hsome u _ hu)
    · exact .inl hnot
    · exact .inr ⟨t, .inr (by rwa [hself])⟩
    · exact .inr (hkept (fun pc => pc = .setComplete ∨ pc = .wakeComplete) hv)
  · exact (hasleepPrevious (hsome u _ hu)).imp_right (hkept (· = .wakeReached))

omit [Fintype ι] [DecidableEq ι] in
lemma exists_other {p : Pc → Prop} (hnot : ¬p (s.threads t).pc) (h : ∃ u, p (s.threads u).pc) :
    ∃ u, u ≠ t ∧ p (s.threads u).pc := by
  obtain ⟨u, hu⟩ := h
  exact ⟨u, fun heq => hnot (heq ▸ hu), hu⟩

/-- A thread that nobody waits for moves, and none does then. -/
lemma Inv.pass (h : Inv s) (hthreads : s'.threads = Function.update s.threads t thread)
    (hround : s'.round = s.round) (hreached : s'.reachedThreadCount = s.reachedThreadCount)
    (hlast : s'.last = s.last) (hbarrier : s'.waitBarrierComplete = s.waitBarrierComplete)
    (ht : ThreadInv s' t thread) (harrivals : thread.arrivals = (s.threads t).arrivals)
    (hwaiting : s'.waitingThreadCount + (s.threads t).pc.counted.toNat =
      s.waitingThreadCount + thread.pc.counted.toNat)
    (hzero : Full s → (s'.waitingThreadCount = 0 ↔ s.waitingThreadCount = 0))
    (hresults : Returns s t thread)
    (hclearing : thread.pc.clearing = false)
    (hold : (s.threads t).pc.Inert)
    (hasleepComplete : thread.pc = .asleepComplete →
      ¬Full s ∨ ∃ u, (s.threads u).pc = .setComplete ∨ (s.threads u).pc = .wakeComplete)
    (hasleepPrevious : thread.pc = .asleepPrevious → Full s) : Inv s' := by
  obtain ⟨hclear, hset, hwake, hreached'⟩ := hold
  refine h.update hthreads hround hreached hlast harrivals hwaiting ht
    (fun hfull => (hzero hfull).mpr) hresults (by simp [hclearing]) (fun hfull => ?_)
    (fun hfull => ?_) (fun hu => ?_) fun hu => ?_
  · rw [hbarrier, hzero hfull]
    exact (h.complete hfull).imp_right (Or.imp_left (exists_other (p := (· = .setComplete)) hset))
  · rw [Ne, hzero hfull]
    exact (h.leaves hfull).imp_right fun hu =>
      .inr (exists_other (p := (·.clearing = true)) (by simp [hclear]) hu)
  · have hcases := hu.elim hasleepComplete fun ⟨u, hu⟩ => h.asleepComplete u hu
    exact hcases.imp_right fun hv => .inr (exists_other
      (p := fun pc => pc = .setComplete ∨ pc = .wakeComplete) (by simp [hset, hwake]) hv)
  · obtain hself | ⟨u, hu⟩ := hu
    · exact .inl (hasleepPrevious hself)
    · exact (h.asleepPrevious u hu).imp_right (exists_other (p := (· = .wakeReached)) hreached')

lemma Inv.move (locked : Nat) (h : Inv s) (ht : ThreadInv s t thread)
    (harrivals : thread.arrivals = (s.threads t).arrivals)
    (hcounted : thread.pc.counted = (s.threads t).pc.counted)
    (hresults : Returns s t thread)
    (hclearing : thread.pc.clearing = false)
    (hold : (s.threads t).pc.Inert)
    (hasleepComplete : thread.pc = .asleepComplete →
      ¬Full s ∨ ∃ u, (s.threads u).pc = .setComplete ∨ (s.threads u).pc = .wakeComplete)
    (hasleepPrevious : thread.pc = .asleepPrevious → Full s) :
    Inv { s.set t thread with structureLockCount := locked } :=
  h.pass rfl rfl rfl rfl rfl ht harrivals (by rw [hcounted]; rfl) (fun _ => Iff.rfl) hresults
    hclearing hold hasleepComplete hasleepPrevious

lemma Inv.finish {locked : Nat} (h : Inv s)
    (ht : Decided s t (s.threads t) ∧ AtRound s (s.threads t))
    (hcounted : (s.threads t).pc.counted = false)
    (hold : (s.threads t).pc.Inert) :
    Inv { s.set t (returned (s.threads t)) with structureLockCount := locked } := by
  refine h.move locked ?_ rfl ?_ (.inr ⟨ht.1, rfl⟩) rfl hold (by simp [returned])
    (by simp [returned])
  · obtain ⟨⟨harrivals, _⟩, hround⟩ := ht
    refine ⟨?_, hround, fun hne => absurd rfl hne⟩
    change (s.threads t).arrivals = ((s.threads t).results ++ [(s.threads t).ret]).length
    rw [length_append, length_singleton]
    exact harrivals
  · rw [hcounted]
    rfl

lemma Inv.incrementWaiting (h : Inv s) (hpc : (s.threads t).pc = .incrementWaiting) :
    Inv { s.setPc t .incrementReached with waitingThreadCount := s.waitingThreadCount + 1 } := by
  have ht := h.threads t
  unfold ThreadInv at ht
  simp only [hpc] at ht
  have hnot := h.not_full ht.2.1
  exact h.pass rfl rfl rfl rfl rfl ht rfl (by rw [hpc]; rfl) (fun hfull => absurd hfull hnot)
    (.inl rfl) rfl (by simp [hpc, Pc.clearing]) nofun nofun

lemma Inv.setComplete (h : Inv s) (hpc : (s.threads t).pc = .setComplete) :
    Inv { s.setPc t .wakeComplete with waitBarrierComplete := 1 } := by
  have ht := h.threads t
  unfold ThreadInv at ht
  simp only [hpc] at ht
  exact h.update rfl rfl rfl rfl rfl (by rw [hpc]; rfl) ht (fun _ => id) (.inl rfl) nofun
    (fun _ => .inl one_ne_zero) (fun _ => .inl (h.waiting_pos (by rw [hpc]; rfl)))
    (fun _ => .inr (.inl rfl)) fun _ => .inl ht.2.2.1

lemma Inv.clearComplete (h : Inv s) (hpc : (s.threads t).pc = .clearComplete) :
    Inv { s.setPc t .clearReached with waitBarrierComplete := 0 } := by
  have ht := h.threads t
  unfold ThreadInv at ht
  simp only [hpc] at ht
  refine h.update rfl rfl rfl rfl rfl (by rw [hpc]; rfl) ht (fun _ => id) (.inl rfl)
    (fun _ u hu => ?_) (fun _ => .inr (.inr ht.2.2.2)) (fun _ => .inr (.inl rfl)) (fun hu => ?_)
    fun _ => .inl ht.2.2.1
  · exact Bool.eq_false_iff.mpr fun hclear => hu (h.unique u t hclear (by rw [hpc]; rfl))
  · obtain hself | ⟨u, hu⟩ := hu
    · cases hself
    · exact absurd ht.2.2.2 (h.waiting_pos (by rw [hu]; rfl))

lemma finish_cases (thread : Thread) :
    finish thread = { thread with pc := .unlockStructure } ∨ finish thread = returned thread := by
  unfold finish
  split
  · exact .inl rfl
  · exact .inr rfl

lemma finish_spec (ht : Decided s t thread) (hround : AtRound s thread) :
    ThreadInv s t (finish thread) ∧ (finish thread).arrivals = thread.arrivals ∧
      (finish thread).pc.counted = false ∧ (finish thread).pc.clearing = false ∧
      (finish thread).pc ≠ .asleepComplete ∧ (finish thread).pc ≠ .asleepPrevious ∧
      ((finish thread).results = thread.results ∨
        (finish thread).results = thread.results ++ [thread.ret]) := by
  obtain heq | heq := finish_cases thread
  · rw [heq]
    exact ⟨⟨ht, hround⟩, rfl, rfl, rfl, by simp, by simp, .inl rfl⟩
  rw [heq]
  refine ⟨⟨?_, hround, fun hne => absurd rfl hne⟩, rfl, rfl, rfl, by simp [returned],
    by simp [returned], .inr rfl⟩
  change thread.arrivals = (thread.results ++ [thread.ret]).length
  rw [length_append, length_singleton]
  exact ht.1

lemma Inv.clearing_spec (h : Inv s) (hclearing : (s.threads u).pc.clearing = true) :
    (s.threads u).arrivals = s.round + 1 ∧ Full s ∧ s.waitingThreadCount = 0 := by
  have hu := h.threads u
  unfold ThreadInv at hu
  cases hpc : (s.threads u).pc with
  | clearComplete | clearReached =>
    simp only [hpc] at hu
    exact hu.2
  | _ =>
    rw [hpc] at hclearing
    exact absurd hclearing (by simp [Pc.clearing])

lemma Inv.decrementWaiting (h : Inv s) (hpc : (s.threads t).pc = .decrementWaiting) :
    Inv { s.set t (if s.waitingThreadCount - 1 = 0 then { s.threads t with pc := .clearComplete }
        else Barriers.finish (s.threads t)) with
      waitingThreadCount := s.waitingThreadCount - 1 } := by
  have ht := h.threads t
  unfold ThreadInv at ht
  simp only [hpc] at ht
  obtain ⟨hdecided, hround, hfull⟩ := ht
  have hpos := h.waiting_pos (t := t) (by rw [hpc]; rfl)
  have hcount : s.waitingThreadCount - 1 + (s.threads t).pc.counted.toNat =
      s.waitingThreadCount := by
    rw [hpc]
    exact Nat.sub_add_cancel (Nat.pos_of_ne_zero hpos)
  by_cases hlast : s.waitingThreadCount - 1 = 0
  · rw [if_pos hlast]
    refine h.update rfl rfl rfl rfl rfl hcount ⟨hdecided, hround, hfull, hlast⟩
      (fun _ hzero => absurd hzero hpos) (.inl rfl) (fun _ u hu => ?_) (fun _ => .inr (.inr hlast))
      (fun _ => .inr (.inl rfl)) (fun hu => ?_) fun _ => .inl hfull
    · exact Bool.eq_false_iff.mpr fun hclear => hpos (h.clearing_spec hclear).2.2
    obtain hself | ⟨u, hu⟩ := hu
    · cases hself
    · exact (h.asleepComplete u hu).imp_right fun hv => .inr (exists_other
        (p := fun pc => pc = .setComplete ∨ pc = .wakeComplete) (by simp [hpc]) hv)
  rw [if_neg hlast]
  obtain ⟨hthread, harrivals, hcounted, hclearing, hcomplete, hprevious, hresults⟩ :=
    finish_spec hdecided (.inr ⟨hround, hfull⟩)
  refine h.pass rfl rfl rfl rfl rfl ?_ harrivals (by rw [hcounted]; exact hcount)
    (fun _ => iff_of_false hlast hpos) (hresults.imp_right fun happend => ⟨hdecided, happend⟩)
    hclearing (by simp [hpc, Pc.clearing]) (fun hfalse => absurd hfalse hcomplete)
    fun hfalse => absurd hfalse hprevious
  exact hthread.transfer rfl id (fun _ hzero => absurd hzero hpos) fun _ => Iff.rfl

omit [Fintype ι] [DecidableEq ι] in
lemma wakeAll_woken_complete (s : State ι) (u : ι) :
    Woken (s.threads u) ((s.wakeAll .asleepComplete .others).threads u) := by
  unfold State.wakeAll
  dsimp only
  split
  · rename_i hpc
    exact .complete hpc
  · exact .same _

omit [Fintype ι] [DecidableEq ι] in
lemma wakeAll_woken_previous (s : State ι) (u : ι) :
    Woken (s.threads u) ((s.wakeAll .asleepPrevious .previous).threads u) := by
  unfold State.wakeAll
  dsimp only
  split
  · rename_i hpc
    exact .previous hpc
  · exact .same _

omit [Fintype ι] [DecidableEq ι] in
lemma wakeAll_self {asleep awake : Pc} (hpc : (s.threads t).pc ≠ asleep) :
    (s.wakeAll asleep awake).threads t = s.threads t := if_neg hpc

omit [Fintype ι] [DecidableEq ι] in
lemma wakeAll_none {asleep awake : Pc} (hne : awake ≠ asleep) (u : ι) :
    ((s.wakeAll asleep awake).threads u).pc ≠ asleep := by
  unfold State.wakeAll
  dsimp only
  split
  · exact hne
  · rename_i hpc
    exact hpc

lemma Inv.wakeComplete (h : Inv s) (hpc : (s.threads t).pc = .wakeComplete) :
    Inv ((s.wakeAll .asleepComplete .others).set t
      { (s.wakeAll .asleepComplete .others).threads t with
        pc := .decrementWaiting
        ret := true }) := by
  have ht := h.threads t
  unfold ThreadInv at ht
  simp only [hpc] at ht
  obtain ⟨hresults, hround, hfull, hlast⟩ := ht
  have hlength : (s.threads t).results.length = s.round := by omega
  rw [wakeAll_self (by simp [hpc])]
  have hself : ((s.wakeAll .asleepComplete .others).set t
      { s.threads t with pc := .decrementWaiting, ret := true }).threads t =
        { s.threads t with pc := .decrementWaiting, ret := true } := set_threads_self ..
  have hother : ∀ u, u ≠ t → Woken (s.threads u) (((s.wakeAll .asleepComplete .others).set t
      { s.threads t with pc := .decrementWaiting, ret := true }).threads u) := by
    intro u hu
    rw [set_threads_of_ne _ _ hu]
    exact wakeAll_woken_complete s u
  have hmoves : Moves s ((s.wakeAll .asleepComplete .others).set t
      { s.threads t with pc := .decrementWaiting, ret := true }) t := by
    refine ⟨rfl, rfl, rfl, hother, ?_, ?_⟩
    · rw [hself]
    · rw [hself, hpc]
      rfl
  apply hmoves.inv h
  · rw [hself]
    refine ⟨⟨hresults, ?_⟩, hround, hfull⟩
    change true = decide (s.last (s.threads t).results.length = some t)
    rw [hlength, hlast, decide_eq_true rfl]
  · exact fun _ hzero => hzero
  · rw [hself]
    exact .inl rfl
  · rw [hself]
    exact fun hfalse => absurd hfalse (by simp [Pc.clearing])
  · intro _
    obtain hset | ⟨v, hv⟩ | hzero := h.complete hfull
    · exact .inl hset
    · -- the thread that will set it would be the last one too
      have hvinv := h.threads v
      unfold ThreadInv at hvinv
      simp only [hv] at hvinv
      rw [hlast] at hvinv
      obtain rfl := Option.some.inj hvinv.2.2.2
      rw [hpc] at hv
      simp at hv
    · exact absurd hzero (h.waiting_pos (by rw [hpc]; rfl))
  · intro _
    exact .inl (h.waiting_pos (by rw [hpc]; rfl))
  · intro u hu
    by_cases hut : u = t
    · rw [hut, hself] at hu
      simp at hu
    · rw [set_threads_of_ne _ _ hut] at hu
      exact absurd hu (wakeAll_none (by simp) u)
  · exact fun u _ => .inl hfull

lemma Inv.wakeReached (h : Inv s) (hpc : (s.threads t).pc = .wakeReached) :
    Inv ((s.wakeAll .asleepPrevious .previous).set t
      (Barriers.finish ((s.wakeAll .asleepPrevious .previous).threads t))) := by
  have ht := h.threads t
  unfold ThreadInv at ht
  simp only [hpc] at ht
  obtain ⟨hthread, harrivals, hcounted, hclearing, hcomplete, hprevious, hresults⟩ :=
    finish_spec ht.1 ht.2
  rw [wakeAll_self (by simp [hpc])]
  have hself : ((s.wakeAll .asleepPrevious .previous).set t
      (Barriers.finish (s.threads t))).threads t = Barriers.finish (s.threads t) :=
    set_threads_self ..
  have hother : ∀ u, u ≠ t → Woken (s.threads u) (((s.wakeAll .asleepPrevious .previous).set t
      (Barriers.finish (s.threads t))).threads u) := by
    intro u hu
    rw [set_threads_of_ne _ _ hu]
    exact wakeAll_woken_previous s u
  have hkept : ∀ v pc, pc ≠ .wakeReached → pc ≠ .asleepComplete → pc ≠ .asleepPrevious →
      (s.threads v).pc = pc → (((s.wakeAll .asleepPrevious .previous).set t
        (Barriers.finish (s.threads t))).threads v).pc = pc := by
    intro v pc hne hsleep hsleep' hv
    refine (hother v ?_).kept.2.2.2.2.2.2 pc hsleep hsleep' hv
    rintro rfl
    exact hne (hv.symm.trans hpc)
  have hmoves : Moves s ((s.wakeAll .asleepPrevious .previous).set t
      (Barriers.finish (s.threads t))) t := by
    refine ⟨rfl, rfl, rfl, hother, ?_, ?_⟩
    · rw [hself, harrivals]
    · rw [hself, hpc, hcounted]
      rfl
  apply hmoves.inv h
  · rw [hself]
    exact hthread
  · exact fun _ hzero => hzero
  · rw [hself]
    exact hresults.imp_right fun happend => ⟨ht.1, happend⟩
  · rw [hself, hclearing]
    exact fun hfalse => absurd hfalse (by simp)
  · intro hfull
    refine (h.complete hfull).imp_right (Or.imp_left (Exists.imp fun v hv => ?_))
    exact hkept v _ (by simp) (by simp) (by simp) hv
  · intro hfull
    refine (h.leaves hfull).imp_right (Exists.imp fun v hv => ?_)
    have hvt : v ≠ t := by
      rintro rfl
      rw [hpc] at hv
      exact absurd hv (by simp [Pc.clearing])
    rw [(hother v hvt).kept.2.2.2.1]
    exact hv
  · intro u hu
    have hut : u ≠ t := by
      rintro rfl
      rw [hself] at hu
      exact hcomplete hu
    have hold := (hother u hut).kept.2.2.2.2.1 hu
    refine (h.asleepComplete u hold).imp_right (Exists.imp fun v hv => ?_)
    obtain hv | hv := hv
    · exact .inl (hkept v _ (by simp) (by simp) (by simp) hv)
    · exact .inr (hkept v _ (by simp) (by simp) (by simp) hv)
  intro u hu
  by_cases hut : u = t
  · rw [hut, hself] at hu
    exact absurd hu hprevious
  · rw [set_threads_of_ne _ _ hut] at hu
    exact absurd hu (wakeAll_none (by simp) u)

end WineForge.Barriers
