import WineForge.Library.Census
import WineForge.Library.Transition

/-!
# Barriers

An `RTL_BARRIER` and the calls of `RtlBarrier`, with one step for each access to one of its fields.
An address wait compares and falls asleep at once; it ends when its address is woken, and sometimes
without a reason.
-/

namespace WineForge.Barriers

scoped instance neZeroTwo : NeZero 2 := ⟨by decide⟩

open Library List

/-- The next step of a thread in `RtlBarrier`. -/
inductive Pc
  | idle
  /-- The increment of `structure_lock_count`. -/
  | lockStructure
  /-- The loop that waits for the previous iteration to complete. -/
  | previous
  | waitPrevious
  | asleepPrevious
  | incrementWaiting
  | incrementReached
  | setComplete
  | wakeComplete
  /-- The loop that waits for the other threads. -/
  | others
  | waitComplete
  | asleepComplete
  | decrementWaiting
  | clearComplete
  | clearReached
  | wakeReached
  | unlockStructure
  | wakeStructure
  deriving DecidableEq, Repr

/-- A thread with its local variables, and how often it has reached the barrier, and what its calls
have returned. -/
structure Thread where
  pc : Pc
  /-- The flag that protects the structure, 0x10000. -/
  noDelete : Bool
  count : Nat
  ret : Bool
  arrivals : Nat
  results : List Bool
  deriving DecidableEq, Repr

/-- `struct barrier_impl`, the threads that use it, and how often it was reset. The number of
threads is the total thread count. -/
structure State (ι : Type) where
  spinCount : Nat
  reachedThreadCount : Nat
  structureLockCount : Nat
  waitingThreadCount : Nat
  waitBarrierComplete : Nat
  threads : ι → Thread
  round : Nat
  /-- Which thread was the last one to reach the barrier in a round. -/
  last : Nat → Option ι

variable {ι : Type} [Fintype ι] [DecidableEq ι]

def totalThreadCount (_ : State ι) : Nat := Fintype.card ι

def State.set (s : State ι) (t : ι) (thread : Thread) : State ι :=
  { s with threads := Function.update s.threads t thread }

def State.setPc (s : State ι) (t : ι) (pc : Pc) : State ι :=
  s.set t { s.threads t with pc }

/-- `RtlWakeAddressAll`: the threads that sleep go on with the loop around their wait. -/
def State.wakeAll (s : State ι) (asleep awake : Pc) : State ι :=
  { s with
    threads := fun t =>
      if (s.threads t).pc = asleep then { s.threads t with pc := awake } else s.threads t }

def returned (thread : Thread) : Thread :=
  { thread with pc := .idle, results := thread.results ++ [thread.ret] }

def finish (thread : Thread) : Thread :=
  if thread.noDelete then { thread with pc := .unlockStructure } else returned thread

def spin (s : State ι) (t : ι) (wait : Pc) : State ι :=
  if (s.threads t).count < min 2000 s.spinCount then
    s.set t { s.threads t with count := (s.threads t).count + 1 }
  else s.setPc t wait

/-- `InterlockedIncrement( &b->reached_thread_count )`. -/
def reach (s : State ι) (t : ι) : State ι :=
  let thread := { s.threads t with arrivals := (s.threads t).arrivals + 1 }
  let reached := s.reachedThreadCount + 1
  if totalThreadCount s ≤ reached then
    { s.set t { thread with pc := .setComplete } with
      reachedThreadCount := reached
      last := Function.update s.last s.round (some t) }
  else { s.set t { thread with pc := .others, count := 0 } with reachedThreadCount := reached }

def next (s : State ι) (t : ι) : Option (State ι) :=
  match (s.threads t).pc with
  | .idle => none
  | .lockStructure =>
    some { s.setPc t .previous with structureLockCount := s.structureLockCount + 1 }
  | .previous =>
    some (if totalThreadCount s ≤ s.reachedThreadCount then spin s t .waitPrevious
      else s.setPc t .incrementWaiting)
  | .waitPrevious =>
    some (s.setPc t
      (if s.reachedThreadCount = totalThreadCount s then .asleepPrevious else .previous))
  | .asleepPrevious => none
  | .incrementWaiting =>
    some { s.setPc t .incrementReached with waitingThreadCount := s.waitingThreadCount + 1 }
  | .incrementReached => some (reach s t)
  | .setComplete => some { s.setPc t .wakeComplete with waitBarrierComplete := 1 }
  | .wakeComplete =>
    let s' := s.wakeAll .asleepComplete .others
    some (s'.set t { s'.threads t with pc := .decrementWaiting, ret := true })
  | .others =>
    some (if s.reachedThreadCount < totalThreadCount s then spin s t .waitComplete
      else s.setPc t .decrementWaiting)
  | .waitComplete =>
    some (s.setPc t (if s.waitBarrierComplete = 0 then .asleepComplete else .others))
  | .asleepComplete => none
  | .decrementWaiting =>
    let waiting := s.waitingThreadCount - 1
    some { s.set t (if waiting = 0 then { s.threads t with pc := .clearComplete }
      else finish (s.threads t)) with waitingThreadCount := waiting }
  | .clearComplete => some { s.setPc t .clearReached with waitBarrierComplete := 0 }
  | .clearReached =>
    some { s.setPc t .wakeReached with reachedThreadCount := 0, round := s.round + 1 }
  | .wakeReached =>
    let s' := s.wakeAll .asleepPrevious .previous
    some (s'.set t (finish (s'.threads t)))
  | .unlockStructure =>
    let locked := s.structureLockCount - 1
    some { s.set t (if locked = 0 then { s.threads t with pc := .wakeStructure }
      else returned (s.threads t)) with structureLockCount := locked }
  -- only `RtlDeleteBarrier` waits for this address
  | .wakeStructure => some (s.set t (returned (s.threads t)))

inductive Op (ι : Type)
  | call (t : ι) (noDelete : Bool)
  | next (t : ι)
  /-- An address wait ends without a wake. -/
  | spurious (t : ι)

def step (s : State ι) : Op ι → Option (State ι)
  | .call t noDelete =>
    if (s.threads t).pc = .idle then
      some (s.set t
        { s.threads t with
          pc := if noDelete then .lockStructure else .previous
          noDelete
          count := 0
          ret := false })
    else none
  | .next t => next s t
  | .spurious t =>
    match (s.threads t).pc with
    | .asleepPrevious => some (s.setPc t .previous)
    | .asleepComplete => some (s.setPc t .others)
    | _ => none

/-- After `RtlInitBarrier`, with no thread in a call. -/
def rtlInitBarrier (spinCount : Nat) : State ι where
  spinCount
  reachedThreadCount := 0
  structureLockCount := 0
  waitingThreadCount := 0
  waitBarrierComplete := 0
  threads _ := ⟨.idle, false, 0, false, 0, []⟩
  round := 0
  last _ := none

/-!
## Phases of a barrier

A round begins when the barrier is reset and lasts until the next reset. A thread reaches the
barrier once in each round; nobody leaves it before all threads have reached it, and nobody reaches
it again before all threads have left.
-/

variable {ι : Type} [Fintype ι] [DecidableEq ι] {s s' : State ι} {t u : ι} {thread : Thread}

/-- The thread counts in `waiting_thread_count`. -/
def Pc.counted : Pc → Bool
  | .incrementReached | .setComplete | .wakeComplete | .others | .waitComplete | .asleepComplete
  | .decrementWaiting => true
  | _ => false

def Pc.clearing : Pc → Bool
  | .clearComplete | .clearReached => true
  | _ => false

def Full (s : State ι) : Prop := s.reachedThreadCount = Fintype.card ι

def AtRound (s : State ι) (thread : Thread) : Prop :=
  thread.arrivals = s.round ∨ thread.arrivals = s.round + 1 ∧ Full s

/-- The return value of the call says whether the thread was the last one to reach the barrier. -/
def Decided (s : State ι) (t : ι) (thread : Thread) : Prop :=
  thread.arrivals = thread.results.length + 1 ∧
    thread.ret = decide (s.last thread.results.length = some t)

def ThreadInv (s : State ι) (t : ι) (thread : Thread) : Prop :=
  match thread.pc with
  | .idle | .lockStructure | .previous | .waitPrevious | .asleepPrevious =>
    thread.arrivals = thread.results.length ∧ AtRound s thread ∧
      (thread.pc ≠ .idle → thread.ret = false)
  | .incrementWaiting | .incrementReached =>
    thread.arrivals = thread.results.length ∧ thread.arrivals = s.round ∧ thread.ret = false
  | .setComplete | .wakeComplete =>
    thread.arrivals = thread.results.length + 1 ∧ thread.arrivals = s.round + 1 ∧ Full s ∧
      s.last s.round = some t
  | .others | .waitComplete | .asleepComplete =>
    thread.arrivals = thread.results.length + 1 ∧ thread.arrivals = s.round + 1 ∧
      s.last s.round ≠ some t ∧ thread.ret = false
  | .decrementWaiting => Decided s t thread ∧ thread.arrivals = s.round + 1 ∧ Full s
  | .clearComplete | .clearReached =>
    Decided s t thread ∧ thread.arrivals = s.round + 1 ∧ Full s ∧ s.waitingThreadCount = 0
  | .wakeReached | .unlockStructure | .wakeStructure => Decided s t thread ∧ AtRound s thread

structure Inv (s : State ι) : Prop where
  threads : ∀ t, ThreadInv s t (s.threads t)
  reached : s.reachedThreadCount =
    census (fun thread => decide (thread.arrivals = s.round + 1)) s.threads
  waiting : s.waitingThreadCount = census (fun thread => thread.pc.counted) s.threads
  last : ∀ k, (∃ t, s.last k = some t) ↔ k < s.round ∨ k = s.round ∧ Full s
  results : ∀ t k, k < (s.threads t).results.length →
    (s.threads t).results[k]? = some (decide (s.last k = some t))
  unique : ∀ t u, (s.threads t).pc.clearing = true → (s.threads u).pc.clearing = true → t = u
  complete : Full s → s.waitBarrierComplete ≠ 0 ∨ (∃ u, (s.threads u).pc = .setComplete) ∨
    s.waitingThreadCount = 0
  leaves : Full s → s.waitingThreadCount ≠ 0 ∨ ∃ u, (s.threads u).pc.clearing = true
  asleepComplete : ∀ t, (s.threads t).pc = .asleepComplete →
    ¬Full s ∨ ∃ u, (s.threads u).pc = .setComplete ∨ (s.threads u).pc = .wakeComplete
  asleepPrevious : ∀ t, (s.threads t).pc = .asleepPrevious →
    Full s ∨ ∃ u, (s.threads u).pc = .wakeReached

lemma rtlInitBarrier_inv (spinCount : Nat) [Nonempty ι] : Inv (@rtlInitBarrier ι spinCount) := by
  have hnot : ¬Full (@rtlInitBarrier ι spinCount) := by
    have hpos : 0 < Fintype.card ι := Fintype.card_pos
    change ¬0 = Fintype.card ι
    omega
  refine ⟨fun t => ⟨rfl, .inl rfl, fun hne => absurd rfl hne⟩, ?_, ?_, ?_, ?_, ?_, ?_, ?_, ?_, ?_⟩
  · exact (census_eq_zero.mpr fun _ => rfl).symm
  · exact (census_eq_zero.mpr fun _ => rfl).symm
  · intro k
    constructor
    · rintro ⟨t, ht⟩
      exact absurd ht (by simp [rtlInitBarrier])
    · rintro (hk | ⟨_, hfull⟩)
      · exact absurd hk (Nat.not_lt_zero k)
      · exact absurd hfull hnot
  · intro t k hk
    exact absurd hk (Nat.not_lt_zero k)
  · intro t u ht
    exact absurd ht (by simp [rtlInitBarrier, Pc.clearing])
  · exact fun hfull => absurd hfull hnot
  · exact fun hfull => absurd hfull hnot
  · exact fun t ht => absurd ht (by simp [rtlInitBarrier])
  · exact fun t ht => absurd ht (by simp [rtlInitBarrier])

lemma Inv.arrivals_of_full (h : Inv s) (hfull : Full s) (t : ι) :
    (s.threads t).arrivals = s.round + 1 := by
  have hcard : Fintype.card ι ≤
      census (fun thread => decide (thread.arrivals = s.round + 1)) s.threads := by
    rw [← h.reached]
    exact le_of_eq hfull.symm
  exact of_decide_eq_true (census_eq_card hcard t)

lemma Inv.not_full (h : Inv s) (ht : (s.threads t).arrivals = s.round) : ¬Full s := by
  intro hfull
  have hall := h.arrivals_of_full hfull t
  omega

lemma Inv.reached_le (h : Inv s) : s.reachedThreadCount ≤ Fintype.card ι := by
  rw [h.reached]
  exact census_le_card _ _

lemma ThreadInv.transfer (h : ThreadInv s t thread) (hround : s'.round = s.round)
    (hfull : Full s → Full s')
    (hwaiting : Full s → s.waitingThreadCount = 0 → s'.waitingThreadCount = 0)
    (hlast : ∀ k, s'.last k = some t ↔ s.last k = some t) : ThreadInv s' t thread := by
  have hround' : AtRound s thread → AtRound s' thread := by
    unfold AtRound
    rw [hround]
    exact fun h => h.imp_right fun h => ⟨h.1, hfull h.2⟩
  have hdecided : Decided s t thread → Decided s' t thread := by
    unfold Decided
    rw [decide_eq_decide.mpr (hlast _)]
    exact id
  unfold ThreadInv at *
  rw [hround]
  cases hpc : thread.pc with
  | idle | lockStructure | previous | waitPrevious | asleepPrevious =>
    simp only [hpc] at h ⊢
    exact ⟨h.1, hround' h.2.1, h.2.2⟩
  | incrementWaiting | incrementReached =>
    simp only [hpc] at h ⊢
    exact h
  | setComplete | wakeComplete =>
    simp only [hpc] at h ⊢
    exact ⟨h.1, h.2.1, hfull h.2.2.1, (hlast _).mpr h.2.2.2⟩
  | others | waitComplete | asleepComplete =>
    simp only [hpc] at h ⊢
    exact ⟨h.1, h.2.1, fun hself => h.2.2.1 ((hlast _).mp hself), h.2.2.2⟩
  | decrementWaiting =>
    simp only [hpc] at h ⊢
    exact ⟨hdecided h.1, h.2.1, hfull h.2.2⟩
  | clearComplete | clearReached =>
    simp only [hpc] at h ⊢
    exact ⟨hdecided h.1, h.2.1, hfull h.2.2.1, hwaiting h.2.2.1 h.2.2.2⟩
  | wakeReached | unlockStructure | wakeStructure =>
    simp only [hpc] at h ⊢
    exact ⟨hdecided h.1, hround' h.2⟩

/-- A thread that may have been woken. -/
inductive Woken : Thread → Thread → Prop
  | same (thread : Thread) : Woken thread thread
  | complete {thread : Thread} (h : thread.pc = .asleepComplete) :
    Woken thread { thread with pc := .others }
  | previous {thread : Thread} (h : thread.pc = .asleepPrevious) :
    Woken thread { thread with pc := .previous }

variable {thread' : Thread}

lemma Woken.threadInv (h : Woken thread thread') (hinv : ThreadInv s t thread) :
    ThreadInv s t thread' := by
  cases h with
  | same => exact hinv
  | complete hpc =>
    unfold ThreadInv at hinv
    rw [hpc] at hinv
    exact hinv
  | previous hpc =>
    unfold ThreadInv at hinv
    simp only [hpc] at hinv
    exact ⟨hinv.1, hinv.2.1, fun _ => hinv.2.2 (by simp)⟩

lemma Woken.kept (h : Woken thread thread') :
    thread'.arrivals = thread.arrivals ∧ thread'.results = thread.results ∧
      thread'.pc.counted = thread.pc.counted ∧ thread'.pc.clearing = thread.pc.clearing ∧
      (thread'.pc = .asleepComplete → thread.pc = .asleepComplete) ∧
      (thread'.pc = .asleepPrevious → thread.pc = .asleepPrevious) ∧
      ∀ pc, pc ≠ .asleepComplete → pc ≠ .asleepPrevious → thread.pc = pc → thread'.pc = pc := by
  cases h with
  | same => simp
  | complete hpc =>
    simp only [hpc, Pc.counted, Pc.clearing, reduceCtorEq, false_imp_iff, true_and]
    rintro pc hne _ rfl
    exact absurd rfl hne
  | previous hpc =>
    simp only [hpc, Pc.counted, Pc.clearing, reduceCtorEq, false_imp_iff, true_and]
    rintro pc _ hne rfl
    exact absurd rfl hne

/-- A step of one thread inside a round, which may wake others. -/
structure Moves (s s' : State ι) (t : ι) : Prop where
  round : s'.round = s.round
  reached : s'.reachedThreadCount = s.reachedThreadCount
  last : s'.last = s.last
  others : ∀ u, u ≠ t → Woken (s.threads u) (s'.threads u)
  arrivals : (s'.threads t).arrivals = (s.threads t).arrivals
  waiting : s'.waitingThreadCount + (s.threads t).pc.counted.toNat =
    s.waitingThreadCount + (s'.threads t).pc.counted.toNat

omit [DecidableEq ι] in
lemma Moves.full_iff (h : Moves s s' t) : Full s' ↔ Full s := by
  unfold Full
  rw [h.reached]

lemma Moves.results (h : Moves s s' t) (hinv : Inv s)
    (hresults : (s'.threads t).results = (s.threads t).results ∨
      Decided s t (s.threads t) ∧
        (s'.threads t).results = (s.threads t).results ++ [(s.threads t).ret]) (u : ι) (k : Nat)
    (hk : k < (s'.threads u).results.length) :
    (s'.threads u).results[k]? = some (decide (s'.last k = some u)) := by
  rw [h.last]
  by_cases heq : u = t
  · subst heq
    obtain hsame | ⟨hdecided, happend⟩ := hresults
    · rw [hsame] at hk ⊢
      exact hinv.results u k hk
    rw [happend] at hk ⊢
    by_cases hold : k < (s.threads u).results.length
    · rw [getElem?_append_left hold]
      exact hinv.results u k hold
    have hlast : k = (s.threads u).results.length := by
      rw [length_append, length_singleton] at hk
      omega
    subst hlast
    rw [getElem?_concat_length, hdecided.2]
  · obtain ⟨_, hsame, _⟩ := (h.others u heq).kept
    rw [hsame] at hk ⊢
    exact hinv.results u k hk

lemma Moves.inv (h : Moves s s' t) (hinv : Inv s) (ht : ThreadInv s' t (s'.threads t))
    (hzero : Full s → s.waitingThreadCount = 0 → s'.waitingThreadCount = 0)
    (hresults : (s'.threads t).results = (s.threads t).results ∨
      Decided s t (s.threads t) ∧
        (s'.threads t).results = (s.threads t).results ++ [(s.threads t).ret])
    (hunique : (s'.threads t).pc.clearing = true →
      ∀ u, u ≠ t → (s.threads u).pc.clearing = false)
    (hcomplete : Full s → s'.waitBarrierComplete ≠ 0 ∨
      (∃ u, (s'.threads u).pc = .setComplete) ∨ s'.waitingThreadCount = 0)
    (hleaves : Full s → s'.waitingThreadCount ≠ 0 ∨ ∃ u, (s'.threads u).pc.clearing = true)
    (hasleepComplete : ∀ u, (s'.threads u).pc = .asleepComplete →
      ¬Full s ∨ ∃ u, (s'.threads u).pc = .setComplete ∨ (s'.threads u).pc = .wakeComplete)
    (hasleepPrevious : ∀ u, (s'.threads u).pc = .asleepPrevious →
      Full s ∨ ∃ u, (s'.threads u).pc = .wakeReached) : Inv s' := by
  refine ⟨fun u => ?_, ?_, ?_, fun k => ?_, h.results hinv hresults, ?_, ?_, ?_, ?_, ?_⟩
  · by_cases heq : u = t
    · subst heq
      exact ht
    apply (h.others u heq).threadInv
    apply (hinv.threads u).transfer h.round h.full_iff.mpr hzero
    intro k
    rw [h.last]
  · rw [h.reached, hinv.reached, h.round]
    apply census_congr
    intro u
    by_cases heq : u = t
    · rw [heq, h.arrivals]
    · rw [(h.others u heq).kept.1]
  · have hchange := census_change (p := fun thread : Thread => thread.pc.counted)
      (f := s.threads) (g := s'.threads) t fun u hu => (h.others u hu).kept.2.2.1
    have hwaiting := h.waiting
    rw [hinv.waiting] at hwaiting
    omega
  · rw [h.last, h.round, h.full_iff]
    exact hinv.last k
  · have hold : ∀ u, u ≠ t → (s'.threads u).pc.clearing = (s.threads u).pc.clearing :=
      fun u hu => (h.others u hu).kept.2.2.2.1
    intro u v hu hv
    by_cases hut : u = t
    · by_cases hvt : v = t
      · rw [hut, hvt]
      · rw [hold v hvt, hunique (hut ▸ hu) v hvt] at hv
        simp at hv
    rw [hold u hut] at hu
    by_cases hvt : v = t
    · rw [hunique (hvt ▸ hv) u hut] at hu
      simp at hu
    · rw [hold v hvt] at hv
      exact hinv.unique u v hu hv
  · exact fun hfull => hcomplete (h.full_iff.mp hfull)
  · exact fun hfull => hleaves (h.full_iff.mp hfull)
  · rw [h.full_iff]
    exact hasleepComplete
  · rw [h.full_iff]
    exact hasleepPrevious

end WineForge.Barriers
