import WineForge.Resources.State

/-!
# Readers, writers and the threads that wait

The number of active threads counts the readers, those included that `RtlReleaseResource` has
released but that have not run since. Whoever waits while nobody is active waits for a writer that
has been released and is about to try again.
-/

namespace WineForge.Resources

open Function Library List Option

variable {ι : Type} {s s' : State ι} {t : ι}

def Pc.waits (kind : Kind) (pc : Pc) : Bool := pc = .waiting kind

def Pc.released (kind : Kind) (pc : Pc) : Bool := pc = .acquire kind .woken

def State.claims (s : State ι) (t : ι) : Nat := s.held t + ((s.pc t).released .shared).toNat

def State.Coming (s : State ι) : Prop :=
  0 < s.semaphore .exclusive ∨ ∃ t, (s.pc t).released .exclusive = true

/-- A step of one thread. -/
structure Moved (s s' : State ι) (t : ι) : Prop where
  pc : ∀ u ≠ t, s'.pc u = s.pc u
  held : ∀ u ≠ t, s'.held u = s.held u

lemma Moved.claims (h : Moved s s' t) {u : ι} (hu : u ≠ t) : s'.claims u = s.claims u := by
  unfold State.claims
  rw [h.pc u hu, h.held u hu]

lemma Moved.coming (h : Moved s s' t) (hs : s.Coming)
    (hsemaphore : s'.semaphore .exclusive = s.semaphore .exclusive)
    (ht : (s.pc t).released .exclusive = false) : s'.Coming := by
  obtain hpos | ⟨u, hu⟩ := hs
  · exact .inl (hsemaphore ▸ hpos)
  refine .inr ⟨u, ?_⟩
  have hne : u ≠ t := by
    rintro rfl
    rw [ht] at hu
    cases hu
  rw [h.pc u hne]
  exact hu

lemma claims_of_released (h : (s.pc t).released .shared = false) : s.claims t = s.held t := by
  unfold State.claims
  rw [h]
  rfl

lemma wakeExclusive_eq (hwaiters : s.waiters .exclusive ≠ 0)
    (hfits : s.semaphore .exclusive + s.waiters .exclusive ≤ 65535) :
    wakeExclusive s = { s with
      waiters := update s.waiters .exclusive (s.waiters .exclusive - 1)
      semaphore := update s.semaphore .exclusive (s.semaphore .exclusive + 1) } := by
  exact if_pos (by dsimp only; omega)

lemma wakeShared_eq (hfits : s.semaphore .shared + s.waiters .shared ≤ 65535) :
    wakeShared s = { s with
      numberActive := s.waiters .shared
      waiters := update s.waiters .shared 0
      semaphore := update s.semaphore .shared (s.semaphore .shared + s.waiters .shared) } := by
  exact if_pos hfits

variable [Fintype ι]

/-- The counters agree with the threads. -/
structure Agrees (s : State ι) : Prop where
  active : 0 ≤ s.numberActive → s.owningThread = none ∧
    s.numberActive = (∑ t, s.claims t : ℕ) + s.semaphore .shared
  writer : s.numberActive < 0 → s.semaphore .shared = 0 ∧
    ∃ t, s.owningThread = some t ∧ s.claims t = s.held t ∧ s.held t = -s.numberActive ∧
      ∀ u ≠ t, s.claims u = 0
  waiting : ∀ kind, census (·.waits kind) s.pc = s.waiters kind + s.semaphore kind
  releasing : ∀ t, s.pc t = .release → 0 < s.held t

structure Inv (s : State ι) : Prop extends Agrees s where
  coming : 0 < s.waiters .shared → 0 ≤ s.numberActive → 0 < s.waiters .exclusive ∨ s.Coming
  inactive : 0 < s.waiters .exclusive → s.numberActive = 0 → s.Coming

lemma Agrees.free (h : Agrees s) (hfree : s.numberActive = 0) :
    (∀ u, s.claims u = 0) ∧ s.semaphore .shared = 0 := by
  obtain ⟨_, hcount⟩ := h.active (by omega)
  refine ⟨fun u => ?_, by omega⟩
  have hle : s.claims u ≤ ∑ u, s.claims u :=
    Finset.single_le_sum (fun _ _ => Nat.zero_le _) (Finset.mem_univ u)
  omega

variable [DecidableEq ι]

omit [Fintype ι] in
lemma moved (s : State ι) (t : ι) (pc : Pc) (held : Nat) :
    Moved s ((s.setPc t pc).setHeld t held) t :=
  ⟨fun _ hu => update_of_ne hu _ _, fun _ hu => update_of_ne hu _ _⟩

namespace Moved

variable (h : Moved s s' t) (hs : Agrees s)
  (hwaiting : ∀ kind, ((s.pc t).waits kind).toNat + (s'.waiters kind + s'.semaphore kind) =
    ((s'.pc t).waits kind).toNat + (s.waiters kind + s.semaphore kind))
  (hrelease : s'.pc t = .release → 0 < s'.held t)

include h hs

include hrelease in
lemma releasing (u : ι) (hu : s'.pc u = .release) : 0 < s'.held u := by
  by_cases heq : u = t
  · exact heq ▸ hrelease (heq ▸ hu)
  · rw [h.held u heq]
    exact hs.releasing u (h.pc u heq ▸ hu)

include hwaiting

lemma waiting (kind : Kind) :
    census (·.waits kind) s'.pc = s'.waiters kind + s'.semaphore kind := by
  have hcensus : census (·.waits kind) s'.pc + ((s.pc t).waits kind).toNat =
      census (·.waits kind) s.pc + ((s'.pc t).waits kind).toNat :=
    census_change t fun u hu => by rw [h.pc u hu]
  have hkind := hwaiting kind
  rw [hs.waiting kind] at hcensus
  omega

include hrelease

lemma agrees (howner : s'.owningThread = s.owningThread)
    (hsum : s'.numberActive + (s.claims t + s.semaphore .shared : ℕ) =
      s.numberActive + (s'.claims t + s'.semaphore .shared : ℕ))
    (hsign : s'.numberActive < 0 ↔ s.numberActive < 0)
    (hneg : s.numberActive < 0 → s'.numberActive = s.numberActive ∧
      s'.semaphore .shared = s.semaphore .shared ∧ s'.claims t = s.claims t ∧
      s'.held t = s.held t) : Agrees s' := by
  refine ⟨fun hnonneg => ?_, fun hlt => ?_, h.waiting hs hwaiting, h.releasing hs hrelease⟩
  · obtain ⟨hnone, hcount⟩ := hs.active (by omega)
    have hclaims : ∑ u, s'.claims u + s.claims t = ∑ u, s.claims u + s'.claims t :=
      sum_change t fun _ hu => h.claims hu
    rw [howner]
    exact ⟨hnone, by omega⟩
  have hlt := hsign.mp hlt
  obtain ⟨hactive, hsem, hclaims, hheld⟩ := hneg hlt
  obtain ⟨hzero, w, hw, hself, hdepth, hothers⟩ := hs.writer hlt
  have hclaimed : ∀ u, s'.claims u = s.claims u := by
    intro u
    by_cases heq : u = t
    · rw [heq, hclaims]
    · exact h.claims heq
  have hheld' : s'.held w = s.held w := by
    by_cases heq : w = t
    · rw [heq, hheld]
    · exact h.held w heq
  rw [howner, hactive, hsem]
  exact ⟨hzero, w, hw, by rw [hclaimed, hheld', hself], by rw [hheld', hdepth],
    fun u hu => by rw [hclaimed, hothers u hu]⟩

lemma writes (hothers : ∀ u ≠ t, s.claims u = 0) (hsemaphore : s'.semaphore .shared = 0)
    (hclaims : s'.claims t = s'.held t) (hactive : s'.numberActive = -s'.held t)
    (howner : s'.owningThread = if s'.held t = 0 then none else some t) : Agrees s' := by
  have hothers' : ∀ u ≠ t, s'.claims u = 0 := fun u hu => (h.claims hu).trans (hothers u hu)
  refine ⟨fun hnonneg => ?_, fun hlt => ?_, h.waiting hs hwaiting, h.releasing hs hrelease⟩
  · have hzero : s'.held t = 0 := by omega
    have hsum : ∑ u, s'.claims u = 0 := by
      apply Finset.sum_eq_zero
      intro u _
      by_cases heq : u = t
      · rw [heq, hclaims, hzero]
      · exact hothers' u heq
    rw [howner, if_pos hzero]
    exact ⟨rfl, by omega⟩
  · rw [howner, if_neg (by omega)]
    exact ⟨hsemaphore, t, rfl, hclaims, by omega, hothers'⟩

end Moved

lemma Inv.call {pc : Pc} (h : Inv s) (hwaits : ∀ kind, pc.waits kind = (s.pc t).waits kind)
    (hreleased : ∀ kind, (s.pc t).released kind = false) (hnew : pc.released .shared = false)
    (hrelease : pc = .release → 0 < s.held t) : Inv (s.setPc t pc) := by
  have hself : (s.setPc t pc).pc t = pc := update_self _ _ _
  have hmoved : Moved s (s.setPc t pc) t :=
    ⟨fun _ hu => update_of_ne hu _ _, fun _ _ => rfl⟩
  have hclaims : (s.setPc t pc).claims t = s.claims t := by
    rw [claims_of_released (by rw [hself]; exact hnew), claims_of_released (hreleased .shared)]
    rfl
  constructor
  · apply hmoved.agrees h.toAgrees
    · intro kind
      rw [hself, hwaits]
      rfl
    · rw [hself]
      exact hrelease
    · rfl
    · rw [hclaims]
      rfl
    · exact Iff.rfl
    · exact fun _ => ⟨rfl, rfl, hclaims, rfl⟩
  · intro hwaiters hactive
    exact (h.coming hwaiters hactive).imp_right fun hcoming =>
      hmoved.coming hcoming rfl (hreleased .exclusive)
  · exact fun hwaiters hactive => hmoved.coming (h.inactive hwaiters hactive) rfl (hreleased .exclusive)

variable {how : How}

lemma Inv.write {kind : Kind} (h : Inv s) (hpc : s.pc t = .acquire kind how)
    (hothers : ∀ u ≠ t, s.claims u = 0) (hheld : s.held t = -s.numberActive)
    (hsemaphore : s.semaphore .shared = 0) :
    Inv { s.acquired t with numberActive := s.numberActive - 1, owningThread := some t } := by
  have hself : (s.acquired t).pc t = .idle := update_self _ _ _
  have hheld' : (s.acquired t).held t = s.held t + 1 := update_self _ _ _
  have hmoved := moved s t .idle (s.held t + 1)
  refine ⟨Moved.writes ⟨hmoved.pc, hmoved.held⟩ h.toAgrees ?_ ?_ hothers hsemaphore ?_ ?_ ?_,
    ?_, ?_⟩
  · intro kind'
    rw [hself, hpc]
    rfl
  · intro hrelease
    rw [hself] at hrelease
    cases hrelease
  · apply claims_of_released
    rw [hself]
    rfl
  · change s.numberActive - 1 = -((s.acquired t).held t : Int)
    omega
  · rw [hheld']
    rfl
  · intro _ hnonneg
    dsimp only at hnonneg
    omega
  · intro _ hzero
    dsimp only at hzero
    omega

lemma Agrees.not_released (h : Agrees s) (hactive : s.numberActive < 0) (u : ι) :
    (s.pc u).released .shared = false := by
  obtain ⟨_, w, _, hself, _, hothers⟩ := h.writer hactive
  have hclaims : s.claims u = s.held u + ((s.pc u).released .shared).toNat := rfl
  have hzero : ((s.pc u).released .shared).toNat = 0 := by
    by_cases heq : u = w
    · subst heq
      omega
    · have hu := hothers u heq
      omega
  exact Bool.toNat_eq_zero.mp hzero

lemma Inv.wait {kind : Kind} (h : Inv s) (hpc : s.pc t = .acquire kind how)
    (hactive : s.numberActive ≠ 0) (hshared : kind = .shared → s.numberActive < 0) :
    Inv (s.wait t kind how) := by
  have hreleased : (s.pc t).released .shared = false := by
    rw [hpc]
    cases kind with
    | exclusive => rfl
    | shared => exact hpc ▸ h.not_released (hshared rfl) t
  unfold State.wait
  split
  · rename_i hhow
    subst hhow
    have hold : ∀ kind', (s.pc t).released kind' = false ∧ (s.pc t).waits kind' = false := by
      rw [hpc]
      simp [Pc.released, Pc.waits]
    exact h.call (fun kind' => (hold kind').2.symm) (fun kind' => (hold kind').1) rfl (by simp)
  have hself : (s.setPc t (.waiting kind)).pc t = .waiting kind := update_self _ _ _
  have hclaims : (s.setPc t (.waiting kind)).claims t = s.claims t := by
    rw [claims_of_released hreleased, claims_of_released (by rw [hself]; rfl)]
    rfl
  have hmoved : Moved s (s.setPc t (.waiting kind)) t :=
    ⟨fun _ hu => update_of_ne hu _ _, fun _ _ => rfl⟩
  refine ⟨Moved.agrees ⟨hmoved.pc, hmoved.held⟩ h.toAgrees ?_ ?_ rfl ?_ Iff.rfl ?_, ?_, ?_⟩
  · intro kind'
    rw [hself, hpc]
    by_cases heq : kind' = kind
    · subst heq
      simp [Pc.waits, State.setPc]
      omega
    · simp [Pc.waits, State.setPc, heq, Ne.symm heq]
  · intro hrelease
    rw [hself] at hrelease
    cases hrelease
  · change _ = s.numberActive + ((s.setPc t (.waiting kind)).claims t + _ : ℕ)
    rw [hclaims]
    rfl
  · exact fun _ => ⟨rfl, rfl, hclaims, rfl⟩
  · intro _ hnonneg
    left
    cases kind with
    | exclusive => simp
    | shared => exact absurd (hshared rfl) (Int.not_lt.mpr hnonneg)
  · exact fun _ hzero => absurd hzero hactive

lemma Inv.acquireExclusive (h : Inv s) (hpc : s.pc t = .acquire .exclusive how) :
    Inv (acquireExclusive s t how) := by
  unfold Resources.acquireExclusive
  by_cases hfree : s.numberActive = 0
  · rw [if_pos hfree]
    obtain ⟨hclaims, hsemaphore⟩ := h.free hfree
    have hself : s.claims t = s.held t := claims_of_released (by rw [hpc]; rfl)
    have hwrite := h.write hpc (fun u _ => hclaims u) (by rw [← hself, hclaims t]; omega) hsemaphore
    rwa [hfree, Int.zero_sub] at hwrite
  rw [if_neg hfree]
  split
  · rename_i howner
    obtain ⟨hsemaphore, w, hw, _, hdepth, hothers⟩ := h.writer howner.1
    obtain rfl := some.inj (howner.2.symm.trans hw)
    have hwrite := h.write hpc hothers hdepth hsemaphore
    rwa [← hw] at hwrite
  · exact h.wait hpc hfree (by simp)

lemma Inv.acquireShared (h : Inv s) (hpc : s.pc t = .acquire .shared how) :
    Inv (acquireShared s t how) := by
  unfold Resources.acquireShared
  by_cases hactive : s.numberActive < 0
  · rw [if_pos hactive]
    split
    · rename_i howner
      obtain ⟨hsemaphore, w, hw, _, hdepth, hothers⟩ := h.writer hactive
      obtain rfl := some.inj (howner.symm.trans hw)
      have hwrite := h.write hpc hothers hdepth hsemaphore
      rwa [← hw] at hwrite
    · exact h.wait hpc (by omega) fun _ => hactive
  have hself : (s.acquired t).pc t = .idle := update_self _ _ _
  have hheld : (s.acquired t).held t = s.held t + 1 := update_self _ _ _
  have hmoved := moved s t .idle (s.held t + 1)
  have hclaims : (s.acquired t).claims t = s.held t + 1 := by
    rw [claims_of_released (by rw [hself]; rfl), hheld]
  have hexclusive : (s.pc t).released .exclusive = false := by
    rw [hpc]
    rfl
  -- a reader that was not released is new
  have hread : ∀ n : Nat, s.claims t + n = s.held t + 1 →
      Inv { s.acquired t with numberActive := s.numberActive + n } := by
    intro n hn
    refine ⟨Moved.agrees ⟨hmoved.pc, hmoved.held⟩ h.toAgrees ?_ ?_ rfl ?_ ?_ ?_, ?_, ?_⟩
    · intro kind
      rw [hself, hpc]
      rfl
    · intro hrelease
      rw [hself] at hrelease
      cases hrelease
    · change s.numberActive + n + _ = s.numberActive + ((s.acquired t).claims t + _ : ℕ)
      rw [hclaims, ← hn]
      change _ = s.numberActive + (s.claims t + n + (s.semaphore .shared : Int))
      omega
    · change s.numberActive + n < 0 ↔ _
      omega
    · exact fun hlt => absurd hlt hactive
    · intro hwaiters _
      exact (h.coming hwaiters (by omega)).imp_right fun hcoming =>
        Moved.coming ⟨hmoved.pc, hmoved.held⟩ hcoming rfl hexclusive
    · intro hwaiters hzero
      dsimp only at hzero
      exact Moved.coming ⟨hmoved.pc, hmoved.held⟩ (h.inactive hwaiters (by omega)) rfl hexclusive
  rw [if_neg hactive]
  split
  · rename_i hhow
    apply hread 1
    rw [claims_of_released]
    rw [hpc]
    simpa [Pc.released] using hhow
  rename_i hhow
  have hself : s.claims t + 0 = s.held t + 1 := by
    unfold State.claims
    rw [hpc, not_not.mp hhow]
    rfl
  have hsame := hread 0 hself
  rwa [Nat.cast_zero, Int.add_zero] at hsame

lemma Inv.wake {kind : Kind} (h : Inv s) (hpc : s.pc t = .waiting kind)
    (hpos : s.semaphore kind ≠ 0) :
    Inv { s.setPc t (.acquire kind .woken) with
      semaphore := update s.semaphore kind (s.semaphore kind - 1) } := by
  have hself : (s.setPc t (.acquire kind .woken)).pc t = .acquire kind .woken :=
    update_self _ _ _
  have hmoved : Moved s (s.setPc t (.acquire kind .woken)) t :=
    ⟨fun _ hu => update_of_ne hu _ _, fun _ _ => rfl⟩
  have hclaims : s.claims t = s.held t := claims_of_released (by rw [hpc]; rfl)
  have hclaims' : (s.setPc t (.acquire kind .woken)).claims t =
      s.held t + if kind = .shared then 1 else 0 := by
    unfold State.claims
    rw [hself]
    cases kind <;> rfl
  have hshared : update s.semaphore kind (s.semaphore kind - 1) .shared +
      (if kind = .shared then 1 else 0) = s.semaphore .shared := by
    cases kind with
    | exclusive => simp
    | shared => simp; omega
  have hcoming : s.Coming → State.Coming { s.setPc t (.acquire kind .woken) with
      semaphore := update s.semaphore kind (s.semaphore kind - 1) } := by
    intro hold
    cases kind with
    | exclusive => exact .inr ⟨t, congrArg (Pc.released .exclusive) hself⟩
    | shared =>
      refine Moved.coming ⟨hmoved.pc, hmoved.held⟩ hold ?_ (by rw [hpc]; rfl)
      have hkind : Kind.exclusive ≠ .shared := by simp
      exact update_of_ne hkind (s.semaphore .shared - 1) s.semaphore
  refine ⟨Moved.agrees ⟨hmoved.pc, hmoved.held⟩ h.toAgrees ?_ ?_ rfl ?_ Iff.rfl ?_, ?_, ?_⟩
  · intro kind'
    rw [hself, hpc]
    by_cases heq : kind' = kind
    · subst heq
      simp [Pc.waits, State.setPc]
      omega
    · simp [Pc.waits, State.setPc, heq, Ne.symm heq]
  · intro hrelease
    rw [hself] at hrelease
    cases hrelease
  · have hsum : s.claims t + s.semaphore .shared = (s.setPc t (.acquire kind .woken)).claims t +
        update s.semaphore kind (s.semaphore kind - 1) .shared := by
      rw [hclaims', hclaims, ← hshared]
      ac_rfl
    exact congrArg (fun n : ℕ => s.numberActive + (n : Int)) hsum
  · intro hlt
    obtain ⟨hzero, _⟩ := h.writer hlt
    have hkind : kind ≠ .shared := by
      rintro rfl
      exact hpos hzero
    refine ⟨rfl, ?_, ?_, rfl⟩
    · rw [if_neg hkind] at hshared
      exact hshared
    · change (s.setPc t (.acquire kind .woken)).claims t = _
      rw [hclaims', if_neg hkind, hclaims]
      rfl
  · exact fun hwaiters hactive => (h.coming hwaiters hactive).imp_right hcoming
  · exact fun hwaiters hactive => hcoming (h.inactive hwaiters hactive)

omit [DecidableEq ι] in
lemma Agrees.fits (h : Agrees s) (hcard : Fintype.card ι ≤ 65535) (kind : Kind) :
    s.semaphore kind + s.waiters kind ≤ 65535 := by
  have hcensus := h.waiting kind
  have hle := census_le_card (·.waits kind) s.pc
  omega

/-- A thread that has finished its release. -/
structure Finished (s s' : State ι) (t : ι) : Prop extends Moved s s' t where
  idle : s'.pc t = .idle
  held_self : s'.held t = s.held t - 1

namespace Finished

variable (h : Finished s s' t) (hs : Agrees s) (hpc : s.pc t = .release)

include h

omit [Fintype ι] [DecidableEq ι] in
lemma claims_self : s'.claims t = s.held t - 1 := by
  rw [claims_of_released (by rw [h.idle]; rfl), h.held_self]

include hpc

omit [Fintype ι] [DecidableEq ι] in
lemma waits {waiters waiters' : Nat} (hsame : waiters = waiters') (kind : Kind) :
    ((s.pc t).waits kind).toNat + waiters' = ((s'.pc t).waits kind).toNat + waiters := by
  rw [h.idle, hpc, hsame]
  rfl

omit [Fintype ι] [DecidableEq ι] in
lemma coming (hcoming : s.Coming) (hsemaphore : s'.semaphore = s.semaphore) : s'.Coming := by
  apply h.toMoved.coming hcoming
  · rw [hsemaphore]
  · rw [hpc]
    rfl

include hs

lemma reader (hactive : 0 < s.numberActive) (hleft : s'.numberActive = s.numberActive - 1)
    (howner : s'.owningThread = s.owningThread) (hshared : s'.semaphore .shared = s.semaphore .shared)
    (hsame : ∀ kind, s.waiters kind + s.semaphore kind = s'.waiters kind + s'.semaphore kind) :
    Agrees s' := by
  have hpos := hs.releasing t hpc
  have hclaims : s.claims t = s.held t := claims_of_released (by rw [hpc]; rfl)
  apply h.toMoved.agrees hs
  · exact fun kind => h.waits hpc (hsame kind) kind
  · rw [h.idle]
    simp
  · exact howner
  · rw [hclaims, h.claims_self, hshared, hleft]
    omega
  · omega
  · exact fun hlt => absurd hlt (by omega)

lemma writer (hothers : ∀ u ≠ t, s.claims u = 0) (hsemaphore : s'.semaphore .shared = 0)
    (hactive : s'.numberActive = -s'.held t)
    (howner : s'.owningThread = if s'.held t = 0 then none else some t)
    (hsame : ∀ kind, s.waiters kind + s.semaphore kind = s'.waiters kind + s'.semaphore kind) :
    Agrees s' := by
  apply h.toMoved.writes hs
  · exact fun kind => h.waits hpc (hsame kind) kind
  · rw [h.idle]
    simp
  · exact hothers
  · exact hsemaphore
  · rw [h.claims_self, h.held_self]
  · exact hactive
  · exact howner

end Finished

lemma Inv.rtlReleaseResource (h : Inv s) (hcard : Fintype.card ι ≤ 65535)
    (hpc : s.pc t = .release) :
    Inv (rtlReleaseResource ((s.setPc t .idle).setHeld t (s.held t - 1))) := by
  have hpos := h.releasing t hpc
  have hdone : Finished s ((s.setPc t .idle).setHeld t (s.held t - 1)) t :=
    ⟨moved s t .idle (s.held t - 1), update_self _ _ _, update_self _ _ _⟩
  have hclaims : s.claims t = s.held t := claims_of_released (by rw [hpc]; rfl)
  have hfits := h.fits hcard
  generalize hr : (s.setPc t .idle).setHeld t (s.held t - 1) = r at hdone
  have hsemaphore : r.semaphore = s.semaphore := by rw [← hr]; rfl
  have hwaiters : r.waiters = s.waiters := by rw [← hr]; rfl
  have howner : r.owningThread = s.owningThread := by rw [← hr]; rfl
  have hactive : r.numberActive = s.numberActive := by rw [← hr]; rfl
  rw [← hsemaphore, ← hwaiters] at hfits
  have hkept : ∀ kind, s.waiters kind + s.semaphore kind = r.waiters kind + r.semaphore kind :=
    fun kind => by rw [hwaiters, hsemaphore]
  have hwoken : r.waiters .exclusive ≠ 0 → ∀ kind, s.waiters kind + s.semaphore kind =
      update r.waiters .exclusive (r.waiters .exclusive - 1) kind +
        update r.semaphore .exclusive (r.semaphore .exclusive + 1) kind := by
    intro hwaiting kind
    rw [hkept kind]
    cases kind with
    | exclusive => simp; omega
    | shared => simp
  unfold Resources.rtlReleaseResource
  by_cases hreader : 0 < r.numberActive
  · rw [if_pos hreader]
    dsimp only
    have hreaders := hactive ▸ hreader
    split
    · rename_i hlast
      rw [wakeExclusive_eq (by exact hlast.2) (by exact hfits .exclusive)]
      refine ⟨Finished.reader ⟨⟨hdone.pc, hdone.held⟩, hdone.idle, hdone.held_self⟩ h.toAgrees hpc
        hreaders (by rw [← hactive]) howner ?_ (hwoken hlast.2), ?_, ?_⟩
      · rw [← hsemaphore]
        simp
      · exact fun _ _ => .inr (.inl (by simp))
      · exact fun _ _ => .inl (by simp)
    rename_i hlast
    have hdone' : Finished s { r with numberActive := r.numberActive - 1 } t :=
      ⟨⟨hdone.pc, hdone.held⟩, hdone.idle, hdone.held_self⟩
    refine ⟨hdone'.reader h.toAgrees hpc hreaders (by rw [← hactive]) howner
      (by rw [← hsemaphore]) hkept, ?_, ?_⟩
    · intro hwait _
      rw [hwaiters] at hwait ⊢
      exact (h.coming hwait (by omega)).imp_right fun hold => hdone'.coming hpc hold hsemaphore
    · exact fun hwait hzero => absurd ⟨hzero, hwait.ne'⟩ hlast
  · rw [if_neg hreader]
    have hlt : s.numberActive < 0 := by
      by_contra hnot
      have hfree := (h.free (by omega)).1 t
      omega
    obtain ⟨hzero, w, hw, _, hdepth, hothers⟩ := h.writer hlt
    obtain rfl : t = w := by
      by_contra hne
      have hnone := hothers t hne
      omega
    rw [if_pos (by omega)]
    dsimp only
    have hheld := hdone.held_self
    split
    · have hlast' : r.held t = 0 := by omega
      split
      · rename_i hwaiting
        rw [wakeExclusive_eq (by exact hwaiting) (by exact hfits .exclusive)]
        refine ⟨Finished.writer ⟨⟨hdone.pc, hdone.held⟩, hdone.idle, hdone.held_self⟩ h.toAgrees hpc
          hothers ?_ ?_ (if_pos hlast').symm (hwoken hwaiting), ?_, ?_⟩
        · rw [← hzero, ← hsemaphore]
          simp
        · change r.numberActive + 1 = -(r.held t : Int)
          omega
        · exact fun _ _ => .inr (.inl (by simp))
        · exact fun _ _ => .inl (by simp)
      rename_i hexclusive
      split
      · rename_i hshared
        rw [wakeShared_eq (by exact hfits .shared)]
        have hshared' : r.semaphore .shared = 0 := hsemaphore ▸ hzero
        have hsum : ∑ u, r.claims u = 0 := by
          apply Finset.sum_eq_zero
          intro u _
          by_cases heq : u = t
          · rw [heq, hdone.claims_self]
            omega
          · rw [hdone.claims heq, hothers u heq]
        refine ⟨⟨fun _ => ⟨rfl, ?_⟩, fun hneg => ?_, ?_, ?_⟩, ?_, ?_⟩
        · change (r.waiters .shared : Int) = (∑ u, r.claims u : ℕ) +
            (update r.semaphore .shared (r.semaphore .shared + r.waiters .shared) .shared)
          rw [hsum, hshared', update_self]
          omega
        · exact absurd hneg (Int.not_lt.mpr (Int.natCast_nonneg _))
        · refine Moved.waiting ⟨hdone.pc, hdone.held⟩ h.toAgrees fun kind => ?_
          refine hdone.waits hpc ?_ kind
          rw [hkept kind]
          cases kind with
          | exclusive => simp
          | shared => simp; omega
        · refine Moved.releasing ⟨hdone.pc, hdone.held⟩ h.toAgrees fun hrelease => ?_
          exact absurd (hdone.idle.symm.trans hrelease) (by simp)
        · exact fun hwait _ => absurd hwait (by simp)
        · exact fun _ hfree => absurd hfree (by simpa using hshared)
      · rename_i hshared
        have hdone' : Finished s { r with
            numberActive := r.numberActive + 1, owningThread := none } t :=
          ⟨⟨hdone.pc, hdone.held⟩, hdone.idle, hdone.held_self⟩
        refine ⟨hdone'.writer h.toAgrees hpc hothers (hsemaphore ▸ hzero) ?_
          (if_pos hlast').symm hkept, ?_, ?_⟩
        · change r.numberActive + 1 = -(r.held t : Int)
          omega
        · exact fun hwait _ => absurd hwait (by simpa using hshared)
        · exact fun hwait _ => absurd hwait (by simpa using hexclusive)
    · rename_i hlast
      have hdone' : Finished s { r with numberActive := r.numberActive + 1 } t :=
        ⟨⟨hdone.pc, hdone.held⟩, hdone.idle, hdone.held_self⟩
      refine ⟨hdone'.writer h.toAgrees hpc hothers (hsemaphore ▸ hzero) ?_ ?_ hkept, ?_, ?_⟩
      · change r.numberActive + 1 = -(r.held t : Int)
        omega
      · change r.owningThread = if r.held t = 0 then none else some t
        rw [if_neg (by omega), howner, hw]
      · intro _ hnonneg
        dsimp only at hnonneg
        omega
      · exact fun _ hfree => absurd hfree hlast

omit [DecidableEq ι] in
lemma inv_rtlInitializeResource : Inv (rtlInitializeResource : State ι) := by
  have hclaims : ∀ u : ι, (rtlInitializeResource : State ι).claims u = 0 := fun _ => rfl
  refine ⟨⟨fun _ => ⟨rfl, ?_⟩, fun hlt => ?_, fun kind => ?_, fun u hu => ?_⟩, ?_, ?_⟩
  · simp only [hclaims, Finset.sum_const_zero]
    rfl
  · exact absurd hlt (Int.lt_irrefl 0)
  · exact census_eq_zero.mpr fun _ => rfl
  · cases hu
  · exact fun hpos => absurd hpos (lt_irrefl 0)
  · exact fun hpos => absurd hpos (lt_irrefl 0)

lemma Inv.next (h : Inv s) (hcard : Fintype.card ι ≤ 65535)
    (hnext : next s t = some s') : Inv s' := by
  unfold Resources.next at hnext
  split at hnext
  · cases hnext
  · rename_i how hpc
    exact some.inj hnext ▸ h.acquireExclusive hpc
  · rename_i how hpc
    exact some.inj hnext ▸ h.acquireShared hpc
  · rename_i kind hpc
    obtain ⟨hpos, hnext⟩ := ite_none_left_eq_some.mp hnext
    exact some.inj hnext ▸ h.wake hpc hpos
  · rename_i hpc
    exact some.inj hnext ▸ h.rtlReleaseResource hcard hpc

lemma Inv.step {op : Op ι} (h : Inv s) (hcard : Fintype.card ι ≤ 65535)
    (hstep : step s op = some s') : Inv s' := by
  cases op with
  | acquire t kind wait =>
    obtain ⟨hidle, hstep⟩ := ite_none_right_eq_some.mp hstep
    obtain rfl := some.inj hstep
    apply h.call
    all_goals cases wait <;> simp [Pc.waits, Pc.released, hidle]
  | release t =>
    obtain ⟨hready, hstep⟩ := ite_none_right_eq_some.mp hstep
    obtain rfl := some.inj hstep
    apply h.call
    all_goals simp [Pc.waits, Pc.released, hready.1, hready.2]
  | next t => exact h.next hcard hstep

lemma inv_of_reachable (hcard : Fintype.card ι ≤ 65535)
    (hs : Reachable step (· = rtlInitializeResource) s) : Inv s :=
  hs.invariant (fun _ hinit => hinit ▸ inv_rtlInitializeResource)
    fun _ _ _ hinv _ hstep => hinv.step hcard hstep

omit [Fintype ι] in
lemma acquireExclusive_noWait (s : State ι) (t : ι) :
    (acquireExclusive s t .noWait).held t = s.held t + 1 ∨
      acquireExclusive s t .noWait = s.setPc t .idle := by
  unfold acquireExclusive
  split
  · exact .inl (update_self _ _ _)
  · split
    · exact .inl (update_self _ _ _)
    · exact .inr rfl

omit [Fintype ι] in
lemma acquireShared_noWait (s : State ι) (t : ι) :
    (acquireShared s t .noWait).held t = s.held t + 1 ∨
      acquireShared s t .noWait = s.setPc t .idle := by
  unfold acquireShared
  split
  · split
    · exact .inl (update_self _ _ _)
    · exact .inr rfl
  · exact .inl (update_self _ _ _)

omit [Fintype ι] [DecidableEq ι] in
lemma rtlReleaseResource_last (hfits : ∀ kind, s.semaphore kind + s.waiters kind ≤ 65535)
    (hlast : s.numberActive = 1 ∨ s.numberActive = -1) :
    let r := rtlReleaseResource s
    (0 < s.waiters .exclusive → r.numberActive = 0 ∧
      r.waiters = update s.waiters .exclusive (s.waiters .exclusive - 1) ∧
      r.semaphore = update s.semaphore .exclusive (s.semaphore .exclusive + 1)) ∧
    (s.numberActive = -1 → s.waiters .exclusive = 0 →
      r.numberActive = s.waiters .shared ∧ r.waiters .shared = 0 ∧
        r.semaphore = update s.semaphore .shared (s.semaphore .shared + s.waiters .shared)) := by
  unfold Resources.rtlReleaseResource
  constructor
  · intro hwaiters
    obtain hone | hone := hlast
    · rw [if_pos (by omega)]
      dsimp only
      rw [if_pos ⟨by omega, hwaiters.ne'⟩,
        wakeExclusive_eq (by exact hwaiters.ne') (by exact hfits .exclusive)]
      exact ⟨by dsimp only; omega, rfl, rfl⟩
    rw [if_neg (by omega), if_pos (by omega)]
    dsimp only
    rw [if_pos (by omega), if_pos hwaiters.ne',
      wakeExclusive_eq (by exact hwaiters.ne') (by exact hfits .exclusive)]
    exact ⟨by dsimp only; omega, rfl, rfl⟩
  · intro hone hexclusive
    rw [if_neg (by omega), if_pos (by omega)]
    dsimp only
    rw [if_pos (by omega), if_neg (by simpa using hexclusive)]
    split
    · rw [wakeShared_eq (by exact hfits .shared)]
      exact ⟨rfl, by simp, rfl⟩
    · rename_i hshared
      rw [not_not.mp hshared, add_zero, update_eq_self]
      exact ⟨by dsimp only; omega, rfl, rfl⟩

/-- Readers and writers exclude each other, and whoever can run is released. -/
theorem resource_runs (hcard : Fintype.card ι ≤ 65535) (s : State ι)
    (hs : Reachable step (· = rtlInitializeResource) s) :
    -- the readers, or the depth of the writer
    (0 ≤ s.numberActive → s.owningThread = none ∧
      s.numberActive = (∑ t, s.claims t : ℕ) + s.semaphore .shared) ∧
    (s.numberActive < 0 → s.semaphore .shared = 0 ∧
      ∃ t, s.owningThread = some t ∧ s.held t = -s.numberActive ∧ ∀ u ≠ t, s.claims u = 0) ∧
    -- an attempt that may not wait
    (∀ t kind s', s.pc t = .acquire kind .noWait → step s (.next t) = some s' →
      s'.held t = s.held t + 1 ∨ s' = s.setPc t .idle) ∧
    -- a release that makes the resource inactive
    (∀ t s', s.pc t = .release → step s (.next t) = some s' →
      (s.numberActive = 1 ∨ s.numberActive = -1 → 0 < s.waiters .exclusive →
        s'.numberActive = 0 ∧
        s'.waiters = update s.waiters .exclusive (s.waiters .exclusive - 1) ∧
        s'.semaphore = update s.semaphore .exclusive (s.semaphore .exclusive + 1)) ∧
      (s.numberActive = -1 → s.waiters .exclusive = 0 →
        s'.numberActive = s.waiters .shared ∧ s'.waiters .shared = 0 ∧
        s'.semaphore .shared = s.waiters .shared)) ∧
    -- what has been released
    (∀ kind, s.numberActive = 0 → 0 < s.waiters kind → s.Coming) ∧
    (∀ kind, 0 < s.semaphore kind → ∃ t, s.pc t = .waiting kind) ∧
    (∀ t kind, s.pc t = .waiting kind → 0 < s.semaphore kind →
      ∃ s', step s (.next t) = some s' ∧ s'.pc t = .acquire kind .woken) ∧
    (∀ t, s.pc t = .acquire .shared .woken →
      step s (.next t) = some (s.acquired t)) ∧
    ∀ t, s.pc t = .acquire .exclusive .woken → ∃ s', step s (.next t) = some s' ∧
      if s.numberActive = 0 then s'.held t = s.held t + 1 ∧ s'.owningThread = some t
      else s'.held t = s.held t + 1 ∨
        s'.pc t = .waiting .exclusive ∧ s'.waiters .exclusive = s.waiters .exclusive + 1 := by
  have h := inv_of_reachable hcard hs
  refine ⟨h.active, ?_, ?_, ?_, ?_, ?_, ?_, ?_, ?_⟩
  · intro hlt
    obtain ⟨hzero, t, ht, _, hdepth, hothers⟩ := h.writer hlt
    exact ⟨hzero, t, ht, hdepth, hothers⟩
  · intro t kind s' hpc hnext
    have hnext : next s t = some s' := hnext
    unfold next at hnext
    rw [hpc] at hnext
    cases kind with
    | exclusive => exact some.inj hnext ▸ acquireExclusive_noWait s t
    | shared => exact some.inj hnext ▸ acquireShared_noWait s t
  · intro t s' hpc hnext
    have hnext : next s t = some s' := hnext
    unfold next at hnext
    rw [hpc] at hnext
    obtain rfl := some.inj hnext
    have hlast := rtlReleaseResource_last (s := (s.setPc t .idle).setHeld t (s.held t - 1))
      (h.fits hcard)
    refine ⟨fun hone => (hlast hone).1, fun hone hexclusive => ?_⟩
    obtain ⟨hactive, hshared, hsemaphore⟩ := (hlast (.inr hone)).2 hone hexclusive
    refine ⟨hactive, hshared, ?_⟩
    have hzero : ((s.setPc t .idle).setHeld t (s.held t - 1)).semaphore .shared = 0 :=
      (h.writer (by omega)).1
    rw [hsemaphore, update_self, hzero]
    exact Nat.zero_add _
  · intro kind hfree hwaiters
    cases kind with
    | exclusive => exact h.inactive hwaiters hfree
    | shared =>
      obtain hexclusive | hcoming := h.coming hwaiters hfree.ge
      · exact h.inactive hexclusive hfree
      · exact hcoming
  · intro kind hpos
    have hcensus := h.waiting kind
    obtain ⟨t, ht⟩ := exists_of_census_pos (hcensus ▸ Nat.add_pos_right _ hpos)
    exact ⟨t, of_decide_eq_true ht⟩
  · intro t kind hpc hpos
    change ∃ s', next s t = some s' ∧ _
    unfold next
    rw [hpc]
    dsimp only
    rw [if_neg hpos.ne']
    exact ⟨_, rfl, update_self _ _ _⟩
  · intro t hpc
    change next s t = _
    unfold next
    rw [hpc]
    dsimp only
    unfold acquireShared
    rw [if_neg, if_neg (by simp)]
    intro hlt
    have hnot := h.not_released hlt t
    rw [hpc] at hnot
    cases hnot
  · intro t hpc
    refine ⟨acquireExclusive s t .woken, ?_, ?_⟩
    · change next s t = _
      unfold next
      rw [hpc]
    · unfold acquireExclusive State.wait
      split
      · exact ⟨update_self _ _ _, rfl⟩
      · split
        · exact .inl (update_self _ _ _)
        · refine .inr ⟨update_self _ _ _, ?_⟩
          simp

def overtaken : List (Op (Fin 4)) :=
  [.acquire 0 .exclusive true, .next 0, .acquire 1 .exclusive true, .next 1,
    .acquire 2 .shared true, .next 2, .release 0, .next 0, .acquire 3 .shared true, .next 3]

theorem resource_runs_four :
    ∃ s, run step (rtlInitializeResource : State (Fin 4)) overtaken = some s ∧
      s.numberActive = 1 ∧ s.numberActive = (∑ t, s.claims t : ℕ) + s.semaphore .shared := by
  have hrun : (run step (rtlInitializeResource : State (Fin 4)) overtaken).map
      (·.numberActive) = some 1 := by
    decide
  obtain ⟨s, hs, hactive⟩ := map_eq_some_iff.mp hrun
  have hreach : Reachable step (· = (rtlInitializeResource : State (Fin 4))) s :=
    reachable_of_run (.start rfl) overtaken hs
  have hcard : Fintype.card (Fin 4) ≤ 65535 := by decide
  exact ⟨s, hs, hactive, ((resource_runs hcard s hreach).1 (by omega)).2⟩

/-! ### More threads than the semaphores count -/

def queued (w : ι) (l : List ι) : State ι where
  numberActive := -1
  waiters := update (fun _ => 0) .shared l.length
  owningThread := some w
  semaphore _ := 0
  pc t := if t ∈ l then .waiting .shared else .idle
  held := update (fun _ => 0) w 1

omit [Fintype ι] in
lemma reachable_queued {w : ι} {l : List ι} (hw : w ∉ l) (hl : l.Nodup) :
    Reachable step (· = rtlInitializeResource) (queued w l) := by
  induction l with
  | nil =>
    have hrun : run step rtlInitializeResource [.acquire w .exclusive true, .next w] =
        some (queued w []) := by
      simp [run, step, next, acquireExclusive, rtlInitializeResource, queued, State.acquired,
        State.setPc, State.setHeld]
    exact reachable_of_run (.start rfl) _ hrun
  | cons t l ih =>
    obtain ⟨ht, hl⟩ := nodup_cons.mp hl
    rw [mem_cons, not_or] at hw
    have hrun : run step (queued w l) [.acquire t .shared true, .next t] =
        some (queued w (t :: l)) := by
      simp [run, step, next, acquireShared, queued, State.wait, State.setPc, ht, hw.1]
      funext u
      by_cases heq : u = t
      · rw [heq, update_self, if_pos (.inl rfl)]
      · simp [heq]
    exact reachable_of_run (ih hw.2 hl) _ hrun

omit [Fintype ι] in
lemma exists_unreleased {w : ι} {l : List ι} (hw : w ∉ l) (hl : l.Nodup)
    (hlength : 65535 < l.length) :
    ∃ s s' : State ι, Reachable step (· = rtlInitializeResource) s ∧ s.pc w = .release ∧
      s.numberActive = -1 ∧ s.waiters .shared = l.length ∧ step s (.next w) = some s' ∧
      s'.waiters .shared = 0 ∧ s'.semaphore .shared = 0 := by
  have hcall : step (queued w l) (.release w) = some ((queued w l).setPc w .release) := by
    simp [step, queued, hw]
  have hmany : ¬l.length ≤ 65535 := by omega
  refine ⟨_, wakeShared { (queued w l).setPc w .idle with
      numberActive := 0, owningThread := none, held := fun _ => 0 },
    .next (reachable_queued hw hl) trivial hcall,
    update_self w _ _, rfl, ?_, ?_, ?_⟩
  · simp [queued, State.setPc]
  · have hnone : ¬l.length = 0 := by omega
    simp [step, next, rtlReleaseResource, queued, State.setPc, State.setHeld, hnone]
  · unfold wakeShared releaseSemaphore
    simp [queued, State.setPc, hmany]

/-- A released writer waits again, a reader leaves without a release of the thread that waits to
read, and 65536 threads are not released. -/
theorem released_not_obtained :
    (run step (rtlInitializeResource : State (Fin 4)) (overtaken ++ [.next 1])).map
      (fun s => (s.pc 1, s.numberActive)) = some (.acquire .exclusive .woken, 1) ∧
    (run step (rtlInitializeResource : State (Fin 4)) (overtaken ++ [.next 1, .next 1])).map
      (fun s => (s.pc 1, s.numberActive)) = some (.waiting .exclusive, 1) ∧
    (run step (rtlInitializeResource : State (Fin 4)) (overtaken ++ [.release 3])).map
      (fun s => (s.numberActive, s.semaphore .exclusive)) = some (1, 1) ∧
    (run step (rtlInitializeResource : State (Fin 4)) (overtaken ++ [.release 3, .next 3])).map
      (fun s => (s.numberActive, s.waiters .shared, s.semaphore .shared, s.semaphore .exclusive)) =
        some (0, 1, 0, 1) ∧
    ∃ s s' : State (Fin 65537), Reachable step (· = rtlInitializeResource) s ∧
      s.pc 0 = .release ∧ s.numberActive = -1 ∧ s.waiters .shared = 65536 ∧
      step s (.next 0) = some s' ∧ s'.waiters .shared = 0 ∧ s'.semaphore .shared = 0 := by
  refine ⟨by decide, by decide, by decide, by decide, ?_⟩
  have hnot : (0 : Fin 65537) ∉ (List.finRange 65536).map Fin.succ := by
    intro hmem
    obtain ⟨i, _, hi⟩ := List.mem_map.mp hmem
    exact Fin.succ_ne_zero i hi
  have hlength : ((List.finRange 65536).map Fin.succ).length = 65536 := by
    rw [length_map, length_finRange]
  have hthreads := exists_unreleased hnot
    ((nodup_finRange 65536).map (Fin.succ_injective 65536)) (by omega)
  rwa [hlength] at hthreads

end WineForge.Resources
