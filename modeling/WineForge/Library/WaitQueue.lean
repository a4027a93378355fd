import WineForge.Library.Census

/-!
# Wait queues without lost wakes

An abstract wait queue. Its members want a unit of some supply: they attempt to take one, or
sleep on an address. A member that signals publishes the supply first and wakes the address
only afterwards, so some wakes are still due at any time. `Covered` says that the wakes due and
the attempts under way account for the supply. The moves of a well-behaved protocol keep it,
and at rest it leaves no sleeper beside an untaken unit.
-/

namespace WineForge.Library

/-- What a member of the queue contributes. A sleeper that was woken, and a member that is
bound to try again before it gives up, has an attempt. -/
inductive Role
  | idle | attempt | asleep | wakeOne | wakeAll
  deriving DecidableEq, Repr

/-- `units = none` is a supply that taking does not use up. -/
structure WaitQueue (κ : Type*) where
  units : Option ℕ
  role : κ → Role

namespace WaitQueue

variable {κ : Type*} [Fintype κ]

def count (q : WaitQueue κ) (r : Role) : ℕ :=
  census (fun x => decide (x = r)) q.role

def Covered (q : WaitQueue κ) : Prop :=
  0 < q.count .wakeAll ∨ q.count .asleep ≤ q.count .wakeOne ∨
    ∃ k, q.units = some k ∧ k ≤ q.count .wakeOne + q.count .attempt

variable {q : WaitQueue κ}

lemma count_eq_zero {r : Role} : q.count r = 0 ↔ ∀ i, q.role i ≠ r := by
  simp [count, census_eq_zero]

lemma Covered.of_counts {q q' : WaitQueue κ} (h : q.Covered)
    (hall : q.count .wakeAll ≤ q'.count .wakeAll)
    (hsleep : q'.count .asleep + q.count .wakeOne ≤ q.count .asleep + q'.count .wakeOne)
    (hunits : ∀ k, q.units = some k → k ≤ q.count .wakeOne + q.count .attempt →
      ∃ k', q'.units = some k' ∧ k' ≤ q'.count .wakeOne + q'.count .attempt) :
    q'.Covered := by
  rcases h with hpos | hle | ⟨k, hk, hle⟩
  · exact .inl (by omega)
  · exact .inr (.inl (by omega))
  · exact .inr (.inr (hunits k hk hle))

/-- At rest nobody sleeps beside an untaken unit. -/
theorem Covered.rest (h : q.Covered)
    (hrest : ∀ i, q.role i = .idle ∨ q.role i = .asleep) (hunits : q.units ≠ some 0) (i : κ) :
    q.role i ≠ .asleep := by
  have hnone : ∀ r, r ≠ .idle → r ≠ .asleep → q.count r = 0 := by
    intro r hidle hasleep
    rw [count_eq_zero]
    intro j hj
    rcases hrest j with hr | hr
    · exact hidle (hj.symm.trans hr)
    · exact hasleep (hj.symm.trans hr)
  have hattempt := hnone .attempt (by simp) (by simp)
  have hone := hnone .wakeOne (by simp) (by simp)
  have hall := hnone .wakeAll (by simp) (by simp)
  rcases h with hpos | hle | ⟨k, hk, hle⟩
  · omega
  · exact count_eq_zero.mp (by omega) i
  · have hzero : k = 0 := by omega
    exact absurd (hzero ▸ hk) hunits

/-- `u'` offers no more than `u`. -/
def Drains (u u' : Option ℕ) : Prop :=
  ∀ k, u = some k → ∃ k', u' = some k' ∧ k' ≤ k

/-- `u'` is what is left of `u` after an attempt that took a unit or found none. -/
def Settles (u u' : Option ℕ) : Prop :=
  ∀ k, u = some k → ∃ k', u' = some k' ∧ k' ≤ k - 1

lemma Drains.refl (u : Option ℕ) : Drains u u :=
  fun k hk => ⟨k, hk, le_rfl⟩

lemma Settles.drains {u u' : Option ℕ} (h : Settles u u') : Drains u u' := by
  intro k hk
  obtain ⟨k', hk', hle⟩ := h k hk
  exact ⟨k', hk', by omega⟩

lemma Settles.of_empty : Settles (some 0) (some 0) := by
  intro k hk
  exact ⟨0, rfl, Nat.zero_le _⟩

lemma Covered.drain {u : Option ℕ} (h : q.Covered) (hu : Drains q.units u) :
    Covered ⟨u, q.role⟩ := by
  refine h.of_counts le_rfl le_rfl fun k hk hle => ?_
  obtain ⟨k', hk', hk'le⟩ := hu k hk
  exact ⟨k', hk', hk'le.trans hle⟩

variable [DecidableEq κ]

/-- One member takes up a role while the supply becomes `u`. -/
def move (q : WaitQueue κ) (i : κ) (r : Role) (u : Option ℕ) : WaitQueue κ :=
  ⟨u, Function.update q.role i r⟩

lemma count_move (q : WaitQueue κ) (i : κ) (r x : Role) (u : Option ℕ) :
    (q.move i r u).count x + (decide (q.role i = x)).toNat = q.count x + (decide (r = x)).toNat :=
  census_update (fun y => decide (y = x)) q.role i r

/-- The moves that need no supervision. -/
inductive Step (q : WaitQueue κ) : WaitQueue κ → Prop
  /-- Nothing happens, an attempt begins, or the supply shrinks. -/
  | proceed (i : κ) (r : Role) (u : Option ℕ) : r = q.role i ∨ (q.role i = .idle ∧ r = .attempt) →
      Drains q.units u → Step q (q.move i r u)
  /-- An attempt ends. -/
  | settle (i : κ) (u : Option ℕ) : q.role i = .attempt → Settles q.units u →
      Step q (q.move i .idle u)
  /-- An attempt ends in vain while nobody sleeps. -/
  | relinquish (i : κ) : q.role i = .attempt → (∀ j, q.role j ≠ .asleep) →
      Step q (q.move i .idle q.units)
  /-- A member falls asleep on an exhausted supply. -/
  | sleep (i : κ) : q.role i = .idle ∨ q.role i = .attempt → q.units = some 0 →
      Step q (q.move i .asleep q.units)
  /-- At most one unit is published and one wake is due. -/
  | post (i : κ) (k : ℕ) : q.role i = .idle → k ≤ 1 → Step q (q.move i .wakeOne (some k))
  /-- Any supply is published and a wake of every sleeper is due. -/
  | postAll (i : κ) (u : Option ℕ) : q.role i = .idle → Step q (q.move i .wakeAll u)
  /-- A due wake finds nobody asleep. -/
  | wakeNone (i : κ) : q.role i = .wakeOne → (∀ j, q.role j ≠ .asleep) →
      Step q (q.move i .idle q.units)
  /-- A due wake gives one sleeper an attempt. -/
  | wakeSome (i j : κ) : q.role i = .wakeOne → q.role j = .asleep →
      Step q ((q.move j .attempt q.units).move i .idle q.units)
  /-- A due wake gives every sleeper an attempt. -/
  | wakeAll (i : κ) : q.role i = .wakeAll →
      Step q (move ⟨q.units, relocate (fun r => decide (r = .asleep)) .attempt q.role⟩ i .idle
        q.units)
  /-- A sleeper wakes by itself, to try again or to give up. -/
  | rouse (i : κ) (r : Role) : q.role i = .asleep → r = .idle ∨ r = .attempt →
      Step q (q.move i r q.units)

theorem Covered.step {q q' : WaitQueue κ} (h : q.Covered) (hstep : Step q q') : q'.Covered := by
  cases hstep with
  | proceed i r u hr hu =>
    have hone := count_move q i r .wakeOne u
    have hall := count_move q i r .wakeAll u
    have hasleep := count_move q i r .asleep u
    have hattempt := count_move q i r .attempt u
    have hle : q.count .wakeAll = (q.move i r u).count .wakeAll ∧
        q.count .asleep = (q.move i r u).count .asleep ∧
        q.count .wakeOne = (q.move i r u).count .wakeOne ∧
        q.count .attempt ≤ (q.move i r u).count .attempt := by
      rcases hr with rfl | ⟨hidle, rfl⟩
      · omega
      · simp only [hidle, reduceCtorEq, decide_true, decide_false, Bool.toNat_true,
          Bool.toNat_false] at hone hall hasleep hattempt
        omega
    refine h.of_counts (by omega) (by omega) fun k hk hkle => ?_
    obtain ⟨k', hk', hk'le⟩ := hu k hk
    exact ⟨k', hk', by omega⟩
  | settle i u hi hu =>
    have hone := count_move q i .idle .wakeOne u
    have hall := count_move q i .idle .wakeAll u
    have hasleep := count_move q i .idle .asleep u
    have hattempt := count_move q i .idle .attempt u
    simp only [hi, reduceCtorEq, decide_true, decide_false, Bool.toNat_true,
      Bool.toNat_false] at hone hall hasleep hattempt
    refine h.of_counts (by omega) (by omega) fun k hk hkle => ?_
    obtain ⟨k', hk', hk'le⟩ := hu k hk
    exact ⟨k', hk', by omega⟩
  | relinquish i hi hnone | wakeNone i hi hnone =>
    have hasleep := count_move q i .idle .asleep q.units
    have hzero : q.count .asleep = 0 := count_eq_zero.mpr hnone
    simp only [hi, reduceCtorEq, decide_false, Bool.toNat_false] at hasleep
    exact .inr (.inl (by omega))
  | sleep i hi hu =>
    exact .inr (.inr ⟨0, hu, Nat.zero_le _⟩)
  | post i k hi hk =>
    have hone := count_move q i .wakeOne .wakeOne (some k)
    simp only [hi, reduceCtorEq, decide_true, decide_false, Bool.toNat_true,
      Bool.toNat_false] at hone
    exact .inr (.inr ⟨k, rfl, by omega⟩)
  | postAll i u hi =>
    have hall := count_move q i .wakeAll .wakeAll u
    simp only [hi, reduceCtorEq, decide_true, decide_false, Bool.toNat_true,
      Bool.toNat_false] at hall
    exact .inl (by omega)
  | wakeSome i j hi hj =>
    have hne : i ≠ j := by
      rintro rfl
      simp [hi] at hj
    have hrole : (q.move j .attempt q.units).role i = .wakeOne := by
      simp [move, Function.update_of_ne hne, hi]
    have hone := count_move q j .attempt .wakeOne q.units
    have hall := count_move q j .attempt .wakeAll q.units
    have hasleep := count_move q j .attempt .asleep q.units
    have hattempt := count_move q j .attempt .attempt q.units
    have hone' := count_move (q.move j .attempt q.units) i .idle .wakeOne q.units
    have hall' := count_move (q.move j .attempt q.units) i .idle .wakeAll q.units
    have hasleep' := count_move (q.move j .attempt q.units) i .idle .asleep q.units
    have hattempt' := count_move (q.move j .attempt q.units) i .idle .attempt q.units
    simp only [hj, hrole, reduceCtorEq, decide_true, decide_false, Bool.toNat_true,
      Bool.toNat_false] at hone hall hasleep hattempt hone' hall' hasleep' hattempt'
    exact h.of_counts (by omega) (by omega) fun k hk hkle => ⟨k, hk, by omega⟩
  | wakeAll i hi =>
    have hzero : census (fun x => decide (x = .asleep))
        (relocate (fun r => decide (r = .asleep)) .attempt q.role) = 0 :=
      census_relocate_source q.role (by simp)
    have hrole : relocate (fun r => decide (r = .asleep)) .attempt q.role i = .wakeAll := by
      simp [relocate, hi]
    have hasleep := count_move
      ⟨q.units, relocate (fun r => decide (r = .asleep)) .attempt q.role⟩ i .idle .asleep q.units
    simp only [hrole, reduceCtorEq, decide_false, Bool.toNat_false] at hasleep
    have hcount : count ⟨q.units, relocate (fun r => decide (r = .asleep)) .attempt q.role⟩
        .asleep = 0 := hzero
    exact .inr (.inl (by omega))
  | rouse i r hi hr =>
    have hone := count_move q i r .wakeOne q.units
    have hall := count_move q i r .wakeAll q.units
    have hasleep := count_move q i r .asleep q.units
    have hattempt := count_move q i r .attempt q.units
    rcases hr with rfl | rfl
    · simp only [hi, reduceCtorEq, decide_true, decide_false, Bool.toNat_true,
        Bool.toNat_false] at hone hall hasleep hattempt
      exact h.of_counts (by omega) (by omega) fun k hk hkle => ⟨k, hk, by omega⟩
    · simp only [hi, reduceCtorEq, decide_true, decide_false, Bool.toNat_true,
        Bool.toNat_false] at hone hall hasleep hattempt
      exact h.of_counts (by omega) (by omega) fun k hk hkle => ⟨k, hk, by omega⟩

end WaitQueue

end WineForge.Library
