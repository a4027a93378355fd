import Mathlib.Algebra.Order.Ring.Int

/-!
# Guarded reachability of partial step functions

A system is a partial step function `step : σ → α → Option σ`. `Reaches` collects the states
reached by runs whose steps all satisfy a side condition on the state before the step, and
`Path` the runs that stay inside a set of states. Invariants are proved once per step and
lifted to runs by the two rules of this file.
-/

namespace WineForge.Library

open Option

variable {σ α τ : Type*}

/-- States reached from `init` by steps that all satisfy `good`. -/
inductive Reaches (step : σ → α → Option σ) (good : σ → α → Prop) (init : σ → Prop) : σ → Prop
  | start {s : σ} : init s → Reaches step good init s
  | next {s s' : σ} {a : α} :
      Reaches step good init s → good s a → step s a = some s' → Reaches step good init s'

abbrev Reachable (step : σ → α → Option σ) (init : σ → Prop) : σ → Prop :=
  Reaches step (fun _ _ => True) init

variable {step : σ → α → Option σ} {good : σ → α → Prop} {init : σ → Prop}

/-- The invariant rule: an initial property kept by every good step holds in every run. -/
theorem Reaches.invariant {P : σ → Prop} (hinit : ∀ s, init s → P s)
    (hstep : ∀ s a s', P s → good s a → step s a = some s' → P s')
    {s : σ} (h : Reaches step good init s) : P s := by
  induction h with
  | start hs => exact hinit _ hs
  | next _ hg hst ih => exact hstep _ _ _ ih hg hst

/-- The invariant rule relative to an invariant that is already known. -/
theorem Reaches.invariant_with {P Q : σ → Prop}
    (hQ : ∀ s, Reaches step good init s → Q s) (hinit : ∀ s, init s → P s)
    (hstep : ∀ s a s', Q s → P s → good s a → step s a = some s' → P s')
    {s : σ} (h : Reaches step good init s) : P s := by
  induction h with
  | start hs => exact hinit _ hs
  | next hr hg hst ih => exact hstep _ _ _ (hQ _ hr) ih hg hst

theorem Reaches.mono {good' : σ → α → Prop} (hgood : ∀ s a, good s a → good' s a)
    {s : σ} (h : Reaches step good init s) : Reaches step good' init s := by
  induction h with
  | start hs => exact .start hs
  | next _ hg hst ih => exact .next ih (hgood _ _ hg) hst

theorem Reaches.reachable {s : σ} (h : Reaches step good init s) : Reachable step init s :=
  h.mono fun _ _ _ => trivial

/-- The progress rule: where a step that keeps `I` and decreases a measure is always enabled, a run
comes to a final state. -/
theorem Reaches.progress {r : τ → τ → Prop} (hwf : WellFounded r) (measure : σ → τ)
    {I final : σ → Prop} (hstep : ∀ s, I s → ¬ final s →
      ∃ a s', good s a ∧ step s a = some s' ∧ I s' ∧ r (measure s') (measure s))
    {s : σ} (hs : Reaches step good init s) (hI : I s) :
    ∃ s', Reaches step good init s' ∧ I s' ∧ final s' := by
  have hfrom : ∀ m s, measure s = m → Reaches step good init s → I s →
      ∃ s', Reaches step good init s' ∧ I s' ∧ final s' := by
    intro m
    induction m using hwf.induction with
    | h m ih =>
      intro s hmeasure hs hI
      by_cases hfinal : final s
      · exact ⟨s, hs, hI, hfinal⟩
      · obtain ⟨a, s', hgood, hst, hI', hless⟩ := hstep s hI hfinal
        exact ih _ (hmeasure ▸ hless) s' rfl (hs.next hgood hst) hI'
  exact hfrom _ s rfl hs hI

def run (step : σ → α → Option σ) : σ → List α → Option σ
  | s, [] => some s
  | s, a :: as => (step s a).bind fun s' => run step s' as

theorem reachable_of_run {s s' : σ} (hs : Reachable step init s) (as : List α)
    (h : run step s as = some s') : Reachable step init s' := by
  induction as generalizing s with
  | nil =>
    simp only [run, some.injEq] at h
    exact h ▸ hs
  | cons a as ih =>
    obtain ⟨t, hst, ht⟩ := bind_eq_some_iff.mp h
    exact ih (.next hs trivial hst) ht

def Guarded (step : σ → α → Option σ) (good : σ → α → Prop) : σ → List α → Prop
  | _, [] => True
  | s, a :: as =>
    good s a ∧
      match step s a with
      | some s' => Guarded step good s' as
      | none => False

theorem Guarded.of_forall {s s' : σ} {as : List α} (hgood : ∀ a ∈ as, ∀ u, good u a)
    (h : run step s as = some s') : Guarded step good s as := by
  induction as generalizing s with
  | nil => exact trivial
  | cons a as ih =>
    obtain ⟨t, hst, ht⟩ := bind_eq_some_iff.mp h
    refine ⟨hgood a (List.mem_cons_self ..) s, ?_⟩
    rw [hst]
    exact ih (fun b hb => hgood b (List.mem_cons_of_mem a hb)) ht

theorem Reaches.run {s s' : σ} (hs : Reaches step good init s) (as : List α)
    (hgood : Guarded step good s as) (h : run step s as = some s') :
    Reaches step good init s' := by
  induction as generalizing s with
  | nil =>
    simp only [Library.run, some.injEq] at h
    exact h ▸ hs
  | cons a as ih =>
    obtain ⟨t, hst, ht⟩ := bind_eq_some_iff.mp h
    obtain ⟨hga, hrest⟩ := hgood
    rw [hst] at hrest
    exact ih (.next hs hga hst) hrest ht

/-- Runs that never leave `P`, both end states included. -/
inductive Path (step : σ → α → Option σ) (P : σ → Prop) (s : σ) : σ → Prop
  | refl : P s → Path step P s s
  | tail {t t' : σ} {a : α} : Path step P s t → step t a = some t' → P t' → Path step P s t'

variable {P : σ → Prop}

theorem Path.inside {s t : σ} (h : Path step P s t) : P t := by
  cases h with
  | refl hs => exact hs
  | tail _ _ ht => exact ht

theorem Path.reachable {s t : σ} (h : Path step P s t) (hs : Reachable step init s) :
    Reachable step init t := by
  induction h with
  | refl _ => exact hs
  | tail _ hst _ ih => exact .next ih trivial hst

/-- What holds at the start of a path and is kept by its steps holds along the path. -/
theorem Path.invariant {I : σ → Prop} {s t : σ} (h : Path step P s t) (hs : I s)
    (hstep : ∀ u a u', Path step P s u → I u → step u a = some u' → P u' → I u') : I t := by
  induction h with
  | refl _ => exact hs
  | tail hp hst hP ih => exact hstep _ _ _ hp ih hst hP

/-- An execution whose states are all checked to be inside. -/
theorem Path.run {inside : σ → Bool} {s t t' : σ} (h : Path step (fun u => inside u = true) s t)
    (as : List α) (hrun : Library.run (fun u a => (step u a).filter inside) t as = some t') :
    Path step (fun u => inside u = true) s t' := by
  induction as generalizing t with
  | nil =>
    simp only [Library.run, some.injEq] at hrun
    exact hrun ▸ h
  | cons a as ih =>
    obtain ⟨u, hst, hu⟩ := bind_eq_some_iff.mp hrun
    rw [filter_eq_some_iff] at hst
    exact ih (h.tail hst.1 hst.2) hu

end WineForge.Library
