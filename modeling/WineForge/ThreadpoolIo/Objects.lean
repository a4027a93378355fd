import Mathlib.Tactic.Linarith
import WineForge.ThreadpoolIo.State

/-!
# The references to an object

An object goes from stage to stage until the reference of the application is dropped, which happens
once and only when no operation is outstanding. Its reference count is the number of references that
are held.
-/

namespace WineForge.ThreadpoolIo

open Library

variable {Obj Op St : Type}

/-- What the I/O thread is doing with an object. -/
inductive Duty
  | idle | destroy | drop
  deriving DecidableEq

def Pc.duty [DecidableEq Obj] (o : Obj) : Pc Obj Op St → Duty
  | destroy x => if x = o then .destroy else .idle
  | destroyDrop x => if x = o then .drop else .idle
  | stopped | removing | got _ | closing .. | deliver .. | tail | asleep => .idle

def Io.Settled (r : Io Op St) : Prop := r.pendingOps = [] ∧ r.skippedOps = []

def Io.refs (r : Io Op St) : ℕ :=
  (!r.dropped).toNat + r.numPending + r.numRunning + r.finishing + r.owed + r.group.holds.toNat

/-- The way of an object from its allocation to the end of the application's reference. -/
inductive Stage (r : Io Op St) : Duty → Prop
  | absent : r = Io.blank → Stage r .idle
  /-- The application holds the object, or a group is about to release it. -/
  | held : r.life ≠ .absent → r.release = .held → r.shuttingDown = false → r.dropped = false →
      r.shutdown = false → r.group ≠ .mark → r.group ≠ .drop → r.group ≠ .done →
      (r.group.early = false → r.Settled) → Stage r .idle
  /-- A group has dropped the reference. -/
  | grouped : r.life ≠ .absent → r.release = .held → r.shuttingDown = false → r.dropped = true →
      r.Settled → r.group = .mark ∨ r.shutdown = true ∧ (r.group = .drop ∨ r.group = .done) →
      Stage r .idle
  /-- `TpReleaseIoCompletion` has found nothing outstanding. -/
  | closing : r.life ≠ .absent → r.release = .unlock ∨ r.release = .mark → r.shuttingDown = true →
      r.dropped = false → r.shutdown = false → r.group = .outside → r.Settled → Stage r .idle
  /-- The packet of an operation that was given up is still to come. -/
  | draining : r.life ≠ .absent → r.release = .returned → r.shuttingDown = true →
      r.dropped = false → r.shutdown = false → r.group = .outside → r.skippedOps ≠ [] →
      Stage r .idle
  | destroy : r.life ≠ .absent → r.release = .returned → r.shuttingDown = true →
      r.dropped = false → r.shutdown = false → r.group = .outside → r.Settled → Stage r .destroy
  | dropping : r.life ≠ .absent → r.release = .drop → r.shuttingDown = true →
      r.dropped = false → r.shutdown = true → r.group ≠ .dropObject → r.Settled → Stage r .idle
  | destroyDrop : r.life ≠ .absent → r.release = .returned → r.shuttingDown = true →
      r.dropped = false → r.shutdown = true → r.group ≠ .dropObject → r.Settled → Stage r .drop
  | gone : r.life ≠ .absent → r.release = .returned → r.shuttingDown = true →
      r.dropped = true → r.shutdown = true → r.group ≠ .dropObject → r.Settled → Stage r .idle

/-- The count is right, and memory is freed with the last reference. -/
structure Io.Counts (r : Io Op St) : Prop where
  refs : r.refcount = r.refs
  alive : r.life = .live ↔ 0 < r.refcount

structure Io.Inv (r : Io Op St) (d : Duty) : Prop where
  stage : Stage r d
  counts : r.Counts
  pending : r.pendingCount = r.pendingOps.length
  skipped : r.skippedCount = r.skippedOps.length
  member : r.isGroupMember = true → r.group = .outside
  completions : r.numPending ≤ r.completions.length

variable {r r' r₁ : Io Op St} {d : Duty} {op : Op}

lemma Io.Counts.live (h : r.Counts) (hrefs : 0 < r.refs) : r.life = .live := by
  apply h.alive.mpr
  rw [h.refs]
  omega

lemma Io.Counts.same (h : r.Counts) (hrefs : r'.refs = r.refs) (hcount : r'.refcount = r.refcount)
    (hlife : r'.life = r.life) : r'.Counts := by
  constructor
  · rw [hcount, hrefs, h.refs]
  · rw [hcount, hlife, h.alive]

lemma Io.Counts.add (h : r.Counts) (hpos : 0 < r.refs) (hrefs : r'.refs = r.refs + 1)
    (hcount : r'.refcount = r.refcount + 1) (hlife : r'.life = r.life) : r'.Counts := by
  have hlive := h.live hpos
  have hrefcount := h.refs
  constructor
  · omega
  · rw [hcount, hlife, h.refs]
    exact iff_of_true hlive (by omega)

def Io.lifeAfter (r : Io Op St) : Life := if r.refcount - 1 = 0 then .dying else r.life

lemma objectRelease_eq_some (h : objectRelease r = some r₁) :
    r₁ = { r with refcount := r.refcount - 1, life := r.lifeAfter } := by
  unfold objectRelease at h
  split at h
  · rename_i hne
    cases h
    rw [Io.lifeAfter, if_neg hne]
  rename_i hzero
  split at h
  · cases h
    rw [Io.lifeAfter, if_pos (not_not.mp hzero)]
  · cases h

lemma Io.lifeAfter_ne_absent (h : r.life = .live) : r.lifeAfter ≠ .absent := by
  unfold Io.lifeAfter
  split
  · simp
  · rw [h]
    simp

lemma Io.Counts.drop (h : r.Counts) (hpos : 0 < r.refs) (hrefs : r'.refs = r.refs - 1)
    (hcount : r'.refcount = r.refcount - 1) (hlife : r'.life = r.lifeAfter) : r'.Counts := by
  have hlive := h.live hpos
  have hrefcount := h.refs
  constructor
  · omega
  · rw [hcount, hlife, Io.lifeAfter]
    by_cases hzero : r.refcount - 1 = 0
    · rw [if_pos hzero, hzero]
      exact iff_of_false (by decide) (by decide)
    · rw [if_neg hzero]
      exact iff_of_true hlive (by omega)

lemma refs_pos_of_held (hdropped : r.dropped = false) : 0 < r.refs := by
  unfold Io.refs
  rw [hdropped, Bool.not_false, Bool.toNat_true]
  omega

lemma Io.Counts.live_of_held (h : r.Counts) (hdropped : r.dropped = false) : r.life = .live :=
  h.live (refs_pos_of_held hdropped)

lemma Stage.blank (h : Stage r d) (habsent : r.life = .absent) : r = Io.blank := by
  cases h with
  | absent hblank => exact hblank
  | held hlife | grouped hlife | closing hlife | draining hlife | destroy hlife | dropping hlife
    | destroyDrop hlife | gone hlife => exact absurd habsent hlife

lemma Stage.same (h : Stage r d) (hlife : r.life ≠ .absent) (hlife' : r'.life ≠ .absent)
    (hrelease : r'.release = r.release) (hdown : r'.shuttingDown = r.shuttingDown)
    (hdropped : r'.dropped = r.dropped) (hshutdown : r'.shutdown = r.shutdown)
    (hgroup : r'.group = r.group) (hsettled : r.Settled → r'.Settled)
    (hskipped : r.skippedOps ≠ [] → r'.skippedOps ≠ []) : Stage r' d := by
  cases h with
  | absent hblank =>
    subst hblank
    exact absurd rfl hlife
  | held h₁ h₂ h₃ h₄ h₅ h₆ h₇ h₈ h₉ =>
    exact .held hlife' (hrelease.trans h₂) (hdown.trans h₃) (hdropped.trans h₄)
      (hshutdown.trans h₅) (hgroup ▸ h₆) (hgroup ▸ h₇) (hgroup ▸ h₈)
      fun hearly => hsettled (h₉ (hgroup ▸ hearly))
  | grouped h₁ h₂ h₃ h₄ h₅ h₆ =>
    exact .grouped hlife' (hrelease.trans h₂) (hdown.trans h₃) (hdropped.trans h₄) (hsettled h₅)
      (by rw [hgroup, hshutdown]; exact h₆)
  | closing h₁ h₂ h₃ h₄ h₅ h₆ h₇ =>
    exact .closing hlife' (hrelease ▸ h₂) (hdown.trans h₃) (hdropped.trans h₄)
      (hshutdown.trans h₅) (hgroup.trans h₆) (hsettled h₇)
  | draining h₁ h₂ h₃ h₄ h₅ h₆ h₇ =>
    exact .draining hlife' (hrelease.trans h₂) (hdown.trans h₃) (hdropped.trans h₄)
      (hshutdown.trans h₅) (hgroup.trans h₆) (hskipped h₇)
  | destroy h₁ h₂ h₃ h₄ h₅ h₆ h₇ =>
    exact .destroy hlife' (hrelease.trans h₂) (hdown.trans h₃) (hdropped.trans h₄)
      (hshutdown.trans h₅) (hgroup.trans h₆) (hsettled h₇)
  | dropping h₁ h₂ h₃ h₄ h₅ h₆ h₇ =>
    exact .dropping hlife' (hrelease.trans h₂) (hdown.trans h₃) (hdropped.trans h₄)
      (hshutdown.trans h₅) (hgroup ▸ h₆) (hsettled h₇)
  | destroyDrop h₁ h₂ h₃ h₄ h₅ h₆ h₇ =>
    exact .destroyDrop hlife' (hrelease.trans h₂) (hdown.trans h₃) (hdropped.trans h₄)
      (hshutdown.trans h₅) (hgroup ▸ h₆) (hsettled h₇)
  | gone h₁ h₂ h₃ h₄ h₅ h₆ h₇ =>
    exact .gone hlife' (hrelease.trans h₂) (hdown.trans h₃) (hdropped.trans h₄)
      (hshutdown.trans h₅) (hgroup ▸ h₆) (hsettled h₇)

lemma Stage.usable (h : Stage r d) (husable : r.Usable) :
    d = .idle ∧ r.shuttingDown = false ∧ r.dropped = false ∧ r.shutdown = false := by
  obtain ⟨hlive, hheld, hearly⟩ := husable
  cases h with
  | absent hblank =>
    subst hblank
    cases hlive
  | held _ _ hdown hdropped hshutdown => exact ⟨rfl, hdown, hdropped, hshutdown⟩
  | grouped _ _ _ _ _ hgroup =>
    obtain hgroup | ⟨_, hgroup | hgroup⟩ := hgroup <;> rw [hgroup] at hearly <;> cases hearly
  | closing _ hrelease => obtain hrelease | hrelease := hrelease <;> rw [hrelease] at hheld <;> cases hheld
  | draining _ hrelease | destroy _ hrelease | dropping _ hrelease | destroyDrop _ hrelease
    | gone _ hrelease => rw [hrelease] at hheld; cases hheld

lemma Stage.outstanding (h : Stage r d) (hops : ¬r.Settled) :
    d = .idle ∧ r.dropped = false ∧ r.shutdown = false ∧ r.group.early = true ∧
      (r.release = .held ∧ r.shuttingDown = false ∨
        r.release = .returned ∧ r.shuttingDown = true ∧ r.group = .outside ∧
          r.skippedOps ≠ []) := by
  cases h with
  | absent hblank =>
    subst hblank
    exact absurd ⟨rfl, rfl⟩ hops
  | held _ hrelease hdown hdropped hshutdown _ _ _ hearly =>
    refine ⟨rfl, hdropped, hshutdown, ?_, .inl ⟨hrelease, hdown⟩⟩
    cases hgroup : r.group.early with
    | true => rfl
    | false => exact absurd (hearly hgroup) hops
  | draining _ hrelease hdown hdropped hshutdown hgroup hskipped =>
    refine ⟨rfl, hdropped, hshutdown, ?_, .inr ⟨hrelease, hdown, hgroup, hskipped⟩⟩
    rw [hgroup]
    rfl
  | grouped _ _ _ _ hsettled | closing _ _ _ _ _ _ hsettled | destroy _ _ _ _ _ _ hsettled
    | dropping _ _ _ _ _ _ hsettled | destroyDrop _ _ _ _ _ _ hsettled
    | gone _ _ _ _ _ _ hsettled => exact absurd hsettled hops

lemma Stage.of_closing (h : Stage r d) (hrelease : r.release = .unlock ∨ r.release = .mark) :
    d = .idle ∧ r.life ≠ .absent ∧ r.shuttingDown = true ∧ r.dropped = false ∧
      r.shutdown = false ∧ r.group = .outside ∧ r.Settled := by
  cases h with
  | closing h₁ h₂ h₃ h₄ h₅ h₆ h₇ => exact ⟨rfl, h₁, h₃, h₄, h₅, h₆, h₇⟩
  | absent hblank => simp [hblank, Io.blank] at hrelease
  | held _ heq | grouped _ heq | draining _ heq | destroy _ heq | dropping _ heq
    | destroyDrop _ heq | gone _ heq => simp [heq] at hrelease

lemma Stage.of_dropping (h : Stage r d) (hrelease : r.release = .drop) :
    d = .idle ∧ r.life ≠ .absent ∧ r.shuttingDown = true ∧ r.dropped = false ∧
      r.shutdown = true ∧ r.group ≠ .dropObject ∧ r.Settled := by
  cases h with
  | dropping h₁ h₂ h₃ h₄ h₅ h₆ h₇ => exact ⟨rfl, h₁, h₃, h₄, h₅, h₆, h₇⟩
  | absent hblank => simp [hblank, Io.blank] at hrelease
  | held _ heq | grouped _ heq | draining _ heq | destroy _ heq | destroyDrop _ heq | gone _ heq =>
    simp [heq] at hrelease
  | closing _ heq => simp [hrelease] at heq

lemma Stage.of_usable (hlife : r.life ≠ .absent) (hrelease : r.release = .held)
    (hdown : r.shuttingDown = false) (hdropped : r.dropped = false) (hshutdown : r.shutdown = false)
    (hearly : r.group.early = true) : Stage r .idle := by
  refine .held hlife hrelease hdown hdropped hshutdown ?_ ?_ ?_ ?_
  · intro hgroup
    rw [hgroup] at hearly
    cases hearly
  · intro hgroup
    rw [hgroup] at hearly
    cases hearly
  · intro hgroup
    rw [hgroup] at hearly
    cases hearly
  · intro hlate
    rw [hearly] at hlate
    cases hlate

lemma Stage.regroup (h : Stage r d) (hpresent : r.life ≠ .absent) (hlife : r'.life ≠ .absent) (hrelease : r'.release = r.release)
    (hdown : r'.shuttingDown = r.shuttingDown) (hdropped : r'.dropped = r.dropped)
    (hshutdown : r'.shutdown = r.shutdown) (hearly : r.group.early = true)
    (hout : r.group = .outside → r.shuttingDown = true → r.shutdown = true)
    (hgroup : r'.group.early = true ∨ r'.group = .check ∧ r'.Settled)
    (hsettled : r.Settled → r'.Settled) : Stage r' d := by
  have hnotdrop : r'.group ≠ .dropObject := by
    intro heq
    rw [heq] at hgroup
    obtain hgroup | ⟨hgroup, _⟩ := hgroup <;> cases hgroup
  have hlost : r.shuttingDown = true → r.shutdown = false → r.group = .outside → False := by
    intro hdown hshutdown houtside
    rw [hout houtside hdown] at hshutdown
    cases hshutdown
  cases h with
  | absent hblank =>
    subst hblank
    exact absurd rfl hpresent
  | held h₁ h₂ h₃ h₄ h₅ h₆ h₇ h₈ h₉ =>
    obtain hgroup | ⟨hgroup, hsettled'⟩ := hgroup
    · exact .of_usable hlife (hrelease.trans h₂) (hdown.trans h₃) (hdropped.trans h₄)
        (hshutdown.trans h₅) hgroup
    · exact .held hlife (hrelease.trans h₂) (hdown.trans h₃) (hdropped.trans h₄)
        (hshutdown.trans h₅) (by simp [hgroup]) (by simp [hgroup]) (by simp [hgroup])
        fun _ => hsettled'
  | grouped _ _ _ _ _ hlate =>
    obtain hlate | ⟨_, hlate | hlate⟩ := hlate <;> rw [hlate] at hearly <;> cases hearly
  | closing _ _ h₃ _ h₅ h₆ | draining _ _ h₃ _ h₅ h₆ | destroy _ _ h₃ _ h₅ h₆ =>
    exact (hlost h₃ h₅ h₆).elim
  | dropping h₁ h₂ h₃ h₄ h₅ h₆ h₇ =>
    exact .dropping hlife (hrelease.trans h₂) (hdown.trans h₃) (hdropped.trans h₄)
      (hshutdown.trans h₅) hnotdrop (hsettled h₇)
  | destroyDrop h₁ h₂ h₃ h₄ h₅ h₆ h₇ =>
    exact .destroyDrop hlife (hrelease.trans h₂) (hdown.trans h₃) (hdropped.trans h₄)
      (hshutdown.trans h₅) hnotdrop (hsettled h₇)
  | gone h₁ h₂ h₃ h₄ h₅ h₆ h₇ =>
    exact .gone hlife (hrelease.trans h₂) (hdown.trans h₃) (hdropped.trans h₄)
      (hshutdown.trans h₅) hnotdrop (hsettled h₇)

lemma outstanding_not_settled (h : r.Outstanding op) : ¬r.Settled := by
  rintro ⟨hpending, hskipped⟩
  obtain hmem | hmem := h
  · rw [hpending] at hmem
    cases hmem
  · rw [hskipped] at hmem
    cases hmem

lemma Stage.settle (h : Stage r d) (hout : r.Outstanding op)
    (hlife : r'.life = r.life) (hlive : r.life = .live) (hrelease : r'.release = r.release)
    (hdown : r'.shuttingDown = r.shuttingDown) (hdropped : r'.dropped = r.dropped)
    (hshutdown : r'.shutdown = r.shutdown) (hgroup : r'.group = r.group)
    (hskipped : r'.skippedOps = r.skippedOps) : Stage r' d := by
  have hlife' : r'.life ≠ .absent := by
    rw [hlife, hlive]
    simp
  obtain ⟨rfl, h₁, h₂, hearly, ⟨h₃, h₄⟩ | ⟨h₃, h₄, h₅, h₆⟩⟩ :=
    h.outstanding (outstanding_not_settled hout)
  · exact .of_usable hlife' (hrelease.trans h₃) (hdown.trans h₄) (hdropped.trans h₁)
      (hshutdown.trans h₂) (hgroup ▸ hearly)
  · exact .draining hlife' (hrelease.trans h₃) (hdown.trans h₄) (hdropped.trans h₁)
      (hshutdown.trans h₂) (hgroup.trans h₅) (hskipped ▸ h₆)

lemma settle_pending [DecidableEq Op] (hout : r.Outstanding op) (hskip : op ∉ r.skippedOps)
    (hpending : r.pendingCount = r.pendingOps.length) :
    (r.settle op).skippedOps = r.skippedOps ∧
      r.pendingCount - 1 = (r.settle op).pendingOps.length ∧ r.pendingCount ≠ 0 := by
  have hmem : op ∈ r.pendingOps := hout.resolve_right hskip
  have hpos := List.length_pos_of_mem hmem
  refine ⟨List.erase_of_not_mem hskip, ?_, by omega⟩
  rw [Io.settle, List.length_erase_of_mem hmem, hpending]
  omega

lemma Stage.of_check (h : Stage r d)
    (hgroup : r.group = .check ∧ r.shutdown = false ∨ r.group = .dropObject) :
    d = .idle ∧ r.life ≠ .absent ∧ r.release = .held ∧ r.shuttingDown = false ∧
      r.dropped = false ∧ r.shutdown = false ∧ r.Settled := by
  cases h with
  | held h₁ h₂ h₃ h₄ h₅ h₆ h₇ h₈ h₉ =>
    refine ⟨rfl, h₁, h₂, h₃, h₄, h₅, h₉ ?_⟩
    obtain ⟨hgroup, _⟩ | hgroup := hgroup <;> rw [hgroup] <;> rfl
  | absent hblank => simp [hblank, Io.blank] at hgroup
  | grouped _ _ _ _ _ hlate =>
    obtain hlate | ⟨_, hlate | hlate⟩ := hlate <;> simp [hlate] at hgroup
  | closing _ _ _ _ _ houtside | draining _ _ _ _ _ houtside | destroy _ _ _ _ _ houtside =>
    simp [houtside] at hgroup
  | dropping _ _ _ _ hshutdown hne | destroyDrop _ _ _ _ hshutdown hne
    | gone _ _ _ _ hshutdown hne => simp [hshutdown, hne] at hgroup

lemma Stage.shutdown_of_drop (h : Stage r d) (hgroup : r.group = .drop) : r.shutdown = true := by
  cases h with
  | grouped _ _ _ _ _ hlate =>
    obtain hlate | ⟨hshutdown, _⟩ := hlate
    · simp [hlate] at hgroup
    · exact hshutdown
  | dropping _ _ _ _ hshutdown | destroyDrop _ _ _ _ hshutdown | gone _ _ _ _ hshutdown =>
    exact hshutdown
  | absent hblank => simp [hblank, Io.blank] at hgroup
  | held _ _ _ _ _ _ hne => exact absurd hgroup hne
  | closing _ _ _ _ _ houtside | draining _ _ _ _ _ houtside | destroy _ _ _ _ _ houtside =>
    simp [houtside] at hgroup

lemma Stage.advance (h : Stage r d) (hpresent : r.life ≠ .absent) (hlife : r'.life ≠ .absent)
    (hrelease : r'.release = r.release) (hdown : r'.shuttingDown = r.shuttingDown)
    (hdropped : r'.dropped = r.dropped) (hshutdown : r'.shutdown = true)
    (hgroup : r.group = .check ∧ r.shutdown = true ∨ r.group = .mark ∨ r.group = .drop)
    (hgroup' : r'.group = .mark ∨ r'.group = .drop ∨ r'.group = .done)
    (hsettled : r.Settled → r'.Settled) : Stage r' d := by
  have hnotdrop : r'.group ≠ .dropObject := by
    obtain heq | heq | heq := hgroup' <;> simp [heq]
  cases h with
  | grouped h₁ h₂ h₃ h₄ h₅ h₆ =>
    exact .grouped hlife (hrelease.trans h₂) (hdown.trans h₃) (hdropped.trans h₄) (hsettled h₅)
      (hgroup'.imp id fun hlate => ⟨hshutdown, hlate⟩)
  | dropping h₁ h₂ h₃ h₄ h₅ h₆ h₇ =>
    exact .dropping hlife (hrelease.trans h₂) (hdown.trans h₃) (hdropped.trans h₄) hshutdown
      hnotdrop (hsettled h₇)
  | destroyDrop h₁ h₂ h₃ h₄ h₅ h₆ h₇ =>
    exact .destroyDrop hlife (hrelease.trans h₂) (hdown.trans h₃) (hdropped.trans h₄) hshutdown
      hnotdrop (hsettled h₇)
  | gone h₁ h₂ h₃ h₄ h₅ h₆ h₇ =>
    exact .gone hlife (hrelease.trans h₂) (hdown.trans h₃) (hdropped.trans h₄) hshutdown
      hnotdrop (hsettled h₇)
  | absent hblank =>
    subst hblank
    exact absurd rfl hpresent
  | held _ _ _ _ h₅ h₆ h₇ => simp [h₅, h₆, h₇] at hgroup
  | closing _ _ _ _ _ houtside | draining _ _ _ _ _ houtside | destroy _ _ _ _ _ houtside =>
    simp [houtside] at hgroup

end WineForge.ThreadpoolIo
