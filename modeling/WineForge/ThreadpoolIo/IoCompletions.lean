import WineForge.ThreadpoolIo.Invariants

/-!
# I/O objects outlive their packets

In runs without the steps that lose track of a packet the counters are right, every packet of an
operation that was not cancelled has its one callback, and a released object is freed when nothing
of it is outstanding, and not before.
-/

namespace WineForge.ThreadpoolIo

open Library

variable {Obj Op St : Type} [DecidableEq Obj] [DecidableEq Op] {s : State Obj Op St} {o : Obj}

def Pc.processes (o : Obj) : Pc Obj Op St → Prop
  | got (some (x, _, _)) | closing x _ _ | deliver x _ _ | destroy x | destroyDrop x => x = o
  | stopped | removing | got none | tail | asleep => False

/-- `TpReleaseIoCompletion` was called, or a group has found the object to be finished. -/
def Io.Released (r : Io Op St) : Prop :=
  r.life ≠ .absent ∧ (r.release ≠ .held ∨ r.group.early = false)

/-- A packet or a callback of the object is outstanding, or a call has still to drop its reference. -/
def Busy (s : State Obj Op St) (o : Obj) : Prop :=
  (s.io o).pendingOps ≠ [] ∨ (s.io o).skippedOps ≠ [] ∨ s.pc.duty o ≠ .idle ∨
    (s.io o).numPending ≠ 0 ∨ (s.io o).numRunning ≠ 0 ∨ (s.io o).finishing ≠ 0 ∨
    (s.io o).owed ≠ 0 ∨ (s.io o).group.holds = true ∨
    (s.io o).release = .unlock ∨ (s.io o).release = .mark ∨ (s.io o).release = .drop ∨
    (s.io o).life = .dying

instance (s : State Obj Op St) (o : Obj) : Decidable (Busy s o) :=
  inferInstanceAs (Decidable (_ ∨ _))

structure Accounted (s : State Obj Op St) : Prop where
  alive : (∀ o, s.pc.processes o → (s.io o).life = .live) ∧
    ∀ o op iosb, some (o, op, iosb) ∈ s.port → (s.io o).life = .live
  counts : ∀ o, 0 ≤ (s.io o).pendingCount ∧ 0 ≤ (s.io o).skippedCount
  /-- The packet is on its way to a callback, or the callback was called with it: once in all. -/
  delivered : ∀ o op iosb, s.owner op = some o → s.posted op = some iosb →
    s.cancelled op = false → ofOp op (tokens s o) = [(o, op, iosb)] ∧
      ∀ x, ∀ completion ∈ (s.io x).live, completion.1 = op → x = o
  objcount : Tallied s
  freed : ∀ o, (s.io o).Released → (s.io o).life = .freed ∨ Busy s o

lemma Inv.alive_of_outstanding (h : Inv s) {op : Op} (hout : (s.io o).Outstanding op) :
    (s.io o).life = .live := by
  have ho := h.objects o
  exact ho.counts.live_of_held (ho.stage.outstanding (outstanding_not_settled hout)).2.1

lemma Inv.alive_of_queue (h : Inv s) {op : Op} {iosb : St} (hmem : (o, op, iosb) ∈ queue s) :
    (s.io o).life = .live :=
  h.alive_of_outstanding (h.ops.queued o op iosb hmem).1

lemma Inv.alive_of_duty (h : Inv s) (hduty : s.pc.duty o ≠ .idle) : (s.io o).life = .live := by
  have ho := h.objects o
  apply ho.counts.live_of_held
  have hstage := ho.stage
  generalize s.pc.duty o = d at hstage hduty
  cases hstage with
  | destroy _ _ _ hdropped | destroyDrop _ _ _ hdropped => exact hdropped
  | _ => exact absurd rfl hduty

omit [DecidableEq Op] in
lemma Pc.processes_cases {pc : Pc Obj Op St} (h : pc.processes o) :
    (∃ op iosb, pc.hand = some (o, op, iosb)) ∨ pc.duty o ≠ .idle := by
  cases pc with
  | got packet =>
    cases packet with
    | none => cases h
    | some token =>
      obtain ⟨x, op, iosb⟩ := token
      obtain rfl : x = o := h
      exact .inl ⟨op, iosb, rfl⟩
  | closing x op iosb | deliver x op iosb =>
    obtain rfl : x = o := h
    exact .inl ⟨op, iosb, rfl⟩
  | destroy x | destroyDrop x =>
    obtain rfl : x = o := h
    right
    simp [Pc.duty]
  | _ => cases h

lemma Inv.freed (h : Inv s) (hreleased : (s.io o).Released) :
    (s.io o).life = .freed ∨ Busy s o := by
  obtain ⟨hpresent, hreleased⟩ := hreleased
  by_contra hnot
  simp only [Busy, not_or, not_not] at hnot
  obtain ⟨hfreed, hpendingOps, hskippedOps, hduty, hpending, hrunning, hfinishing, howed, hgroup, hunlock, hmark, hdrop,
    hdying⟩ := hnot
  have ho := h.objects o
  have hdropped : (s.io o).dropped = true := by
    have hstage := ho.stage
    rw [hduty] at hstage
    cases hstage with
    | grouped _ _ _ hdropped | gone _ _ _ hdropped => exact hdropped
    | absent hblank =>
      rw [hblank] at hpresent
      exact absurd rfl hpresent
    | held _ hheld _ _ _ hne₁ hne₂ hne₃ =>
      obtain hreleased | hlate := hreleased
      · exact absurd hheld hreleased
      cases hg : (s.io o).group with
      | done => exact absurd hg hne₃
      | outside => rw [hg] at hlate; cases hlate
      | _ => rw [hg] at hgroup; exact absurd rfl hgroup
    | closing _ hrelease => exact (hrelease.elim hunlock hmark).elim
    | draining _ _ _ _ _ _ hskipped => exact absurd hskippedOps hskipped
    | dropping _ hrelease => exact absurd hrelease hdrop
  have hrefs : (s.io o).refs = 0 := by
    have hholds : (s.io o).group.holds = false := by simpa using hgroup
    simp [Io.refs, hdropped, hpending, hrunning, hfinishing, howed, hholds]
  have hnotlive : (s.io o).life ≠ .live := by
    rw [Ne, ho.counts.alive, ho.counts.refs, hrefs]
    simp
  cases hlife : (s.io o).life with
  | absent => exact hpresent hlife
  | live => exact hnotlive hlife
  | dying => exact hdying hlife
  | freed => exact hfreed hlife

/-- Every run whose steps lose track of no packet keeps account of its objects. -/
theorem io_completions_accounted (h : Reaches step Sound Initial s) : Accounted s := by
  have hinv := inv_of_sound h
  refine ⟨⟨?_, ?_⟩, ?_, ?_, hinv.tallied, fun _ => hinv.freed⟩
  · intro o hpc
    obtain ⟨op, iosb, hhand⟩ | hduty := Pc.processes_cases hpc
    · have hmem : (o, op, iosb) ∈ queue s := by simp [queue, hhand]
      exact hinv.alive_of_queue hmem
    · exact hinv.alive_of_duty hduty
  · intro o op iosb hmem
    have hqueue : (o, op, iosb) ∈ queue s := by
      rw [queue, List.mem_append, List.reduceOption_mem_iff]
      exact .inr hmem
    exact hinv.alive_of_queue hqueue
  · intro o
    rw [(hinv.objects o).pending, (hinv.objects o).skipped]
    exact ⟨Int.natCast_nonneg _, Int.natCast_nonneg _⟩
  · intro o op iosb howner hposted hcancelled
    have hplaced := hinv.ops.placed o op howner hcancelled
    rw [hposted] at hplaced
    refine ⟨List.perm_singleton.mp hplaced, ?_⟩
    rintro x ⟨op', st⟩ hlive rfl
    have hx := (hinv.ops.completed x op' st (.inl hlive)).1
    rw [howner] at hx
    exact (Option.some.inj hx).symm

def fresh : State Unit Nat Nat where
  io _ := Io.blank
  objcount := 0
  port := []
  pc := .stopped
  owner _ := none
  posted _ := none
  cancelled _ := false
  calls := []

lemma fresh_initial : Initial fresh := ⟨rfl, rfl, rfl, rfl, rfl, rfl, rfl, rfl⟩

def skippedActs : List (Act Unit Nat Nat) :=
  [.alloc () false, .start () 1, .wait () true, .release (), .post 1 7, .ioqueue true,
    .ioqueue true, .ioqueue true, .ioqueue true, .ioqueue true, .free ()]

theorem io_completions_accounted_skipped :
    ∃ s, run step fresh skippedActs = some s ∧ (s.io ()).life = .freed ∧ Accounted s := by
  have hgood : Guarded step Sound fresh skippedActs := by
    exact ⟨trivial, trivial, trivial, .inl rfl, trivial, nofun, nofun, nofun, nofun, nofun,
      trivial, trivial⟩
  have hreach : Reaches step Sound Initial fresh := .start fresh_initial
  refine ⟨_, rfl, by decide, ?_⟩
  exact io_completions_accounted (Reaches.run hreach skippedActs hgood rfl)

def releasedActs : List (Act Unit Nat Nat) :=
  [.alloc () false, .start () 1, .release (), .post 1 7, .ioqueue true, .ioqueue true,
    .ioqueue true, .ioqueue true, .ioqueue true, .execute (), .callbackDone (), .workerRelease ()]

/-- The callback was called, but the object is never freed. -/
theorem released_object_leaks :
    ¬ ∀ s : State Unit Nat Nat, Reachable step Initial s → Accounted s := by
  intro hall
  have hreach : Reachable step Initial fresh := .start fresh_initial
  have hfreed := (hall _ (reachable_of_run hreach releasedActs rfl)).freed ()
    ⟨by decide, .inl (by decide)⟩
  revert hfreed
  decide

end WineForge.ThreadpoolIo
