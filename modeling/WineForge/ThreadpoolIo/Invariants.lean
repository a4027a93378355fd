import Mathlib.Data.List.ReduceOption
import WineForge.Library.Census
import WineForge.ThreadpoolIo.Deliveries

/-!
# Runs in which no object is released too early

The invariant of the runs without the steps that lose track of a packet, and its step lemmas.
-/

namespace WineForge.ThreadpoolIo

open Function Library List Option

variable {Obj Op St : Type} [DecidableEq Obj] [DecidableEq Op] {s s' : State Obj Op St} {o : Obj}
  {op : Op} {iosb : St} {r : Io Op St}

def GroupStage.linked : GroupStage → Bool
  | outside | unlock _ => true
  | cancel | wait | check | dropObject | mark | drop | done => false

/-- The object was registered with `tp_ioqueue_lock` and is not yet released: no release has come to
`tp_ioqueue_unlock`, and the I/O thread has not destroyed it. -/
def Io.registered (r : Io Op St) : Bool :=
  r.life ≠ .absent && !r.shutdown && r.release ≠ .mark && r.group.linked

def Io.down (r : Io Op St) : Prop := r.shutdown = true ∨ r.shuttingDown = true

/-- `ioqueue.objcount` is the number of objects that are registered and not yet released. -/
def Tallied (s : State Obj Op St) : Prop :=
  ∃ n : ℕ, s.objcount = n ∧ Tally (fun o => (s.io o).registered.toNat) n

structure Inv (s : State Obj Op St) : Prop where
  objects : ObjInv s
  ops : OpsInv s
  tallied : Tallied s
  closing : ∀ o op iosb, s.pc = .closing o op iosb → (s.io o).down

/-- The steps that do not lose track of a packet. A packet whose operation was given up by a
cancelling wait comes when the object is shutting down and needs no other callback; no operation is
cancelled again after that; `TpReleaseIoCompletion` is not called when operations are outstanding
and none of them was given up; a group does not release a member that waits for its last packet, or
that has operations which were given up; and `array_reserve` does not fail. -/
def Sound (s : State Obj Op St) : Act Obj Op St → Prop
  | .cancelOperation op => ∀ o, s.owner op = some o → op ∉ (s.io o).skippedOps
  | .release o => (s.io o).pendingCount = 0 ∨ (s.io o).skippedCount ≠ 0
  | .takeMember o _ => (s.io o).shuttingDown = true → (s.io o).shutdown = true
  | .groupNext o => (s.io o).group = .wait → (s.io o).skippedCount = 0
  | .ioqueue reserved => ∀ o op iosb, s.pc = .deliver o op iosb →
      reserved = true ∧ op ∉ (s.io o).skippedOps
  | _ => True

omit [DecidableEq Op] in
lemma registered_congr {r' : Io Op St} (hlife : r'.life = .absent ↔ r.life = .absent)
    (hshutdown : r'.shutdown = r.shutdown) (hrelease : r'.release = .mark ↔ r.release = .mark)
    (hlinked : r'.group.linked = r.group.linked) : r'.registered = r.registered := by
  simp only [Io.registered, hshutdown, hlinked, ne_eq, hlife, hrelease]

omit [DecidableEq Op] in
lemma lifeAfter_absent {d : Duty} (h : r.Inv d) : r.lifeAfter = .absent ↔ r.life = .absent := by
  constructor
  · intro habsent
    unfold Io.lifeAfter at habsent
    split at habsent
    · cases habsent
    · exact habsent
  · intro habsent
    rw [h.stage.blank habsent]
    rfl

omit [DecidableEq Op] in
lemma Tallied.same (h : Tallied s) (hio : s'.io = update s.io o r)
    (hregistered : r.registered = (s.io o).registered) (hcount : s'.objcount = s.objcount) :
    Tallied s' := by
  obtain ⟨n, hn, htally⟩ := h
  refine ⟨n, hcount.trans hn, htally.congr fun x => ?_⟩
  obtain ⟨_, heq⟩ | ⟨rfl, heq⟩ := io_cases hio x
  · rw [heq]
  · rw [heq, hregistered]

omit [DecidableEq Op] in
lemma Tallied.leave (h : Tallied s) (hio : s'.io = update s.io o r)
    (hbefore : (s.io o).registered = true) (hafter : r.registered = false)
    (hcount : s'.objcount = s.objcount - 1) : Tallied s' := by
  obtain ⟨n, hn, htally⟩ := h
  obtain ⟨hpos, htally'⟩ := htally.remove (g := fun x => (s'.io x).registered.toNat) o fun x => by
      obtain ⟨hx, heq⟩ | ⟨rfl, heq⟩ := io_cases hio x
      · rw [heq, if_neg hx]
        rfl
      · rw [heq, hbefore, hafter, if_pos rfl]
        rfl
  exact ⟨n - 1, by omega, htally'⟩

omit [DecidableEq Op] in
lemma Tallied.enter (h : Tallied s) (hio : s'.io = update s.io o r)
    (hbefore : (s.io o).registered = false) (hafter : r.registered = true)
    (hcount : s'.objcount = s.objcount + 1) : Tallied s' := by
  obtain ⟨n, hn, htally⟩ := h
  refine ⟨n + 1, by omega, htally.add o fun x => ?_⟩
  obtain ⟨hx, heq⟩ | ⟨rfl, heq⟩ := io_cases hio x
  · rw [heq, if_neg hx]
    rfl
  · rw [heq, hbefore, hafter, if_pos rfl]
    rfl

omit [DecidableEq Op] in
lemma closing_kept (h : ∀ x op iosb, s.pc = .closing x op iosb → (s.io x).down)
    (hio : s'.io = update s.io o r) (hdown : (s.io o).down → r.down) (hpc : s'.pc = s.pc) :
    ∀ x op iosb, s'.pc = .closing x op iosb → (s'.io x).down := by
  intro x op' st hclosing
  rw [hpc] at hclosing
  have hx := h x op' st hclosing
  obtain ⟨_, heq⟩ | ⟨rfl, heq⟩ := io_cases hio x
  · rw [heq]
    exact hx
  · rw [heq]
    exact hdown hx

section

variable (h : Inv s)

include h

lemma Inv.call (hobjects : ObjInv s') (hio : s'.io = update s.io o r)
    (hpending : r.pendingOps = (s.io o).pendingOps) (hskipped : r.skippedOps = (s.io o).skippedOps)
    (hlive : r.live = (s.io o).live) (htallied : Tallied s')
    (hdown : (s.io o).down → r.down) (hpc : s'.pc = s.pc)
    (hport : s'.port.reduceOption = s.port.reduceOption) (howner : s'.owner = s.owner)
    (hposted : s'.posted = s.posted) (hcancelled : s'.cancelled = s.cancelled)
    (hcalls : s'.calls = s.calls) : Inv s' := by
  refine ⟨hobjects, h.ops.same ?_, htallied, closing_kept h.closing hio hdown hpc⟩
  exact .of_setIo hio hpending hskipped hlive (by rw [queue, queue, hpc, hport]) howner hposted
    hcancelled hcalls

lemma cancelRelease_inv (hstep : cancelRelease s o = some s') : Inv s' := by
  have hobjects := cancelRelease_objects h.objects hstep
  unfold cancelRelease at hstep
  split at hstep
  · cases hstep
  · cases releaseRef_eq_some hstep
    refine h.call hobjects rfl rfl rfl rfl (h.tallied.same rfl ?_ rfl) id rfl rfl rfl rfl rfl rfl
    exact registered_congr (lifeAfter_absent (h.objects o)) rfl Iff.rfl rfl

lemma release_inv (hgood : Sound s (.release o))
    (hstep : releaseIoCompletion s o = some s') : Inv s' := by
  have hobjects := release_objects h.objects hgood hstep
  unfold releaseIoCompletion at hstep
  split at hstep
  · rename_i hguard
    cases hstep
    refine h.call hobjects rfl rfl rfl rfl (h.tallied.same rfl ?_ rfl) (fun _ => .inr rfl) rfl rfl
      rfl rfl rfl rfl
    refine registered_congr Iff.rfl rfl (iff_of_false ?_ ?_) rfl
    · split <;> simp
    · simp [hguard.1.2.1]
  · cases hstep

lemma releaseNext_inv (hstep : releaseNext s o = some s') : Inv s' := by
  have hobjects := releaseNext_objects h.objects hstep
  have ho := h.objects o
  unfold releaseNext at hstep
  split at hstep
  · rename_i hrelease
    obtain ⟨_, hio, hpc, howner, hposted, hcancelled, hcalls, hport, hcount⟩ :=
      ioqueueUnlock_eq_some hstep
    obtain ⟨_, hpresent, _, _, hshutdown, hgroup, _⟩ := ho.stage.of_closing (.inl hrelease)
    refine h.call hobjects hio rfl rfl rfl (h.tallied.leave hio ?_ ?_ ?_) id hpc ?_ howner hposted
      hcancelled hcalls
    · simp [Io.registered, hpresent, hshutdown, hrelease, hgroup, GroupStage.linked]
    · simp [Io.registered]
    · rw [hcount, hshutdown]
      rfl
    · obtain hport | hport := hport <;> rw [hport]
      simp [reduceOption_append]
  · rename_i hrelease
    cases hstep
    refine h.call hobjects rfl rfl rfl rfl (h.tallied.same rfl ?_ rfl) (fun _ => .inl rfl) rfl rfl
      rfl rfl rfl rfl
    simp [Io.registered, hrelease]
  · rename_i hrelease
    cases releaseRef_eq_some hstep
    refine h.call hobjects rfl rfl rfl rfl (h.tallied.same rfl ?_ rfl) id rfl rfl rfl rfl rfl rfl
    exact registered_congr (lifeAfter_absent ho) rfl (by simp [hrelease]) rfl
  · cases hstep
  · cases hstep

lemma takeMember_inv {cancelPending : Bool} (hgood : Sound s (.takeMember o cancelPending))
    (hstep : takeMember s o cancelPending = some s') : Inv s' := by
  have hobjects := takeMember_objects h.objects hgood hstep
  unfold takeMember at hstep
  split at hstep
  · rename_i hmember
    split at hstep
    · cases hstep
      exact h.call hobjects rfl rfl rfl rfl (h.tallied.same rfl rfl rfl) id rfl rfl rfl rfl rfl rfl
    cases hstep
    refine h.call hobjects rfl rfl rfl rfl (h.tallied.same rfl ?_ rfl) id rfl rfl rfl rfl rfl rfl
    refine registered_congr Iff.rfl rfl Iff.rfl ?_
    rw [(h.objects o).member hmember]
    rfl
  · cases hstep

lemma free_inv (hstep : freeObject s o = some s') : Inv s' := by
  have hobjects := free_objects h.objects hstep
  unfold freeObject at hstep
  split at hstep
  · rename_i hdying
    cases hstep
    refine h.call hobjects rfl rfl rfl rfl (h.tallied.same rfl ?_ rfl) id rfl rfl rfl rfl rfl rfl
    exact registered_congr (by simp [hdying]) rfl Iff.rfl rfl
  · cases hstep

lemma callbackDone_inv (hstep : callbackDone s o = some s') : Inv s' := by
  have hobjects := callbackDone_objects h.objects hstep
  unfold callbackDone at hstep
  split at hstep
  · cases hstep
  · cases hstep
    exact h.call hobjects rfl rfl rfl rfl (h.tallied.same rfl rfl rfl) id rfl rfl rfl rfl rfl rfl

lemma workerRelease_inv (hstep : workerRelease s o = some s') : Inv s' := by
  have hobjects := workerRelease_objects h.objects hstep
  unfold workerRelease at hstep
  split at hstep
  · cases hstep
  · cases releaseRef_eq_some hstep
    refine h.call hobjects rfl rfl rfl rfl (h.tallied.same rfl ?_ rfl) id rfl rfl rfl rfl rfl rfl
    exact registered_congr (lifeAfter_absent (h.objects o)) rfl Iff.rfl rfl

lemma groupNext_inv (hgood : Sound s (.groupNext o))
    (hstep : groupNext s o = some s') : Inv s' := by
  have hobjects := groupNext_objects h.objects hgood hstep
  have ho := h.objects o
  unfold groupNext at hstep
  split at hstep
  · rename_i c hgroup
    obtain ⟨_, hio, hpc, howner, hposted, hcancelled, hcalls, hport, hcount⟩ :=
      ioqueueUnlock_eq_some hstep
    refine h.call hobjects hio rfl rfl rfl ?_ id hpc ?_ howner hposted hcancelled hcalls
    · cases hshutdown : (s.io o).shutdown with
      | true =>
        refine h.tallied.same hio ?_ (by rw [hcount, hshutdown]; rfl)
        simp [Io.registered, hshutdown]
      | false =>
        have hpresent : (s.io o).life ≠ .absent := by
          intro habsent
          rw [ho.stage.blank habsent] at hgroup
          cases hgroup
        have hmark : (s.io o).release ≠ .mark := by
          intro hmark
          simp [(ho.stage.of_closing (.inr hmark)).2.2.2.2.2.1] at hgroup
        refine h.tallied.leave hio ?_ ?_ (by rw [hcount, hshutdown]; rfl)
        · simp [Io.registered, hpresent, hshutdown, hmark, hgroup, GroupStage.linked]
        · cases c <;> simp [Io.registered, GroupStage.linked]
    · obtain hport | hport := hport <;> rw [hport]
      simp [reduceOption_append]
  · rename_i hgroup
    cases hstep
    refine ⟨hobjects, h.ops.giveUp rfl rfl rfl rfl rfl rfl rfl (fun _ => rfl) rfl,
      h.tallied.same rfl ?_ rfl, closing_kept h.closing rfl id rfl⟩
    refine registered_congr Iff.rfl rfl Iff.rfl ?_
    rw [hgroup]
    rfl
  · rename_i hgroup
    split at hstep
    · cases hstep
      refine h.call hobjects rfl rfl rfl rfl (h.tallied.same rfl ?_ rfl) id rfl rfl rfl rfl rfl rfl
      exact registered_congr Iff.rfl rfl Iff.rfl (by rw [hgroup]; rfl)
    · cases hstep
  · rename_i hgroup
    cases hstep
    refine h.call hobjects rfl rfl rfl rfl (h.tallied.same rfl ?_ rfl) id rfl rfl rfl rfl rfl rfl
    refine registered_congr Iff.rfl rfl Iff.rfl ?_
    rw [hgroup]
    split <;> rfl
  · rename_i hgroup
    cases releaseRef_eq_some hstep
    refine h.call hobjects rfl rfl rfl rfl (h.tallied.same rfl ?_ rfl) id rfl rfl rfl rfl rfl rfl
    exact registered_congr (lifeAfter_absent ho) rfl Iff.rfl (by rw [hgroup]; rfl)
  · rename_i hgroup
    cases hstep
    refine h.call hobjects rfl rfl rfl rfl (h.tallied.same rfl ?_ rfl) (fun _ => .inl rfl) rfl rfl
      rfl rfl rfl rfl
    simp [Io.registered, hgroup, GroupStage.linked]
  · rename_i hgroup
    cases releaseRef_eq_some hstep
    refine h.call hobjects rfl rfl rfl rfl (h.tallied.same rfl ?_ rfl) id rfl rfl rfl rfl rfl rfl
    exact registered_congr (lifeAfter_absent ho) rfl Iff.rfl (by rw [hgroup]; rfl)
  · cases hstep
  · cases hstep

end

/-! ### The steps of the application and the workers -/

omit [DecidableEq Obj] [DecidableEq Op] in
lemma Pc.start_hand (pc : Pc Obj Op St) : pc.start.hand = pc.hand := by
  cases pc <;> rfl

omit [DecidableEq Obj] [DecidableEq Op] in
lemma Pc.start_locked (pc : Pc Obj Op St) : pc.start.locked = pc.locked := by
  cases pc <;> rfl

lemma alloc_inv {grouped : Bool} (h : Inv s) (hstep : allocIoCompletion s o grouped = some s') :
    Inv s' := by
  have hobjects := alloc_objects h.objects hstep
  unfold allocIoCompletion at hstep
  split at hstep
  · rename_i hguard
    cases hstep
    have hblank := (h.objects o).stage.blank hguard.1
    refine ⟨hobjects, h.ops.same (.of_setIo rfl ?_ ?_ ?_ ?_ rfl rfl rfl rfl),
      h.tallied.enter rfl ?_ rfl rfl, ?_⟩
    · rw [hblank]
    · rw [hblank]
    · rw [hblank]
      rfl
    · rw [queue, queue]
      rw [Pc.start_hand]
      rfl
    · rw [hblank]
      rfl
    intro x op' st hclosing
    have hlocked := hguard.2
    dsimp only at hclosing
    rw [← Pc.start_locked, hclosing] at hlocked
    cases hlocked
  · cases hstep

lemma start_inv (h : Inv s) (hstep : startAsyncIoOperation s o op = some s') : Inv s' := by
  have hobjects := start_objects h.objects hstep
  unfold startAsyncIoOperation at hstep
  split at hstep
  · rename_i hguard
    cases hstep
    exact ⟨hobjects, h.ops.start hguard.2 rfl rfl rfl rfl rfl rfl rfl rfl rfl,
      h.tallied.same rfl rfl rfl, closing_kept h.closing rfl id rfl⟩
  · cases hstep

lemma post_inv (h : Inv s) (hstep : postPacket s op iosb = some s') : Inv s' := by
  unfold postPacket at hstep
  split at hstep
  · cases hstep
  split at hstep
  · rename_i hguard
    cases hstep
    refine ⟨h.objects.quiet rfl fun _ => rfl, ?_, h.tallied, h.closing⟩
    refine h.ops.post hguard.1 (isNone_iff_eq_none.mp hguard.2) rfl ?_ rfl rfl rfl rfl
    rw [queue, queue]
    rw [reduceOption_append, append_assoc]
    rfl
  · cases hstep

lemma cancelOperation_inv (h : Inv s) (hgood : Sound s (.cancelOperation op))
    (hstep : cancelAsyncIoOperation s op = some s') : Inv s' := by
  have hobjects := cancelOperation_objects h.objects hgood hstep
  unfold cancelAsyncIoOperation at hstep
  split at hstep
  · cases hstep
  split at hstep
  · rename_i hguard
    cases hstep
    exact ⟨hobjects, h.ops.cancelOperation rfl hguard.1 (isNone_iff_eq_none.mp hguard.2)
      rfl rfl rfl rfl rfl rfl rfl rfl, h.tallied.same rfl rfl rfl,
      closing_kept h.closing rfl id rfl⟩
  · cases hstep

lemma wait_inv {cancelPending : Bool} (h : Inv s)
    (hstep : waitForIoCompletion s o cancelPending = some s') : Inv s' := by
  have hobjects := wait_objects h.objects hstep
  unfold waitForIoCompletion at hstep
  split at hstep
  · cases cancelPending with
    | false =>
      cases hstep
      exact h
    | true =>
      cases hstep
      exact ⟨hobjects, h.ops.giveUp rfl rfl rfl rfl rfl rfl rfl (fun _ => rfl) rfl,
        h.tallied.same rfl rfl rfl, closing_kept h.closing rfl id rfl⟩
  · cases hstep

lemma execute_inv (h : Inv s) (hstep : executeObject s o = some s') : Inv s' := by
  have hobjects := execute_objects h.objects hstep
  unfold executeObject at hstep
  split at hstep
  · cases hstep
  rename_i hnum
  split at hstep
  · cases hstep
  rename_i op iosb rest hrest
  cases hstep
  refine ⟨hobjects, h.ops.execute rfl rfl rfl ?_ rfl rfl rfl rfl rfl,
    h.tallied.same rfl rfl rfl, closing_kept h.closing rfl id rfl⟩
  rw [Io.live, hrest]
  obtain ⟨n, hn⟩ := Nat.exists_eq_succ_of_ne_zero hnum
  rw [hn]
  simp [Io.live]

lemma Inv.quiet (h : Inv s) (hobjects : ObjInv s') (hio : s'.io = s.io) (hqueue : queue s' = queue s)
    (hcount : s'.objcount = s.objcount) (howner : s'.owner = s.owner) (hposted : s'.posted = s.posted)
    (hcancelled : s'.cancelled = s.cancelled) (hcalls : s'.calls = s.calls)
    (hclosing : ∀ o op iosb, s'.pc = .closing o op iosb → (s.io o).down) : Inv s' := by
  refine ⟨hobjects, h.ops.same ?_, ?_, by rw [hio]; exact hclosing⟩
  · exact ⟨by simp [hio], by simp [hio], by simp [hio], hqueue, howner, hposted, hcancelled, hcalls⟩
  · rw [Tallied, hcount, hio]
    exact h.tallied

def Pc.resting : Pc Obj Op St → Bool
  | stopped | removing | tail | asleep => true
  | got _ | closing .. | deliver .. | destroy _ | destroyDrop _ => false

omit [DecidableEq Op] in
lemma Pc.resting_spec {pc : Pc Obj Op St} (h : pc.resting = true) :
    pc.hand = none ∧ (∀ o, pc.duty o = .idle) ∧ ∀ o op iosb, pc ≠ .closing o op iosb := by
  cases pc with
  | stopped | removing | tail | asleep => exact ⟨rfl, fun _ => rfl, by simp⟩
  | _ => cases h

lemma Inv.rest (h : Inv s) (hs : s.pc.resting = true) {pc : Pc Obj Op St}
    (hpc : pc.resting = true) : Inv { s with pc := pc } := by
  obtain ⟨hhand, hduty, _⟩ := Pc.resting_spec hs
  obtain ⟨hhand', hduty', hclosing⟩ := Pc.resting_spec hpc
  refine h.quiet (h.objects.quiet rfl fun o => ?_) rfl ?_ rfl rfl rfl rfl rfl
    fun o op iosb heq => absurd heq (hclosing o op iosb)
  · rw [hduty, hduty']
  · rw [queue, queue, hhand, hhand']

lemma closePacket_inv (h : Inv s) (hpc : s.pc = .closing o op iosb) :
    Inv (closePacket s o op iosb) := by
  have hdown := h.closing o op iosb hpc
  have hqueue : queue s = (o, op, iosb) :: s.port.reduceOption := by
    rw [queue, hpc]
    rfl
  obtain ⟨hout, _⟩ := h.ops.queued o op iosb (by rw [hqueue]; exact mem_cons_self)
  have hobjects := closePacket_objects h.objects hpc hout hdown
  revert hobjects
  unfold closePacket
  split
  · intro hobjects
    refine h.quiet hobjects rfl ?_ rfl rfl rfl rfl rfl ?_
    · rw [hqueue]
      rfl
    · exact fun _ _ _ hclosing => by cases hclosing
  intro hobjects
  have hpending := (h.objects o).pending
  have hmem : op ∈ (s.io o).skippedOps := by
    obtain hmem | hmem := hout
    · have hpos := length_pos_of_mem hmem
      omega
    · exact hmem
  have hnext : ∀ n : Int,
      (if n ≠ 0 then Pc.removing else Pc.destroy o : Pc Obj Op St).hand = none ∧
        ∀ x op' st, (if n ≠ 0 then Pc.removing else Pc.destroy o : Pc Obj Op St) ≠
          .closing x op' st := by
    intro n
    split
    · exact ⟨rfl, by simp⟩
    · exact ⟨rfl, by simp⟩
  refine ⟨hobjects, h.ops.skip rfl rfl rfl rfl (hqueue.trans (congrArg _ ?_)) hmem rfl rfl rfl rfl,
    h.tallied.same rfl rfl rfl, ?_⟩
  · rw [queue, (hnext _).1]
    rfl
  · exact fun x op' st hclosing => absurd hclosing ((hnext _).2 x op' st)

lemma ioqueue_inv {reserved : Bool} (h : Inv s) (hgood : Sound s (.ioqueue reserved))
    (hstep : ioqueueThread s reserved = some s') : Inv s' := by
  have hhand : ∀ o op iosb, s.pc.hand = some (o, op, iosb) →
      queue s = (o, op, iosb) :: s.port.reduceOption := by
    intro o op iosb hpc
    rw [queue, hpc]
    rfl
  have hout : ∀ o op iosb, s.pc.hand = some (o, op, iosb) → (s.io o).Outstanding op := by
    intro o op iosb hpc
    exact (h.ops.queued o op iosb (by rw [hhand o op iosb hpc]; exact mem_cons_self)).1
  have hobjects := ioqueue_objects h.objects hout h.closing hgood hstep
  unfold ioqueueThread at hstep
  split at hstep
  · rename_i hpc
    split at hstep
    · cases hstep
    rename_i packet rest hport
    cases hstep
    refine h.quiet hobjects rfl ?_ rfl rfl rfl rfl rfl fun _ _ _ hclosing => by cases hclosing
    rw [queue, queue, hpc, hport]
    cases packet <;> rfl
  · rename_i hpc
    cases hstep
    refine h.quiet hobjects rfl ?_ rfl rfl rfl rfl rfl fun _ _ _ hclosing => by cases hclosing
    rw [queue, queue, hpc]
    rfl
  · rename_i o op iosb hpc
    split at hstep
    · rename_i hflags
      cases hstep
      refine h.quiet hobjects rfl ?_ rfl rfl rfl rfl rfl fun _ _ _ hclosing => ?_
      · rw [queue, queue, hpc]
        rfl
      · cases hclosing
        rw [Io.down]
        simpa using hflags
    cases hstep
    refine h.quiet hobjects rfl ?_ rfl rfl rfl rfl rfl fun _ _ _ hclosing => by cases hclosing
    rw [queue, queue, hpc]
    rfl
  · rename_i o op iosb hpc
    cases hstep
    exact closePacket_inv h hpc
  · rename_i o op iosb hpc
    obtain ⟨rfl, hskip⟩ := hgood o op iosb hpc
    have hqueue := hhand o op iosb (by rw [hpc]; rfl)
    obtain ⟨_, _, hne⟩ :=
      settle_pending (hout o op iosb (by rw [hpc]; rfl)) hskip (h.objects o).pending
    unfold deliverPacket at hstep
    rw [if_neg hne, if_pos rfl, map_eq_some_iff] at hstep
    obtain ⟨r, hsubmit, rfl⟩ := hstep
    unfold objectSubmit at hsubmit
    split at hsubmit
    · cases hsubmit
    · cases hsubmit
      refine ⟨hobjects, h.ops.deliver rfl rfl rfl rfl hqueue rfl rfl rfl rfl,
        h.tallied.same rfl rfl rfl, fun _ _ _ hclosing => by cases hclosing⟩
  · rename_i o hpc
    cases hstep
    have hstage := (h.objects o).stage
    rw [hpc, Pc.duty, if_pos rfl] at hstage
    cases hstage with
    | destroy h₁ h₂ h₃ h₄ h₅ h₆ h₇ =>
      refine ⟨hobjects, h.ops.same (.of_setIo rfl rfl rfl rfl ?_ rfl rfl rfl rfl),
        h.tallied.leave rfl ?_ ?_ rfl, fun _ _ _ hclosing => by cases hclosing⟩
      · rw [queue, queue, hpc]
        rfl
      · simp [Io.registered, h₁, h₂, h₅, h₆, GroupStage.linked]
      · simp [Io.registered]
  · rename_i o hpc
    obtain ⟨t, hrelease, rfl⟩ := map_eq_some_iff.mp hstep
    cases releaseRef_eq_some hrelease
    refine ⟨hobjects, h.ops.same (.of_setIo rfl rfl rfl rfl ?_ rfl rfl rfl rfl),
      h.tallied.same rfl ?_ rfl, fun _ _ _ hclosing => by cases hclosing⟩
    · rw [queue, queue, hpc]
      rfl
    · exact registered_congr (lifeAfter_absent (h.objects o)) rfl Iff.rfl rfl
  · rename_i hpc
    cases hstep
    exact h.rest (by rw [hpc]; rfl) (by split <;> rfl)
  · rename_i hpc
    cases hstep
    exact h.rest (by rw [hpc]; rfl) rfl
  · cases hstep

lemma ioqueueTimeout_inv (h : Inv s) (hstep : ioqueueTimeout s = some s') : Inv s' := by
  unfold ioqueueTimeout at hstep
  split at hstep
  · rename_i hpc
    cases hstep
    exact h.rest (by rw [hpc]; rfl) (by split <;> rfl)
  · cases hstep

lemma Initial.inv (h : Initial s) : Inv s := by
  obtain ⟨hio, hcount, hport, hpc, howner, hposted, hcancelled, hcalls⟩ := h
  have hblank : ∀ o, s.io o = Io.blank := by
    intro o
    rw [hio]
  have hqueue : queue s = [] := by
    rw [queue, hpc, hport]
    rfl
  constructor
  · intro o
    rw [hblank, hpc]
    exact ⟨.absent rfl, ⟨rfl, by simp [Io.blank]⟩, rfl, rfl, nofun, Nat.zero_le _⟩
  · constructor
    · intro o op hout
      rw [hblank] at hout
      exact absurd ⟨rfl, rfl⟩ (outstanding_not_settled hout)
    · intro o
      rw [hblank]
      exact nodup_nil
    · intro o op hmem
      rw [hblank] at hmem
      cases hmem
    · intro o op hmem
      rw [hblank] at hmem
      cases hmem
    · intro o op iosb hmem
      rw [hqueue] at hmem
      cases hmem
    · rw [hqueue]
      exact nodup_nil
    · intro op _
      rw [hposted, hcancelled]
      exact ⟨rfl, rfl⟩
    · intro o op iosb hmem
      rw [hblank, hcalls] at hmem
      obtain hmem | hmem := hmem <;> cases hmem
    · intro o op hop
      rw [howner] at hop
      cases hop
  · refine ⟨0, hcount, tally_zero fun o => ?_⟩
    rw [hblank]
    rfl
  · intro o op iosb hclosing
    rw [hpc] at hclosing
    cases hclosing

/-- The step lemma. -/
theorem Inv.step {a : Act Obj Op St} (h : Inv s) (hgood : Sound s a) (hstep : step s a = some s') :
    Inv s' := by
  cases a with
  | alloc o grouped => exact alloc_inv h hstep
  | start o op => exact start_inv h hstep
  | post op iosb => exact post_inv h hstep
  | cancelOperation op => exact cancelOperation_inv h hgood hstep
  | wait o cancelPending => exact wait_inv h hstep
  | cancelRelease o => exact cancelRelease_inv h hstep
  | release o => exact release_inv h hgood hstep
  | releaseNext o => exact releaseNext_inv h hstep
  | takeMember o cancelPending => exact takeMember_inv h hgood hstep
  | groupNext o => exact groupNext_inv h hgood hstep
  | free o => exact free_inv h hstep
  | execute o => exact execute_inv h hstep
  | callbackDone o => exact callbackDone_inv h hstep
  | workerRelease o => exact workerRelease_inv h hstep
  | ioqueue reserved => exact ioqueue_inv h hgood hstep
  | ioqueueTimeout => exact ioqueueTimeout_inv h hstep

theorem inv_of_sound (h : Reaches ThreadpoolIo.step Sound Initial s) : Inv s :=
  h.invariant (fun _ hinit => hinit.inv) fun _ _ _ hinv hgood hstep => hinv.step hgood hstep

end WineForge.ThreadpoolIo
