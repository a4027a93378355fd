import WineForge.ThreadpoolIo.Objects

/-!
# The steps keep the reference counts
-/

namespace WineForge.ThreadpoolIo

open Library List Option

variable {Obj Op St : Type} [DecidableEq Obj] {s s' t : State Obj Op St} {o : Obj} {op : Op}
  {iosb : St}

def ObjInv (s : State Obj Op St) : Prop := ∀ o, (s.io o).Inv (s.pc.duty o)

lemma ObjInv.update (h : ObjInv s) {r : Io Op St} (hio : s'.io = Function.update s.io o r)
    (hduty : ∀ x, x ≠ o → s'.pc.duty x = s.pc.duty x) (hr : r.Inv (s'.pc.duty o)) :
    ObjInv s' := by
  intro x
  by_cases hx : x = o
  · rw [hx, hio, Function.update_self]
    exact hr
  · rw [hio, Function.update_of_ne hx, hduty x hx]
    exact h x

lemma ObjInv.call (h : ObjInv s) {r : Io Op St} (hio : s'.io = Function.update s.io o r)
    (hpc : s'.pc = s.pc) (hr : r.Inv (s.pc.duty o)) : ObjInv s' :=
  h.update hio (fun x _ => by rw [hpc]) (hpc ▸ hr)

lemma ObjInv.quiet (h : ObjInv s) (hio : s'.io = s.io) (hpc : ∀ x, s'.pc.duty x = s.pc.duty x) :
    ObjInv s' := by
  intro x
  rw [hio, hpc]
  exact h x

section Calls

variable {k : Io Op St → Io Op St}

lemma releaseRef_eq_some (h : releaseRef s o k = some s') : s' = setIo s o (k { s.io o with
      refcount := (s.io o).refcount - 1, life := (s.io o).lifeAfter }) := by
  obtain ⟨r, hrelease, rfl⟩ := map_eq_some_iff.mp h
  rw [objectRelease_eq_some hrelease]

lemma ioqueueUnlock_eq_some (h : ioqueueUnlock s o k = some s') :
    s.pc.locked = false ∧ s'.io = Function.update s.io o (k (s.io o)) ∧ s'.pc = s.pc ∧
      s'.owner = s.owner ∧ s'.posted = s.posted ∧ s'.cancelled = s.cancelled ∧
      s'.calls = s.calls ∧ (s'.port = s.port ∨ s'.port = s.port ++ [none]) ∧
      s'.objcount = if (s.io o).shutdown then s.objcount else s.objcount - 1 := by
  unfold ioqueueUnlock at h
  split at h
  · cases h
  rename_i hlocked
  have hfree : s.pc.locked = false := by
    cases hpc : s.pc.locked with
    | true => simp [hpc] at hlocked
    | false => rfl
  split at h
  · rename_i hshutdown
    cases h
    exact ⟨hfree, rfl, rfl, rfl, rfl, rfl, rfl, .inl rfl, (if_pos hshutdown).symm⟩
  rename_i hshutdown
  split at h
  · cases h
    exact ⟨hfree, rfl, rfl, rfl, rfl, rfl, rfl, .inl rfl, (if_neg hshutdown).symm⟩
  · cases h
    exact ⟨hfree, rfl, rfl, rfl, rfl, rfl, rfl, .inr rfl, (if_neg hshutdown).symm⟩

end Calls

lemma Pc.duty_of_unlocked {pc : Pc Obj Op St} (h : pc.locked = false) (o : Obj) :
    pc.duty o = .idle := by
  cases pc with
  | destroy => cases h
  | destroyDrop => cases h
  | _ => rfl

lemma Pc.duty_start (pc : Pc Obj Op St) (o : Obj) : pc.start.duty o = pc.duty o := by
  cases pc <;> rfl

lemma alloc_objects {grouped : Bool} (h : ObjInv s)
    (hstep : allocIoCompletion s o grouped = some s') : ObjInv s' := by
  unfold allocIoCompletion at hstep
  split at hstep
  · rename_i hguard
    cases hstep
    have hidle := Pc.duty_of_unlocked hguard.2 o
    refine h.update rfl (fun x _ => Pc.duty_start s.pc x) ?_
    rw [Pc.duty_start, hidle]
    refine ⟨?_, ⟨?_, ?_⟩, rfl, rfl, fun _ => rfl, Nat.zero_le _⟩
    · exact .of_usable (by simp) rfl rfl rfl rfl rfl
    · simp [Io.refs, Io.blank, GroupStage.holds]
    · simp
  · cases hstep

lemma Io.Counts.objectCancel {r : Io Op St} (h : r.Counts) : (objectCancel r).Counts := by
  refine h.same ?_ rfl rfl
  simp only [Io.refs, ThreadpoolIo.objectCancel]
  omega

lemma ObjInv.dropped {r' : Io Op St} (h : ObjInv s) (hpos : 0 < (s.io o).refs)
    (hio : s'.io = Function.update s.io o r') (hduty : ∀ x, x ≠ o → s'.pc.duty x = s.pc.duty x)
    (hstage : Stage r' (s'.pc.duty o))
    (hrefs : r'.refs = (s.io o).refs - 1) (hcount : r'.refcount = (s.io o).refcount - 1)
    (hlife : r'.life = (s.io o).lifeAfter) (hpending : r'.pendingCount = (s.io o).pendingCount)
    (hskipped : r'.skippedCount = (s.io o).skippedCount)
    (hpendingOps : r'.pendingOps = (s.io o).pendingOps)
    (hskippedOps : r'.skippedOps = (s.io o).skippedOps)
    (hmember : r'.isGroupMember = (s.io o).isGroupMember)
    (hgroup : (s.io o).group = .outside → r'.group = .outside)
    (hcompletions : r'.completions = (s.io o).completions)
    (hnum : r'.numPending = (s.io o).numPending) : ObjInv s' := by
  have ho := h o
  refine h.update hio hduty ⟨hstage, ho.counts.drop hpos hrefs hcount hlife, ?_, ?_, ?_, ?_⟩
  · rw [hpending, hpendingOps]
    exact ho.pending
  · rw [hskipped, hskippedOps]
    exact ho.skipped
  · rw [hmember]
    exact fun hm => hgroup (ho.member hm)
  · rw [hnum, hcompletions]
    exact ho.completions

lemma cancelRelease_objects (h : ObjInv s) (hstep : cancelRelease s o = some s') : ObjInv s' := by
  unfold cancelRelease at hstep
  split at hstep
  · cases hstep
  cases releaseRef_eq_some hstep
  have ho := h o
  have hpos : 0 < (s.io o).refs := by
    unfold Io.refs
    omega
  have hlive := ho.counts.live hpos
  refine h.dropped hpos rfl (fun _ _ => rfl) ?_ ?_ rfl rfl rfl rfl rfl rfl rfl id rfl rfl
  · exact ho.stage.same (by simp [hlive]) (Io.lifeAfter_ne_absent hlive) rfl rfl rfl rfl rfl id id
  · simp only [Io.refs]
    omega

lemma release_objects (h : ObjInv s) (hgood : (s.io o).pendingCount = 0 ∨ (s.io o).skippedCount ≠ 0)
    (hstep : releaseIoCompletion s o = some s') : ObjInv s' := by
  unfold releaseIoCompletion at hstep
  split at hstep
  · rename_i hguard
    cases hstep
    have ho := h o
    obtain ⟨hidle, hdown, hdropped, hshutdown⟩ := ho.stage.usable hguard.1
    obtain ⟨⟨hlive, hheld, hearly⟩, hgroup⟩ := hguard
    refine h.call rfl rfl ⟨?_, ho.counts.same rfl rfl rfl, ho.pending, ho.skipped, ho.member,
      ho.completions⟩
    rw [hidle]
    have hpending := ho.pending
    have hskipped := ho.skipped
    by_cases hnone : (s.io o).pendingCount = 0 ∧ (s.io o).skippedCount = 0
    · have hsettled : (s.io o).Settled :=
        ⟨length_eq_zero_iff.mp (by omega), length_eq_zero_iff.mp (by omega)⟩
      exact .closing (by simp [hlive]) (.inl (if_pos hnone)) rfl hdropped hshutdown hgroup hsettled
    refine .draining (by simp [hlive]) (if_neg hnone) rfl hdropped hshutdown hgroup ?_
    intro hnil
    rw [hnil, length_nil] at hskipped
    omega
  · cases hstep

lemma releaseNext_objects (h : ObjInv s) (hstep : releaseNext s o = some s') : ObjInv s' := by
  have ho := h o
  unfold releaseNext at hstep
  split at hstep
  · rename_i hunlock
    obtain ⟨_, hio, hpc, _⟩ := ioqueueUnlock_eq_some hstep
    refine h.call hio hpc ⟨?_, ho.counts.same rfl rfl rfl, ho.pending, ho.skipped, ho.member,
      ho.completions⟩
    obtain ⟨hidle, h₁, h₂, h₃, h₄, h₅, h₆⟩ := ho.stage.of_closing (.inl hunlock)
    rw [hidle]
    exact .closing h₁ (.inr rfl) h₂ h₃ h₄ h₅ h₆
  · rename_i hmark
    cases hstep
    refine h.call rfl rfl ⟨?_, ho.counts.same rfl rfl rfl, ho.pending, ho.skipped, ho.member,
      ho.completions⟩
    obtain ⟨hidle, h₁, h₂, h₃, h₄, h₅, h₆⟩ := ho.stage.of_closing (.inr hmark)
    rw [hidle]
    refine .dropping h₁ rfl h₂ h₃ rfl ?_ h₆
    rw [h₅]
    simp
  · rename_i hdrop
    cases releaseRef_eq_some hstep
    obtain ⟨hidle, h₁, h₂, h₃, h₄, h₅, h₆⟩ := ho.stage.of_dropping hdrop
    have hlive := ho.counts.live_of_held h₃
    refine h.dropped (refs_pos_of_held h₃) rfl (fun _ _ => rfl) ?_ ?_ rfl rfl rfl rfl rfl rfl rfl id rfl rfl
    · show Stage _ (s.pc.duty o)
      rw [hidle]
      exact .gone (Io.lifeAfter_ne_absent hlive) rfl h₂ rfl h₄ h₅ h₆
    · simp [Io.refs, h₃]
      omega
  · cases hstep
  · cases hstep

lemma takeMember_objects {cancelPending : Bool} (h : ObjInv s)
    (hgood : (s.io o).shuttingDown = true → (s.io o).shutdown = true)
    (hstep : takeMember s o cancelPending = some s') : ObjInv s' := by
  unfold takeMember at hstep
  split at hstep
  · rename_i hmember
    have ho := h o
    have houtside := ho.member hmember
    have hpresent : (s.io o).life ≠ .absent := by
      intro habsent
      rw [ho.stage.blank habsent] at hmember
      cases hmember
    split at hstep
    · cases hstep
      exact h.call rfl rfl ⟨ho.stage.same hpresent hpresent rfl rfl rfl rfl rfl id id,
        ho.counts.same rfl rfl rfl, ho.pending, ho.skipped, nofun, ho.completions⟩
    cases hstep
    have hrefs := ho.counts.refs
    refine h.call rfl rfl ⟨?_, ho.counts.add (by omega) ?_ rfl rfl, ho.pending, ho.skipped, nofun,
      ho.completions⟩
    · refine ho.stage.regroup hpresent hpresent rfl rfl rfl rfl ?_ (fun _ => hgood) (.inl rfl) id
      rw [houtside]
      rfl
    · simp [Io.refs, houtside, GroupStage.holds]
  · cases hstep

lemma free_objects (h : ObjInv s) (hstep : freeObject s o = some s') : ObjInv s' := by
  unfold freeObject at hstep
  split at hstep
  · rename_i hdying
    cases hstep
    have ho := h o
    have halive := ho.counts.alive
    rw [hdying] at halive
    refine h.call rfl rfl ⟨?_, ⟨ho.counts.refs, ?_⟩, ho.pending, ho.skipped, nofun, ho.completions⟩
    · exact ho.stage.same (by simp [hdying]) (by simp) rfl rfl rfl rfl rfl id id
    · simpa using halive
  · cases hstep

lemma execute_objects (h : ObjInv s) (hstep : executeObject s o = some s') : ObjInv s' := by
  unfold executeObject at hstep
  split at hstep
  · cases hstep
  split at hstep
  · cases hstep
  rename_i op iosb rest hrest
  cases hstep
  have ho := h o
  have hpos : 0 < (s.io o).refs := by
    unfold Io.refs
    omega
  have hpresent : (s.io o).life ≠ .absent := by
    simp [ho.counts.live hpos]
  have hcompletions := ho.completions
  refine h.call rfl rfl ⟨ho.stage.same hpresent hpresent rfl rfl rfl rfl rfl id id,
    ho.counts.same ?_ rfl rfl, ho.pending, ho.skipped, ho.member, ?_⟩
  · simp only [Io.refs]
    omega
  · rw [hrest, length_cons] at hcompletions
    show (s.io o).numPending - 1 ≤ rest.length
    omega

lemma callbackDone_objects (h : ObjInv s) (hstep : callbackDone s o = some s') : ObjInv s' := by
  unfold callbackDone at hstep
  split at hstep
  · cases hstep
  cases hstep
  have ho := h o
  have hpos : 0 < (s.io o).refs := by
    unfold Io.refs
    omega
  have hpresent : (s.io o).life ≠ .absent := by
    simp [ho.counts.live hpos]
  refine h.call rfl rfl ⟨ho.stage.same hpresent hpresent rfl rfl rfl rfl rfl id id,
    ho.counts.same ?_ rfl rfl, ho.pending, ho.skipped, ho.member, ho.completions⟩
  simp only [Io.refs]
  omega

lemma workerRelease_objects (h : ObjInv s) (hstep : workerRelease s o = some s') : ObjInv s' := by
  unfold workerRelease at hstep
  split at hstep
  · cases hstep
  cases releaseRef_eq_some hstep
  have ho := h o
  have hpos : 0 < (s.io o).refs := by
    unfold Io.refs
    omega
  have hlive := ho.counts.live hpos
  refine h.dropped hpos rfl (fun _ _ => rfl) ?_ ?_ rfl rfl rfl rfl rfl rfl rfl id rfl rfl
  · exact ho.stage.same (by simp [hlive]) (Io.lifeAfter_ne_absent hlive) rfl rfl rfl rfl rfl id id
  · simp only [Io.refs]
    omega

section Operations

variable [DecidableEq Op]

lemma start_objects (h : ObjInv s) (hstep : startAsyncIoOperation s o op = some s') :
    ObjInv s' := by
  unfold startAsyncIoOperation at hstep
  split at hstep
  · rename_i hguard
    cases hstep
    have ho := h o
    obtain ⟨hidle, hdown, hdropped, hshutdown⟩ := ho.stage.usable hguard.1
    obtain ⟨⟨hlive, hheld, hearly⟩, _⟩ := hguard
    refine h.call rfl rfl ⟨?_, ho.counts.same rfl rfl rfl, ?_, ho.skipped, ho.member,
      ho.completions⟩
    · rw [hidle]
      exact .of_usable (by simp [hlive]) hheld hdown hdropped hshutdown hearly
    · have hpending := ho.pending
      simp [hpending]
  · cases hstep

lemma cancelOperation_objects (h : ObjInv s)
    (hgood : ∀ o, s.owner op = some o → op ∉ (s.io o).skippedOps)
    (hstep : cancelAsyncIoOperation s op = some s') : ObjInv s' := by
  unfold cancelAsyncIoOperation at hstep
  split at hstep
  · cases hstep
  rename_i o howner
  split at hstep
  · rename_i hguard
    cases hstep
    have ho := h o
    have hlive := ho.counts.live_of_held
      (ho.stage.outstanding (outstanding_not_settled hguard.1)).2.1
    obtain ⟨hskipped, hlength, _⟩ := settle_pending hguard.1 (hgood o howner) ho.pending
    refine h.call rfl rfl ⟨?_, ho.counts.same rfl rfl rfl, hlength, ?_, ho.member, ho.completions⟩
    · exact ho.stage.settle hguard.1 rfl hlive rfl rfl rfl rfl rfl hskipped
    · rw [hskipped]
      exact ho.skipped
  · cases hstep

lemma wait_objects {cancelPending : Bool} (h : ObjInv s)
    (hstep : waitForIoCompletion s o cancelPending = some s') : ObjInv s' := by
  unfold waitForIoCompletion at hstep
  split at hstep
  · rename_i husable
    cases cancelPending with
    | false =>
      cases hstep
      exact h
    | true =>
      cases hstep
      have ho := h o
      obtain ⟨hidle, hdown, hdropped, hshutdown⟩ := ho.stage.usable husable
      obtain ⟨hlive, hheld, hearly⟩ := husable
      refine h.call rfl rfl ⟨?_, ho.counts.objectCancel, rfl, ?_, ho.member, Nat.zero_le _⟩
      · rw [hidle]
        exact .of_usable (by simp [objectCancel, hlive]) hheld hdown hdropped hshutdown hearly
      have hpending := ho.pending
      have hskipped := ho.skipped
      simp only [id_eq, objectCancel, length_append]
      omega
  · cases hstep

lemma groupNext_objects (h : ObjInv s) (hgood : (s.io o).group = .wait → (s.io o).skippedCount = 0)
    (hstep : groupNext s o = some s') : ObjInv s' := by
  have ho := h o
  unfold groupNext at hstep
  split at hstep
  · rename_i c hgroup
    obtain ⟨_, hio, hpc, _⟩ := ioqueueUnlock_eq_some hstep
    have hpos : 0 < (s.io o).refs := by
      simp [Io.refs, hgroup, GroupStage.holds]
    have hlive := ho.counts.live hpos
    refine h.call hio hpc ⟨?_, ho.counts.same ?_ rfl rfl, ho.pending, ho.skipped, ?_,
      ho.completions⟩
    · refine ho.stage.regroup (by simp [hlive]) (by simp [hlive]) rfl rfl rfl rfl ?_ ?_ ?_ id
      · simp [hgroup, GroupStage.early]
      · simp [hgroup]
      · cases c <;> simp [GroupStage.early]
    · cases c <;> simp [Io.refs, hgroup, GroupStage.holds]
    · exact fun hmember => by simp [ho.member hmember] at hgroup
  · rename_i hgroup
    cases hstep
    have hpos : 0 < (s.io o).refs := by
      simp [Io.refs, hgroup, GroupStage.holds]
    have hlive := ho.counts.live hpos
    have hpending := ho.pending
    have hskipped := ho.skipped
    refine h.call rfl rfl ⟨?_, ho.counts.objectCancel.same ?_ rfl rfl, rfl, ?_, ?_, Nat.zero_le _⟩
    · refine ho.stage.regroup (by simp [hlive]) (by simp [hlive, objectCancel]) rfl rfl rfl rfl ?_
        ?_ (.inl rfl) ?_
      · simp [hgroup, GroupStage.early]
      · simp [hgroup]
      · rintro ⟨hp, hs⟩
        exact ⟨rfl, by simp [objectCancel, hp, hs]⟩
    · simp [Io.refs, objectCancel, hgroup, GroupStage.holds]
    · simp only [objectCancel, length_append]
      omega
    · exact fun hmember => by simp [ho.member hmember] at hgroup
  · rename_i hgroup
    split at hstep
    · rename_i hfinished
      cases hstep
      have hpos : 0 < (s.io o).refs := by
        simp [Io.refs, hgroup, GroupStage.holds]
      have hlive := ho.counts.live hpos
      have hpending := ho.pending
      have hskipped := ho.skipped
      have hnone := hgood hgroup
      simp only [objectIsFinished, Bool.and_eq_true, decide_eq_true_eq] at hfinished
      have hsettled : (s.io o).Settled :=
        ⟨length_eq_zero_iff.mp (by omega), length_eq_zero_iff.mp (by omega)⟩
      refine h.call rfl rfl ⟨?_, ho.counts.same ?_ rfl rfl, ho.pending, ho.skipped, ?_,
        ho.completions⟩
      · refine ho.stage.regroup (by simp [hlive]) (by simp [hlive]) rfl rfl rfl rfl ?_ ?_
          (.inr ⟨rfl, hsettled⟩) id
        · simp [hgroup, GroupStage.early]
        · simp [hgroup]
      · simp [Io.refs, hgroup, GroupStage.holds]
      · exact fun hmember => by simp [ho.member hmember] at hgroup
    · cases hstep
  · rename_i hgroup
    cases hstep
    have hpos : 0 < (s.io o).refs := by
      simp [Io.refs, hgroup, GroupStage.holds]
    have hpresent : (s.io o).life ≠ .absent := by
      simp [ho.counts.live hpos]
    cases hshutdown : (s.io o).shutdown with
    | false =>
      obtain ⟨hidle, h₁, h₂, h₃, h₄, h₅, h₆⟩ := ho.stage.of_check (.inl ⟨hgroup, hshutdown⟩)
      refine h.call rfl rfl ⟨?_, ho.counts.same ?_ rfl rfl, ho.pending, ho.skipped, ?_,
        ho.completions⟩
      · rw [hidle]
        exact .held h₁ h₂ h₃ h₄ h₅ (by simp) (by simp) (by simp) fun _ => h₆
      · simp [Io.refs, hgroup, GroupStage.holds]
      · exact fun hmember => by simp [ho.member hmember] at hgroup
    | true =>
      refine h.call rfl rfl ⟨?_, ho.counts.same ?_ rfl rfl, ho.pending, ho.skipped, ?_,
        ho.completions⟩
      · exact ho.stage.advance hpresent hpresent rfl rfl rfl hshutdown
          (.inl ⟨hgroup, hshutdown⟩) (.inl rfl) id
      · simp [Io.refs, hgroup, GroupStage.holds]
      · exact fun hmember => by simp [ho.member hmember] at hgroup
  · rename_i hgroup
    cases releaseRef_eq_some hstep
    obtain ⟨hidle, h₁, h₂, h₃, h₄, h₅, h₆⟩ := ho.stage.of_check (.inr hgroup)
    refine h.dropped (refs_pos_of_held h₄) rfl (fun _ _ => rfl) ?_ ?_ rfl rfl rfl rfl rfl rfl rfl
      ?_ rfl rfl
    · show Stage _ (s.pc.duty o)
      rw [hidle]
      exact .grouped (Io.lifeAfter_ne_absent (ho.counts.live_of_held h₄)) h₂ h₃ rfl h₆ (.inl rfl)
    · simp [Io.refs, h₄, hgroup, GroupStage.holds]
      omega
    · simp [hgroup]
  · rename_i hgroup
    cases hstep
    have hpos : 0 < (s.io o).refs := by
      simp [Io.refs, hgroup, GroupStage.holds]
    have hpresent : (s.io o).life ≠ .absent := by
      simp [ho.counts.live hpos]
    refine h.call rfl rfl ⟨?_, ho.counts.same ?_ rfl rfl, ho.pending, ho.skipped, ?_,
      ho.completions⟩
    · exact ho.stage.advance hpresent hpresent rfl rfl rfl rfl (.inr (.inl hgroup))
        (.inr (.inl rfl)) id
    · simp [Io.refs, hgroup, GroupStage.holds]
    · exact fun hmember => by simp [ho.member hmember] at hgroup
  · rename_i hgroup
    cases releaseRef_eq_some hstep
    have hpos : 0 < (s.io o).refs := by
      simp [Io.refs, hgroup, GroupStage.holds]
    have hlive := ho.counts.live hpos
    refine h.dropped hpos rfl (fun _ _ => rfl) ?_ ?_ rfl rfl rfl rfl rfl rfl rfl ?_ rfl rfl
    · exact ho.stage.advance (by simp [hlive]) (Io.lifeAfter_ne_absent hlive) rfl rfl rfl
        (ho.stage.shutdown_of_drop hgroup) (.inr (.inr hgroup)) (.inr (.inr rfl)) id
    · simp [Io.refs, hgroup, GroupStage.holds]
    · simp [hgroup]
  · cases hstep
  · cases hstep

lemma closePacket_objects (h : ObjInv s) (hpc : s.pc = .closing o op iosb)
    (hout : (s.io o).Outstanding op)
    (hclosing : (s.io o).shutdown = true ∨ (s.io o).shuttingDown = true) :
    ObjInv (closePacket s o op iosb) := by
  have hduty : ∀ x, s.pc.duty x = .idle := by
    intro x
    rw [hpc]
    rfl
  have ho := h o
  unfold closePacket
  split
  · exact h.quiet rfl fun x => (hduty x).symm
  have hpending := ho.pending
  have hskipped := ho.skipped
  have hnil : (s.io o).pendingOps = [] := length_eq_zero_iff.mp (by omega)
  have hmem : op ∈ (s.io o).skippedOps := by
    obtain hmem | hmem := hout
    · rw [hnil] at hmem
      cases hmem
    · exact hmem
  have hlength := length_pos_of_mem hmem
  obtain ⟨_, hdropped, hshutdown, _, ⟨_, hdown⟩ | ⟨hreturned, hdown, hgroup, _⟩⟩ :=
    ho.stage.outstanding (outstanding_not_settled hout)
  · obtain hclosing | hclosing := hclosing
    · rw [hshutdown] at hclosing
      cases hclosing
    · rw [hdown] at hclosing
      cases hclosing
  have hlive := ho.counts.live_of_held hdropped
  have hpresent : (s.io o).life ≠ .absent := by
    simp [hlive]
  have hrest : ((s.io o).settle op).pendingOps = [] := by
    simp [Io.settle, hnil]
  have hcount : (s.io o).skippedCount - 1 = ((s.io o).settle op).skippedOps.length := by
    rw [Io.settle, length_erase_of_mem hmem]
    omega
  dsimp only
  rw [if_pos (by omega : (s.io o).skippedCount ≠ 0)]
  split
  · rename_i hmore
    refine h.update rfl (fun x _ => (hduty x).symm) ⟨?_, ho.counts.same rfl rfl rfl, ?_,
      hcount, ho.member, ho.completions⟩
    · refine .draining hpresent hreturned hdown hdropped hshutdown hgroup ?_
      intro hempty
      rw [hcount] at hmore
      exact hmore (by simp [show ((s.io o).settle op).skippedOps = [] from hempty])
    · show (s.io o).pendingCount = _
      rw [hpending, hnil]
      simp [Io.settle, hnil]
  have hnone : ((s.io o).settle op).skippedOps = [] :=
    length_eq_zero_iff.mp (by omega)
  refine h.update rfl ?_ ⟨?_, ho.counts.same rfl rfl rfl, ?_, hcount, ho.member,
    ho.completions⟩
  · intro x hx
    rw [hduty x]
    exact if_neg (Ne.symm hx)
  · rw [Pc.duty, if_pos rfl]
    exact .destroy hpresent hreturned hdown hdropped hshutdown hgroup ⟨hrest, hnone⟩
  · show (s.io o).pendingCount = _
    rw [hpending, hnil]
    simp [Io.settle, hnil]

lemma deliverPacket_objects (h : ObjInv s) (hpc : s.pc = .deliver o op iosb)
    (hout : (s.io o).Outstanding op) (hskip : op ∉ (s.io o).skippedOps)
    (hstep : deliverPacket s o op iosb true = some s') : ObjInv s' := by
  have hduty : ∀ x, s.pc.duty x = .idle := by
    intro x
    rw [hpc]
    rfl
  have ho := h o
  obtain ⟨hskipped, hlength, hne⟩ := settle_pending hout hskip ho.pending
  unfold deliverPacket at hstep
  rw [if_neg hne, if_pos rfl, map_eq_some_iff] at hstep
  obtain ⟨r, hsubmit, rfl⟩ := hstep
  unfold objectSubmit at hsubmit
  split at hsubmit
  · cases hsubmit
  cases hsubmit
  have hdropped := (ho.stage.outstanding (outstanding_not_settled hout)).2.1
  have hstage : Stage (s.io o) .idle := hduty o ▸ ho.stage
  have hcompletions := ho.completions
  refine h.update rfl (fun x _ => (hduty x).symm) ⟨?_, ho.counts.add (refs_pos_of_held hdropped)
    ?_ rfl rfl, hlength, ?_, ho.member, ?_⟩
  · exact hstage.settle hout rfl (ho.counts.live_of_held hdropped) rfl rfl rfl rfl rfl hskipped
  · simp only [Io.refs, Io.settle]
    omega
  · show (s.io o).skippedCount = _
    rw [ho.skipped]
    exact congrArg (fun l => (List.length l : Int)) hskipped.symm
  · show (s.io o).numPending + 1 ≤ ((s.io o).completions.length + 1)
    omega

lemma ioqueue_objects {reserved : Bool} (h : ObjInv s)
    (hhand : ∀ o op iosb, s.pc.hand = some (o, op, iosb) → (s.io o).Outstanding op)
    (hclosing : ∀ o op iosb, s.pc = .closing o op iosb →
      (s.io o).shutdown = true ∨ (s.io o).shuttingDown = true)
    (hgood : ∀ o op iosb, s.pc = .deliver o op iosb →
      reserved = true ∧ op ∉ (s.io o).skippedOps)
    (hstep : ioqueueThread s reserved = some s') : ObjInv s' := by
  unfold ioqueueThread at hstep
  split at hstep
  · rename_i hpc
    split at hstep
    · cases hstep
    · cases hstep
      exact h.quiet rfl fun x => by rw [hpc]; rfl
  · rename_i hpc
    cases hstep
    exact h.quiet rfl fun x => by rw [hpc]; rfl
  · rename_i hpc
    split at hstep
    · cases hstep
      exact h.quiet rfl fun x => by rw [hpc]; rfl
    · cases hstep
      exact h.quiet rfl fun x => by rw [hpc]; rfl
  · rename_i o op iosb hpc
    cases hstep
    exact closePacket_objects h hpc (hhand o op iosb (by rw [hpc]; rfl)) (hclosing o op iosb hpc)
  · rename_i o op iosb hpc
    obtain ⟨rfl, hskip⟩ := hgood o op iosb hpc
    exact deliverPacket_objects h hpc (hhand o op iosb (by rw [hpc]; rfl)) hskip hstep
  · rename_i o hpc
    cases hstep
    have ho := h o
    have hstage : Stage (s.io o) .destroy := by
      have hduty := ho.stage
      rwa [hpc, Pc.duty, if_pos rfl] at hduty
    refine h.update rfl ?_ ⟨?_, ho.counts.same rfl rfl rfl, ho.pending, ho.skipped, ho.member,
      ho.completions⟩
    · intro x hx
      rw [hpc, Pc.duty, Pc.duty, if_neg (Ne.symm hx), if_neg (Ne.symm hx)]
    · rw [Pc.duty, if_pos rfl]
      cases hstage with
      | destroy h₁ h₂ h₃ h₄ h₅ h₆ h₇ => exact .destroyDrop h₁ h₂ h₃ h₄ rfl (by simp [h₆]) h₇
  · rename_i o hpc
    obtain ⟨t, hrelease, rfl⟩ := map_eq_some_iff.mp hstep
    cases releaseRef_eq_some hrelease
    have ho := h o
    have hstage : Stage (s.io o) .drop := by
      have hduty := ho.stage
      rwa [hpc, Pc.duty, if_pos rfl] at hduty
    cases hstage with
    | destroyDrop h₁ h₂ h₃ h₄ h₅ h₆ h₇ =>
      refine h.dropped (refs_pos_of_held h₄) rfl ?_ ?_ ?_ rfl rfl rfl rfl rfl rfl rfl id rfl rfl
      · intro x hx
        rw [hpc, Pc.duty, Pc.duty, if_neg (Ne.symm hx)]
      · exact .gone (Io.lifeAfter_ne_absent (ho.counts.live_of_held h₄)) h₂ h₃ rfl h₅ h₆ h₇
      · simp [Io.refs, h₄]
        omega
  · rename_i hpc
    cases hstep
    refine h.quiet rfl fun x => ?_
    rw [hpc]
    split <;> rfl
  · rename_i hpc
    cases hstep
    exact h.quiet rfl fun x => by rw [hpc]; rfl
  · cases hstep

end Operations

end WineForge.ThreadpoolIo
