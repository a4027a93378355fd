import WineForge.WfuSync.ServerWaits

/-!
# `wfusync_try_wait_all` takes all of its objects or none

The guard loop sets the bit of every entry; an entry listed twice, a locked one or one that a
server wait owns ends the call there. From then on no client writes the guarded objects, so the
commit loop finds what the check loop saw, and its early exits are never taken.
-/

namespace WineForge.WfuSync

open Function Library List

variable {ι : Type*} {s s' : SharedState ι} {mem mem' : ℕ → WfusyncState}

/-- An entry can be acquired: the object is of the type and the generation the client named, and
the test of the check loop passes. -/
structure TryAllCall.Passed (c : TryAllCall) (e : TryAllEntry) (o : WfusyncState) : Prop where
  type : o.word.type.code = e.type
  generation : o.generation = e.generation
  check : ∃ owner, tryWaitAllCheck (SyncType.ofCode e.type) c.tid o = .ok owner

/-- The check loop has passed the entries before `i`. -/
def TryAllCall.PassedTo (c : TryAllCall) (mem : ℕ → WfusyncState) (i : ℕ) : Prop :=
  ∀ j < c.count, j < i → c.Passed (c.entry j) (mem (c.entry j).shmIdx)

/-- The write took one signal of the entry's object, as the object was at the instant. -/
structure TryAllCall.Consumed (c : TryAllCall) (instant : ℕ → WfusyncState) (e : TryAllEntry)
    (w : StateWrite) : Prop where
  shmIdx : w.shmIdx = e.shmIdx
  before : w.before.core = (instant e.shmIdx).core
  taken : Taken c.tid w.before (SyncType.ofCode e.type) w.after

/-- What a call with the given status has done. -/
structure TryAllCall.Outcome (c : TryAllCall) (trace : TryAllTrace) (status : NtStatus) :
    Prop where
  nodup : status.satisfied = true → c.indices.Nodup
  passed : status.satisfied = true → ∀ e ∈ c.entries, c.Passed e (trace.instant e.shmIdx)
  consumed : status.satisfied = true →
    List.Forall₂ (c.Consumed trace.instant) c.entries trace.writes
  unchanged : status.satisfied = false → trace.writes = []

/-- What the call knows at each point. A value that was read only stays true for an object with
a type: a freed slot has no lock. -/
def TryAllPc.Knows (c : TryAllCall) (mem : ℕ → WfusyncState) (trace : TryAllTrace) : TryAllPc → Prop
  | .guardType _ | .guardGeneration _ _ | .guardSwap _ _ => trace.writes = []
  | .checkType i _ => trace.writes = [] ∧ c.PassedTo mem i
  | .checkGeneration i _ => trace.writes = [] ∧ c.PassedTo mem i ∧
      (mem (c.entry i).shmIdx).word.type.code = (c.entry i).type
  | .checkValue i _ => trace.writes = [] ∧ c.PassedTo mem i ∧
      (mem (c.entry i).shmIdx).word.type.code = (c.entry i).type ∧
      ((mem (c.entry i).shmIdx).word.type ≠ .unknown →
        (mem (c.entry i).shmIdx).generation = (c.entry i).generation)
  | .commit i _ => c.PassedTo trace.instant c.count ∧
      (∀ j < c.count, (mem (c.entry j).shmIdx).word.type =
        (trace.instant (c.entry j).shmIdx).word.type) ∧
      (∀ j < c.count, i ≤ j →
        (mem (c.entry j).shmIdx).core = (trace.instant (c.entry j).shmIdx).core) ∧
      List.Forall₂ (c.Consumed trace.instant) (c.entries.take i) trace.writes
  | .release _ _ status | .returned status => c.Outcome trace status

/-- The guarded objects are frozen, and the flags at entry were those of the server waits. -/
structure TryAllCall.Inv (s : SharedState ι) (c : TryAllCall) (pc : TryAllPc)
    (trace : TryAllTrace) : Prop where
  flags : ∀ idx, trace.flags idx = true ↔ 0 < s.counts idx
  frozen : ∀ idx ∈ pc.guarded c, (s.mem idx).word.type ≠ .unknown → s.NoClient idx
  knows : pc.Knows c s.mem trace

variable {c : TryAllCall} {i : ℕ} {e : TryAllEntry} {trace trace' : TryAllTrace} {pc pc' : TryAllPc}
  {status : NtStatus} {mapped : ℕ → Bool} {a : SharedAct ι}

lemma TryAllCall.entry_eq (hi : i < c.entries.length) : c.entry i = c.entries[i] := by
  simp [TryAllCall.entry, hi]

lemma TryAllCall.entry_mem (hi : i < c.count) : c.entry i ∈ c.entries := by
  rw [TryAllCall.entry_eq hi]
  exact getElem_mem hi

lemma TryAllCall.exists_entry (he : e ∈ c.entries) : ∃ i < c.count, c.entry i = e := by
  obtain ⟨i, hi, heq⟩ := mem_iff_getElem.mp he
  refine ⟨i, hi, ?_⟩
  rw [TryAllCall.entry_eq hi, heq]

lemma TryAllCall.entry_mem_indices (hi : i < c.count) : (c.entry i).shmIdx ∈ c.indices :=
  mem_map_of_mem (TryAllCall.entry_mem hi)

lemma TryAllCall.entry_index_ne (hnodup : c.indices.Nodup) {j : ℕ}
    (hi : i < c.count) (hj : j < c.count) (hne : i ≠ j) :
    (c.entry i).shmIdx ≠ (c.entry j).shmIdx := by
  intro heq
  have hget : ∀ k (hk : k < c.count), (c.entry k).shmIdx =
      c.indices.get ⟨k, by simpa [TryAllCall.indices, TryAllCall.count] using hk⟩ := by
    intro k hk
    have hlength : k < c.entries.length := hk
    simp [TryAllCall.indices, TryAllCall.entry, hlength]
  rw [hget i hi, hget j hj] at heq
  have hkey := (nodup_iff_injective_get.mp hnodup) heq
  exact hne (Fin.mk.inj_iff.mp hkey)

lemma TryAllCall.Passed.waitable {o : WfusyncState}
    (h : c.Passed e o) : o.word.type ≠ .unknown := by
  intro htype
  obtain ⟨owner, hcheck⟩ := h.check
  have hcode := h.type
  rw [htype] at hcode
  rw [← hcode] at hcheck
  cases hcheck

lemma TryAllCall.Passed.congr {o o' : WfusyncState}
    (h : c.Passed e o) (hcore : o'.core = o.core) (htype : o'.word.type = o.word.type) :
    c.Passed e o' where
  type := by rw [htype, h.type]
  generation := by
    have hcore' := hcore
    simp only [WfusyncState.core, Prod.mk.injEq] at hcore'
    rw [hcore'.2.2, h.generation]
  check := by
    rw [tryWaitAllCheck_congr hcore]
    exact h.check

lemma TryAllPc.Knows.congr
    (h : pc.Knows c mem trace) (htype : ∀ idx, (mem' idx).word.type = (mem idx).word.type)
    (hcore : ∀ idx ∈ pc.guarded c, (mem idx).word.type ≠ .unknown →
      (mem' idx).core = (mem idx).core)
    (hshape : (ServerTask.tryAll c pc trace).Shape) : pc.Knows c mem' trace := by
  have hpassed : ∀ i, c.PassedTo mem i → pc.guarded c = c.indices → c.PassedTo mem' i := by
    intro i hi hguarded j hj hji
    have hold := hi j hj hji
    refine hold.congr (hcore _ ?_ hold.waitable) (htype _)
    rw [hguarded]
    exact TryAllCall.entry_mem_indices hj
  cases pc with
  | guardType i | guardGeneration i seen | guardSwap i seen | release i guarded status
  | returned status => exact h
  | checkType i abandoned => exact ⟨h.1, hpassed i h.2 rfl⟩
  | checkGeneration i abandoned =>
    refine ⟨h.1, hpassed i h.2.1 rfl, ?_⟩
    rw [htype]
    exact h.2.2
  | checkValue i abandoned =>
    refine ⟨h.1, hpassed i h.2.1 rfl, ?_, fun hlive => ?_⟩
    · rw [htype]
      exact h.2.2.1
    rw [htype] at hlive
    have hsame := hcore _ (TryAllCall.entry_mem_indices hshape) hlive
    simp only [WfusyncState.core, Prod.mk.injEq] at hsame
    rw [hsame.2.2]
    exact h.2.2.2 hlive
  | commit i abandoned =>
    obtain ⟨hinstant, htypes, hcores, hwrites⟩ := h
    refine ⟨hinstant, fun j hj => ?_, fun j hj hij => ?_, hwrites⟩
    · rw [htype, htypes j hj]
    have hlive : (mem (c.entry j).shmIdx).word.type ≠ .unknown := by
      rw [htypes j hj]
      exact (hinstant j hj hj).waitable
    rw [hcore _ (TryAllCall.entry_mem_indices hj) hlive, hcores j hj hij]

lemma TryAllCall.Outcome.refused
    (hwrites : trace.writes = []) (hstatus : status.satisfied = false) :
    c.Outcome trace status where
  nodup h := by
    rw [hstatus] at h
    cases h
  passed h := by
    rw [hstatus] at h
    cases h
  consumed h := by
    rw [hstatus] at h
    cases h
  unchanged _ := hwrites

lemma TryAllCall.Outcome.committed
    (hnodup : c.indices.Nodup) (hpassed : c.PassedTo trace.instant c.count)
    (hwrites : List.Forall₂ (c.Consumed trace.instant) (c.entries.take c.count) trace.writes)
    (hstatus : status.satisfied = true) : c.Outcome trace status where
  nodup _ := hnodup
  passed _ e he := by
    obtain ⟨i, hi, rfl⟩ := TryAllCall.exists_entry he
    exact hpassed i hi hi
  consumed _ := by
    rwa [TryAllCall.count, take_length] at hwrites
  unchanged h := by
    rw [hstatus] at h
    cases h

lemma take_succ_entries (hi : i < c.count) :
    c.entries.take (i + 1) = c.entries.take i ++ [c.entry i] := by
  rw [TryAllCall.entry_eq hi, take_succ_eq_append_getElem hi]

lemma TryAllPc.Knows.take {abandoned : Bool}
    (h : (TryAllPc.commit i abandoned).Knows c mem trace) (hnodup : c.indices.Nodup)
    (hi : i < c.count) :
    ∃ o, tryWaitAllTake (SyncType.ofCode (c.entry i).type) c.tid (mem (c.entry i).shmIdx) = some o ∧
      (TryAllPc.commit (i + 1) abandoned).Knows c (update mem (c.entry i).shmIdx o)
        { trace with
          writes := trace.writes ++ [⟨(c.entry i).shmIdx, mem (c.entry i).shmIdx, o⟩] } := by
  obtain ⟨hinstant, htypes, hcores, hwrites⟩ := h
  have hpassed := (hinstant i hi hi).congr (hcores i hi le_rfl) (htypes i hi)
  obtain ⟨owner, hcheck⟩ := hpassed.check
  obtain ⟨o, htake, htaken⟩ := tryWaitAllTake_taken hcheck
  have hword : o.word = (mem (c.entry i).shmIdx).word := htaken.word
  refine ⟨o, htake, hinstant, fun j hj => ?_, fun j hj hij => ?_, ?_⟩
  · by_cases hidx : (c.entry j).shmIdx = (c.entry i).shmIdx
    · rw [hidx, update_self, hword]
      exact htypes i hi
    · rw [update_of_ne hidx]
      exact htypes j hj
  · have hidx : (c.entry j).shmIdx ≠ (c.entry i).shmIdx :=
      TryAllCall.entry_index_ne hnodup hj hi (by omega)
    rw [update_of_ne hidx]
    exact hcores j hj (by omega)
  · rw [take_succ_entries hi]
    exact rel_append hwrites (.cons ⟨rfl, hcores i hi le_rfl, htaken⟩ .nil)

lemma TryAllCall.PassedTo.succ (h : c.PassedTo mem i)
    (hi : c.Passed (c.entry i) (mem (c.entry i).shmIdx)) : c.PassedTo mem (i + 1) := by
  intro j hj hji
  by_cases heq : j = i
  · rw [heq]
    exact hi
  · exact h j hj (by omega)

lemma TryAllPc.Knows.step (h : pc.Knows c mem trace) (hshape : (ServerTask.tryAll c pc trace).Shape)
    (hnodup : (pc.guarded c).Nodup)
    (hstep : c.step mapped mem trace pc = some (mem', pc', trace')) : pc'.Knows c mem' trace' := by
  cases pc with
  | guardType i =>
    simp only [TryAllCall.step] at hstep
    split_ifs at hstep <;> cases hstep
    · exact .refused h rfl
    · exact .refused h rfl
    · exact h
    · exact ⟨h, fun j _ hj => absurd hj (Nat.not_lt_zero j)⟩
  | guardGeneration i seen =>
    simp only [TryAllCall.step] at hstep
    split at hstep <;> cases hstep
    · exact .refused h rfl
    · exact h
  | guardSwap i seen =>
    simp only [TryAllCall.step] at hstep
    split at hstep <;> cases hstep
    · exact h
    · exact .refused h rfl
  | checkType i abandoned =>
    obtain ⟨hwrites, hpassed⟩ := h
    simp only [TryAllCall.step] at hstep
    split at hstep
    · split at hstep <;> cases hstep
      · exact .refused hwrites rfl
      · rename_i htype
        exact ⟨hwrites, hpassed, not_not.mp htype⟩
    cases hstep
    refine ⟨fun j hj _ => hpassed j hj (by omega), fun _ _ => rfl, fun _ _ _ => rfl, ?_⟩
    rw [take_zero, hwrites]
    exact .nil
  | checkGeneration i abandoned =>
    obtain ⟨hwrites, hpassed, htype⟩ := h
    simp only [TryAllCall.step] at hstep
    split at hstep <;> cases hstep
    · exact .refused hwrites rfl
    · rename_i hgeneration
      exact ⟨hwrites, hpassed, htype, fun _ => not_not.mp hgeneration⟩
  | checkValue i abandoned =>
    obtain ⟨hwrites, hpassed, htype, hgeneration⟩ := h
    simp only [TryAllCall.step] at hstep
    split at hstep <;> cases hstep
    · rename_i status hcheck
      refine .refused hwrites ?_
      rcases tryWaitAllCheck_error hcheck with heq | heq
      · rw [heq]
        rfl
      · rw [heq]
        rfl
    rename_i owner hcheck
    have hlive : (mem (c.entry i).shmIdx).word.type ≠ .unknown := by
      intro hunknown
      rw [← htype, hunknown] at hcheck
      cases hcheck
    exact ⟨hwrites, hpassed.succ ⟨htype, hgeneration hlive, owner, hcheck⟩⟩
  | commit i abandoned =>
    simp only [TryAllCall.step] at hstep
    split at hstep
    · rename_i hi
      obtain ⟨o, htake, hknows⟩ := h.take hnodup hi
      rw [htake] at hstep
      cases hstep
      exact hknows
    rename_i hi
    cases hstep
    obtain ⟨hinstant, _, _, hwrites⟩ := h
    refine .committed hnodup hinstant ?_ ?_
    · rw [take_of_length_le (not_lt.mp hi)] at hwrites
      rwa [TryAllCall.count, take_length]
    · split <;> rfl
  | release i guarded status =>
    simp only [TryAllCall.step] at hstep
    split at hstep <;> cases hstep <;> exact h
  | returned status => cases hstep

lemma OwnerInv.unlocked_free (h : OwnerInv s) {idx : ℕ} (hlocked : (s.mem idx).word.locked = false)
    (htype : (s.mem idx).word.type ≠ .unknown) : s.NoClient idx := by
  intro t ht
  rcases h.locks.locked (some t) idx ht with hbit | hunknown
  · rw [hbit] at hlocked
    cases hlocked
  · exact htype hunknown

lemma TryAllCall.step_guarded (hshape : (ServerTask.tryAll c pc trace).Shape)
    (hstep : c.step mapped mem trace pc = some (mem', pc', trace')) {idx : ℕ}
    (hidx : idx ∈ pc'.guarded c) : idx ∈ pc.guarded c ∨ (mem idx).word.locked = false := by
  have hall : c.indices.take c.count = c.indices := by
    simp [TryAllCall.indices, TryAllCall.count]
  cases pc with
  | guardType i =>
    simp only [TryAllCall.step] at hstep
    split at hstep
    · split_ifs at hstep <;> cases hstep <;> exact .inl hidx
    rename_i hi
    cases hstep
    left
    change idx ∈ c.indices.take i
    have heq : i = c.count := le_antisymm hshape (not_lt.mp hi)
    rw [heq, hall]
    exact hidx
  | guardGeneration i seen =>
    simp only [TryAllCall.step] at hstep
    split at hstep <;> cases hstep <;> exact .inl hidx
  | guardSwap i seen =>
    simp only [TryAllCall.step] at hstep
    split at hstep
    · rename_i hword
      cases hstep
      change idx ∈ c.indices.take (i + 1) at hidx
      rw [take_succ_indices hshape.1] at hidx
      rcases mem_append.mp hidx with hold | hnew
      · exact .inl hold
      · right
        rw [mem_singleton.mp hnew, hword]
        exact hshape.2.locked
    · cases hstep
      exact .inl hidx
  | checkType i abandoned =>
    simp only [TryAllCall.step] at hstep
    split_ifs at hstep <;> cases hstep
    · exact .inl (mem_of_mem_take hidx)
    · exact .inl hidx
    · exact .inl hidx
  | checkGeneration i abandoned | checkValue i abandoned =>
    simp only [TryAllCall.step] at hstep
    split at hstep <;> cases hstep
    · exact .inl (mem_of_mem_take hidx)
    · exact .inl hidx
  | commit i abandoned =>
    simp only [TryAllCall.step] at hstep
    split at hstep
    · split at hstep <;> cases hstep
      · exact .inl (mem_of_mem_take hidx)
      · exact .inl hidx
    · cases hstep
      exact .inl (mem_of_mem_take hidx)
  | release i guarded status =>
    simp only [TryAllCall.step] at hstep
    split at hstep <;> cases hstep
    · left
      change idx ∈ (c.indices.take guarded).drop (i + 1) at hidx
      rw [← drop_drop] at hidx
      exact mem_of_mem_drop hidx
    · exact absurd hidx (not_mem_nil)
  | returned status => cases hstep

def TryAllPc.passed : TryAllPc → Bool
  | .commit _ _ => true
  | .release _ _ status | .returned status => status.satisfied
  | _ => false

/-- The history of a call is what the call did: it changes a core by a recorded write only, and
the instant is the end of its check loop. -/
structure TryAllTrace.Extends (trace trace' : TryAllTrace) (mem mem' : ℕ → WfusyncState)
    (pc pc' : TryAllPc) : Prop where
  flags : trace'.flags = trace.flags
  instant : pc'.passed = true → pc.passed = true ∧ trace'.instant = trace.instant ∨
    trace'.instant = mem ∧ mem' = mem
  writes : trace'.writes = trace.writes ∧ (∀ idx, (mem' idx).core = (mem idx).core) ∨
    ∃ w : StateWrite, trace'.writes = trace.writes ++ [w] ∧ w.before = mem w.shmIdx ∧
      mem' = update mem w.shmIdx w.after

lemma TryAllTrace.Extends.quiet (hcore : ∀ idx, (mem' idx).core = (mem idx).core)
    (hpassed : pc'.passed = true → pc.passed = true) :
    trace.Extends trace mem mem' pc pc' where
  flags := rfl
  instant h := .inl ⟨hpassed h, rfl⟩
  writes := .inl ⟨rfl, hcore⟩

lemma TryAllCall.step_extends (hstep : c.step mapped mem trace pc = some (mem', pc', trace')) :
    trace.Extends trace' mem mem' pc pc' := by
  have hflag : ∀ idx flag j,
      (update mem idx ((mem idx).setServerWaiters flag) j).core = (mem j).core :=
    fun idx flag j => (setServerWaiters_same idx flag j).1
  have hrefused : ∀ i, (TryAllPc.release 0 i .notImplemented).passed ≠ true :=
    fun _ => Bool.false_ne_true
  cases pc with
  | guardType i =>
    simp only [TryAllCall.step] at hstep
    split_ifs at hstep <;> cases hstep <;> exact .quiet (fun _ => rfl) fun h => (by cases h)
  | guardGeneration i seen | checkGeneration i abandoned =>
    simp only [TryAllCall.step] at hstep
    split at hstep <;> cases hstep <;> exact .quiet (fun _ => rfl) fun h => (by cases h)
  | guardSwap i seen =>
    simp only [TryAllCall.step] at hstep
    split at hstep <;> cases hstep
    · exact .quiet (hflag _ true) fun h => (by cases h)
    · exact .quiet (fun _ => rfl) fun h => (by cases h)
  | checkType i abandoned =>
    simp only [TryAllCall.step] at hstep
    split_ifs at hstep <;> cases hstep
    · exact .quiet (fun _ => rfl) fun h => (by cases h)
    · exact .quiet (fun _ => rfl) fun h => (by cases h)
    · exact ⟨rfl, fun _ => .inr ⟨rfl, rfl⟩, .inl ⟨rfl, fun _ => rfl⟩⟩
  | checkValue i abandoned =>
    simp only [TryAllCall.step] at hstep
    split at hstep <;> cases hstep
    · rename_i status hcheck
      refine .quiet (fun _ => rfl) fun h => ?_
      rcases tryWaitAllCheck_error hcheck with heq | heq
      · rw [heq] at h
        cases h
      · rw [heq] at h
        cases h
    · exact .quiet (fun _ => rfl) fun h => (by cases h)
  | commit i abandoned =>
    simp only [TryAllCall.step] at hstep
    split at hstep
    · split at hstep <;> cases hstep
      · exact .quiet (fun _ => rfl) fun h => absurd h (hrefused _)
      · exact ⟨rfl, fun _ => .inl ⟨rfl, rfl⟩, .inr ⟨_, rfl, rfl, rfl⟩⟩
    · cases hstep
      exact .quiet (fun _ => rfl) fun _ => rfl
  | release i guarded status =>
    simp only [TryAllCall.step] at hstep
    split at hstep <;> cases hstep
    · exact .quiet (hflag _ false) id
    · exact .quiet (fun _ => rfl) id
  | returned status => cases hstep

variable [DecidableEq ι]

/-- What another step during a call may do. -/
structure Undisturbed (s s' : SharedState ι) : Prop where
  task : s'.task = s.task
  counts : s'.counts = s.counts
  types : ∀ idx, (s'.mem idx).word.type = (s.mem idx).word.type
  free : ∀ idx, s.NoClient idx → s.Owned idx → s'.NoClient idx
  cores : ∀ idx, s.NoClient idx → (s'.mem idx).core = (s.mem idx).core

lemma tryAll_undisturbed (htask : s.task = .tryAll c pc trace) (hact : a ≠ .serve)
    (hstep : sharedStep s a = some s') : Undisturbed s s' := by
  have hfree : ∀ idx, s.NoClient idx → s.Owned idx → s'.NoClient idx :=
    fun idx hfree howned => hfree.step howned hstep
  have hbusy : s.task.isIdle = false := by
    rw [htask]
    rfl
  cases sharedStep_cases hstep with
  | client t heffect =>
    exact ⟨heffect.task, heffect.counts, fun idx => (heffect.flags idx).1, hfree,
      fun idx h => heffect.locks.core_eq (h t)⟩
  | status t status heq | map idx heq =>
    rw [heq] at hfree ⊢
    exact ⟨rfl, rfl, fun _ => rfl, hfree, fun _ _ => rfl⟩
  | serve hserve _ => exact absurd hserve hact
  | begins _ _ hidle _ _ | create _ _ _ hidle _ _ | setMulti _ _ hidle _ =>
    rw [hbusy] at hidle
    cases hidle
  | destroy _ hmay _ _ _ =>
    rw [htask] at hmay
    cases hmay

omit [DecidableEq ι] in
lemma startCheck_isTryAll (w : ServerWait) (queue : List ServerWait) :
    (w.startCheck queue).1.isTryAll = false := by
  unfold ServerWait.startCheck
  split
  · split <;> rfl
  · rfl

omit [DecidableEq ι] in
lemma satisfyFrom_isTryAll (w : ServerWait) (rest : List WaitObject) :
    (w.satisfyFrom rest).isTryAll = false := by
  cases rest <;> rfl

omit [DecidableEq ι] in
lemma nextCheck_isTryAll (w : ServerWait) (before : List WaitObject) (obj : WaitObject)
    (rest : List WaitObject) (notOk signaled : Bool) (queue : List ServerWait) :
    (w.nextCheck before obj rest notOk signaled queue).1.isTryAll = false := by
  unfold ServerWait.nextCheck
  split
  · split
    · rfl
    · split
      · rfl
      · exact satisfyFrom_isTryAll w _
  · split
    · exact satisfyFrom_isTryAll w [obj]
    · split <;> rfl

omit [DecidableEq ι] in
lemma serve_isTryAll (hserve : s.serve = some s') (htask : s.task.isTryAll = false) :
    s'.task.isTryAll = false := by
  cases htask' : s.task with
  | idle =>
    simp only [SharedState.serve, htask'] at hserve
    cases hserve
  | enlist w added rest =>
    cases rest with
    | nil =>
      simp only [SharedState.serve, htask', Option.some.injEq] at hserve
      rw [← hserve]
      exact startCheck_isTryAll w s.queue
    | cons obj rest =>
      simp only [SharedState.serve, htask', Option.some.injEq] at hserve
      rw [← hserve]
      rfl
  | check w before obj rest notOk pc =>
    simp only [SharedState.serve, htask'] at hserve
    split at hserve <;> cases hserve
    · rfl
    · exact nextCheck_isTryAll w _ _ _ _ _ _
  | satisfy w obj rest pc =>
    simp only [SharedState.serve, htask'] at hserve
    split at hserve <;> cases hserve
    · rfl
    · exact satisfyFrom_isTryAll w rest
  | retire rest =>
    cases rest with
    | nil | cons obj rest =>
      simp only [SharedState.serve, htask', Option.some.injEq] at hserve
      rw [← hserve]
      rfl
  | request idx op pc =>
    simp only [SharedState.serve, htask'] at hserve
    split at hserve <;> cases hserve <;> rfl
  | tryAll c pc trace =>
    rw [htask'] at htask
    cases htask

def ServerTask.TryAllInv (s : SharedState ι) : ServerTask → Prop
  | .tryAll c pc trace => c.Inv s pc trace
  | _ => True

omit [DecidableEq ι] in
lemma tryAllInv_of_other {task : ServerTask} (h : task.isTryAll = false) : task.TryAllInv s := by
  cases task with
  | tryAll c pc trace => cases h
  | idle | enlist | check | satisfy | retire | request => trivial

omit [DecidableEq ι] in
lemma TryAllCall.Inv.start (hflags : FlagInv s) (hidle : s.task.isIdle = true) (c : TryAllCall)
    (queue : List ServerWait) :
    c.Inv { s with
      task := .tryAll c c.start ⟨fun idx => (s.mem idx).word.serverWaiters, s.mem, []⟩
      queue := queue } c.start ⟨fun idx => (s.mem idx).word.serverWaiters, s.mem, []⟩ := by
  have hguarded : s.task.guarded = [] := by
    cases htask : s.task with
    | idle => rfl
    | enlist | check | satisfy | retire | request | tryAll =>
      rw [htask] at hidle
      cases hidle
  have hnone : c.start.guarded c = [] := by
    unfold TryAllCall.start
    split
    · rfl
    · exact take_zero (l := c.indices)
  refine ⟨fun idx => ?_, fun idx hidx => ?_, ?_⟩
  · rw [hflags.flag idx, hguarded]
    simp
  · rw [hnone] at hidx
    cases hidx
  unfold TryAllCall.start
  split
  · exact .refused rfl rfl
  · exact rfl

omit [DecidableEq ι] in
lemma TryAllCall.Inv.serve (h : c.Inv s pc trace) (hinv : OwnerInv s) (hflags : FlagInv s)
    (htask : s.task = .tryAll c pc trace)
    (hstep : c.step s.mapped s.mem trace pc = some (mem', pc', trace')) :
    c.Inv { s with mem := mem', task := .tryAll c pc' trace' } pc' trace' := by
  have hshape := hflags.shape
  rw [htask] at hshape
  have hnodup := hflags.nodup
  rw [htask] at hnodup
  refine ⟨fun idx => ?_, fun idx hidx hlive => ?_, h.knows.step hshape hnodup hstep⟩
  · rw [(TryAllCall.step_extends hstep).flags]
    exact h.flags idx
  have hlive' : (s.mem idx).word.type ≠ .unknown := by
    rw [← (tryAll_same hstep idx).1]
    exact hlive
  rcases TryAllCall.step_guarded hshape hstep hidx with hold | hlocked
  · exact h.frozen idx hold hlive'
  · exact hinv.unlocked_free hlocked hlive'

omit [DecidableEq ι] in
lemma TryAllCall.Inv.undisturbed
    (h : c.Inv s pc trace) (hflags : FlagInv s) (htask : s.task = .tryAll c pc trace)
    (hquiet : Undisturbed s s') : c.Inv s' pc trace := by
  have hshape := hflags.shape
  rw [htask] at hshape
  refine ⟨fun idx => ?_, fun idx hidx hlive => ?_, ?_⟩
  · rw [hquiet.counts]
    exact h.flags idx
  · rw [hquiet.types] at hlive
    apply hquiet.free idx (h.frozen idx hidx hlive)
    apply (hflags.flag idx).mpr
    right
    rw [htask]
    exact hidx
  · exact h.knows.congr hquiet.types
      (fun idx hidx hlive => hquiet.cores idx (h.frozen idx hidx hlive)) hshape

lemma tryAll_inv_step (hinv : OwnerInv s) (hflags : FlagInv s)
    (h : s.task.TryAllInv s) (hstep : sharedStep s a = some s') : s'.task.TryAllInv s' := by
  by_cases hcall : ∃ c pc trace, s.task = .tryAll c pc trace
  · obtain ⟨c, pc, trace, htask⟩ := hcall
    rw [htask] at h
    by_cases hact : a = .serve
    · rw [hact] at hstep
      rcases serve_tryAll htask hstep with ⟨status, _, rfl⟩ | ⟨mem', pc', trace', hstep', rfl⟩
      · trivial
      · exact TryAllCall.Inv.serve h hinv hflags htask hstep'
    · have hquiet := tryAll_undisturbed htask hact hstep
      rw [hquiet.task, htask]
      exact TryAllCall.Inv.undisturbed h hflags htask hquiet
  have hother : s.task.isTryAll = false := by
    cases htask : s.task with
    | tryAll c pc trace => exact absurd ⟨c, pc, trace, htask⟩ hcall
    | idle | enlist | check | satisfy | retire | request => rfl
  cases sharedStep_cases hstep with
  | serve _ hserve => exact tryAllInv_of_other (serve_isTryAll hserve hother)
  | begins task queue hidle hbegins heq =>
    rw [heq]
    cases hbegins with
    | select w _ | endWait w _ | request idx op => trivial
    | wakeThread w _ => exact tryAllInv_of_other (startCheck_isTryAll w _)
    | tryWaitAll c => exact TryAllCall.Inv.start hflags hidle c s.queue
  | client t heffect =>
    rw [heffect.task]
    exact tryAllInv_of_other hother
  | status _ _ heq | create _ _ _ _ _ heq | destroy _ _ _ _ heq | setMulti _ _ _ heq
  | map _ heq =>
    rw [heq]
    exact tryAllInv_of_other hother

lemma tryAll_inv (h : Reachable sharedStep SharedState.Initial s) : s.task.TryAllInv s := by
  apply h.invariant_with (P := fun u => u.task.TryAllInv u) (Q := fun u => OwnerInv u ∧ FlagInv u)
  · exact fun _ hs => ⟨owner_inv hs, flag_inv hs⟩
  · intro u hu
    apply tryAllInv_of_other
    have hidle := hu.2.2.2.2
    cases htask : u.task with
    | idle => rfl
    | enlist | check | satisfy | retire | request | tryAll =>
      rw [htask] at hidle
      cases hidle
  · exact fun _ _ _ hinv hs _ hstep => tryAll_inv_step hinv.1 hinv.2 hs hstep

def SharedState.enterTryAll (s : SharedState ι) (c : TryAllCall) : SharedState ι :=
  { s with task := .tryAll c c.start ⟨fun idx => (s.mem idx).word.serverWaiters, s.mem, []⟩ }

/-- A call from its request to its return, with steps of the clients in between. -/
structure TryAllRun (c : TryAllCall) (s s' : SharedState ι) (status : NtStatus)
    (trace : TryAllTrace) : Prop where
  reachable : Reachable sharedStep SharedState.Initial s
  idle : s.task.isIdle = true
  path : Path sharedStep (fun u => u.task.isTryAll = true) (s.enterTryAll c) s'
  returned : s'.task = .tryAll c (.returned status) trace

/-- What a run of a call preserves: the flags it started with, and the instant it passed. -/
structure SinceEntry (c : TryAllCall) (s u : SharedState ι) (pc : TryAllPc)
    (trace : TryAllTrace) : Prop where
  flags : trace.flags = fun idx => (s.mem idx).word.serverWaiters
  instant : pc.passed = true →
    ∃ v, Path sharedStep (fun w => w.task.isTryAll = true) (s.enterTryAll c) v ∧
      Path sharedStep (fun w => w.task.isTryAll = true) v u ∧ v.mem = trace.instant

lemma since_entry_step {u u' : SharedState ι}
    (hpath : Path sharedStep (fun w => w.task.isTryAll = true) (s.enterTryAll c) u)
    (hinside : u'.task.isTryAll = true) (hstep : sharedStep u a = some u')
    (h : ∃ pc trace, u.task = .tryAll c pc trace ∧ SinceEntry c s u pc trace) :
    ∃ pc trace, u'.task = .tryAll c pc trace ∧ SinceEntry c s u' pc trace := by
  obtain ⟨pc, trace, htask, hflags, hinstant⟩ := h
  by_cases hact : a = .serve
  · rw [hact] at hstep
    rcases serve_tryAll htask hstep with ⟨status, _, rfl⟩ | ⟨mem', pc', trace', hcall, heq⟩
    · cases hinside
    have hextends := TryAllCall.step_extends hcall
    refine ⟨pc', trace', by rw [heq], ?_, fun hpassed => ?_⟩
    · rw [hextends.flags, hflags]
    rcases hextends.instant hpassed with ⟨hold, hsame⟩ | ⟨hnew, hmem⟩
    · obtain ⟨v, hentry, hexit, hv⟩ := hinstant hold
      exact ⟨v, hentry, hexit.tail hstep hinside, by rw [hv, hsame]⟩
    · exact ⟨u, hpath, .tail (.refl hpath.inside) hstep hinside, hnew.symm⟩
  have hquiet := tryAll_undisturbed htask hact hstep
  refine ⟨pc, trace, by rw [hquiet.task, htask], hflags, fun hpassed => ?_⟩
  obtain ⟨v, hentry, hexit, hv⟩ := hinstant hpassed
  exact ⟨v, hentry, hexit.tail hstep hinside, hv⟩

lemma since_entry {u : SharedState ι}
    (hpath : Path sharedStep (fun w => w.task.isTryAll = true) (s.enterTryAll c) u) :
    ∃ pc trace, u.task = .tryAll c pc trace ∧ SinceEntry c s u pc trace := by
  apply hpath.invariant
    (I := fun u => ∃ pc trace, u.task = .tryAll c pc trace ∧ SinceEntry c s u pc trace)
  · refine ⟨_, _, rfl, rfl, fun hpassed => ?_⟩
    unfold TryAllCall.start at hpassed
    split at hpassed <;> cases hpassed
  · intro u a u' hu h hstep hinside
    exact since_entry_step hu hinside hstep h

lemma TryAllRun.reachable_end
    (h : TryAllRun c s s' status trace) : Reachable sharedStep SharedState.Initial s' := by
  have hentry : sharedStep s (.tryWaitAll c) = some (s.enterTryAll c) := if_pos h.idle
  exact h.path.reachable (.next h.reachable trivial hentry)

/-- A call that is satisfied has taken one signal of each of its objects, which are all
different, and all of them could be acquired at one instant of the run; any other call has
written nothing. The flags are those at entry. What the history of the call says is what the
call did, and no other step of the run writes a guarded object that has a type. -/
theorem try_wait_all_atomic :
    (∀ (c : TryAllCall) (s s' : SharedState ι) status trace, TryAllRun c s s' status trace →
      c.Outcome trace status ∧
      (∀ idx, (s'.mem idx).word.serverWaiters = (s.mem idx).word.serverWaiters) ∧
      (status.satisfied = true →
        ∃ v, Path sharedStep (fun w => w.task.isTryAll = true) (s.enterTryAll c) v ∧
          Path sharedStep (fun w => w.task.isTryAll = true) v s' ∧ v.mem = trace.instant)) ∧
      ∀ (s : SharedState ι) c pc trace, Reachable sharedStep SharedState.Initial s →
        s.task = .tryAll c pc trace → ∀ a s', sharedStep s a = some s' →
          (a = .serve → ∀ pc' trace', s'.task = .tryAll c pc' trace' →
            trace.Extends trace' s.mem s'.mem pc pc') ∧
          (a ≠ .serve → s'.task = s.task ∧ ∀ idx ∈ pc.guarded c,
            (s.mem idx).word.type ≠ .unknown → (s'.mem idx).core = (s.mem idx).core) := by
  refine ⟨fun c s s' status trace hrun => ?_, fun s c pc trace hs htask a s' hstep => ?_⟩
  · have hflags := flag_inv hrun.reachable_end
    have hcall := tryAll_inv hrun.reachable_end
    rw [hrun.returned] at hcall
    obtain ⟨pc, trace', htask, hsince⟩ := since_entry hrun.path
    rw [hrun.returned] at htask
    cases htask
    refine ⟨hcall.knows, fun idx => ?_, hsince.instant⟩
    have hguarded : s'.task.guarded = [] := by
      rw [hrun.returned]
      rfl
    have hentry := hcall.flags idx
    rw [hsince.flags] at hentry
    rw [Bool.eq_iff_iff, hflags.flag idx, hguarded, hentry]
    simp
  · refine ⟨fun hact pc' trace' htask' => ?_, fun hact => ?_⟩
    · rw [hact] at hstep
      rcases serve_tryAll htask hstep with ⟨status, _, rfl⟩ | ⟨mem', pc₁, trace₁, hcall, rfl⟩
      · cases htask'
      · cases htask'
        exact TryAllCall.step_extends hcall
    · have hquiet := tryAll_undisturbed htask hact hstep
      have hinv := tryAll_inv hs
      rw [htask] at hinv
      exact ⟨hquiet.task, fun idx hidx hlive => hquiet.cores idx (hinv.frozen idx hidx hlive)⟩

/-- A call for an event and an abandoned mutex, while a client tries to lock the event. -/
def tryAllExample : TryAllCall :=
  ⟨[⟨1, 1, 2⟩, ⟨2, 2, 3⟩], 7⟩

def tryAllObjects : List (SharedAct (Fin 3)) :=
  [.create 1 0 .event, .create (-3) 0 .mutex]

def tryAllStart : SharedState (Fin 3) :=
  (run sharedStep emptyServer tryAllObjects).getD emptyServer

def tryAllServes : List (SharedAct (Fin 3)) :=
  List.replicate 3 .serve ++ [.tryLock 0 1 .event, .access 0, .access 0] ++ List.replicate 17 .serve

theorem try_wait_all_atomic_abandoned : ∃ (s s' : SharedState (Fin 3)) (trace : TryAllTrace),
      TryAllRun tryAllExample s s' .abandonedWait0 trace ∧
        (∀ idx, (s'.mem idx).word.serverWaiters = (s.mem idx).word.serverWaiters) ∧
        s'.mem 1 = ⟨0, 0, 1, ⟨.event, false, false, false⟩⟩ ∧
        s'.mem 2 = ⟨7, 1, 3, ⟨.mutex, false, false, false⟩⟩ := by
  have hempty : Reachable sharedStep SharedState.Initial emptyServer := .start emptyServer_initial
  have hreach : Reachable sharedStep SharedState.Initial tryAllStart :=
    reachable_of_run hempty tryAllObjects rfl
  have hrun : ∃ s', run (fun u a => (sharedStep u a).filter (·.task.isTryAll))
      (tryAllStart.enterTryAll tryAllExample) tryAllServes = some s' := ⟨_, rfl⟩
  obtain ⟨s', hs'⟩ := hrun
  have hpath := Path.run (.refl rfl) tryAllServes hs'
  cases hs'
  have hcall : TryAllRun tryAllExample tryAllStart _ .abandonedWait0 _ := ⟨hreach, rfl, hpath, rfl⟩
  exact ⟨_, _, _, hcall, (try_wait_all_atomic.1 _ _ _ _ _ hcall).2.1, rfl, rfl⟩

end WineForge.WfuSync
