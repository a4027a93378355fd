import WineForge.WfuSync.ServerFlags
import WineForge.WfuSync.Suspension

/-!
# Server waits are atomic against clients

Once the server was granted the lock of an object whose `SERVER_WAITERS` bit is set, no client
writes the object until the bit is cleared. So an entry whose `signaled` callback returned true
can still be acquired when its `satisfied` callback runs, unless an earlier callback of the same
wait took the last signal of the object.
-/

namespace WineForge.WfuSync

open Bool Function Library List

variable {ι : Type*} {s s' : SharedState ι} {mem mem' : ℕ → WfusyncState}

def SharedState.NoClient (s : SharedState ι) (idx : ℕ) : Prop :=
  ∀ t, idx ∉ (s.clients t).held

def SharedState.Owned (s : SharedState ι) (idx : ℕ) : Prop :=
  (s.mem idx).word.serverWaiters = true

variable {idx : ℕ} {kind : WaitKind} {tid : Int} {o : WfusyncState} {objs rest : List WaitObject}
  {obj : WaitObject} {w : ServerWait}

lemma OwnerInv.noClient (h : OwnerInv s) (hheld : s.task.holds idx) : s.NoClient idx := by
  intro t ht
  have heq := h.locks.exclusive none (some t) idx hheld ht
  cases heq

lemma LockEffect.core_eq {held held' : ℕ → Prop} (h : LockEffect mem mem' held held')
    (hidx : ¬ held idx) : (mem' idx).core = (mem idx).core := by
  cases h with
  | quiet hsame _ => exact (hsame idx).1
  | acquire j _ _ hmem _ | release j _ hmem _ =>
    rw [hmem]
    by_cases hj : idx = j
    · rw [hj, update_self]
      rfl
    · rw [update_of_ne hj]
  | write j o hheld _ hmem _ =>
    have hj : idx ≠ j := by
      intro heq
      rw [heq] at hidx
      exact hidx hheld
    rw [hmem, update_of_ne hj]

variable [DecidableEq ι]

omit [DecidableEq ι] in
lemma ClientEffect.noClient {t : ι} (heffect : ClientEffect s s' t)
    (hfree : s.NoClient idx) (howned : s.Owned idx) : s'.NoClient idx := by
  intro u hu
  by_cases hut : u = t
  · rw [hut] at hu
    rcases heffect.taken idx hu with hold | hflag
    · exact hfree t hold
    · rw [show (s.mem idx).word.serverWaiters = true from howned] at hflag
      cases hflag
  · rw [heffect.others u hut] at hu
    exact hfree u hu

lemma SharedState.NoClient.step {a : SharedAct ι} (h : s.NoClient idx)
    (howned : s.Owned idx) (hstep : sharedStep s a = some s') : s'.NoClient idx := by
  cases sharedStep_cases hstep with
  | client t heffect => exact heffect.noClient h howned
  | status t status heq =>
    intro u hu
    rw [heq, setClient_held] at hu
    exact h u hu
  | serve _ hserve =>
    intro u hu
    rw [(serve_effect hserve).clients] at hu
    exact h u hu
  | begins _ _ _ _ heq | create _ _ _ _ _ heq | destroy _ _ _ _ heq | setMulti _ _ _ heq
  | map _ heq =>
    rw [heq]
    exact h

lemma frozen_path (hs : Reachable sharedStep SharedState.Initial s)
    (hheld : s.task.holds idx) (hpath : Path sharedStep (fun u => u.Owned idx) s s') :
    s'.NoClient idx :=
  hpath.invariant (I := fun u => u.NoClient idx) ((owner_inv hs).noClient hheld)
    fun _ _ _ hinside hfree hstep _ => hfree.step hinside.inside hstep

/-- Every `satisfied` callback of the list, run in order, finds its object acquirable. -/
def SeqSignaled (tid : Int) : (ℕ → WfusyncState) → List WaitObject → Prop
  | _, [] => True
  | mem, obj :: rest =>
    signaledFor obj.kind.type tid (mem obj.shmIdx) = true ∧
      SeqSignaled tid (update mem obj.shmIdx (satisfiedFor obj.kind.type tid (mem obj.shmIdx))) rest

/-- The list names no auto-reset event twice and no semaphore more often than its count. -/
def Affordable (mem : ℕ → WfusyncState) (objs : List WaitObject) : Prop :=
  ∀ obj ∈ objs,
    (obj.kind = .semaphore → (occurrences objs obj.shmIdx : Int) ≤ (mem obj.shmIdx).low) ∧
      (obj.kind = .event → (mem obj.shmIdx).high = 0 → occurrences objs obj.shmIdx ≤ 1)

lemma signaledFor_congr {o' : WfusyncState} (hcore : o'.core = o.core) :
    signaledFor kind.type tid o' = signaledFor kind.type tid o := by
  simp only [WfusyncState.core, Prod.mk.injEq] at hcore
  cases kind <;> simp only [signaledFor, WaitKind.type, wfusyncEventSignaled,
    wfusyncSemaphoreSignaled, wfusyncMutexSignaled, hcore.1]

lemma satisfiedFor_congr {o' : WfusyncState} (hcore : o'.core = o.core) :
    (satisfiedFor kind.type tid o').core = (satisfiedFor kind.type tid o).core := by
  simp only [WfusyncState.core, Prod.mk.injEq] at hcore ⊢
  obtain ⟨hlow, hhigh, hgeneration⟩ := hcore
  cases kind with
  | event =>
    simp only [satisfiedFor, WaitKind.type, wfusyncEventSatisfied, hhigh]
    split <;> simp [hlow, hhigh, hgeneration]
  | semaphore =>
    simp only [satisfiedFor, WaitKind.type, wfusyncSemaphoreSatisfied, hlow]
    split <;> simp [hlow, hhigh, hgeneration]
  | mutex =>
    simp only [satisfiedFor, WaitKind.type, wfusyncMutexSatisfied, hlow, hhigh]
    split_ifs <;> simp [hlow, hhigh, hgeneration]

lemma SeqSignaled.congr (h : SeqSignaled tid mem objs)
    (hcore : ∀ obj ∈ objs, (mem' obj.shmIdx).core = (mem obj.shmIdx).core) :
    SeqSignaled tid mem' objs := by
  induction objs generalizing mem mem' with
  | nil => trivial
  | cons obj rest ih =>
    have hobj := hcore obj (mem_cons_self ..)
    refine ⟨?_, ih h.2 fun o ho => ?_⟩
    · rw [signaledFor_congr hobj]
      exact h.1
    by_cases hidx : o.shmIdx = obj.shmIdx
    · rw [hidx, update_self, update_self]
      exact satisfiedFor_congr hobj
    · rw [update_of_ne hidx, update_of_ne hidx]
      exact hcore o (mem_cons_of_mem obj ho)

lemma signaled_after {n : ℕ} (hn : 0 < n) (hsignaled : signaledFor kind.type tid o = true)
    (hunits : kind = .semaphore → ((n + 1 : ℕ) : Int) ≤ o.low)
    (hmanual : kind = .event → o.high ≠ 0) :
    signaledFor kind.type tid (satisfiedFor kind.type tid o) = true ∧
      (kind = .semaphore → (n : Int) ≤ (satisfiedFor kind.type tid o).low) ∧
      (kind = .event → (satisfiedFor kind.type tid o).high ≠ 0) := by
  cases kind with
  | event =>
    have hhigh := hmanual rfl
    have hsame : satisfiedFor WaitKind.event.type tid o = o := by
      simp [satisfiedFor, WaitKind.type, wfusyncEventSatisfied, hhigh]
    rw [hsame]
    exact ⟨hsignaled, fun h => (by cases h), fun _ => hhigh⟩
  | semaphore =>
    have hle := hunits rfl
    have hpos : ¬ o.low ≤ 0 := by omega
    have hlow : (satisfiedFor WaitKind.semaphore.type tid o).low = o.low - 1 := by
      simp [satisfiedFor, WaitKind.type, wfusyncSemaphoreSatisfied, hpos]
    refine ⟨?_, fun _ => by omega, fun h => (by cases h)⟩
    exact decide_eq_true (by omega)
  | mutex =>
    refine ⟨?_, fun h => (by cases h), fun h => (by cases h)⟩
    simp only [signaledFor, WaitKind.type, wfusyncMutexSignaled, decide_eq_true_eq] at hsignaled
    have hlow : (satisfiedFor WaitKind.mutex.type tid o).low = tid := by
      simp only [satisfiedFor, WaitKind.type, wfusyncMutexSatisfied]
      split_ifs with hown hfree hneg
      · exact hown
      · rfl
      · rfl
      · omega
    exact decide_eq_true (.inr (.inl hlow))

/-- Signaled entries that the objects can afford are satisfied one after the other. -/
theorem seqSignaled_of_affordable
    (hkind : ∀ o ∈ objs, ∀ p ∈ objs, o.shmIdx = p.shmIdx → o.kind = p.kind)
    (hsignaled : ∀ o ∈ objs, signaledFor o.kind.type tid (mem o.shmIdx) = true)
    (hafford : Affordable mem objs) : SeqSignaled tid mem objs := by
  induction objs generalizing mem with
  | nil => trivial
  | cons obj rest ih =>
    have hobj := hsignaled obj (mem_cons_self ..)
    -- For a later entry of the same object, at least one more signal is left.
    have hagain : ∀ p ∈ rest, p.shmIdx = obj.shmIdx →
        signaledFor p.kind.type tid (satisfiedFor obj.kind.type tid (mem obj.shmIdx)) = true ∧
          (p.kind = .semaphore → (occurrences rest p.shmIdx : Int) ≤
            (satisfiedFor obj.kind.type tid (mem obj.shmIdx)).low) ∧
          (p.kind = .event → (satisfiedFor obj.kind.type tid (mem obj.shmIdx)).high ≠ 0) := by
      intro p hp hidx
      have hsame : p.kind = obj.kind :=
        hkind p (mem_cons_of_mem _ hp) obj (mem_cons_self ..) hidx
      have hpos : 0 < occurrences rest obj.shmIdx := by
        apply Nat.pos_of_ne_zero
        intro hzero
        exact occurrences_eq_zero.mp hzero p hp hidx
      have hcount : occurrences (obj :: rest) obj.shmIdx = occurrences rest obj.shmIdx + 1 := by
        rw [occurrences_cons, if_pos rfl]
      obtain ⟨hunits, hauto⟩ := hafford obj (mem_cons_self ..)
      rw [hcount] at hunits hauto
      rw [hsame, hidx]
      apply signaled_after hpos hobj hunits
      intro hevent hhigh
      have hone := hauto hevent hhigh
      omega
    refine ⟨hobj, ih (fun o ho p hp => hkind o (mem_cons_of_mem _ ho) p
      (mem_cons_of_mem _ hp)) (fun p hp => ?_) fun p hp => ?_⟩
    · by_cases hidx : p.shmIdx = obj.shmIdx
      · rw [hidx, update_self]
        exact (hagain p hp hidx).1
      · rw [update_of_ne hidx]
        exact hsignaled p (mem_cons_of_mem _ hp)
    by_cases hidx : p.shmIdx = obj.shmIdx
    · obtain ⟨_, hunits, hmanual⟩ := hagain p hp hidx
      rw [hidx, update_self]
      rw [hidx] at hunits
      exact ⟨hunits, fun hevent hhigh => absurd hhigh (hmanual hevent)⟩
    have hcount : occurrences (obj :: rest) p.shmIdx = occurrences rest p.shmIdx := by
      rw [occurrences_cons, if_neg (Ne.symm hidx), Nat.add_zero]
    rw [update_of_ne hidx, ← hcount]
    exact hafford p (mem_cons_of_mem _ hp)

def SectionPc.remaining (pc : SectionPc) (obj : WaitObject) (rest : List WaitObject) :
    List WaitObject :=
  match pc with
  | .unlock _ => rest
  | _ => obj :: rest

/-- What the server knows while it runs the callbacks of a wait: the objects it has looked at
are frozen, and what it found out about them is still true. -/
def ServerTask.Knows (s : SharedState ι) : ServerTask → Prop
  | .check w before obj _ notOk pc =>
    (∀ o ∈ before, s.NoClient o.shmIdx) ∧
      (w.all = true → notOk = false →
        ∀ o ∈ before, signaledFor o.kind.type w.tid (s.mem o.shmIdx) = true) ∧
      ∀ r, pc = .unlock r → r = signaledFor obj.kind.type w.tid (s.mem obj.shmIdx)
  | .satisfy w obj rest pc =>
    (∀ o ∈ obj :: rest, s.NoClient o.shmIdx) ∧ SeqSignaled w.tid s.mem (pc.remaining obj rest)
  | _ => True

omit [DecidableEq ι] in
lemma FlagInv.owned (h : FlagInv s) (hobj : obj ∈ s.refs) : s.Owned obj.shmIdx := by
  apply (h.flag obj.shmIdx).mpr
  left
  rw [h.counts]
  apply Nat.pos_of_ne_zero
  intro hzero
  exact occurrences_eq_zero.mp hzero obj hobj rfl

omit [DecidableEq ι] in
lemma ServerTask.Knows.congr {task : ServerTask} (h : task.Knows s)
    (hfrozen : ∀ obj ∈ task.refs, s.NoClient obj.shmIdx →
      s'.NoClient obj.shmIdx ∧ (s'.mem obj.shmIdx).core = (s.mem obj.shmIdx).core)
    (hobj : ∀ idx, task.holds idx → (s'.mem idx).core = (s.mem idx).core) (hshape : task.Shape) :
    task.Knows s' := by
  cases task with
  | idle | enlist | retire | request | tryAll => trivial
  | check w before obj rest notOk pc =>
    obtain ⟨hfree, hall, hresult⟩ := h
    have hmem : ∀ o ∈ before, o ∈ w.objs := by
      intro o ho
      rw [← show before ++ obj :: rest = w.objs from hshape]
      exact mem_append_left _ ho
    refine ⟨fun o ho => (hfrozen o (hmem o ho) (hfree o ho)).1, fun hw hok o ho => ?_,
      fun r hr => ?_⟩
    · rw [signaledFor_congr (hfrozen o (hmem o ho) (hfree o ho)).2]
      exact hall hw hok o ho
    have hheld : (ServerTask.check w before obj rest notOk pc).holds obj.shmIdx := by
      rw [hr]
      exact ⟨rfl, rfl⟩
    rw [signaledFor_congr (hobj _ hheld)]
    exact hresult r hr
  | satisfy w obj rest pc =>
    obtain ⟨hfree, hseq⟩ := h
    refine ⟨fun o ho => (hfrozen o (hshape o ho) (hfree o ho)).1, hseq.congr fun o ho => ?_⟩
    have ho' : o ∈ obj :: rest := by
      cases pc with
      | lock pc | locked => exact ho
      | unlock r => exact mem_cons_of_mem obj ho
    exact (hfrozen o (hshape o ho') (hfree o ho')).2

omit [DecidableEq ι] in
lemma knows_startCheck (w : ServerWait) (queue : List ServerWait) :
    (w.startCheck queue).1.Knows s := by
  unfold ServerWait.startCheck
  split
  · split <;> trivial
  · exact ⟨fun o ho => (by cases ho), fun _ _ o ho => (by cases ho), fun r hr => (by cases hr)⟩

omit [DecidableEq ι] in
lemma knows_satisfyFrom
    (hfree : ∀ o ∈ rest, s.NoClient o.shmIdx) (hseq : SeqSignaled w.tid s.mem rest) :
    (w.satisfyFrom rest).Knows s := by
  cases rest with
  | nil => trivial
  | cons obj rest => exact ⟨hfree, hseq⟩

/-- When `check_wait` finds all entries of a `SELECT_WAIT_ALL` signaled, the objects can afford
all of the callbacks. -/
def WaitsAffordable (s : SharedState ι) : SharedAct ι → Prop
  | .serve => ∀ w before obj, s.task = .check w before obj [] false (.unlock true) →
      w.all = true → Affordable s.mem w.objs
  | _ => True

omit [DecidableEq ι] in
lemma Affordable.congr (h : Affordable mem objs)
    (hcore : ∀ idx, (mem' idx).core = (mem idx).core) : Affordable mem' objs := by
  intro obj hobj
  have heq := hcore obj.shmIdx
  simp only [WfusyncState.core, Prod.mk.injEq] at heq
  rw [heq.1, heq.2.1]
  exact h obj hobj

omit [DecidableEq ι] in
lemma knows_nextCheck {before : List WaitObject} {notOk signaled : Bool} (queue : List ServerWait)
    (hfree : ∀ o ∈ before ++ [obj], s.NoClient o.shmIdx)
    (hall : w.all = true → notOk = false →
      ∀ o ∈ before, signaledFor o.kind.type w.tid (s.mem o.shmIdx) = true)
    (hsignaled : signaled = true → signaledFor obj.kind.type w.tid (s.mem obj.shmIdx) = true)
    (hlast : w.all = true → rest = [] → notOk = false → signaled = true →
      (∀ o ∈ w.objs, s.NoClient o.shmIdx) ∧ SeqSignaled w.tid s.mem w.objs) :
    (w.nextCheck before obj rest notOk signaled queue).1.Knows s := by
  unfold ServerWait.nextCheck
  split
  · rename_i hw
    split
    · refine ⟨hfree, fun _ hok o ho => ?_, fun r hr => (by cases hr)⟩
      rw [or_eq_false_iff, not_eq_false'] at hok
      rcases mem_append.mp ho with hold | hnew
      · exact hall hw hok.1 o hold
      · rw [mem_singleton.mp hnew]
        exact hsignaled hok.2
    split
    · trivial
    rename_i hok
    rw [not_eq_true, or_eq_false_iff, not_eq_false'] at hok
    obtain ⟨hfrozen, hseq⟩ := hlast hw rfl hok.1 hok.2
    exact knows_satisfyFrom hfrozen hseq
  · split
    · rename_i hone
      have hseq : SeqSignaled w.tid s.mem [obj] := ⟨hsignaled hone, trivial⟩
      exact knows_satisfyFrom (fun o ho => hfree o (mem_append_right _ ho)) hseq
    rename_i hw _
    split
    · exact ⟨hfree, fun hw' => absurd hw' hw, fun r hr => (by cases hr)⟩
    · trivial

lemma sectionStep_lock {type : SyncType} {f : WfusyncState → WfusyncState × Bool}
    {pc : ServerLockPc} {next : SectionNext} (htype : (mem idx).word.type = type)
    (h : sectionStep idx type f mem (.lock pc) = (mem', next)) :
    (∃ pc', next = .more (.lock pc') ∨ next = .more .locked) ∧
      ∀ j, (mem' j).core = (mem j).core := by
  cases pc with
  | load =>
    simp only [sectionStep, lockState, htype, ne_eq, not_true_eq_false, if_false] at h
    split at h
    · rename_i heq
      split at heq <;> cases heq <;> cases h <;> exact ⟨⟨_, .inl rfl⟩, fun _ => rfl⟩
    · rename_i heq
      split at heq <;> cases heq
    · rename_i heq
      split at heq <;> cases heq
  | cas multiWaiters serverWaiters =>
    simp only [sectionStep, lockState] at h
    split at h
    · rename_i heq
      split at heq <;> cases heq
      cases h
      exact ⟨⟨_, .inl rfl⟩, fun _ => rfl⟩
    · rename_i heq
      split at heq <;> cases heq
      cases h
      refine ⟨⟨.load, .inr rfl⟩, fun j => ?_⟩
      by_cases hj : j = idx
      · rw [hj, update_self]
        rfl
      · rw [update_of_ne hj]
    · rename_i heq
      split at heq <;> cases heq

lemma setUnlock_core (idx j : ℕ) : (update mem idx (mem idx).unlock j).core = (mem j).core := by
  by_cases hj : j = idx
  · rw [hj, update_self]
    rfl
  · rw [update_of_ne hj]

omit [DecidableEq ι] in
lemma FlagInv.kind_eq (h : FlagInv s) : ∀ o ∈ s.objs, ∀ p ∈ s.objs, o.shmIdx = p.shmIdx →
    o.kind = p.kind := by
  intro o ho p hp hidx
  have hkind : o.kind.type = p.kind.type := by
    rw [← h.live o ho, ← h.live p hp, hidx]
  revert hkind
  cases o.kind <;> cases p.kind <;> simp [WaitKind.type]

omit [DecidableEq ι] in
/-- One step of a `signaled` callback. -/
lemma ServerTask.Knows.check_step (hinv : OwnerInv s) (hflags : FlagInv s)
    {before : List WaitObject} {notOk : Bool} {pc : SectionPc}
    (htask : s.task = .check w before obj rest notOk pc) (hknows : s.task.Knows s)
    (hgood : w.all = true → rest = [] → notOk = false → pc = .unlock true →
      Affordable s.mem w.objs) (hserve : s.serve = some s') : s'.task.Knows s' := by
  have hshape : before ++ obj :: rest = w.objs := by
    have hshape := hflags.shape
    rwa [htask] at hshape
  have hobjs : ∀ o ∈ w.objs, o ∈ s.objs := by
    intro o ho
    rw [SharedState.objs, htask]
    exact mem_append_left _ ho
  have hobj : obj ∈ w.objs := by
    rw [← hshape]
    simp
  rw [htask] at hknows
  obtain ⟨hfree, hall, hresult⟩ := hknows
  simp only [SharedState.serve, htask] at hserve
  cases pc with
  | lock pc =>
    split at hserve
    · rename_i mem' pc' hsection
      obtain ⟨⟨_, hnext⟩, hcore⟩ := sectionStep_lock (hflags.live obj (hobjs obj hobj)) hsection
      simp only [Option.some.injEq] at hserve
      rw [← hserve]
      refine ⟨hfree, fun hw hok o ho => ?_, fun r hr => ?_⟩
      · rw [signaledFor_congr (hcore o.shmIdx)]
        exact hall hw hok o ho
      · rcases hnext with hnext | hnext <;> cases hnext <;> cases hr
    · rename_i mem' signaled hsection
      obtain ⟨⟨_, hnext⟩, _⟩ := sectionStep_lock (hflags.live obj (hobjs obj hobj)) hsection
      rcases hnext with hnext | hnext <;> cases hnext
  | locked =>
    simp only [sectionStep, ServerWait.signaled, update_eq_self, Option.some.injEq] at hserve
    rw [← hserve]
    refine ⟨hfree, hall, fun r hr => ?_⟩
    cases hr
    rfl
  | unlock r =>
    simp only [sectionStep, Option.some.injEq] at hserve
    rw [← hserve]
    have hcore := @setUnlock_core s.mem obj.shmIdx
    have hheld : s.task.holds obj.shmIdx := by
      rw [htask]
      exact ⟨rfl, rfl⟩
    have hfree' : ∀ o ∈ before ++ [obj], s.NoClient o.shmIdx := by
      intro o ho
      rcases mem_append.mp ho with hold | hnew
      · exact hfree o hold
      · rw [mem_singleton.mp hnew]
        exact hinv.noClient hheld
    have hall' : w.all = true → notOk = false → ∀ o ∈ before, signaledFor o.kind.type w.tid
        (update s.mem obj.shmIdx (s.mem obj.shmIdx).unlock o.shmIdx) = true := by
      intro hw hok o ho
      rw [signaledFor_congr (hcore o.shmIdx)]
      exact hall hw hok o ho
    have hresult' : r = true → signaledFor obj.kind.type w.tid
        (update s.mem obj.shmIdx (s.mem obj.shmIdx).unlock obj.shmIdx) = true := by
      intro hr
      rw [signaledFor_congr (hcore obj.shmIdx), ← hresult r rfl, hr]
    refine knows_nextCheck s.queue hfree' hall' hresult' fun hw hrest hok hr => ?_
    have hlist : before ++ [obj] = w.objs := by
      rw [← hshape, hrest]
    rw [← hlist]
    refine ⟨hfree', seqSignaled_of_affordable (fun o ho p hp => ?_) (fun o ho => ?_) ?_⟩
    · rw [hlist] at ho hp
      exact hflags.kind_eq o (hobjs o ho) p (hobjs p hp)
    · rcases mem_append.mp ho with hold | hnew
      · exact hall' hw hok o hold
      · rw [mem_singleton.mp hnew]
        exact hresult' hr
    · rw [hlist]
      exact (hgood hw hrest hok (by rw [hr])).congr hcore

omit [DecidableEq ι] in
lemma ServerTask.Knows.satisfy_step (hflags : FlagInv s) {pc : SectionPc}
    (htask : s.task = .satisfy w obj rest pc) (hknows : s.task.Knows s)
    (hserve : s.serve = some s') : s'.task.Knows s' := by
  have hlive : (s.mem obj.shmIdx).word.type = obj.kind.type := by
    have hshape := hflags.shape
    rw [htask] at hshape
    apply hflags.live obj
    rw [SharedState.objs, htask]
    exact mem_append_left _ (hshape obj (mem_cons_self ..))
  rw [htask] at hknows
  obtain ⟨hfree, hseq⟩ := hknows
  simp only [SharedState.serve, htask] at hserve
  cases pc with
  | lock pc =>
    split at hserve
    · rename_i mem' pc' hsection
      obtain ⟨⟨_, hnext⟩, hcore⟩ := sectionStep_lock hlive hsection
      simp only [Option.some.injEq] at hserve
      rw [← hserve]
      refine ⟨hfree, ?_⟩
      rcases hnext with hnext | hnext <;> cases hnext <;> exact hseq.congr fun o _ => hcore o.shmIdx
    · rename_i mem' signaled hsection
      obtain ⟨⟨_, hnext⟩, _⟩ := sectionStep_lock hlive hsection
      rcases hnext with hnext | hnext <;> cases hnext
  | locked =>
    simp only [sectionStep, ServerWait.satisfied, Option.some.injEq] at hserve
    rw [← hserve]
    exact ⟨hfree, hseq.2⟩
  | unlock r =>
    simp only [sectionStep, Option.some.injEq] at hserve
    rw [← hserve]
    exact knows_satisfyFrom (fun o ho => hfree o (mem_cons_of_mem obj ho))
      (hseq.congr fun o _ => setUnlock_core obj.shmIdx o.shmIdx)

omit [DecidableEq ι] in
lemma ServerTask.Knows.serve (hinv : OwnerInv s) (hflags : FlagInv s) (hknows : s.task.Knows s)
    (hgood : WaitsAffordable s .serve) (hserve : s.serve = some s') : s'.task.Knows s' := by
  cases htask : s.task with
  | idle =>
    simp only [SharedState.serve, htask] at hserve
    cases hserve
  | enlist w added rest =>
    cases rest with
    | nil =>
      simp only [SharedState.serve, htask, Option.some.injEq] at hserve
      rw [← hserve]
      exact knows_startCheck w s.queue
    | cons obj rest =>
      simp only [SharedState.serve, htask, Option.some.injEq] at hserve
      rw [← hserve]
      trivial
  | check w before obj rest notOk pc =>
    refine Knows.check_step hinv hflags htask hknows (fun hw hrest hok hpc => ?_) hserve
    apply hgood w before obj _ hw
    rw [htask, hrest, hok, hpc]
  | satisfy w obj rest pc => exact Knows.satisfy_step hflags htask hknows hserve
  | retire rest =>
    cases rest <;> simp only [SharedState.serve, htask, Option.some.injEq] at hserve <;>
      rw [← hserve] <;> trivial
  | request idx op pc =>
    simp only [SharedState.serve, htask] at hserve
    split at hserve <;> simp only [Option.some.injEq] at hserve <;> rw [← hserve] <;> trivial
  | tryAll c pc trace =>
    rcases serve_tryAll htask hserve with ⟨_, _, rfl⟩ | ⟨_, _, _, _, rfl⟩ <;> trivial

lemma ServerTask.Knows.step {a : SharedAct ι} (hinv : OwnerInv s) (hflags : FlagInv s)
    (hknows : s.task.Knows s) (hgood : WaitsAffordable s a) (hstep : sharedStep s a = some s') :
    s'.task.Knows s' := by
  have hrefs : ∀ obj ∈ s.task.refs, s.Owned obj.shmIdx :=
    fun obj hobj => hflags.owned (mem_append_left _ hobj)
  -- A busy task survives steps that keep the states, and a fresh one knows nothing yet.
  have hsame : s'.task = s.task → (∀ t, (s'.clients t).held = (s.clients t).held) →
      s'.mem = s.mem → s'.task.Knows s' := by
    intro htask hheld hmem
    rw [htask]
    refine hknows.congr (fun obj _ hfree => ⟨fun t ht => ?_, by rw [hmem]⟩)
      (fun idx _ => by rw [hmem]) hflags.shape
    rw [hheld t] at ht
    exact hfree t ht
  have hidle : s.task.mayDestroy = true → s'.task = s.task → s'.task.Knows s' := by
    intro hmay htask
    rw [htask]
    cases htask' : s.task with
    | idle | retire rest => trivial
    | enlist | check | satisfy | request | tryAll =>
      rw [htask'] at hmay
      cases hmay
  have hmay : s.task.isIdle = true → s.task.mayDestroy = true := by
    intro h
    cases htask' : s.task with
    | idle => rfl
    | enlist | check | satisfy | retire | request | tryAll =>
      rw [htask'] at h
      cases h
  cases sharedStep_cases hstep with
  | client t heffect =>
    rw [heffect.task]
    refine hknows.congr (fun obj hobj hfree => ⟨heffect.noClient hfree (hrefs obj hobj), ?_⟩)
      (fun idx hheld => ?_) hflags.shape
    · exact heffect.locks.core_eq (hfree t)
    · exact heffect.locks.core_eq (hinv.noClient hheld t)
  | status t status heq =>
    refine hsame (by rw [heq]; rfl) (fun u => ?_) (by rw [heq]; rfl)
    rw [heq, setClient_held]
  | serve hact hserve =>
    rw [hact] at hgood
    exact Knows.serve hinv hflags hknows hgood hserve
  | begins task queue hidle hbegins heq =>
    rw [heq]
    cases hbegins with
    | select w _ | endWait w _ | request idx op | tryWaitAll c => trivial
    | wakeThread w _ => exact knows_startCheck w _
  | create low high type hfree _ heq | setMulti idx flag hfree heq =>
    exact hidle (hmay hfree) (by rw [heq])
  | destroy idx hfree _ _ heq => exact hidle hfree (by rw [heq])
  | map idx heq => exact hsame (by rw [heq]) (fun _ => by rw [heq]) (by rw [heq])

omit [DecidableEq ι] in
lemma SharedState.Initial.knows (h : s.Initial) : s.task.Knows s := by
  have hidle := h.2.2.2.2
  cases htask : s.task with
  | idle => trivial
  | enlist | check | satisfy | retire | request | tryAll =>
    rw [htask] at hidle
    cases hidle

lemma waits_know (h : Reaches sharedStep WaitsAffordable SharedState.Initial s) : s.task.Knows s :=
  h.invariant_with (P := fun u => u.task.Knows u) (Q := fun u => OwnerInv u ∧ FlagInv u)
    (fun _ hs => ⟨owner_inv hs.reachable, flag_inv hs.reachable⟩) (fun _ hs => hs.knows)
    fun _ _ _ hinv hs hgood hstep => hs.step hinv.1 hinv.2 hgood hstep

/-- In every reachable state the counter of an object counts the queue entries that refer to it,
and outside `wfusync_try_wait_all` the bit is set exactly if the counter is positive. From a
lock that the server was granted until the bit is cleared, no client step changes the object.
And in a run in which no wait for all asks an object for more than it has, every `satisfied`
callback finds its object acquirable. -/
theorem server_waits_frozen :
    (∀ s : SharedState ι, Reachable sharedStep SharedState.Initial s → ∀ idx,
        s.counts idx = occurrences s.refs idx ∧
          (s.task.isTryAll = false → (s.Owned idx ↔ 0 < s.counts idx))) ∧
      (∀ (s : SharedState ι) idx, Reachable sharedStep SharedState.Initial s →
        s.task.holds idx → ∀ u, Path sharedStep (fun v => v.Owned idx) s u →
          ∀ a t v, a.client = some t → sharedStep u a = some v →
            (v.mem idx).core = (u.mem idx).core) ∧
      ∀ s : SharedState ι, Reaches sharedStep WaitsAffordable SharedState.Initial s →
        ∀ w obj rest, s.task = .satisfy w obj rest .locked →
          signaledFor obj.kind.type w.tid (s.mem obj.shmIdx) = true := by
  refine ⟨fun s hs idx => ⟨(flag_inv hs).counts idx, fun htask => ?_⟩,
    fun s idx hs hheld u hpath a t v ha hstep => ?_, fun s hs w obj rest htask => ?_⟩
  · have hguarded : s.task.guarded = [] := by
      cases htask' : s.task with
      | idle | enlist | check | satisfy | retire | request => rfl
      | tryAll =>
        rw [htask'] at htask
        cases htask
    unfold SharedState.Owned
    rw [(flag_inv hs).flag idx, hguarded]
    simp
  · exact (clientStep_effect ha hstep).locks.core_eq (frozen_path hs hheld hpath t)
  · have hknows := waits_know hs
    rw [htask] at hknows
    exact hknows.2.1

/-- A semaphore with two units is waited for twice by one `SELECT_WAIT_ALL`. -/
def waitAllActs (count : ℕ) (wait : ServerWait) : List (SharedAct (Fin 3)) :=
  [.create count count .semaphore, .select wait] ++ List.replicate 17 .serve

def twiceWait : ServerWait :=
  ⟨1, true, [⟨1, .semaphore⟩, ⟨1, .semaphore⟩]⟩

theorem server_waits_frozen_twice :
    ∃ s, run sharedStep emptyServer (waitAllActs 2 twiceWait) = some s ∧
      s.task = .satisfy twiceWait ⟨1, .semaphore⟩ [] .locked ∧
      signaledFor .semaphore 1 (s.mem 1) = true := by
  have hother : ∀ u : SharedState (Fin 3),
      (∀ w before obj, u.task ≠ .check w before obj [] false (.unlock true)) →
        WaitsAffordable u .serve :=
    fun u hu w before obj htask => absurd htask (hu w before obj)
  have hgood : Guarded sharedStep WaitsAffordable emptyServer (waitAllActs 2 twiceWait) := by
    refine ⟨trivial, trivial, hother _ ?_, hother _ ?_, hother _ ?_, hother _ ?_, hother _ ?_,
      hother _ ?_, hother _ ?_, hother _ ?_, hother _ ?_, hother _ ?_, ?_, hother _ ?_,
      hother _ ?_, hother _ ?_, hother _ ?_, hother _ ?_, hother _ ?_, trivial⟩
    case refine_11 =>
      intro w before obj htask _
      cases htask
      intro o ho
      have heq : o = ⟨1, .semaphore⟩ := by simpa [twiceWait] using ho
      rw [heq]
      exact ⟨fun _ => by decide, fun h => (by cases h)⟩
    all_goals
      intro w before obj htask
      cases htask
  refine ⟨_, rfl, rfl, ?_⟩
  exact server_waits_frozen.2.2 _ (Reaches.run (.start emptyServer_initial) _ hgood rfl)
    twiceWait ⟨1, .semaphore⟩ [] rfl

/-- With one unit, the second callback finds the semaphore empty. -/
theorem server_wait_exhausted :
    ¬ ∀ s : SharedState (Fin 3), Reachable sharedStep SharedState.Initial s →
      ∀ w obj rest, s.task = .satisfy w obj rest .locked →
        signaledFor obj.kind.type w.tid (s.mem obj.shmIdx) = true := by
  intro hall
  have hreach : Reachable sharedStep SharedState.Initial emptyServer := .start emptyServer_initial
  have hend := reachable_of_run hreach (waitAllActs 1 twiceWait) rfl
  have hsignaled := hall _ hend twiceWait ⟨1, .semaphore⟩ [] rfl
  cases hsignaled

end WineForge.WfuSync
