import WineForge.WfuSync.SharedStates

/-!
# The holders of the lock bits

Every set lock bit of the shared states belongs to exactly one client or to the server, and no
client acquires a lock while `SERVER_WAITERS` is set.
-/

namespace WineForge.WfuSync

open Function Library Option

variable {ι : Type*} {mem mem' : ℕ → WfusyncState}

/-- The types and the `SERVER_WAITERS` bits stay as they are. -/
def SameFlags (mem mem' : ℕ → WfusyncState) : Prop :=
  ∀ idx, (mem' idx).word.type = (mem idx).word.type ∧
    (mem' idx).word.serverWaiters = (mem idx).word.serverWaiters

lemma SameFlags.refl (mem : ℕ → WfusyncState) : SameFlags mem mem :=
  fun _ => ⟨rfl, rfl⟩

lemma SameFlags.update (idx : ℕ) {s : WfusyncState} (htype : s.word.type = (mem idx).word.type)
    (hflag : s.word.serverWaiters = (mem idx).word.serverWaiters) :
    SameFlags mem (update mem idx s) := by
  intro j
  by_cases hj : j = idx
  · rw [hj, update_self]
    exact ⟨htype, hflag⟩
  · rw [update_of_ne hj]
    exact ⟨rfl, rfl⟩

def SectionNext.isLocked : SectionNext → Bool
  | .more pc => pc.isLocked
  | .done _ => false

/-- What one step of a server section changes. -/
structure SectionEffect (idx : ℕ) (mem mem' : ℕ → WfusyncState) (pc : SectionPc)
    (next : SectionNext) : Prop where
  locks : LockEffect mem mem' (fun j => pc.isLocked = true ∧ idx = j)
    (fun j => next.isLocked = true ∧ idx = j)
  flags : SameFlags mem mem'
  others : ∀ j, j ≠ idx → mem' j = mem j

lemma sectionStep_effect {idx : ℕ} {type : SyncType} {f : WfusyncState → WfusyncState × Bool}
    {pc : SectionPc} {next : SectionNext} (htype : type ≠ .unknown)
    (hword : ∀ s, (f s).1.word = s.word) (h : sectionStep idx type f mem pc = (mem', next)) :
    SectionEffect idx mem mem' pc next := by
  cases pc with
  | lock pc =>
    simp only [sectionStep] at h
    split at h <;> cases h
    · exact ⟨.same fun _ => .rfl, .refl mem, fun _ _ => rfl⟩
    · rename_i s hgranted
      obtain ⟨rfl, hlive, hfree⟩ := lockState_granted hgranted
      refine ⟨.acquire idx hfree ?_ rfl fun j => ?_, .update idx rfl rfl, fun j hj => ?_⟩
      · rw [hlive]
        exact htype
      · simp [SectionNext.isLocked, SectionPc.isLocked, eq_comm]
      · exact update_of_ne hj _ _
    · exact ⟨.same fun _ => by simp [SectionNext.isLocked, SectionPc.isLocked], .refl mem,
        fun _ _ => rfl⟩
  | locked =>
    cases h
    refine ⟨.write idx _ ⟨rfl, rfl⟩ (hword _) rfl fun _ => .rfl, .update idx ?_ ?_, fun j hj => ?_⟩
    · rw [hword]
    · rw [hword]
    · exact update_of_ne hj _ _
  | unlock result =>
    cases h
    refine ⟨.release idx ⟨rfl, rfl⟩ rfl fun j => ?_, .update idx rfl rfl, fun j hj => ?_⟩
    · simp [SectionNext.isLocked, SectionPc.isLocked, eq_comm]
    · exact update_of_ne hj _ _

lemma WaitKind.type_ne_unknown (kind : WaitKind) : kind.type ≠ .unknown := by
  cases kind <;> simp [WaitKind.type]

lemma ServerOp.type_ne_unknown (op : ServerOp) : op.type ≠ .unknown := by
  cases op with
  | signal op tid => cases op <;> simp [ServerOp.type, SignalOp.type]
  | abandonMutex tid => simp [ServerOp.type]
  | query kind => exact kind.type_ne_unknown

lemma ServerOp.section_word (op : ServerOp) (s : WfusyncState) : (op.section s).1.word = s.word := by
  cases op with
  | signal op tid => exact locked_word op tid s
  | abandonMutex tid =>
    simp only [ServerOp.section, wfusyncAbandonMutex]
    split <;> rfl
  | query kind => rfl

variable [DecidableEq ι] {s s' : SharedState ι}

/-- What a step of client `t` changes. It takes a lock only while the server owns nothing. -/
structure ClientEffect (s s' : SharedState ι) (t : ι) : Prop where
  task : s'.task = s.task
  queue : s'.queue = s.queue
  counts : s'.counts = s.counts
  next : s'.next = s.next
  others : ∀ u, u ≠ t → s'.clients u = s.clients u
  status : (s'.clients t).status = (s.clients t).status
  running : (s.clients t).status = .running
  locks : LockEffect s.mem s'.mem (· ∈ (s.clients t).held) (· ∈ (s'.clients t).held)
  flags : SameFlags s.mem s'.mem
  taken : ∀ idx, idx ∈ (s'.clients t).held → idx ∈ (s.clients t).held ∨
    (s.mem idx).word.serverWaiters = false

omit [DecidableEq ι] in
lemma lockStep_effect {c c' : ClientThread} (h : c.lockStep mem = some (mem', c')) :
    c'.status = c.status ∧ LockEffect mem mem' (· ∈ c.held) (· ∈ c'.held) ∧
      SameFlags mem mem' ∧
      ∀ idx, idx ∈ c'.held → idx ∈ c.held ∨ (mem idx).word.serverWaiters = false := by
  unfold ClientThread.lockStep at h
  split at h
  · cases h
  rename_i a hattempt
  split at h <;> cases h
  · exact ⟨rfl, .same fun _ => .rfl, .refl mem, fun _ => .inl⟩
  · rename_i o hgranted
    obtain ⟨rfl, htype, hfree, hflag⟩ := wfusyncLockState_granted hgranted
    refine ⟨rfl, .acquire a.shmIdx hfree ?_ rfl fun j => ?_, .update _ rfl rfl, fun j hj => ?_⟩
    · rw [htype]
      exact a.kind.type_ne_unknown
    · simp [or_comm]
    · rcases Finset.mem_insert.mp hj with heq | hheld
      · exact .inr (by rw [heq, hflag])
      · exact .inl hheld
  · exact ⟨rfl, .same fun _ => .rfl, .refl mem, fun _ => .inl⟩

variable {a : SharedAct ι} {task : ServerTask}

lemma clientStep_effect {t : ι} (ha : a.client = some t)
    (h : sharedStep s a = some s') : ClientEffect s s' t := by
  have hself : ∀ c, (s.setClient t c).clients t = c := fun c => update_self ..
  have hother : ∀ c u, u ≠ t → (s.setClient t c).clients u = s.clients u :=
    fun c u hu => update_of_ne hu _ _
  cases a with
  | tryLock u idx kind =>
    cases ha
    simp only [sharedStep, SharedState.clientStep, ite_none_right_eq_some, some.injEq] at h
    obtain ⟨hrunning, _, rfl⟩ := h
    refine ⟨rfl, rfl, rfl, rfl, hother _, ?_, hrunning, ?_, .refl _, ?_⟩
    · rw [hself]
    · rw [hself]
      exact .same fun _ => .rfl
    · rw [hself]
      exact fun _ => .inl
  | access u =>
    cases ha
    simp only [sharedStep, SharedState.clientStep, ite_none_right_eq_some, map_eq_some_iff] at h
    obtain ⟨hrunning, ⟨mem', c'⟩, hstep, rfl⟩ := h
    obtain ⟨hstatus, hlocks, hflags, htaken⟩ := lockStep_effect hstep
    refine ⟨rfl, rfl, rfl, rfl, hother _, ?_, hrunning, ?_, hflags, ?_⟩
    · rw [hself, hstatus]
    · rw [hself]
      exact hlocks
    · rw [hself]
      exact htaken
  | write u idx low high generation =>
    cases ha
    simp only [sharedStep, SharedState.clientStep, ite_none_right_eq_some, some.injEq] at h
    obtain ⟨hrunning, hheld, rfl⟩ := h
    exact ⟨rfl, rfl, rfl, rfl, fun _ _ => rfl, rfl, hrunning,
      .write idx ⟨low, high, generation, (s.mem idx).word⟩ hheld rfl rfl fun _ => .rfl,
      .update idx rfl rfl, fun _ => .inl⟩
  | unlock u idx =>
    cases ha
    simp only [sharedStep, SharedState.clientStep, ite_none_right_eq_some, some.injEq] at h
    obtain ⟨hrunning, hheld, rfl⟩ := h
    refine ⟨rfl, rfl, rfl, rfl, hother _, ?_, hrunning, ?_, .update idx rfl rfl, ?_⟩
    · rw [hself]
    · rw [hself]
      refine .release idx hheld rfl fun j => ?_
      rw [Finset.mem_erase, and_comm]
    · rw [hself]
      exact fun j hj => .inl (Finset.mem_of_mem_erase hj)
  | _ => cases ha

def ServerTask.Unlocked (task : ServerTask) : Prop :=
  ∀ idx, ¬ task.holds idx

lemma satisfyFrom_unlocked (w : ServerWait) (rest : List WaitObject) :
    (w.satisfyFrom rest).Unlocked := by
  intro idx
  cases rest with
  | nil => exact id
  | cons obj rest => exact fun h => Bool.false_ne_true h.1

lemma startCheck_unlocked (w : ServerWait) (queue : List ServerWait) :
    (w.startCheck queue).1.Unlocked := by
  intro idx
  unfold ServerWait.startCheck
  split
  · split <;> exact id
  · exact fun h => Bool.false_ne_true h.1

lemma nextCheck_unlocked (w : ServerWait) (before : List WaitObject) (obj : WaitObject)
    (rest : List WaitObject) (notOk signaled : Bool) (queue : List ServerWait) :
    (w.nextCheck before obj rest notOk signaled queue).1.Unlocked := by
  intro idx
  unfold ServerWait.nextCheck
  split
  · split
    · exact fun h => Bool.false_ne_true h.1
    · split
      · exact id
      · exact satisfyFrom_unlocked w _ idx
  split
  · exact satisfyFrom_unlocked w [obj] idx
  · split
    · exact fun h => Bool.false_ne_true h.1
    · exact id

lemma setServerWaiters_same (idx : ℕ) (flag : Bool) (j : ℕ) :
    (update mem idx ((mem idx).setServerWaiters flag) j).core = (mem j).core ∧
      (update mem idx ((mem idx).setServerWaiters flag) j).word.type = (mem j).word.type ∧
      (update mem idx ((mem idx).setServerWaiters flag) j).word.locked = (mem j).word.locked := by
  by_cases hj : j = idx
  · rw [hj, update_self]
    exact ⟨rfl, rfl, rfl⟩
  · rw [update_of_ne hj]
    exact ⟨rfl, rfl, rfl⟩

omit [DecidableEq ι] in
lemma removeServerWaiter_same (s : SharedState ι) (idx j : ℕ) :
    ((s.removeServerWaiter idx).mem j).core = (s.mem j).core ∧
      ((s.removeServerWaiter idx).mem j).word.type = (s.mem j).word.type ∧
      ((s.removeServerWaiter idx).mem j).word.locked = (s.mem j).word.locked := by
  unfold SharedState.removeServerWaiter
  split_ifs
  · exact ⟨rfl, rfl, rfl⟩
  · exact setServerWaiters_same idx false j
  · exact ⟨rfl, rfl, rfl⟩

/-- `wfusync_try_wait_all` touches no lock bit. -/
lemma tryAll_same {c : TryAllCall} {mapped : ℕ → Bool} {pc pc' : TryAllPc}
    {trace trace' : TryAllTrace} (h : c.step mapped mem trace pc = some (mem', pc', trace')) :
    ∀ j, (mem' j).word.type = (mem j).word.type ∧ (mem' j).word.locked = (mem j).word.locked := by
  have hflag : ∀ idx flag j,
      (update mem idx ((mem idx).setServerWaiters flag) j).word.type = (mem j).word.type ∧
        (update mem idx ((mem idx).setServerWaiters flag) j).word.locked = (mem j).word.locked :=
    fun idx flag j => (setServerWaiters_same idx flag j).2
  cases pc with
  | guardType i | checkType i abandoned =>
    simp only [TryAllCall.step] at h
    split_ifs at h <;> cases h <;> exact fun _ => ⟨rfl, rfl⟩
  | guardGeneration i seen | checkGeneration i abandoned | checkValue i abandoned =>
    simp only [TryAllCall.step] at h
    split at h <;> cases h <;> exact fun _ => ⟨rfl, rfl⟩
  | guardSwap i seen =>
    simp only [TryAllCall.step] at h
    split at h <;> cases h
    · exact hflag _ true
    · exact fun _ => ⟨rfl, rfl⟩
  | commit i abandoned =>
    simp only [TryAllCall.step] at h
    split at h
    · split at h
      · cases h
        exact fun _ => ⟨rfl, rfl⟩
      rename_i o htake
      cases h
      intro j
      by_cases hj : j = (c.entry i).shmIdx
      · rw [hj, update_self, tryWaitAllTake_word htake]
        exact ⟨rfl, rfl⟩
      · rw [update_of_ne hj]
        exact ⟨rfl, rfl⟩
    · cases h
      exact fun _ => ⟨rfl, rfl⟩
  | release i guarded status =>
    simp only [TryAllCall.step] at h
    split at h <;> cases h
    · exact hflag _ false
    · exact fun _ => ⟨rfl, rfl⟩
  | returned status => cases h

omit [DecidableEq ι] in
lemma serve_tryAll {c : TryAllCall} {pc : TryAllPc} {trace : TryAllTrace}
    (htask : s.task = .tryAll c pc trace) (hserve : s.serve = some s') :
    (∃ status, pc = .returned status ∧ s' = { s with task := .idle }) ∨
      ∃ mem' pc' trace', c.step s.mapped s.mem trace pc = some (mem', pc', trace') ∧
        s' = { s with mem := mem', task := .tryAll c pc' trace' } := by
  by_cases hreturned : ∃ status, pc = .returned status
  · obtain ⟨status, rfl⟩ := hreturned
    simp only [SharedState.serve, htask, some.injEq] at hserve
    exact .inl ⟨status, rfl, hserve.symm⟩
  have heq : s.serve = (c.step s.mapped s.mem trace pc).map fun r =>
      { s with mem := r.1, task := .tryAll c r.2.1 r.2.2 } := by
    cases pc with
    | returned status => exact absurd ⟨status, rfl⟩ hreturned
    | _ => simp only [SharedState.serve, htask]
  rw [heq] at hserve
  obtain ⟨⟨mem', pc', trace'⟩, hstep, rfl⟩ := map_eq_some_iff.mp hserve
  exact .inr ⟨mem', pc', trace', hstep, rfl⟩

/-- What a step of the server's task means for the lock bits. -/
structure ServeEffect (s s' : SharedState ι) : Prop where
  clients : s'.clients = s.clients
  next : s'.next = s.next
  types : ∀ j, (s'.mem j).word.type = (s.mem j).word.type
  locks : LockEffect s.mem s'.mem s.task.holds s'.task.holds ∨
    (∀ j, (s'.mem j).word.locked = (s.mem j).word.locked) ∧ s.task.Unlocked ∧ s'.task.Unlocked

omit [DecidableEq ι] in
lemma SectionEffect.serve {idx : ℕ} {pc : SectionPc} {next : SectionNext}
    (heffect : SectionEffect idx s.mem mem' pc next) {task' : ServerTask}
    {queue' : List ServerWait}
    (hholds : s.task.holds = fun j => pc.isLocked = true ∧ idx = j)
    (hholds' : task'.holds = fun j => next.isLocked = true ∧ idx = j) :
    ServeEffect s { s with mem := mem', task := task', queue := queue' } where
  clients := rfl
  next := rfl
  types j := (heffect.flags j).1
  locks := by
    left
    rw [hholds, hholds']
    exact heffect.locks

lemma holds_done (h : task.Unlocked) (idx : ℕ) (result : Bool) :
    task.holds = fun j => (SectionNext.done result).isLocked = true ∧ idx = j := by
  funext j
  simp [SectionNext.isLocked, h j]

omit [DecidableEq ι] in
lemma serve_effect (h : s.serve = some s') : ServeEffect s s' := by
  cases htask : s.task with
  | idle =>
    simp only [SharedState.serve, htask] at h
    cases h
  | enlist w added rest =>
    have hunlocked : s.task.Unlocked := by
      rw [htask]
      exact fun _ => id
    cases rest with
    | nil =>
      simp only [SharedState.serve, htask, some.injEq] at h
      rw [← h]
      exact ⟨rfl, rfl, fun _ => rfl, .inr ⟨fun _ => rfl, hunlocked, startCheck_unlocked w s.queue⟩⟩
    | cons obj rest =>
      simp only [SharedState.serve, htask, some.injEq] at h
      rw [← h]
      have hsame := @setServerWaiters_same s.mem obj.shmIdx true
      exact ⟨rfl, rfl, fun j => (hsame j).2.1,
        .inr ⟨fun j => (hsame j).2.2, hunlocked, fun _ => id⟩⟩
  | check w before obj rest notOk pc =>
    simp only [SharedState.serve, htask] at h
    split at h
    · rename_i mem' pc' hsection
      have heffect := sectionStep_effect obj.kind.type_ne_unknown (fun _ => rfl) hsection
      simp only [some.injEq] at h
      rw [← h]
      exact heffect.serve (by rw [htask]; rfl) rfl
    rename_i mem' signaled hsection
    have heffect := sectionStep_effect obj.kind.type_ne_unknown (fun _ => rfl) hsection
    simp only [some.injEq] at h
    rw [← h]
    exact heffect.serve (by rw [htask]; rfl) (holds_done (nextCheck_unlocked w before obj rest notOk signaled s.queue) _ _)
  | satisfy w obj rest pc =>
    have hword : ∀ o, (w.satisfied obj o).1.word = o.word :=
      fun o => satisfiedFor_word obj.kind.type w.tid o
    simp only [SharedState.serve, htask] at h
    split at h
    · rename_i mem' pc' hsection
      have heffect := sectionStep_effect obj.kind.type_ne_unknown hword hsection
      simp only [some.injEq] at h
      rw [← h]
      exact heffect.serve (by rw [htask]; rfl) rfl
    rename_i mem' signaled hsection
    have heffect := sectionStep_effect obj.kind.type_ne_unknown hword hsection
    simp only [some.injEq] at h
    rw [← h]
    exact heffect.serve (by rw [htask]; rfl) (holds_done (satisfyFrom_unlocked w rest) _ _)
  | retire rest =>
    have hunlocked : s.task.Unlocked := by
      rw [htask]
      exact fun _ => id
    cases rest with
    | nil =>
      simp only [SharedState.serve, htask, some.injEq] at h
      rw [← h]
      exact ⟨rfl, rfl, fun _ => rfl, .inr ⟨fun _ => rfl, hunlocked, fun _ => id⟩⟩
    | cons obj rest =>
      simp only [SharedState.serve, htask, some.injEq] at h
      rw [← h]
      have hsame := removeServerWaiter_same s obj.shmIdx
      refine ⟨?_, ?_, fun j => (hsame j).2.1, .inr ⟨fun j => (hsame j).2.2, hunlocked, fun _ => id⟩⟩
      · simp only [SharedState.removeServerWaiter]
        split <;> rfl
      · simp only [SharedState.removeServerWaiter]
        split <;> rfl
  | request idx op pc =>
    simp only [SharedState.serve, htask] at h
    split at h
    · rename_i mem' pc' hsection
      have heffect := sectionStep_effect op.type_ne_unknown op.section_word hsection
      simp only [some.injEq] at h
      rw [← h]
      exact heffect.serve (by rw [htask]; rfl) rfl
    rename_i mem' signaled hsection
    have heffect := sectionStep_effect op.type_ne_unknown op.section_word hsection
    simp only [some.injEq] at h
    rw [← h]
    exact heffect.serve (by rw [htask]; rfl) (holds_done (fun _ => id) _ _)
  | tryAll c pc trace =>
    have hunlocked : s.task.Unlocked := by
      rw [htask]
      exact fun _ => id
    rcases serve_tryAll htask h with ⟨status, _, rfl⟩ | ⟨mem', pc', trace', hstep, rfl⟩
    · exact ⟨rfl, rfl, fun _ => rfl, .inr ⟨fun _ => rfl, hunlocked, fun _ => id⟩⟩
    · have hsame := tryAll_same hstep
      exact ⟨rfl, rfl, fun j => (hsame j).1, .inr ⟨fun j => (hsame j).2, hunlocked, fun _ => id⟩⟩

/-- The tasks that the server takes up when it is idle. -/
inductive Begins (s : SharedState ι) : ServerTask → List ServerWait → Prop
  | select (w : ServerWait) :
      (∀ obj ∈ w.objs, (s.mem obj.shmIdx).word.type = obj.kind.type) →
      Begins s (.enlist w [] w.objs) s.queue
  | wakeThread (w : ServerWait) : w ∈ s.queue →
      Begins s (w.startCheck (s.queue.erase w)).1 (w.startCheck (s.queue.erase w)).2
  | endWait (w : ServerWait) : w ∈ s.queue → Begins s (.retire w.objs) (s.queue.erase w)
  | request (idx : ℕ) (op : ServerOp) : Begins s (.request idx op (.lock .load)) s.queue
  | tryWaitAll (c : TryAllCall) :
      Begins s (.tryAll c c.start ⟨fun idx => (s.mem idx).word.serverWaiters, s.mem, []⟩) s.queue

omit [DecidableEq ι] in
lemma Begins.unlocked {queue : List ServerWait} (h : Begins s task queue) : task.Unlocked := by
  cases h with
  | select w _ | endWait w _ | tryWaitAll c => exact fun _ => id
  | wakeThread w _ => exact startCheck_unlocked w _
  | request idx op => exact fun _ h => Bool.false_ne_true h.1

inductive SharedCase (s s' : SharedState ι) (a : SharedAct ι) : Prop
  | client (t : ι) (effect : ClientEffect s s' t)
  | status (t : ι) (status : ThreadStatus)
      (heq : s' = s.setClient t { s.clients t with status := status })
  | serve (hact : a = .serve) (heq : s.serve = some s')
  | begins (task : ServerTask) (queue : List ServerWait) (hidle : s.task.isIdle = true)
      (hbegins : Begins s task queue) (heq : s' = { s with task := task, queue := queue })
  | create (low high : Int) (type : SyncType) (hidle : s.task.isIdle = true)
      (htype : type ≠ .unknown)
      (heq : s' = { s with
        mem := update s.mem s.next ⟨low, high, s.generations, ⟨type, false, false, false⟩⟩
        mapped := update s.mapped s.next true
        counts := update s.counts s.next 0
        next := s.next + 1
        generations := nextGeneration s.generations })
  | destroy (idx : ℕ) (hmay : s.task.mayDestroy = true)
      (hlive : (s.mem idx).word.type.waitable = true) (hrefs : ∀ obj ∈ s.refs, obj.shmIdx ≠ idx)
      (heq : s' = { s with
        mem := update s.mem idx
          { s.mem idx with
            generation := s.generations
            word := ⟨.unknown, false, false, false⟩ }
        generations := nextGeneration s.generations })
  | setMulti (idx : ℕ) (flag : Bool) (hidle : s.task.isIdle = true)
      (heq : s' = { s with
        mem := update s.mem idx
          { s.mem idx with word := { (s.mem idx).word with multiWaiters := flag } } })
  | map (idx : ℕ) (heq : s' = { s with mapped := update s.mapped idx true })

lemma sharedStep_cases (h : sharedStep s a = some s') : SharedCase s s' a := by
  cases a with
  | tryLock t idx kind | access t | write t idx low high generation | unlock t idx =>
    exact .client t (clientStep_effect rfl h)
  | serve => exact .serve rfl h
  | map idx =>
    simp only [sharedStep, some.injEq] at h
    exact .map idx h.symm
  | _ =>
    simp only [sharedStep, ite_none_right_eq_some, some.injEq] at h
    obtain ⟨hguard, heq⟩ := h
    first
    | exact .status _ _ heq.symm
    | exact .begins _ _ hguard.1 (.select _ hguard.2) heq.symm
    | exact .begins _ _ hguard.1 (.wakeThread _ hguard.2) heq.symm
    | exact .begins _ _ hguard.1 (.endWait _ hguard.2) heq.symm
    | exact .begins _ _ hguard (.request _ _) heq.symm
    | exact .begins _ _ hguard (.tryWaitAll _) heq.symm
    | exact .create _ _ _ hguard.1 hguard.2 heq.symm
    | exact .destroy _ hguard.1 hguard.2.1 hguard.2.2 heq.symm
    | exact .setMulti _ _ hguard heq.symm

/-- Who holds what. Slots that were never handed out are of no type, and nobody holds them;
only states with a type are locked. -/
structure OwnerInv (s : SharedState ι) : Prop where
  locks : LockTable s.mem s.holds
  untyped : ∀ idx, (s.mem idx).word.type = .unknown → (s.mem idx).word.locked = false
  fresh : ∀ idx, s.next ≤ idx → (s.mem idx).word.type = .unknown
  bound : ∀ t idx, s.holds t idx → idx < s.next

lemma ServerTask.isIdle_unlocked (h : task.isIdle = true) : task.Unlocked := by
  cases task with
  | idle => exact fun _ => id
  | enlist | check | satisfy | retire | request | tryAll => cases h

lemma LockEffect.held_lt {held held' : ℕ → Prop} {n : ℕ} (h : LockEffect mem mem' held held')
    (hfresh : ∀ idx, n ≤ idx → (mem idx).word.type = .unknown) (hheld : ∀ idx, held idx → idx < n)
    (idx : ℕ) (hidx : held' idx) : idx < n := by
  cases h with
  | quiet _ hsame | write j o _ _ _ hsame => exact hheld idx ((hsame idx).mp hidx)
  | acquire j _ htype _ hnew =>
    rcases (hnew idx).mp hidx with hold | heq
    · exact hheld idx hold
    · by_contra hle
      rw [heq] at hle
      exact htype (hfresh j (not_lt.mp hle))
  | release j _ _ hnew => exact hheld idx ((hnew idx).mp hidx).1

lemma LockEffect.untyped {held held' : ℕ → Prop} (h : LockEffect mem mem' held held')
    (htypes : ∀ idx, (mem' idx).word.type = (mem idx).word.type)
    (huntyped : ∀ idx, (mem idx).word.type = .unknown → (mem idx).word.locked = false)
    (idx : ℕ) (hidx : (mem' idx).word.type = .unknown) : (mem' idx).word.locked = false := by
  have hold := huntyped idx (htypes idx ▸ hidx)
  cases h with
  | quiet hsame _ => rw [(hsame idx).2.2, hold]
  | acquire j _ htype hmem _ =>
    have hj : idx ≠ j := by
      intro heq
      rw [htypes, heq] at hidx
      exact htype hidx
    rw [hmem, update_of_ne hj, hold]
  | release j _ hmem _ =>
    rw [hmem]
    by_cases hj : idx = j
    · rw [hj, update_self]
      rfl
    · rw [update_of_ne hj, hold]
  | write j o _ hword hmem _ =>
    rw [hmem]
    by_cases hj : idx = j
    · rw [hj, update_self, hword, ← hj, hold]
    · rw [update_of_ne hj, hold]

omit [DecidableEq ι] in
lemma OwnerInv.step_holder (h : OwnerInv s) {t : Option ι}
    (heffect : LockEffect s.mem s'.mem (s.holds t) (s'.holds t))
    (hothers : ∀ u, u ≠ t → s'.holds u = s.holds u) (hnext : s'.next = s.next)
    (htypes : ∀ idx, (s'.mem idx).word.type = (s.mem idx).word.type) : OwnerInv s' where
  locks := h.locks.step heffect hothers
  untyped := heffect.untyped htypes h.untyped
  fresh idx hidx := by
    rw [htypes]
    exact h.fresh idx (hnext ▸ hidx)
  bound u idx hu := by
    rw [hnext]
    by_cases hut : u = t
    · rw [hut] at hu
      exact heffect.held_lt h.fresh (h.bound t) idx hu
    · rw [hothers u hut] at hu
      exact h.bound u idx hu

omit [DecidableEq ι] in
lemma OwnerInv.step_quiet (h : OwnerInv s)
    (hheld : ∀ t, (s'.clients t).held = (s.clients t).held) (hnext : s'.next = s.next)
    (hbits : ∀ idx, (s'.mem idx).word.type = (s.mem idx).word.type ∧
      (s'.mem idx).word.locked = (s.mem idx).word.locked)
    (htask : ∀ idx, s'.task.holds idx ↔ s.task.holds idx) : OwnerInv s' := by
  have hholds : s'.holds = s.holds := by
    funext u idx
    cases u with
    | none => exact propext (htask idx)
    | some t => simp only [SharedState.holds, hheld t]
  constructor
  · rw [hholds]
    exact h.locks.congr hbits
  · intro idx hidx
    rw [(hbits idx).1] at hidx
    rw [(hbits idx).2]
    exact h.untyped idx hidx
  · intro idx hidx
    rw [(hbits idx).1]
    exact h.fresh idx (hnext ▸ hidx)
  · intro u idx hu
    rw [hholds] at hu
    rw [hnext]
    exact h.bound u idx hu

omit [DecidableEq ι] in
lemma OwnerInv.serve (h : OwnerInv s) (hserve : s.serve = some s') : OwnerInv s' := by
  obtain ⟨hclients, hnext, htypes, hlocks⟩ := serve_effect hserve
  rcases hlocks with heffect | ⟨hlocked, hunlocked, hunlocked'⟩
  · refine h.step_holder (t := none) heffect (fun u hu => ?_) hnext htypes
    cases u with
    | none => exact absurd rfl hu
    | some t =>
      funext idx
      simp only [SharedState.holds, hclients]
  · exact h.step_quiet (fun t => by rw [hclients]) hnext (fun idx => ⟨htypes idx, hlocked idx⟩)
      fun idx => iff_of_false (hunlocked' idx) (hunlocked idx)

omit [DecidableEq ι] in
lemma OwnerInv.client {t : ι} (h : OwnerInv s) (heffect : ClientEffect s s' t) : OwnerInv s' := by
  refine h.step_holder (t := some t) heffect.locks (fun u hu => ?_) heffect.next
    fun idx => (heffect.flags idx).1
  cases u with
  | none =>
    funext idx
    simp only [SharedState.holds, heffect.task]
  | some v =>
    have hv : v ≠ t := fun heq => hu (by rw [heq])
    funext idx
    simp only [SharedState.holds, heffect.others v hv]

omit [DecidableEq ι] in
lemma OwnerInv.create (h : OwnerInv s) (o : WfusyncState)
    (hfree : o.word.locked = false) {mapped : ℕ → Bool} {generations : ℕ} {counts : ℕ → ℕ} :
    OwnerInv { s with
      mem := update s.mem s.next o
      mapped := mapped
      next := s.next + 1
      generations := generations
      counts := counts } := by
  have hne : ∀ u idx, s.holds u idx → idx ≠ s.next := fun u idx hu => (h.bound u idx hu).ne
  refine ⟨⟨fun idx hidx => ?_, fun u idx hu => ?_, h.locks.exclusive⟩, fun idx hidx => ?_,
    fun idx hidx => ?_, fun u idx hu => Nat.lt_succ_of_lt (h.bound u idx hu)⟩
  · by_cases hnew : idx = s.next
    · simp only [hnew, update_self, hfree] at hidx
      cases hidx
    · simp only [update_of_ne hnew] at hidx
      exact h.locks.holder idx hidx
  · simp only [update_of_ne (hne u idx hu)]
    exact h.locks.locked u idx hu
  · by_cases hnew : idx = s.next
    · simp only [hnew, update_self, hfree]
    · simp only [update_of_ne hnew] at hidx ⊢
      exact h.untyped idx hidx
  have hnew : idx ≠ s.next := by
    have hle : s.next + 1 ≤ idx := hidx
    omega
  simp only [update_of_ne hnew]
  exact h.fresh idx (Nat.le_of_succ_le hidx)

omit [DecidableEq ι] in
lemma OwnerInv.destroy (h : OwnerInv s) (idx : ℕ) (o : WfusyncState) {generations : ℕ}
    (hword : o.word = ⟨.unknown, false, false, false⟩) :
    OwnerInv { s with mem := update s.mem idx o, generations := generations } := by
  refine ⟨⟨fun j hj => ?_, fun u j hu => ?_, h.locks.exclusive⟩, fun j hj => ?_,
    fun j hj => ?_, h.bound⟩
  · by_cases hidx : j = idx
    · simp only [hidx, update_self, hword] at hj
      cases hj
    · simp only [update_of_ne hidx] at hj
      exact h.locks.holder j hj
  · by_cases hidx : j = idx
    · right
      simp only [hidx, update_self, hword]
    · simp only [update_of_ne hidx]
      exact h.locks.locked u j hu
  · by_cases hidx : j = idx
    · simp only [hidx, update_self, hword]
    · simp only [update_of_ne hidx] at hj ⊢
      exact h.untyped j hj
  by_cases hidx : j = idx
  · simp only [hidx, update_self, hword]
  · simp only [update_of_ne hidx]
    exact h.fresh j hj

lemma OwnerInv.step (h : OwnerInv s) (hstep : sharedStep s a = some s') : OwnerInv s' := by
  cases sharedStep_cases hstep with
  | client t heffect => exact h.client heffect
  | status t status heq =>
    -- Only the held set of a thread matters here, not whether it may run.
    rw [heq]
    refine h.step_quiet (fun u => ?_) rfl (fun _ => ⟨rfl, rfl⟩) fun _ => .rfl
    change (update s.clients t _ u).held = _
    by_cases hu : u = t
    · rw [hu, update_self]
    · rw [update_of_ne hu]
  | serve _ hserve => exact h.serve hserve
  | begins task queue hidle hbegins heq =>
    rw [heq]
    exact h.step_quiet (fun _ => rfl) rfl (fun _ => ⟨rfl, rfl⟩)
      fun idx => iff_of_false (hbegins.unlocked idx) (ServerTask.isIdle_unlocked hidle idx)
  | create low high type _ _ heq =>
    rw [heq]
    exact h.create _ rfl
  | destroy idx _ _ _ heq =>
    rw [heq]
    exact h.destroy idx _ rfl
  | setMulti idx flag _ heq =>
    rw [heq]
    refine h.step_quiet (fun _ => rfl) rfl (fun j => ?_) fun _ => .rfl
    by_cases hj : j = idx
    · simp only [hj, update_self, and_self]
    · simp only [update_of_ne hj, and_self]
  | map idx heq =>
    rw [heq]
    exact h.step_quiet (fun _ => rfl) rfl (fun _ => ⟨rfl, rfl⟩) fun _ => .rfl

omit [DecidableEq ι] in
lemma SharedState.Initial.ownerInv (h : s.Initial) : OwnerInv s := by
  obtain ⟨hmem, _, hclients, _, hidle⟩ := h
  have hnobody : ∀ u idx, ¬ s.holds u idx := by
    intro u idx hu
    cases u with
    | none => exact ServerTask.isIdle_unlocked hidle idx hu
    | some t =>
      simp only [SharedState.holds, hclients t] at hu
      exact absurd hu (Finset.notMem_empty idx)
  refine ⟨⟨fun idx hidx => ?_, fun u idx hu => absurd hu (hnobody u idx),
    fun u v idx hu _ => absurd hu (hnobody u idx)⟩, fun idx _ => by rw [hmem idx],
    fun idx _ => by rw [hmem idx], fun u idx hu => absurd hu (hnobody u idx)⟩
  rw [hmem idx] at hidx
  cases hidx

theorem owner_inv (h : Reachable sharedStep SharedState.Initial s) : OwnerInv s :=
  h.invariant (fun _ hs => hs.ownerInv) fun _ _ _ hs _ hstep => hs.step hstep

end WineForge.WfuSync
