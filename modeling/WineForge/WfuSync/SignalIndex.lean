import WineForge.WfuSync.LockState
import WineForge.WfuSync.PollTimeout

/-!
# The index in the request to wake the wait slots

The fast paths that signal an object copy the pointer to its shared state from the cache entry of the
handle while the cache is locked. The index for the request is read from the entry after the lock
was dropped.
-/

namespace WineForge.WfuSync

open Function Library List

/-- `struct wfusync_fast_state`; `ptr` is the index of the state that the pointer points to. -/
structure FastState where
  type : SyncType
  access : ℕ
  shmIdx : ℕ
  ptr : Option ℕ
  generation : ℕ
  deriving DecidableEq

/-- `struct wfusync_cache_entry`. -/
structure HandleEntry where
  handle : ℕ
  valid : Bool
  isLocal : WaitKind → Bool
  signalUnsafe : Bool
  state : FastState

/-- An entry after `calloc` or `memset`. -/
def HandleEntry.zero : HandleEntry :=
  ⟨0, false, fun _ => false, false, ⟨.unknown, 0, 0, none, 0⟩⟩

def wfusyncCacheBlockSize : ℕ := 1024

def wfusyncCacheEntries : ℕ := 128

/-- `wfusync_handle_to_index`, with the block and the index in it as one number. -/
def wfusyncHandleToIndex (handle : ℕ) : Option ℕ :=
  if 0xfffffffa ≤ handle % 2 ^ 32 then none
  else
    let idx := (handle % 2 ^ 32 / 4 + 0xffffffff) % 2 ^ 32
    if idx / wfusyncCacheBlockSize < wfusyncCacheEntries then some idx else none

def SignalOp.kind : SignalOp → WaitKind
  | .setEvent | .resetEvent => .event
  | .releaseSemaphore _ => .semaphore
  | .releaseMutex => .mutex

/-- `EVENT_MODIFY_STATE` and `SEMAPHORE_MODIFY_STATE`. -/
def SignalOp.access : SignalOp → ℕ
  | .setEvent | .resetEvent | .releaseSemaphore _ => 2
  | .releaseMutex => 0

/-- `get_local_event_state_locked` and its two siblings. -/
def SignalOp.getLocalStateLocked (op : SignalOp) (handle : ℕ) (cache : HandleEntry) : NtStatus :=
  if !cache.isLocal op.kind || !cache.valid || cache.handle ≠ handle || cache.state.ptr.isNone then
    .notImplemented
  else if cache.state.type ≠ op.type then .objectTypeMismatch
  else if cache.state.access &&& op.access ≠ op.access then .accessDenied
  else .wait0

/-- `wfusync_entry_signal_hotpath_enabled`, which the release of a mutex does not ask. -/
def SignalOp.hotpathEnabled (op : SignalOp) (cache : HandleEntry) : Bool :=
  op.kind = .mutex || !cache.signalUnsafe

structure SignalCall where
  op : SignalOp
  handle : ℕ
  tid : Int

/-- Where a call is. `slot` is the cache entry and `idx` the state that was copied from it. -/
inductive SignalPc
  | outside
  | lookup (c : SignalCall)
  | locking (c : SignalCall) (slot idx generation : ℕ) (pc : LockPc)
  | locked (c : SignalCall) (slot idx generation : ℕ)
  | change (c : SignalCall) (slot idx : ℕ)
  | unlock (slot idx : ℕ) (transition : Bool)
  | wake (slot idx : ℕ)
  | read (slot idx : ℕ)
  | request (idx shmIdx : ℕ)

/-- `requests` are the `wake_wfusync_waiters` requests: the state that the call changed and the index
that it sent. -/
structure SignalState (ι : Type*) where
  mem : ℕ → WfusyncState
  kinds : ℕ → HandleKind
  cache : ℕ → HandleEntry
  threads : ι → SignalPc
  requests : List (ℕ × ℕ)

/-- `cacheInprocSync`, `markLocal`, `dropHandle` and `refreshGeneration` run with the cache locked.
The stores to the handle kinds and to shared memory are those of any thread and of the server. -/
inductive CacheAct (ι : Type*)
  | call (t : ι) (c : SignalCall)
  | access (t : ι)
  | setHandleKind (handle : ℕ) (kind : HandleKind)
  | markLocal (handle : ℕ) (kind : WaitKind)
  | cacheInprocSync (handle : ℕ) (type : SyncType) (access shmIdx : ℕ)
  | dropHandle (handle : ℕ)
  | refreshGeneration (handle idx : ℕ)
  | store (idx : ℕ) (state : WfusyncState)

namespace SignalState

variable {ι : Type*} [DecidableEq ι]

def goto (s : SignalState ι) (t : ι) (pc : SignalPc) : SignalState ι :=
  { s with threads := update s.threads t pc }

/-- The section with the cache locked: the call leaves with the pointer and the generation. -/
def lookup (s : SignalState ι) (c : SignalCall) : SignalPc :=
  match wfusyncHandleToIndex c.handle with
  | none => .outside
  | some slot =>
    let entry := s.cache slot
    if c.op.getLocalStateLocked c.handle entry ≠ .wait0 then .outside
    else
      match entry.state.ptr with
      | none => .outside
      | some idx =>
        if !c.op.hotpathEnabled entry || wfusyncHasServerWaiters (s.mem idx) then .outside
        else .locking c slot idx entry.state.generation .load

def accessStep (s : SignalState ι) (t : ι) : Option (SignalState ι) :=
  match s.threads t with
  | .outside => none
  | .lookup c => some (s.goto t (s.lookup c))
  | .locking c slot idx generation pc =>
    match wfusyncLockState c.op.type (s.mem idx) pc with
    | .spin pc => some (s.goto t (.locking c slot idx generation pc))
    | .granted o =>
      some { s.goto t (.locked c slot idx generation) with mem := update s.mem idx o }
    | .refused => some (s.goto t .outside)
  | .locked c slot idx generation =>
    if (s.mem idx).generation ≠ generation ∨ wfusyncHasServerWaiters (s.mem idx) then
      some { s.goto t .outside with mem := update s.mem idx (s.mem idx).unlock }
    else some (s.goto t (.change c slot idx))
  | .change c slot idx =>
    let r := c.op.locked c.tid (s.mem idx)
    some { s.goto t (.unlock slot idx r.transition) with mem := update s.mem idx r.state }
  | .unlock slot idx transition =>
    some { s.goto t (if transition then .wake slot idx else .outside) with
      mem := update s.mem idx (s.mem idx).unlock }
  -- `wfusync_wake_address` and the load of the `MULTI_WAITERS` bit
  | .wake slot idx =>
    some (s.goto t (if wfusyncHasMultiWaiters (s.mem idx) then .read slot idx else .outside))
  | .read slot idx => some (s.goto t (.request idx (s.cache slot).state.shmIdx))
  | .request idx shmIdx =>
    some { s.goto t .outside with requests := (idx, shmIdx) :: s.requests }

omit [DecidableEq ι] in
def setEntry (s : SignalState ι) (slot : ℕ) (entry : HandleEntry) : SignalState ι :=
  { s with cache := update s.cache slot entry }

omit [DecidableEq ι] in
@[simp] lemma setEntry_cache_self (s : SignalState ι) (slot : ℕ) (entry : HandleEntry) :
    (s.setEntry slot entry).cache slot = entry := update_self ..

omit [DecidableEq ι] in
lemma setEntry_cache_of_ne (s : SignalState ι) {slot slot' : ℕ} {entry : HandleEntry}
    (h : slot' ≠ slot) : (s.setEntry slot entry).cache slot' = s.cache slot' :=
  update_of_ne h ..

end SignalState

/-- The entry that `wfusync_mark_local_event` and its siblings leave. -/
def HandleEntry.markLocal (entry : HandleEntry) (handle : ℕ) (kind : WaitKind) : HandleEntry :=
  let entry := if entry.handle ≠ 0 ∧ entry.handle ≠ handle then .zero else entry
  { entry with handle := handle, isLocal := update entry.isLocal kind true }

/-- The entry that `wfusync_cache_inproc_sync` leaves; `generation` is read from the state. -/
def HandleEntry.cacheInprocSync (entry : HandleEntry) (handle : ℕ) (type : SyncType)
    (access shmIdx generation : ℕ) : HandleEntry :=
  let entry := if entry.handle = handle then entry else .zero
  { entry with
    handle := handle
    valid := true
    state := ⟨type, access, shmIdx, some shmIdx, generation⟩ }

/-- The entry that `wfusync_refresh_cache_generation` leaves. -/
def HandleEntry.refreshGeneration (entry : HandleEntry) (handle idx generation : ℕ) : HandleEntry :=
  if entry.handle = handle ∧ entry.valid ∧ entry.state.ptr = some idx then
    { entry with state := { entry.state with generation := generation } }
  else entry

def signalStep {ι : Type*} [DecidableEq ι] (s : SignalState ι) : CacheAct ι → Option (SignalState ι)
  | .call t c =>
    match s.threads t, wfusyncHandleToIndex c.handle with
    | .outside, some slot =>
      if s.kinds slot = .of c.op.kind then some (s.goto t (.lookup c)) else none
    | _, _ => none
  | .access t => s.accessStep t
  | .setHandleKind handle kind =>
    match wfusyncHandleToIndex handle with
    | none => none
    | some slot => some { s with kinds := update s.kinds slot kind }
  | .markLocal handle kind =>
    match wfusyncHandleToIndex handle with
    | none => none
    | some slot => some (s.setEntry slot ((s.cache slot).markLocal handle kind))
  | .cacheInprocSync handle type access shmIdx =>
    match wfusyncHandleToIndex handle with
    | none => none
    | some slot =>
      if shmIdx = 0 ∨ type = .unknown then none
      else
        some (s.setEntry slot ((s.cache slot).cacheInprocSync handle type access shmIdx
          (s.mem shmIdx).generation))
  | .dropHandle handle =>
    match wfusyncHandleToIndex handle with
    | none => none
    | some slot => some (if (s.cache slot).handle = handle then s.setEntry slot .zero else s)
  | .refreshGeneration handle idx =>
    match wfusyncHandleToIndex handle with
    | none => none
    | some slot =>
      some (s.setEntry slot ((s.cache slot).refreshGeneration handle idx (s.mem idx).generation))
  | .store idx state => some { s with mem := update s.mem idx state }

def SignalState.Initial {ι : Type*} (s : SignalState ι) : Prop :=
  (∀ slot, s.cache slot = .zero) ∧ (∀ t, s.threads t = .outside) ∧ s.requests = []

def SignalPc.copied : SignalPc → Option (ℕ × ℕ)
  | .locking _ slot idx _ _ | .locked _ slot idx _ | .change _ slot idx | .unlock slot idx _ |
    .wake slot idx | .read slot idx => some (slot, idx)
  | .outside | .lookup _ | .request _ _ => none

/-- The cache entry that an action clears or gives to another handle, with its index from then on. -/
def SignalState.recycled {ι : Type*} (s : SignalState ι) : CacheAct ι → Option (ℕ × ℕ)
  | .markLocal handle _ =>
    match wfusyncHandleToIndex handle with
    | none => none
    | some slot =>
      if (s.cache slot).handle ≠ 0 ∧ (s.cache slot).handle ≠ handle then some (slot, 0) else none
  | .cacheInprocSync handle _ _ shmIdx =>
    (wfusyncHandleToIndex handle).map fun slot => (slot, shmIdx)
  | .dropHandle handle =>
    match wfusyncHandleToIndex handle with
    | none => none
    | some slot => if (s.cache slot).handle = handle then some (slot, 0) else none
  | _ => none

/-- No cache entry is cleared or filled for another state while a call is between the copy of its
pointer and the load of its index. -/
def SignalState.EntriesKept {ι : Type*} (s : SignalState ι) (a : CacheAct ι) : Prop :=
  ∀ slot shmIdx, s.recycled a = some (slot, shmIdx) →
    ∀ t idx, (s.threads t).copied = some (slot, idx) → shmIdx = idx

/-! ### The index stays that of the copied state -/

lemma HandleEntry.markLocal_of_other {entry : HandleEntry} {handle : ℕ} {kind : WaitKind}
    (h : entry.handle ≠ 0 ∧ entry.handle ≠ handle) :
    entry.markLocal handle kind = HandleEntry.zero.markLocal handle kind := by
  rw [HandleEntry.markLocal, if_pos h]
  rfl

lemma HandleEntry.markLocal_of_not_other {entry : HandleEntry} {handle : ℕ} (kind : WaitKind)
    (h : ¬(entry.handle ≠ 0 ∧ entry.handle ≠ handle)) :
    (entry.markLocal handle kind).valid = entry.valid ∧
      (entry.markLocal handle kind).state = entry.state := by
  rw [HandleEntry.markLocal, if_neg h]
  exact ⟨rfl, rfl⟩

lemma HandleEntry.refreshGeneration_kept (entry : HandleEntry) (handle idx generation : ℕ) :
    let entry' := entry.refreshGeneration handle idx generation
    entry'.valid = entry.valid ∧ entry'.state.ptr = entry.state.ptr ∧
      entry'.state.shmIdx = entry.state.shmIdx := by
  rw [HandleEntry.refreshGeneration]
  split
  · exact ⟨rfl, rfl, rfl⟩
  · exact ⟨rfl, rfl, rfl⟩

variable {ι : Type*} {s s' : SignalState ι}

/-- The entries are consistent, and a call that has copied a state finds its index in the entry. -/
structure SignalInv (s : SignalState ι) : Prop where
  entries : ∀ slot, (s.cache slot).valid = true →
    (s.cache slot).state.ptr = some (s.cache slot).state.shmIdx
  copied : ∀ t slot idx, (s.threads t).copied = some (slot, idx) →
    (s.cache slot).state.shmIdx = idx
  request : ∀ t idx shmIdx, s.threads t = .request idx shmIdx → shmIdx = idx
  requests : ∀ r ∈ s.requests, r.2 = r.1

section Threads

variable [DecidableEq ι]

lemma SignalInv.goto (h : SignalInv s) {t : ι} {pc : SignalPc} (hcache : s'.cache = s.cache)
    (hthreads : s'.threads = update s.threads t pc) (hrequests : s'.requests = s.requests)
    (hcopied : ∀ slot idx, pc.copied = some (slot, idx) → (s.cache slot).state.shmIdx = idx)
    (hrequest : ∀ idx shmIdx, pc = .request idx shmIdx → shmIdx = idx) : SignalInv s' := by
  refine ⟨hcache ▸ h.entries, fun u slot idx hu => ?_, fun u idx shmIdx hu => ?_,
    hrequests ▸ h.requests⟩
  · rw [hcache]
    rw [hthreads] at hu
    by_cases hut : u = t
    · rw [hut, update_self] at hu
      exact hcopied slot idx hu
    · rw [update_of_ne hut] at hu
      exact h.copied u slot idx hu
  rw [hthreads] at hu
  by_cases hut : u = t
  · rw [hut, update_self] at hu
    exact hrequest idx shmIdx hu
  · rw [update_of_ne hut] at hu
    exact h.request u idx shmIdx hu

lemma SignalInv.proceed (h : SignalInv s) {t : ι} {pc : SignalPc} (hcache : s'.cache = s.cache)
    (hthreads : s'.threads = update s.threads t pc) (hrequests : s'.requests = s.requests)
    (hpc : pc.copied = (s.threads t).copied ∨ pc.copied = none)
    (hrequest : ∀ idx shmIdx, pc ≠ .request idx shmIdx) : SignalInv s' := by
  refine h.goto hcache hthreads hrequests (fun slot idx hc => ?_)
    fun idx shmIdx heq => absurd heq (hrequest idx shmIdx)
  obtain hsame | hnone := hpc
  · exact h.copied t slot idx (hsame ▸ hc)
  · rw [hnone] at hc
    simp at hc

omit [DecidableEq ι] in
lemma SignalInv.lookup (h : SignalInv s) (c : SignalCall) :
    (∀ slot idx, (s.lookup c).copied = some (slot, idx) → (s.cache slot).state.shmIdx = idx) ∧
      ∀ idx shmIdx, s.lookup c ≠ .request idx shmIdx := by
  unfold SignalState.lookup
  split
  · exact ⟨nofun, nofun⟩
  rename_i slot _
  dsimp only
  split
  · exact ⟨nofun, nofun⟩
  rename_i hlocal
  split
  · exact ⟨nofun, nofun⟩
  rename_i idx hptr
  split
  · exact ⟨nofun, nofun⟩
  refine ⟨fun slot' idx' hc => ?_, nofun⟩
  obtain ⟨rfl, rfl⟩ := hc
  have hvalid : (s.cache slot).valid = true := by
    by_contra hinvalid
    rw [Bool.not_eq_true] at hinvalid
    refine hlocal ?_
    rw [SignalOp.getLocalStateLocked, hinvalid, Bool.not_false, Bool.or_true, Bool.true_or,
      Bool.true_or, if_pos rfl]
    nofun
  exact Option.some.inj ((h.entries slot hvalid).symm.trans hptr)

lemma SignalInv.access (h : SignalInv s) {t : ι} (hstep : s.accessStep t = some s') :
    SignalInv s' := by
  unfold SignalState.accessStep at hstep
  split at hstep
  · simp at hstep
  · rename_i c hpc
    cases hstep
    obtain ⟨hcopied, hrequest⟩ := h.lookup c
    exact h.goto rfl rfl rfl hcopied fun idx shmIdx heq => absurd heq (hrequest idx shmIdx)
  · rename_i hpc
    split at hstep
    · cases hstep
      exact h.proceed rfl rfl rfl (.inl (by rw [hpc]; rfl)) nofun
    · cases hstep
      exact h.proceed rfl rfl rfl (.inl (by rw [hpc]; rfl)) nofun
    · cases hstep
      exact h.proceed rfl rfl rfl (.inr rfl) nofun
  · rename_i hpc
    split at hstep
    · cases hstep
      exact h.proceed rfl rfl rfl (.inr rfl) nofun
    · cases hstep
      exact h.proceed rfl rfl rfl (.inl (by rw [hpc]; rfl)) nofun
  · rename_i hpc
    cases hstep
    exact h.proceed rfl rfl rfl (.inl (by rw [hpc]; rfl)) nofun
  · rename_i transition hpc
    cases hstep
    cases transition with
    | true => exact h.proceed rfl rfl rfl (.inl (by rw [hpc]; rfl)) nofun
    | false => exact h.proceed rfl rfl rfl (.inr rfl) nofun
  · rename_i slot idx hpc
    cases hstep
    by_cases hmulti : wfusyncHasMultiWaiters (s.mem idx) = true
    · rw [if_pos hmulti]
      exact h.proceed rfl rfl rfl (.inl (by rw [hpc]; rfl)) nofun
    · rw [if_neg hmulti]
      exact h.proceed rfl rfl rfl (.inr rfl) nofun
  · rename_i slot idx hpc
    cases hstep
    refine h.goto rfl rfl rfl nofun fun idx' shmIdx heq => ?_
    rw [SignalPc.request.injEq] at heq
    rw [← heq.1, ← heq.2]
    exact h.copied t slot idx (by rw [hpc]; rfl)
  rename_i idx shmIdx hpc
  cases hstep
  have hout : SignalInv (s.goto t .outside) := h.proceed rfl rfl rfl (.inr rfl) nofun
  refine ⟨hout.entries, hout.copied, hout.request, fun r hr => ?_⟩
  obtain rfl | hr := mem_cons.mp hr
  · exact h.request t idx shmIdx hpc
  · exact h.requests r hr

end Threads

lemma SignalInv.setEntry (h : SignalInv s) {slot : ℕ} {entry : HandleEntry}
    (hentry : entry.valid = true → entry.state.ptr = some entry.state.shmIdx)
    (hkept : entry.state.shmIdx = (s.cache slot).state.shmIdx ∨
      ∀ t idx, (s.threads t).copied = some (slot, idx) → entry.state.shmIdx = idx) :
    SignalInv (s.setEntry slot entry) := by
  refine ⟨fun slot' hvalid => ?_, fun t slot' idx ht => ?_, h.request, h.requests⟩
  · by_cases heq : slot' = slot
    · rw [heq, s.setEntry_cache_self] at hvalid ⊢
      exact hentry hvalid
    · rw [s.setEntry_cache_of_ne heq] at hvalid ⊢
      exact h.entries slot' hvalid
  by_cases heq : slot' = slot
  · rw [heq, s.setEntry_cache_self]
    have ht' : (s.threads t).copied = some (slot, idx) := heq ▸ ht
    obtain hsame | hfree := hkept
    · rw [hsame]
      exact h.copied t slot idx ht'
    · exact hfree t idx ht'
  · rw [s.setEntry_cache_of_ne heq]
    exact h.copied t slot' idx ht

lemma SignalInv.step [DecidableEq ι] (h : SignalInv s) {a : CacheAct ι} (hkept : s.EntriesKept a)
    (hstep : signalStep s a = some s') : SignalInv s' := by
  unfold SignalState.EntriesKept at hkept
  cases a with
  | call t c =>
    simp only [signalStep] at hstep
    split at hstep
    · split at hstep
      · cases hstep
        exact h.proceed rfl rfl rfl (.inr rfl) nofun
      · simp at hstep
    · simp at hstep
  | access t => exact h.access hstep
  | setHandleKind handle kind =>
    simp only [signalStep] at hstep
    split at hstep
    · simp at hstep
    · cases hstep
      exact ⟨h.entries, h.copied, h.request, h.requests⟩
  | markLocal handle kind =>
    simp only [signalStep] at hstep
    split at hstep
    · simp at hstep
    rename_i slot hslot
    cases hstep
    simp only [SignalState.recycled, hslot] at hkept
    by_cases hother : (s.cache slot).handle ≠ 0 ∧ (s.cache slot).handle ≠ handle
    · rw [if_pos hother] at hkept
      rw [HandleEntry.markLocal_of_other hother]
      exact h.setEntry nofun (.inr (hkept slot 0 rfl))
    have hstate := HandleEntry.markLocal_of_not_other kind hother
    refine h.setEntry (fun hvalid => ?_) (.inl (by rw [hstate.2]))
    rw [hstate.2]
    exact h.entries slot (hstate.1 ▸ hvalid)
  | cacheInprocSync handle type access shmIdx =>
    simp only [signalStep] at hstep
    split at hstep
    · simp at hstep
    rename_i slot hslot
    split at hstep
    · simp at hstep
    cases hstep
    simp only [SignalState.recycled, hslot] at hkept
    exact h.setEntry (fun _ => rfl) (.inr (hkept slot shmIdx rfl))
  | dropHandle handle =>
    simp only [signalStep] at hstep
    split at hstep
    · simp at hstep
    rename_i slot hslot
    cases hstep
    simp only [SignalState.recycled, hslot] at hkept
    split
    · rename_i hsame
      rw [if_pos hsame] at hkept
      exact h.setEntry nofun (.inr (hkept slot 0 rfl))
    · exact h
  | refreshGeneration handle idx =>
    simp only [signalStep] at hstep
    split at hstep
    · simp at hstep
    rename_i slot hslot
    cases hstep
    obtain ⟨hvalid', hptr, hidx⟩ :=
      (s.cache slot).refreshGeneration_kept handle idx (s.mem idx).generation
    refine h.setEntry (fun hvalid => ?_) (.inl hidx)
    rw [hptr, hidx]
    exact h.entries slot (hvalid' ▸ hvalid)
  | store idx state =>
    cases hstep
    exact ⟨h.entries, h.copied, h.request, h.requests⟩

lemma SignalInv.initial (h : s.Initial) : SignalInv s := by
  obtain ⟨hcache, hthreads, hrequests⟩ := h
  refine ⟨fun slot hvalid => ?_, fun t slot idx ht => ?_, fun t idx shmIdx ht => ?_, ?_⟩
  · rw [hcache] at hvalid
    exact absurd hvalid Bool.false_ne_true
  · rw [hthreads] at ht
    exact absurd ht (by simp [SignalPc.copied])
  · rw [hthreads] at ht
    simp at ht
  · rw [hrequests]
    simp

/-- Every request sends the index of the state that its call changed, in a run where no entry is
recycled under a call. -/
theorem signal_index [DecidableEq ι]
    (h : Reaches signalStep SignalState.EntriesKept SignalState.Initial s) :
    ∀ r ∈ s.requests, r.2 = r.1 := by
  have hinv : SignalInv s :=
    h.invariant (fun _ => .initial) fun _ _ _ hinv hkept hstep => hinv.step hkept hstep
  exact hinv.requests

def twoEvents : SignalState Unit :=
  ⟨fun _ => ⟨0, 0, 1, ⟨.event, false, false, false⟩⟩, fun _ => .of .event, fun _ => .zero,
    fun _ => .outside, []⟩

def slotRegistered : WfusyncState :=
  ⟨1, 0, 1, ⟨.event, false, true, false⟩⟩

/-- A call has copied the first event and is about to load its index from the entry. -/
def setBeforeRead : List (CacheAct Unit) :=
  .call () ⟨.setEvent, 4, 1⟩ :: List.replicate 6 (.access ()) ++
    [.store 1 slotRegistered, .access ()]

lemma entriesKept_of_recycled {a : CacheAct ι} (h : s.recycled a = none) : s.EntriesKept a :=
  fun _ _ hrecycled => absurd (h.symm.trans hrecycled) (by simp)

lemma firstEvent_cached : ∃ s : SignalState Unit,
    Reaches signalStep SignalState.EntriesKept SignalState.Initial s ∧
      run signalStep twoEvents [.markLocal 4 .event, .cacheInprocSync 4 .event 2 1] = some s := by
  have hstart : Reaches signalStep SignalState.EntriesKept SignalState.Initial twoEvents :=
    .start ⟨fun _ => rfl, fun _ => rfl, rfl⟩
  have hmarked := hstart.next (a := .markLocal 4 .event) (entriesKept_of_recycled rfl) rfl
  have hcached := hmarked.next (a := .cacheInprocSync 4 .event 2 1) (fun _ _ _ _ _ ht => nomatch ht)
    rfl
  exact ⟨_, hcached, rfl⟩

/-- The handle is not closed, and the request sends the index of the event. -/
theorem signal_index_set : ∃ s : SignalState Unit,
    Reaches signalStep SignalState.EntriesKept SignalState.Initial s ∧ s.requests = [(1, 1)] ∧
      ∀ r ∈ s.requests, r.2 = r.1 := by
  obtain ⟨cached, hcached, hrun⟩ := firstEvent_cached
  cases hrun
  have hreach := hcached.run (setBeforeRead ++ [.access (), .access ()])
    (Guarded.of_forall (fun a ha u => entriesKept_of_recycled (by
      simp only [setBeforeRead, List.replicate, cons_append, nil_append,
        mem_cons, not_mem_nil, or_false] at ha
      rcases ha with rfl | rfl | rfl | rfl | rfl | rfl | rfl | rfl | rfl | rfl | rfl <;> rfl)) rfl)
    rfl
  exact ⟨_, hreach, rfl, signal_index hreach⟩

/-- The handle is closed and its value given to the second event before the index is loaded. -/
theorem signal_index_recycled : ∃ s : SignalState Unit,
    Reachable signalStep SignalState.Initial s ∧ ¬ ∀ r ∈ s.requests, r.2 = r.1 := by
  obtain ⟨cached, hcached, hrun⟩ := firstEvent_cached
  cases hrun
  have hreach := reachable_of_run hcached.reachable
    (setBeforeRead ++ [.dropHandle 4, .markLocal 4 .event, .cacheInprocSync 4 .event 2 2,
      .access (), .access ()]) rfl
  refine ⟨_, hreach, fun h => ?_⟩
  exact absurd (h (1, 2) (mem_cons_self ..)) (by decide)

end WineForge.WfuSync
