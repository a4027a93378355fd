import WineForge.Library.InsertionOrder
import WineForge.Library.RecursiveLock
import WineForge.Library.Transition
import WineForge.WfuSync.Consumption

/-!
# Waiting for all objects in the client

Any number of threads run `try_wait_all_local` on lists of their own, interleaved with
operations on single objects. Each step of a thread is one access to the lock bit, or the part
of a lock-held section that belongs to one state. The server takes part through the waiter
flags only, which it may set and clear at any time.
-/

namespace WineForge.WfuSync

open Function Library

/-- One element of the parallel arrays `states`, `shm_idxs`, `generations` and `types`. -/
structure WaitAllEntry where
  shmIdx : ℕ
  generation : ℕ
  type : SyncType
  deriving DecidableEq

/-- The arguments of `try_wait_all_local`. -/
structure WaitAllCall where
  entries : List WaitAllEntry
  length_le : entries.length ≤ 64

namespace WaitAllCall

def count (c : WaitAllCall) : ℕ :=
  c.entries.length

def entry (c : WaitAllCall) (i : ℕ) : WaitAllEntry :=
  c.entries.getD i ⟨0, 0, .unknown⟩

/-- The array `order`. -/
def order (c : WaitAllCall) : Equiv.Perm ℕ :=
  insertionOrder (fun i => (c.entry i).shmIdx) c.count

/-- The entry that the lock loop visits as number `i`. -/
def sorted (c : WaitAllCall) (i : ℕ) : WaitAllEntry :=
  c.entry (c.order i)

end WaitAllCall

/-- Where a thread is inside `try_wait_all_local`: the lock loop, its checks after the lock, the
check loop, the commit loop, and the loop at `done`. -/
inductive WaitAllPc
  | lock (i : ℕ) (pc : LockPc)
  | locked (i : ℕ)
  | verify (i : ℕ) (abandoned : Bool)
  | commit (i : ℕ) (abandoned : Bool)
  | unlock (k : ℕ) (ret : NtStatus)
  | returned (ret : NtStatus)
  deriving DecidableEq

/-- The history of a call: lock bits it set and cleared, and its writes, oldest first. -/
structure CallTrace where
  acquired : List ℕ
  released : List ℕ
  writes : List StateWrite

/-- What a lock-held section on a single object does. -/
inductive SectionOp
  | signal (op : SignalOp) (generation : ℕ)
  | consume (kind : WaitKind)
  | query
  deriving DecidableEq

/-- `wfusync_query_mutex` is the only query that takes the lock. -/
def SectionOp.type : SectionOp → SyncType
  | .signal op _ => op.type
  | .consume kind => kind.type
  | .query => .mutex

def SectionOp.section (tid : Int) (o : WfusyncState) : SectionOp → WfusyncState
  | .signal op generation =>
    if o.generation ≠ generation ∨ wfusyncHasServerWaiters o then o else (op.locked tid o).state
  | .consume kind => (kind.consumeLocked tid o).2
  | .query => o

inductive SinglePc
  | lock (pc : LockPc)
  | locked
  | unlock
  deriving DecidableEq

inductive LocalThread
  | idle
  | single (shmIdx : ℕ) (op : SectionOp) (pc : SinglePc)
  | waitAll (call : WaitAllCall) (pc : WaitAllPc) (trace : CallTrace)

def WaitAllCall.enter (c : WaitAllCall) (i : ℕ) : WaitAllPc :=
  if i < c.count then
    if i ≠ 0 ∧ (c.sorted (i - 1)).shmIdx = (c.sorted i).shmIdx then .unlock i .notImplemented
    else if !(c.sorted i).type.waitable then .unlock i .notImplemented
    else .lock i .load
  else .verify 0 false

/-- One step of `try_wait_all_local`. -/
def WaitAllCall.step (c : WaitAllCall) (tid : Int) (mem : ℕ → WfusyncState) (trace : CallTrace) :
    WaitAllPc → Option ((ℕ → WfusyncState) × WaitAllPc × CallTrace)
  | .lock i pc =>
    let e := c.sorted i
    match wfusyncLockState e.type (mem e.shmIdx) pc with
    | .spin pc' => some (mem, .lock i pc', trace)
    | .granted o =>
      some (update mem e.shmIdx o, .locked i,
        { trace with acquired := trace.acquired ++ [e.shmIdx] })
    | .refused => some (mem, .unlock i .notImplemented, trace)
  | .locked i =>
    let e := c.sorted i
    if (mem e.shmIdx).generation ≠ e.generation ∨
        (e.type = .event ∧ (mem e.shmIdx).high ≠ 0) then
      some (mem, .unlock (i + 1) .notImplemented, trace)
    else some (mem, c.enter (i + 1), trace)
  | .verify i abandoned =>
    if i < c.count then
      match waitAllLocalCheck (c.entry i).type tid (mem (c.entry i).shmIdx) with
      | .error status => some (mem, .unlock c.count status, trace)
      | .ok owner => some (mem, .verify (i + 1) (abandoned || owner), trace)
    else some (mem, .commit 0 abandoned, trace)
  | .commit i abandoned =>
    if i < c.count then
      let e := c.entry i
      let r := waitAllLocalTake e.type tid (mem e.shmIdx)
      let trace' := { trace with writes := trace.writes ++ [⟨e.shmIdx, mem e.shmIdx, r.2⟩] }
      if r.1 = .abandonedWait0 then
        some (update mem e.shmIdx r.2, .commit (i + 1) true, trace')
      else if r.1 = .wait0 then
        some (update mem e.shmIdx r.2, .commit (i + 1) abandoned, trace')
      else some (update mem e.shmIdx r.2, .unlock c.count .notImplemented, trace')
    else some (mem, .unlock c.count (if abandoned then .abandonedWait0 else .wait0), trace)
  | .unlock (k + 1) ret =>
    let idx := (c.sorted k).shmIdx
    some (update mem idx (mem idx).unlock, .unlock k ret,
      { trace with released := trace.released ++ [idx] })
  | .unlock 0 ret => some (mem, .returned ret, trace)
  | .returned _ => none

def SectionOp.step (op : SectionOp) (tid : Int) (shmIdx : ℕ) (mem : ℕ → WfusyncState) :
    SinglePc → (ℕ → WfusyncState) × Option SinglePc
  | .lock pc =>
    match wfusyncLockState op.type (mem shmIdx) pc with
    | .spin pc' => (mem, some (.lock pc'))
    | .granted o => (update mem shmIdx o, some .locked)
    | .refused => (mem, none)
  | .locked => (update mem shmIdx (op.section tid (mem shmIdx)), some .unlock)
  | .unlock => (update mem shmIdx (mem shmIdx).unlock, none)

variable {ι : Type*}

structure LocalState (ι : Type*) where
  mem : ℕ → WfusyncState
  threads : ι → LocalThread

inductive LocalAct (ι : Type*)
  | callSingle (t : ι) (shmIdx : ℕ) (op : SectionOp)
  | callWaitAll (t : ι) (call : WaitAllCall)
  | run (t : ι)
  | setFlags (shmIdx : ℕ) (multiWaiters serverWaiters : Bool)

def LocalThread.free : LocalThread → Bool
  | .idle => true
  | .waitAll _ (.returned _) _ => true
  | _ => false

def WfusyncState.setFlags (s : WfusyncState) (multiWaiters serverWaiters : Bool) : WfusyncState :=
  { s with word := ⟨s.word.type, s.word.locked, multiWaiters, serverWaiters⟩ }

def LocalThread.step (tid : Int) (mem : ℕ → WfusyncState) :
    LocalThread → Option ((ℕ → WfusyncState) × LocalThread)
  | .idle => none
  | .single shmIdx op pc =>
    match op.step tid shmIdx mem pc with
    | (mem', some pc') => some (mem', .single shmIdx op pc')
    | (mem', none) => some (mem', .idle)
  | .waitAll c pc trace =>
    (c.step tid mem trace pc).map fun r => (r.1, .waitAll c r.2.1 r.2.2)

variable [DecidableEq ι] (T : ThreadIds ι)

def localStep (s : LocalState ι) : LocalAct ι → Option (LocalState ι)
  | .callSingle t shmIdx op =>
    if (s.threads t).free then
      some { s with threads := update s.threads t (.single shmIdx op (.lock .load)) }
    else none
  | .callWaitAll t call =>
    if (s.threads t).free then
      some { s with
        threads := update s.threads t (.waitAll call (call.enter 0) ⟨[], [], []⟩) }
    else none
  | .run t =>
    ((s.threads t).step (T.tid t) s.mem).map fun r =>
      ⟨r.1, update s.threads t r.2⟩
  | .setFlags shmIdx multiWaiters serverWaiters =>
    some { s with
      mem := update s.mem shmIdx ((s.mem shmIdx).setFlags multiWaiters serverWaiters) }

def LocalState.Initial (s : LocalState ι) : Prop :=
  (∀ idx, (s.mem idx).word.locked = false) ∧ ∀ t, s.threads t = .idle

def WaitAllPc.held (c : WaitAllCall) : WaitAllPc → ℕ
  | .lock i _ => i
  | .locked i => i + 1
  | .verify _ _ | .commit _ _ => c.count
  | .unlock k _ => k
  | .returned _ => 0

def WaitAllPc.holds (c : WaitAllCall) (pc : WaitAllPc) (idx : ℕ) : Prop :=
  ∃ k, k < pc.held c ∧ (c.sorted k).shmIdx = idx

def LocalThread.holds : LocalThread → ℕ → Prop
  | .idle, _ => False
  | .single _ _ (.lock _), _ => False
  | .single shmIdx _ _, idx => idx = shmIdx
  | .waitAll c pc _, idx => pc.holds c idx

/-- The lock a thread waits for in `wfusync_lock_state`. -/
def LocalThread.wants : LocalThread → ℕ → Prop
  | .single shmIdx _ (.lock _), idx => idx = shmIdx
  | .waitAll c (.lock i _) _, idx => (c.sorted i).shmIdx = idx
  | _, _ => False

end WineForge.WfuSync
