import WineForge.Library.ListWalk
import WineForge.WfuSync.State

/-!
# The mutexes of a thread that ends

`abandon_mutexes` walks the list of WFUSync mutexes and wakes the waiters of those that the thread
owned. A wait that ends drops its references, so the walk can destroy the mutex it stands on.
-/

namespace WineForge.WfuSync

open Function Library List

/-- An object of a wait: a WFUSync mutex, or an object of another kind. -/
inductive Waited (M O : Type*)
  | mutex (m : M)
  | other (o : O)

/-- The endings of a wait that no object causes. -/
inductive Interruption
  | kernelApc | threadWasSuspended | userApc | timeout
  deriving DecidableEq

inductive WaitStatus
  | object (index : ℕ)
  | abandoned (index : ℕ)
  | interrupted (i : Interruption)
  deriving DecidableEq

/-- `struct thread_wait`. `interrupt` and `expiry` are what `check_wait` finds before and behind the
objects; the APC queues, the suspension and the clock stand still in the loop. -/
structure ThreadWait (M O : Type*) where
  thread : Int
  waitAll : Bool
  objects : List (Waited M O)
  interrupt : Option Interruption
  suspended : Bool
  expiry : Option Interruption

/-- `signaled` and `satisfied` of the objects of other kinds; the flag is `make_wait_abandoned`. -/
structure OtherObjects (O σ : Type*) where
  signaled : σ → O → Int → Bool
  satisfied : σ → O → Int → σ × Bool

/-- `refs` counts the references to the mutex object, which owns the `mutex_sync` in the list
`mutexes`. `waits` has the newest wait first. -/
structure MutexServer (M O σ : Type*) where
  mutexes : List M
  shm : M → WfusyncState
  refs : M → ℕ
  waits : List (ThreadWait M O)
  others : σ
  wakeups : List (Int × WaitStatus)

section Server

variable {M O σ : Type*} [DecidableEq M]

def Waited.isMutex (m : M) : Waited M O → Bool
  | .mutex m' => decide (m' = m)
  | .other _ => false

def ThreadWait.references (w : ThreadWait M O) (m : M) : ℕ :=
  w.objects.countP (Waited.isMutex m)

namespace MutexServer

/-- `obj->wait_queue`, as the threads of the entries: an entry is added at the tail. -/
def queue (s : MutexServer M O σ) (m : M) : List Int :=
  s.waits.reverse.flatMap fun w => List.replicate (w.references m) w.thread

/-- `thread->wait`. -/
def currentWait (s : MutexServer M O σ) (thread : Int) : Option (ThreadWait M O) :=
  s.waits.find? fun w => decide (w.thread = thread)

def waiting (s : MutexServer M O σ) (m : M) : ℕ :=
  (s.waits.map fun w => w.references m).sum

def objectSyncSignaled (env : OtherObjects O σ) (s : MutexServer M O σ) (thread : Int) :
    Waited M O → Bool
  | .mutex m => wfusyncMutexSignaled thread (s.shm m)
  | .other o => env.signaled s.others o thread

/-- `check_wait`; `none` is the result -1. -/
def checkWait (env : OtherObjects O σ) (s : MutexServer M O σ) (w : ThreadWait M O) :
    Option WaitStatus :=
  match w.interrupt with
  | some i => some (.interrupted i)
  | none =>
    if w.suspended then none
    else
      let signaled := objectSyncSignaled env s w.thread
      let hit := if w.waitAll then if w.objects.all signaled then some 0 else none
        else w.objects.findIdx? signaled
      match hit with
      | some i => some (.object i)
      | none => w.expiry.map .interrupted

/-- `object_sync_satisfied` on the server and the flag `abandoned` of the wait. -/
def objectSyncSatisfied (env : OtherObjects O σ) (thread : Int) (r : MutexServer M O σ × Bool) :
    Waited M O → MutexServer M O σ × Bool
  | .mutex m =>
    let satisfied := wfusyncMutexSatisfied thread (r.1.shm m)
    ({ r.1 with shm := update r.1.shm m satisfied.2.2 }, r.2 || (satisfied.1 && satisfied.2.1))
  | .other o =>
    let satisfied := env.satisfied r.1.others o thread
    ({ r.1 with others := satisfied.1 }, r.2 || satisfied.2)

/-- `release_object`; the last reference to a mutex takes its node out of the list. -/
def releaseObject (s : MutexServer M O σ) : Waited M O → MutexServer M O σ
  | .mutex m =>
    { s with
      refs := update s.refs m (s.refs m - 1)
      mutexes := if s.refs m = 1 then s.mutexes.erase m else s.mutexes }
  | .other _ => s

/-- The first part of `end_wait`, with the status that it returns. -/
def satisfyWait (env : OtherObjects O σ) (s : MutexServer M O σ) (w : ThreadWait M O) :
    WaitStatus → MutexServer M O σ × WaitStatus
  | .object i =>
    if i < w.objects.length then
      let objects := if w.waitAll then w.objects else w.objects[i]?.toList
      let r := objects.foldl (objectSyncSatisfied env w.thread) (s, false)
      (r.1, if r.2 then .abandoned i else .object i)
    else (s, .object i)
  | status => (s, status)

/-- `thread->wait = wait->next`, and the entries leave their queues. -/
def popWait (s : MutexServer M O σ) (thread : Int) : MutexServer M O σ :=
  { s with waits := s.waits.eraseP fun w => decide (w.thread = thread) }

/-- `end_wait` for the current wait of a thread, and the reply to the thread. -/
def endWait (env : OtherObjects O σ) (s : MutexServer M O σ) (w : ThreadWait M O)
    (status : WaitStatus) : MutexServer M O σ :=
  let r := (s.popWait w.thread).satisfyWait env w status
  let released := w.objects.foldl releaseObject r.1
  { released with wakeups := (w.thread, r.2) :: released.wakeups }

end MutexServer

/-- Where the loop is. `wake_up` stands on an entry of the wait queue, and `wake_thread` has ended
`count` waits of the thread of that entry. `fault` is a read of a destroyed mutex. -/
inductive AbandonPc (M : Type*)
  | visit (m : M)
  | scan (m : M) (entry : ℕ)
  | wake (m : M) (entry : ℕ) (thread : Int) (count : ℕ)
  | signal (m : M)
  | next (m : M)
  | done
  | fault

structure AbandonState (M O σ : Type*) where
  server : MutexServer M O σ
  pc : AbandonPc M

def AbandonPc.node : List M → AbandonPc M
  | [] => .done
  | m :: _ => .visit m

/-- `wake_up` starts again at the head of the queue after a wait has ended. -/
def AbandonPc.woken (m : M) (entry count : ℕ) : AbandonPc M :=
  if count = 0 then .scan m (entry + 1) else .scan m 0

/-- A step of the loop for the thread `tid`. The pipes of the woken threads can be written. -/
def abandonStep (env : OtherObjects O σ) (tid : Int) (st : AbandonState M O σ) :
    AbandonState M O σ :=
  let s := st.server
  match st.pc with
  | .visit m =>
    if m ∈ s.mutexes then
      let r := wfusyncAbandonMutex tid (s.shm m)
      if r.1 then ⟨{ s with shm := update s.shm m r.2 }, .scan m 0⟩
      else ⟨s, .next m⟩
    else ⟨s, .fault⟩
  | .scan m entry =>
    if m ∈ s.mutexes then
      match (s.queue m)[entry]? with
      | some thread => ⟨s, .wake m entry thread 0⟩
      | none => ⟨s, .signal m⟩
    else ⟨s, .fault⟩
  | .wake m entry thread count =>
    match s.currentWait thread with
    | none => ⟨s, .woken m entry count⟩
    | some w =>
      match s.checkWait env w with
      | none => ⟨s, .woken m entry count⟩
      | some status => ⟨s.endWait env w status, .wake m entry thread (count + 1)⟩
  -- `wfusync_wake_waiters` only wakes addresses
  | .signal m => if m ∈ s.mutexes then ⟨s, .next m⟩ else ⟨s, .fault⟩
  | .next m => if m ∈ s.mutexes then ⟨s, .node (nodesFrom m s.mutexes).tail⟩ else ⟨s, .fault⟩
  | .done | .fault => st

/-- The state of the loop after `n` steps. -/
def abandonMutexes (env : OtherObjects O σ) (tid : Int) (s : MutexServer M O σ) (n : ℕ) :
    AbandonState M O σ :=
  (abandonStep env tid)^[n] ⟨s, .node s.mutexes⟩

/-- The loop ends after reads of live mutexes only, no mutex names the thread then, and every visit
of a mutex of the thread has abandoned it. -/
def AbandonsAll (env : OtherObjects O σ) (tid : Int) (s : MutexServer M O σ) : Prop :=
  (∃ n, (abandonMutexes env tid s n).pc = .done ∧
    ∀ m ∈ (abandonMutexes env tid s n).server.mutexes,
      ((abandonMutexes env tid s n).server.shm m).low ≠ tid) ∧
  ∀ n m, (abandonMutexes env tid s n).pc = .visit m →
    ((abandonMutexes env tid s (n + 1)).server.shm m).low ≠ tid

/-- The visited mutex has a count if the thread owns it, and a wait that is about to end does not
hold the last references to it. -/
def AbandonState.Sound (env : OtherObjects O σ) (tid : Int) (st : AbandonState M O σ) : Prop :=
  match st.pc with
  | .visit m => (st.server.shm m).low = tid → (st.server.shm m).high ≠ 0
  | .wake m _ thread _ =>
    ∀ w, st.server.currentWait thread = some w → (st.server.checkWait env w).isSome →
      w.references m < st.server.refs m
  | _ => True

/-- The list holds the mutexes with a reference, each wait holds its own, and the thread that ends
does not wait any more. -/
structure MutexServer.WellFormed (tid : Int) (s : MutexServer M O σ) : Prop where
  nodup : s.mutexes.Nodup
  live : ∀ m, m ∈ s.mutexes ↔ 0 < s.refs m
  waiting : ∀ m, s.waiting m ≤ s.refs m
  threads : ∀ w ∈ s.waits, w.thread ≠ tid

variable {env : OtherObjects O σ} {tid : Int} {s s' : MutexServer M O σ}

/-- The consumption of objects writes shared states only where the thread becomes the owner. -/
structure MutexServer.Satisfies (thread : Int) (s s' : MutexServer M O σ) : Prop where
  mutexes : s'.mutexes = s.mutexes
  refs : s'.refs = s.refs
  waits : s'.waits = s.waits
  shm : ∀ m, s'.shm m = s.shm m ∨ (s'.shm m).low = thread

variable {thread : Int} {m : M} {s : MutexServer M O σ}

omit [DecidableEq M] in
lemma MutexServer.Satisfies.refl : s.Satisfies thread s :=
  ⟨rfl, rfl, rfl, fun _ => .inl rfl⟩

omit [DecidableEq M] in
lemma MutexServer.Satisfies.trans {s'' : MutexServer M O σ}
    (h : s.Satisfies thread s') (h' : s'.Satisfies thread s'') : s.Satisfies thread s'' := by
  refine ⟨h'.mutexes.trans h.mutexes, h'.refs.trans h.refs, h'.waits.trans h.waits, fun m => ?_⟩
  obtain hsame | hlow := h'.shm m
  · rw [hsame]
    exact h.shm m
  · exact .inr hlow

lemma wfusyncMutexSatisfied_owner (thread : Int) (o : WfusyncState) :
    (wfusyncMutexSatisfied thread o).2.2 = o ∨
      (wfusyncMutexSatisfied thread o).2.2.low = thread := by
  unfold wfusyncMutexSatisfied
  split_ifs with howner
  · exact .inr howner
  · exact .inr rfl
  · exact .inr rfl
  · exact .inl rfl

namespace MutexServer

lemma objectSyncSatisfied_satisfies (thread : Int) (r : MutexServer M O σ × Bool)
    (o : Waited M O) : r.1.Satisfies thread (objectSyncSatisfied env thread r o).1 := by
  cases o with
  | mutex m =>
    refine ⟨rfl, rfl, rfl, fun m' => ?_⟩
    by_cases hm : m' = m
    · rw [hm, objectSyncSatisfied]
      dsimp only
      rw [update_self]
      exact wfusyncMutexSatisfied_owner thread (r.1.shm m)
    · exact .inl (update_of_ne hm ..)
  | other o => exact ⟨rfl, rfl, rfl, fun _ => .inl rfl⟩

lemma foldl_objectSyncSatisfied (thread : Int) (objects : List (Waited M O))
    (r : MutexServer M O σ × Bool) :
    r.1.Satisfies thread (objects.foldl (objectSyncSatisfied env thread) r).1 := by
  induction objects generalizing r with
  | nil => exact .refl
  | cons o objects ih =>
    exact (objectSyncSatisfied_satisfies thread r o).trans (ih (objectSyncSatisfied env thread r o))

lemma satisfyWait_satisfies (env : OtherObjects O σ) (s : MutexServer M O σ)
    (w : ThreadWait M O) (status : WaitStatus) :
    s.Satisfies w.thread (s.satisfyWait env w status).1 := by
  cases status with
  | object i =>
    simp only [satisfyWait]
    split
    · exact foldl_objectSyncSatisfied w.thread _ (s, false)
    · exact .refl
  | abandoned i => exact .refl
  | interrupted i => exact .refl

/-- The release of the objects of a wait: what is left of the list are the mutexes that still have
a reference. -/
structure Releases (objects : List (Waited M O)) (s s' : MutexServer M O σ) : Prop where
  refs : ∀ m, s'.refs m = s.refs m - objects.countP (Waited.isMutex m)
  mutexes : s'.mutexes = s.mutexes.filter fun m => decide (0 < s'.refs m)
  shm : s'.shm = s.shm
  waits : s'.waits = s.waits

lemma releaseObject_other (o : O) (hlive : ∀ m, m ∈ s.mutexes ↔ 0 < s.refs m) :
    Releases [.other o] s (s.releaseObject (.other o)) := by
  refine ⟨fun m => rfl, ?_, rfl, rfl⟩
  exact (filter_eq_self.mpr fun m hm => decide_eq_true ((hlive m).mp hm)).symm

lemma countP_isMutex_self (m : M) : [Waited.mutex (O := O) m].countP (Waited.isMutex m) = 1 := by
  simp [Waited.isMutex]

lemma countP_isMutex_of_ne {m m' : M} (h : m' ≠ m) :
    [Waited.mutex (O := O) m].countP (Waited.isMutex m') = 0 := by
  simp [Waited.isMutex, Ne.symm h]

lemma releaseObject_mutex {m : M} (hnodup : s.mutexes.Nodup)
    (hlive : ∀ m, m ∈ s.mutexes ↔ 0 < s.refs m) :
    Releases [.mutex m] s (s.releaseObject (.mutex m)) := by
  have hrefs : ∀ m', (s.releaseObject (.mutex m)).refs m' =
      s.refs m' - [Waited.mutex (O := O) m].countP (Waited.isMutex m') := by
    intro m'
    by_cases hm : m' = m
    · rw [hm, countP_isMutex_self]
      exact update_self ..
    · rw [countP_isMutex_of_ne hm]
      exact update_of_ne hm ..
  refine ⟨hrefs, ?_, rfl, rfl⟩
  have hother : ∀ m' ∈ s.mutexes, m' ≠ m → 0 < (s.releaseObject (.mutex m)).refs m' := by
    intro m' hm' hne
    rw [hrefs, countP_isMutex_of_ne hne]
    exact (hlive m').mp hm'
  by_cases hlast : s.refs m = 1
  · have hgone : (s.releaseObject (.mutex m)).refs m = 0 := by
      rw [hrefs, countP_isMutex_self, hlast]
    have hmutexes : (s.releaseObject (.mutex m)).mutexes = s.mutexes.erase m := if_pos hlast
    rw [hmutexes, hnodup.erase_eq_filter]
    refine filter_congr fun m' hm' => ?_
    by_cases hne : m' = m
    · rw [hne, hgone]
      simp
    · simp [hne, hother m' hm' hne]
  have hmutexes : (s.releaseObject (.mutex m)).mutexes = s.mutexes := if_neg hlast
  rw [hmutexes]
  refine (filter_eq_self.mpr fun m' hm' => decide_eq_true ?_).symm
  by_cases hne : m' = m
  · rw [hne] at hm'
    rw [hne, hrefs, countP_isMutex_self]
    have hpos := (hlive m).mp hm'
    omega
  · exact hother m' hm' hne

lemma releaseObject_releases (o : Waited M O) (hnodup : s.mutexes.Nodup)
    (hlive : ∀ m, m ∈ s.mutexes ↔ 0 < s.refs m) : Releases [o] s (s.releaseObject o) := by
  cases o with
  | mutex m => exact releaseObject_mutex hnodup hlive
  | other o => exact releaseObject_other o hlive

lemma Releases.live {objects : List (Waited M O)} (h : Releases objects s s')
    (hlive : ∀ m, m ∈ s.mutexes ↔ 0 < s.refs m) (m : M) : m ∈ s'.mutexes ↔ 0 < s'.refs m := by
  rw [h.mutexes, mem_filter, decide_eq_true_eq, hlive]
  refine and_iff_right_of_imp fun hpos => ?_
  rw [h.refs] at hpos
  omega

lemma foldl_releaseObject (objects : List (Waited M O)) (hnodup : s.mutexes.Nodup)
    (hlive : ∀ m, m ∈ s.mutexes ↔ 0 < s.refs m) :
    Releases objects s (objects.foldl releaseObject s) := by
  induction objects generalizing s with
  | nil =>
    refine ⟨fun m => rfl, ?_, rfl, rfl⟩
    exact (filter_eq_self.mpr fun m hm => decide_eq_true ((hlive m).mp hm)).symm
  | cons o objects ih =>
    have hfirst := releaseObject_releases o hnodup hlive
    have hrest := ih (s := s.releaseObject o) (hfirst.mutexes ▸ hnodup.filter _) (hfirst.live hlive)
    have hrefs : ∀ m, (List.foldl releaseObject (s.releaseObject o) objects).refs m =
        s.refs m - (o :: objects).countP (Waited.isMutex m) := by
      intro m
      have hcount : (o :: objects).countP (Waited.isMutex m) =
          [o].countP (Waited.isMutex m) + objects.countP (Waited.isMutex m) := by
        rw [← countP_append]
        rfl
      rw [hrest.refs, hfirst.refs, hcount, Nat.sub_sub]
    refine ⟨hrefs, ?_, hrest.shm.trans hfirst.shm, hrest.waits.trans hfirst.waits⟩
    rw [foldl_cons, hrest.mutexes, hfirst.mutexes, filter_filter]
    refine filter_congr fun m hm => ?_
    have hle : (List.foldl releaseObject (s.releaseObject o) objects).refs m ≤
        (s.releaseObject o).refs m := by
      rw [hrest.refs]
      exact Nat.sub_le ..
    rw [← Bool.decide_and, decide_eq_decide]
    omega

/-- What the end of a wait does to the server. -/
structure Ends (w : ThreadWait M O) (s s' : MutexServer M O σ) : Prop where
  refs : ∀ m, s'.refs m = s.refs m - w.references m
  mutexes : s'.mutexes = s.mutexes.filter fun m => decide (0 < s'.refs m)
  shm : ∀ m, s'.shm m = s.shm m ∨ (s'.shm m).low = w.thread
  waits : s'.waits = s.waits.eraseP fun v => decide (v.thread = w.thread)

lemma endWait_ends (env : OtherObjects O σ) (w : ThreadWait M O) (status : WaitStatus)
    (hnodup : s.mutexes.Nodup) (hlive : ∀ m, m ∈ s.mutexes ↔ 0 < s.refs m) : Ends w s (s.endWait env w status) := by
  have hsat := satisfyWait_satisfies env (s.popWait w.thread) w status
  have hnodup' : ((s.popWait w.thread).satisfyWait env w status).1.mutexes.Nodup := by
    rw [hsat.mutexes]
    exact hnodup
  have hlive' : ∀ m, m ∈ ((s.popWait w.thread).satisfyWait env w status).1.mutexes ↔
      0 < ((s.popWait w.thread).satisfyWait env w status).1.refs m := by
    rw [hsat.mutexes, hsat.refs]
    exact hlive
  have hrel := foldl_releaseObject w.objects hnodup' hlive'
  refine ⟨fun m => ?_, ?_, fun m => ?_, ?_⟩
  · exact (hrel.refs m).trans (by rw [hsat.refs]; rfl)
  · exact hrel.mutexes.trans (by rw [hsat.mutexes]; rfl)
  · have hshm : (s.endWait env w status).shm m = _ := congrFun hrel.shm m
    rw [hshm]
    exact hsat.shm m
  · exact hrel.waits.trans hsat.waits

omit [DecidableEq M] in
lemma currentWait_eq_some {thread : Int} {w : ThreadWait M O} (h : s.currentWait thread = some w) :
    w.thread = thread ∧ ∃ newer older, s.waits = newer ++ w :: older ∧
      (s.popWait thread).waits = newer ++ older := by
  obtain ⟨hthread, newer, older, hwaits, hnewer⟩ := find?_eq_some_iff_append.mp h
  refine ⟨of_decide_eq_true hthread, newer, older, hwaits, ?_⟩
  have hskip : ∀ v ∈ newer, ¬ decide (v.thread = thread) = true := by
    intro v hv
    simpa using hnewer v hv
  have hpopped : (s.popWait thread).waits =
      (newer ++ w :: older).eraseP fun v => decide (v.thread = thread) := by
    rw [← hwaits]
    rfl
  rw [hpopped, eraseP_append_right _ hskip]
  exact congrArg (newer ++ ·) (eraseP_cons_of_pos hthread)

lemma WellFormed.ends (h : s.WellFormed tid) (env : OtherObjects O σ) {thread : Int}
    {w : ThreadWait M O} (hcurrent : s.currentWait thread = some w) (status : WaitStatus) :
    Ends w s (s.endWait env w status) ∧ (s.endWait env w status).WellFormed tid ∧
      (∀ m, s.waiting m = (s.endWait env w status).waiting m + w.references m) ∧
      (s.endWait env w status).waits.length < s.waits.length ∧ w.thread ≠ tid := by
  have hends := endWait_ends env w status h.nodup h.live
  obtain ⟨rfl, newer, older, hwaits, hpopped⟩ := currentWait_eq_some hcurrent
  have hrest : (s.endWait env w status).waits = newer ++ older := hends.waits.trans hpopped
  have hwaiting : ∀ m, s.waiting m = (s.endWait env w status).waiting m + w.references m := by
    intro m
    rw [MutexServer.waiting, MutexServer.waiting, hrest, hwaits]
    simp only [map_append, map_cons, sum_append, sum_cons]
    omega
  refine ⟨hends, ⟨?_, ?_, fun m => ?_, fun v hv => ?_⟩, hwaiting, ?_, ?_⟩
  · rw [hends.mutexes]
    exact h.nodup.filter _
  · intro m
    rw [hends.mutexes, mem_filter, decide_eq_true_eq, h.live]
    refine and_iff_right_of_imp fun hpos => ?_
    rw [hends.refs] at hpos
    omega
  · have hle := h.waiting m
    rw [hwaiting m] at hle
    rw [hends.refs]
    omega
  · refine h.threads v ?_
    rw [hrest, mem_append] at hv
    rw [hwaits, mem_append, mem_cons]
    tauto
  · rw [hrest, hwaits]
    simp only [length_append, length_cons]
    omega
  · exact h.threads w (by rw [hwaits]; simp)

end MutexServer

variable {st : AbandonState M O σ}

lemma abandonStep_wellFormed (h : st.server.WellFormed tid) :
    (abandonStep env tid st).server.WellFormed tid := by
  have hshm : ∀ shm, { st.server with shm := shm }.WellFormed tid := fun shm =>
    ⟨h.nodup, h.live, h.waiting, h.threads⟩
  obtain ⟨s, pc⟩ := st
  cases pc with
  | visit m =>
    simp only [abandonStep]
    split_ifs
    · exact hshm _
    · exact h
    · exact h
  | scan m entry =>
    simp only [abandonStep]
    split_ifs
    · split <;> exact h
    · exact h
  | wake m entry thread count =>
    simp only [abandonStep]
    split
    · exact h
    rename_i w hcurrent
    split
    · exact h
    · exact (h.ends env hcurrent _).2.1
  | signal m | next m =>
    simp only [abandonStep]
    split_ifs <;> exact h
  | done => exact h
  | fault => exact h

/-- The mutex that the loop stands on is in the list, and a mutex that still names the thread is
ahead of the loop. -/
def AbandonState.Ahead (tid : Int) (st : AbandonState M O σ) : Prop :=
  match st.pc with
  | .visit m => m ∈ st.server.mutexes ∧ ∀ x ∈ st.server.mutexes, (st.server.shm x).low = tid →
      x ∈ nodesFrom m st.server.mutexes
  | .scan m _ | .wake m _ _ _ | .signal m | .next m => m ∈ st.server.mutexes ∧
      ∀ x ∈ st.server.mutexes, (st.server.shm x).low = tid →
        x ∈ (nodesFrom m st.server.mutexes).tail
  | .done => ∀ x ∈ st.server.mutexes, (st.server.shm x).low ≠ tid
  | .fault => False

lemma wfusyncAbandonMutex_low {o : WfusyncState} (htid : 0 < tid)
    (hcount : o.low = tid → o.high ≠ 0) :
    (wfusyncAbandonMutex tid o).2.low ≠ tid ∧
      ((wfusyncAbandonMutex tid o).1 = false → (wfusyncAbandonMutex tid o).2 = o) := by
  unfold wfusyncAbandonMutex
  split_ifs with hother
  · refine ⟨fun hlow => ?_, fun _ => rfl⟩
    obtain hne | hzero := hother
    · exact hne hlow
    · exact hcount hlow hzero
  · refine ⟨fun hlow => ?_, nofun⟩
    dsimp only at hlow
    omega

lemma mem_tail_of_ne {x : M} {l : List M} (hm : m ∈ l) (hx : x ∈ nodesFrom m l) (hne : x ≠ m) :
    x ∈ (nodesFrom m l).tail := by
  rw [nodesFrom_of_mem hm, mem_cons] at hx
  exact hx.resolve_left hne

lemma ahead_visit (htid : 0 < tid) (hsound : (AbandonState.mk s (.visit m)).Sound env tid)
    (h : (AbandonState.mk s (.visit m)).Ahead tid) :
    (abandonStep env tid ⟨s, .visit m⟩).Ahead tid := by
  obtain ⟨hm, hahead⟩ := h
  obtain ⟨hlow, hsame⟩ := wfusyncAbandonMutex_low (o := s.shm m) htid hsound
  simp only [abandonStep]
  rw [if_pos hm]
  split_ifs with habandoned
  · refine ⟨hm, fun x hx hxlow => ?_⟩
    dsimp only at hx hxlow ⊢
    by_cases hne : x = m
    · rw [hne, update_self] at hxlow
      exact absurd hxlow hlow
    · rw [update_of_ne hne] at hxlow
      exact mem_tail_of_ne hm (hahead x hx hxlow) hne
  rw [Bool.not_eq_true] at habandoned
  refine ⟨hm, fun x hx hxlow => mem_tail_of_ne hm (hahead x hx hxlow) fun hne => ?_⟩
  rw [hsame habandoned] at hlow
  exact hlow (hne ▸ hxlow)

lemma ahead_next (hwf : s.WellFormed tid) (h : (AbandonState.mk s (.next m)).Ahead tid) :
    (abandonStep env tid ⟨s, .next m⟩).Ahead tid := by
  obtain ⟨hm, hahead⟩ := h
  simp only [abandonStep]
  rw [if_pos hm]
  cases hbehind : (nodesFrom m s.mutexes).tail with
  | nil =>
    intro x hx hxlow
    have hmem := hahead x hx hxlow
    rw [hbehind] at hmem
    exact not_mem_nil hmem
  | cons m' behind =>
    have hfrom := nodesFrom_tail hwf.nodup hbehind
    refine ⟨?_, fun x hx hxlow => ?_⟩
    · exact mem_of_mem_nodesFrom (hfrom ▸ mem_cons_self ..)
    have hmem := hahead x hx hxlow
    rw [hbehind] at hmem
    rw [hfrom]
    exact hmem

lemma ahead_woken {entry count : ℕ}
    (h : (AbandonState.mk s (.wake m entry thread count)).Ahead tid) :
    (AbandonState.mk s (.woken m entry count)).Ahead tid := by
  unfold AbandonPc.woken
  split_ifs <;> exact h

lemma ahead_wake {entry count : ℕ} (hwf : s.WellFormed tid)
    (hsound : (AbandonState.mk s (.wake m entry thread count)).Sound env tid)
    (h : (AbandonState.mk s (.wake m entry thread count)).Ahead tid) :
    (abandonStep env tid ⟨s, .wake m entry thread count⟩).Ahead tid := by
  simp only [abandonStep]
  split
  · exact ahead_woken h
  rename_i w hcurrent
  split
  · exact ahead_woken h
  rename_i status hcheck
  obtain ⟨hm, hahead⟩ := h
  obtain ⟨hends, -, -, -, hthread⟩ := hwf.ends env hcurrent status
  have hleft : w.references m < s.refs m := hsound w hcurrent (by rw [hcheck]; rfl)
  have hkept : decide (0 < (s.endWait env w status).refs m) = true := by
    refine decide_eq_true ?_
    rw [hends.refs]
    omega
  refine ⟨?_, fun x hx hxlow => ?_⟩
  · rw [hends.mutexes]
    exact mem_filter.mpr ⟨hm, hkept⟩
  have hsame : (s.endWait env w status).shm x = s.shm x := by
    refine (hends.shm x).resolve_right fun hlow => ?_
    exact hthread (hlow.symm.trans hxlow)
  rw [hsame] at hxlow
  rw [hends.mutexes, mem_filter] at hx
  have hmem := hahead x hx.1 hxlow
  have hbehind := tail_nodesFrom_filter
    (fun m' => decide (0 < (s.endWait env w status).refs m')) hkept hm
  rw [hends.mutexes, hbehind]
  exact mem_filter.mpr ⟨hmem, hx.2⟩

lemma abandonStep_ahead (htid : 0 < tid) (hwf : st.server.WellFormed tid)
    (hsound : st.Sound env tid) (h : st.Ahead tid) : (abandonStep env tid st).Ahead tid := by
  obtain ⟨s, pc⟩ := st
  cases pc with
  | visit m => exact ahead_visit htid hsound h
  | scan m entry =>
    have hm : m ∈ s.mutexes := h.1
    simp only [abandonStep]
    rw [if_pos hm]
    split
    · exact h
    · exact h
  | wake m entry thread count => exact ahead_wake hwf hsound h
  | signal m =>
    have hm : m ∈ s.mutexes := h.1
    simp only [abandonStep]
    rw [if_pos hm]
    exact h
  | next m => exact ahead_next hwf h
  | done => exact h
  | fault => exact h

/-- The nodes ahead, the waits, and the entries of the queue that are left to look at. -/
def AbandonState.measure (st : AbandonState M O σ) : ℕ ×ₗ ℕ ×ₗ ℕ :=
  let nodes := fun m => (nodesFrom m st.server.mutexes).length
  let entries := fun m => (st.server.queue m).length
  let waits := st.server.waits.length
  match st.pc with
  | .visit m => toLex (2 * nodes m + 1, toLex (waits, 0))
  | .scan m entry =>
    toLex (2 * nodes m, toLex (waits,
      if entry < entries m then 3 * (entries m - entry) + 5 else 3))
  | .wake m entry _ count =>
    toLex (2 * nodes m, toLex (waits,
      if count = 0 then 3 * (entries m - entry) + 4 else 3 * entries m + 6))
  | .signal m => toLex (2 * nodes m, toLex (waits, 2))
  | .next m => toLex (2 * nodes m, toLex (waits, 1))
  | .done | .fault => toLex (0, toLex (0, 0))

def AbandonState.Final (st : AbandonState M O σ) : Prop :=
  st.pc = .done ∨ st.pc = .fault

lemma woken_decreases (s : MutexServer M O σ) (m : M) (entry count : ℕ) (thread : Int) :
    (AbandonState.mk s (.woken m entry count)).measure <
      (AbandonState.mk s (.wake m entry thread count)).measure := by
  unfold AbandonPc.woken
  split_ifs with hcount
  · refine lex_lt (.inr ⟨rfl, .inr ⟨rfl, ?_⟩⟩)
    dsimp only
    split_ifs <;> omega
  · refine lex_lt (.inr ⟨rfl, .inr ⟨rfl, ?_⟩⟩)
    dsimp only
    split_ifs <;> omega

lemma abandonStep_decreases (hwf : st.server.WellFormed tid) (hrun : ¬ st.Final) :
    (abandonStep env tid st).measure < st.measure := by
  obtain ⟨s, pc⟩ := st
  cases pc with
  | visit m =>
    simp only [abandonStep]
    split_ifs
    · exact lex_lt (.inl (Nat.lt_succ_self _))
    · exact lex_lt (.inl (Nat.lt_succ_self _))
    · exact lex_lt (.inl (Nat.succ_pos _))
  | scan m entry =>
    simp only [abandonStep]
    split_ifs with hm
    · split
      · rename_i thread hentry
        obtain ⟨hless, -⟩ := List.getElem?_eq_some_iff.mp hentry
        refine lex_lt (.inr ⟨rfl, .inr ⟨rfl, ?_⟩⟩)
        dsimp only
        rw [if_pos rfl, if_pos hless]
        omega
      · refine lex_lt (.inr ⟨rfl, .inr ⟨rfl, ?_⟩⟩)
        split_ifs <;> omega
    rw [AbandonState.measure, AbandonState.measure]
    dsimp only
    refine lex_lt ?_
    split_ifs <;> omega
  | wake m entry thread count =>
    simp only [abandonStep]
    split
    · exact woken_decreases s m entry count thread
    rename_i w hcurrent
    split
    · exact woken_decreases s m entry count thread
    rename_i status hcheck
    obtain ⟨hends, -, -, hless, -⟩ := hwf.ends env hcurrent status
    have hnodes : (nodesFrom m (s.endWait env w status).mutexes).length ≤
        (nodesFrom m s.mutexes).length := by
      rw [hends.mutexes]
      exact length_nodesFrom_filter_le _ m s.mutexes
    obtain hfewer | hsame := Nat.lt_or_eq_of_le hnodes
    · exact lex_lt (.inl (Nat.mul_lt_mul_of_pos_left hfewer Nat.two_pos))
    · exact lex_lt (.inr ⟨congrArg (2 * ·) hsame, .inl hless⟩)
  | signal m =>
    simp only [abandonStep]
    split_ifs with hm
    · exact lex_lt (.inr ⟨rfl, .inr ⟨rfl, by omega⟩⟩)
    · refine lex_lt ?_
      omega
  | next m =>
    simp only [abandonStep]
    split_ifs with hm
    · have hlength := congrArg List.length (nodesFrom_of_mem hm)
      rw [length_cons] at hlength
      cases hbehind : (nodesFrom m s.mutexes).tail with
      | nil =>
        refine lex_lt (.inl ?_)
        dsimp only
        omega
      | cons m' behind =>
        have hfrom := nodesFrom_tail hwf.nodup hbehind
        rw [hbehind, length_cons] at hlength
        refine lex_lt (.inl ?_)
        dsimp only
        rw [hfrom, length_cons]
        omega
    · refine lex_lt ?_
      omega
  | done => exact absurd (.inl rfl) hrun
  | fault => exact absurd (.inr rfl) hrun

def AbandonState.Lost (st : AbandonState M O σ) : Prop :=
  match st.pc with
  | .wake m _ _ count => m ∉ st.server.mutexes ∧ count ≠ 0
  | .scan m _ => m ∉ st.server.mutexes
  | .fault => True
  | _ => False

lemma abandonStep_lost (h : st.server.WellFormed tid ∧ st.Lost) :
    (abandonStep env tid st).server.WellFormed tid ∧ (abandonStep env tid st).Lost := by
  refine ⟨abandonStep_wellFormed h.1, ?_⟩
  obtain ⟨s, pc⟩ := st
  obtain ⟨hwf, hlost⟩ := h
  cases pc with
  | visit m | signal m | next m | done => exact hlost.elim
  | scan m entry =>
    simp only [abandonStep]
    rw [if_neg hlost]
    trivial
  | wake m entry thread count =>
    obtain ⟨hm, hcount⟩ := hlost
    have hwoken : (AbandonState.mk s (.woken m entry count)).Lost := by
      rw [AbandonPc.woken, if_neg hcount]
      exact hm
    simp only [abandonStep]
    split
    · exact hwoken
    rename_i w hcurrent
    split
    · exact hwoken
    rename_i status hcheck
    obtain ⟨hends, -⟩ := hwf.ends env hcurrent status
    refine ⟨fun hmem => hm ?_, Nat.succ_ne_zero count⟩
    rw [hends.mutexes] at hmem
    exact (mem_filter.mp hmem).1
  | fault => trivial

lemma abandonStep_unsound (hwf : st.server.WellFormed tid) (hunsound : ¬ st.Sound env tid) :
    (∃ m, st.pc = .visit m ∧ ((abandonStep env tid st).server.shm m).low = tid) ∨
      (abandonStep env tid st).Lost := by
  obtain ⟨s, pc⟩ := st
  cases pc with
  | visit m =>
    refine .inl ⟨m, rfl, ?_⟩
    simp only [AbandonState.Sound, not_forall, not_not] at hunsound
    obtain ⟨hlow, hhigh⟩ := hunsound
    have hrefused : (wfusyncAbandonMutex tid (s.shm m)).1 = false := by
      rw [wfusyncAbandonMutex, if_pos (.inr hhigh)]
    simp only [abandonStep, hrefused]
    split_ifs with hm hfalse
    · exact hfalse.elim
    · exact hlow
    · exact hlow
  | wake m entry thread count =>
    refine .inr ?_
    simp only [AbandonState.Sound, not_forall, not_lt] at hunsound
    obtain ⟨w, hcurrent, hcheck, hlast⟩ := hunsound
    obtain ⟨status, hstatus⟩ := Option.isSome_iff_exists.mp hcheck
    obtain ⟨hends, -⟩ := MutexServer.WellFormed.ends (s := s) hwf env hcurrent status
    simp only [abandonStep]
    rw [hcurrent]
    dsimp only
    rw [hstatus]
    refine ⟨fun hmem => ?_, Nat.succ_ne_zero count⟩
    rw [hends.mutexes, mem_filter, decide_eq_true_eq, hends.refs] at hmem
    omega
  | scan m entry | signal m | next m | done | fault => exact absurd trivial hunsound

lemma abandonMutexes_wellFormed (h : s.WellFormed tid) (n : ℕ) :
    (abandonMutexes env tid s n).server.WellFormed tid :=
  iterate_invariant (I := fun st : AbandonState M O σ => st.server.WellFormed tid)
    (fun _ hst => abandonStep_wellFormed hst) h n

lemma abandonMutexes_succ (n : ℕ) :
    abandonMutexes env tid s (n + 1) = abandonStep env tid (abandonMutexes env tid s n) :=
  Function.iterate_succ_apply' ..

lemma ahead_start (h : s.WellFormed tid) : (abandonMutexes env tid s 0).Ahead tid := by
  rw [abandonMutexes, Function.iterate_zero, id]
  cases hlist : s.mutexes with
  | nil =>
    intro x hx
    rw [hlist] at hx
    exact absurd hx not_mem_nil
  | cons m behind =>
    have hfrom : nodesFrom m s.mutexes = s.mutexes := by
      rw [hlist]
      exact nodesFrom_of_suffix (hlist ▸ h.nodup) suffix_rfl
    refine ⟨?_, fun x hx _ => ?_⟩
    · rw [hlist]
      exact mem_cons_self ..
    · rw [hfrom]
      exact hx

lemma abandonMutexes_ahead (htid : 0 < tid) (h : s.WellFormed tid)
    (hsound : ∀ n, (abandonMutexes env tid s n).Sound env tid) (n : ℕ) :
    (abandonMutexes env tid s n).Ahead tid := by
  induction n with
  | zero => exact ahead_start h
  | succ n ih =>
    rw [abandonMutexes_succ]
    exact abandonStep_ahead htid (abandonMutexes_wellFormed h n) (hsound n) ih

lemma abandonMutexes_final (env : OtherObjects O σ) (h : s.WellFormed tid) :
    ∃ n, (abandonMutexes env tid s n).Final :=
  iterate_reaches wellFounded_lt AbandonState.measure (fun _ hst => abandonStep_wellFormed hst)
    (fun _ hst hrun => abandonStep_decreases hst hrun) h

lemma not_done_of_lost (h : s.WellFormed tid) {k : ℕ} (hlost : (abandonMutexes env tid s k).Lost)
    (n : ℕ) : (abandonMutexes env tid s n).pc ≠ .done := by
  have hlater : ∀ i, (abandonMutexes env tid s (i + k)).Lost := by
    intro i
    induction i with
    | zero => rwa [Nat.zero_add]
    | succ i ih =>
      rw [Nat.add_right_comm, abandonMutexes_succ]
      exact (abandonStep_lost ⟨abandonMutexes_wellFormed h _, ih⟩).2
  intro hdone
  have hstays : ∀ i, (abandonMutexes env tid s (i + n)).pc = .done := by
    intro i
    induction i with
    | zero => rwa [Nat.zero_add]
    | succ i ih =>
      rw [Nat.add_right_comm, abandonMutexes_succ, abandonStep, ih]
      exact ih
  have hboth := hlater n
  rw [Nat.add_comm, AbandonState.Lost, hstays k] at hboth
  exact hboth

lemma abandonsAll_of_sound (htid : 0 < tid) (h : s.WellFormed tid)
    (hsound : ∀ n, (abandonMutexes env tid s n).Sound env tid) : AbandonsAll env tid s := by
  have hahead := abandonMutexes_ahead htid h hsound
  constructor
  · obtain ⟨n, hdone | hfault⟩ := abandonMutexes_final env h
    · have hend := hahead n
      rw [AbandonState.Ahead, hdone] at hend
      exact ⟨n, hdone, hend⟩
    · have hend := hahead n
      rw [AbandonState.Ahead, hfault] at hend
      exact hend.elim
  · intro n m hpc
    have hvisit := hsound n
    rw [AbandonState.Sound, hpc] at hvisit
    have hstands := hahead n
    rw [AbandonState.Ahead, hpc] at hstands
    obtain ⟨hlow, hsame⟩ := wfusyncAbandonMutex_low htid hvisit
    rw [abandonMutexes_succ, abandonStep, hpc]
    dsimp only
    rw [if_pos hstands.1]
    split_ifs with habandoned
    · dsimp only
      rw [update_self]
      exact hlow
    · rw [Bool.not_eq_true] at habandoned
      rw [hsame habandoned] at hlow
      exact hlow

lemma sound_of_abandonsAll (h : s.WellFormed tid) (hall : AbandonsAll env tid s) (n : ℕ) :
    (abandonMutexes env tid s n).Sound env tid := by
  obtain ⟨⟨k, hdone, -⟩, hvisits⟩ := hall
  by_contra hunsound
  obtain ⟨m, hpc, hlow⟩ | hlost := abandonStep_unsound (abandonMutexes_wellFormed h n) hunsound
  · refine hvisits n m hpc ?_
    rw [abandonMutexes_succ]
    exact hlow
  · rw [← abandonMutexes_succ] at hlost
    exact not_done_of_lost h hlost k hdone

/-- The loop reads live mutexes only and abandons those of the thread, if and only if each of them
has a count when it is visited and no wait that it ends holds the last references to the mutex it
stands on. -/
theorem abandon_mutexes_live (htid : 0 < tid) (h : s.WellFormed tid) :
    AbandonsAll env tid s ↔ ∀ n, (abandonMutexes env tid s n).Sound env tid :=
  ⟨sound_of_abandonsAll h, abandonsAll_of_sound htid h⟩

def MutexServer.Held (s : MutexServer M O σ) (m : M) : Prop :=
  (s.shm m).high ≠ 0 ∧ s.waiting m < s.refs m

/-- The mutexes of the thread are held, and the one that is being woken is still referenced. -/
def AbandonState.Held (tid : Int) (st : AbandonState M O σ) : Prop :=
  (∀ x ∈ st.server.mutexes, (st.server.shm x).low = tid → st.server.Held x) ∧
    match st.pc with
    | .scan m _ | .wake m _ _ _ => st.server.waiting m < st.server.refs m
    | _ => True

lemma AbandonState.Held.sound (h : st.Held tid) (hwf : st.server.WellFormed tid)
    (hahead : st.Ahead tid) : st.Sound env tid := by
  obtain ⟨s, pc⟩ := st
  cases pc with
  | visit m => exact fun hlow => (h.1 m hahead.1 hlow).1
  | wake m entry thread count =>
    intro w hcurrent _
    have hwaiting : s.waiting m < s.refs m := h.2
    obtain ⟨-, -, hcount, -⟩ := MutexServer.WellFormed.ends (s := s) hwf env hcurrent (.object 0)
    rw [hcount m] at hwaiting
    exact Nat.lt_of_le_of_lt (Nat.le_add_left ..) hwaiting
  | scan m entry | signal m | next m | done | fault => trivial

lemma abandonStep_held (htid : 0 < tid) (hwf : st.server.WellFormed tid) (h : st.Held tid) :
    (abandonStep env tid st).Held tid := by
  obtain ⟨s, pc⟩ := st
  obtain ⟨hheld, hpc⟩ := h
  cases pc with
  | visit m =>
    simp only [abandonStep]
    split_ifs with hm habandoned
    · have howned : (s.shm m).low = tid := by
        by_contra hother
        rw [wfusyncAbandonMutex, if_pos (.inl hother)] at habandoned
        exact Bool.false_ne_true habandoned
      have hmutex := hheld m hm howned
      refine ⟨fun x hx hlow => ?_, hmutex.2⟩
      dsimp only at hx hlow
      by_cases hne : x = m
      · rw [hne, update_self] at hlow
        exact absurd hlow (wfusyncAbandonMutex_low htid fun _ => hmutex.1).1
      rw [update_of_ne hne] at hlow
      obtain ⟨hhigh, hwaiting⟩ := hheld x hx hlow
      refine ⟨?_, hwaiting⟩
      dsimp only
      rw [update_of_ne hne]
      exact hhigh
    · exact ⟨hheld, trivial⟩
    · exact ⟨hheld, trivial⟩
  | scan m entry =>
    simp only [abandonStep]
    split_ifs
    · split
      · exact ⟨hheld, hpc⟩
      · exact ⟨hheld, trivial⟩
    · exact ⟨hheld, trivial⟩
  | wake m entry thread count =>
    have hwoken : (AbandonState.mk s (.woken m entry count)).Held tid := by
      unfold AbandonPc.woken
      split_ifs <;> exact ⟨hheld, hpc⟩
    simp only [abandonStep]
    split
    · exact hwoken
    rename_i w hcurrent
    split
    · exact hwoken
    rename_i status hcheck
    obtain ⟨hends, -, hcount, -, hthread⟩ :=
      MutexServer.WellFormed.ends (s := s) hwf env hcurrent status
    have hkept : ∀ x, s.waiting x < s.refs x →
        (s.endWait env w status).waiting x < (s.endWait env w status).refs x := by
      intro x hx
      rw [hcount x] at hx
      rw [hends.refs]
      omega
    refine ⟨fun x hx hlow => ?_, hkept m hpc⟩
    have hsame : (s.endWait env w status).shm x = s.shm x :=
      (hends.shm x).resolve_right fun hlow' => hthread (hlow'.symm.trans hlow)
    rw [hends.mutexes] at hx
    rw [hsame] at hlow
    obtain ⟨hhigh, hwaiting⟩ := hheld x (mem_filter.mp hx).1 hlow
    refine ⟨?_, hkept x hwaiting⟩
    rw [hsame]
    exact hhigh
  | signal m =>
    simp only [abandonStep]
    split_ifs <;> exact ⟨hheld, trivial⟩
  | next m =>
    simp only [abandonStep]
    split_ifs
    · refine ⟨hheld, ?_⟩
      cases (nodesFrom m s.mutexes).tail <;> trivial
    · exact ⟨hheld, trivial⟩
  | done | fault => exact ⟨hheld, trivial⟩

lemma sound_of_held (htid : 0 < tid) (h : s.WellFormed tid)
    (hheld : ∀ m ∈ s.mutexes, (s.shm m).low = tid → s.Held m) (n : ℕ) :
    (abandonMutexes env tid s n).Sound env tid := by
  have hinv : ∀ n, (abandonMutexes env tid s n).Held tid ∧
      (abandonMutexes env tid s n).Ahead tid := by
    intro n
    induction n with
    | zero =>
      refine ⟨⟨hheld, ?_⟩, ahead_start h⟩
      rw [abandonMutexes, Function.iterate_zero, id]
      cases s.mutexes <;> trivial
    | succ n ih =>
      have hwf : (abandonMutexes env tid s n).server.WellFormed tid :=
        abandonMutexes_wellFormed h n
      rw [abandonMutexes_succ]
      exact ⟨abandonStep_held htid hwf ih.1, abandonStep_ahead htid hwf (ih.1.sound hwf ih.2) ih.2⟩
  exact (hinv n).1.sound (abandonMutexes_wellFormed h n) (hinv n).2

end Server

def noOthers : OtherObjects Empty Unit :=
  ⟨fun _ o _ => o.elim, fun _ o _ => o.elim⟩

def oneWaiter (refs : ℕ) : MutexServer Unit Empty Unit :=
  ⟨[()], fun _ => ⟨1, 1, 1, ⟨.mutex, false, false, true⟩⟩, fun _ => refs,
    [⟨2, false, [.mutex ()], none, false, none⟩], (), []⟩

lemma oneWaiter_wellFormed {refs : ℕ} (h : 0 < refs) : (oneWaiter refs).WellFormed 1 where
  nodup := nodup_singleton ()
  live _ := ⟨fun _ => h, fun _ => List.mem_singleton.mpr rfl⟩
  waiting _ := h
  threads w hw := by
    rw [mem_singleton.mp hw]
    decide

/-- The mutex still has a handle. -/
theorem abandon_mutexes_live_handle : (0 : Int) < 1 ∧ (oneWaiter 2).WellFormed 1 ∧
    AbandonsAll noOthers 1 (oneWaiter 2) := by
  have hwf : (oneWaiter 2).WellFormed 1 := oneWaiter_wellFormed Nat.two_pos
  refine ⟨Int.one_pos, hwf, (abandon_mutexes_live Int.one_pos hwf).mpr ?_⟩
  exact sound_of_held Int.one_pos hwf fun _ _ _ => ⟨Int.one_ne_zero, Nat.lt_succ_self 1⟩

/-- The last handle is closed, so the wait of thread 2 holds the only reference. -/
theorem abandon_mutexes_destroyed :
    ∃ s : MutexServer Unit Empty Unit, s.WellFormed 1 ∧ ¬ AbandonsAll noOthers 1 s := by
  have hwf : (oneWaiter 1).WellFormed 1 := oneWaiter_wellFormed Nat.one_pos
  refine ⟨oneWaiter 1, hwf, fun hall => ?_⟩
  have hsound := sound_of_abandonsAll hwf hall 2
  exact absurd (hsound ⟨2, false, [.mutex ()], none, false, none⟩ rfl rfl) (lt_irrefl 1)

end WineForge.WfuSync
