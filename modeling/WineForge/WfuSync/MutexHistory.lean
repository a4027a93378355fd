import WineForge.Library.Transition
import WineForge.Library.RecursiveLock
import WineForge.WfuSync.State

/-!
# WFUSync mutexes and recursive locks

One mutex under every path that acquires or releases it: client waits, the local and the
server wait-all, server waits, both releases, and thread exit. Each path is one atomic section
of the shared state. The machine records the history of successful operations, which is
compared with the recursive lock of the library.
-/

namespace WineForge.WfuSync

open Function Library Option

variable {ι : Type*} [DecidableEq ι]

/-- The paths on which a thread acquires a mutex. `generation` is the one the caller cached,
and `ready` whether the other objects of a wait-all let it proceed. -/
inductive AcquirePath
  | waitMutex
  | tryWaitAllLocal (generation : ℕ) (ready : Bool)
  | serverWait
  | serverTryWaitAll (generation : ℕ) (ready : Bool)
  deriving DecidableEq, Repr

def AcquirePath.attempt (path : AcquirePath) (tid : Int) (s : WfusyncState) : Bool × WfusyncState :=
  match path with
  | .waitMutex =>
    match consumeMutexState tid s with
    | (.wait0, s') | (.abandonedWait0, s') => (true, s')
    | (_, s') => (false, s')
  | .tryWaitAllLocal generation ready =>
    if wfusyncLockGranted s .mutex ∧ s.generation = generation then
      match waitAllLocalCheck .mutex tid s with
      | .error _ => (false, s)
      | .ok _ =>
        if ready then
          match waitAllLocalTake .mutex tid s with
          | (.wait0, s') | (.abandonedWait0, s') => (true, s')
          | (_, s') => (false, s')
        else (false, s)
    else (false, s)
  | .serverWait =>
    if wfusyncMutexSignaled tid s then
      ((wfusyncMutexSatisfied tid s).1, (wfusyncMutexSatisfied tid s).2.2)
    else (false, s)
  | .serverTryWaitAll generation ready =>
    if s.word.serverWaiters = false ∧ s.word.type = .mutex ∧ s.generation = generation then
      match tryWaitAllCheck .mutex tid s with
      | .error _ => (false, s)
      | .ok _ =>
        if ready then
          match tryWaitAllTake .mutex tid s with
          | some s' => (true, s')
          | none => (false, s)
        else (false, s)
    else (false, s)

/-- A mutex, the threads that are alive, and the successful operations so far, newest first. -/
structure MutexRun (ι : Type*) where
  obj : WfusyncState
  live : ι → Bool
  history : List (LockEvent ι)

inductive MutexAct (ι : Type*)
  | acquire (t : ι) (path : AcquirePath)
  | releaseClient (t : ι) (generation : ℕ)
  | releaseServer (t : ι)
  /-- The thread ends and the server runs `abandon_mutexes` for it. -/
  | exit (t : ι)
  /-- A thread starts, possibly with the id of an earlier one. -/
  | start (t : ι)
  /-- The server changes the waiter flags. -/
  | flags (multiWaiters serverWaiters : Bool)
  deriving DecidableEq, Repr

variable (T : ThreadIds ι)

def mutexStep (s : MutexRun ι) : MutexAct ι → Option (MutexRun ι)
  | .acquire t path =>
    if s.live t then
      let r := path.attempt (T.tid t) s.obj
      some { s with obj := r.2, history := if r.1 then .acquired t :: s.history else s.history }
    else none
  | .releaseClient t generation =>
    if s.live t then
      let r := SignalOp.releaseMutex.client (T.tid t) generation s.obj
      some { s with
        obj := r.state
        history := if r.status = .wait0 then .released t :: s.history else s.history }
    else none
  | .releaseServer t =>
    if s.live t then
      let r := SignalOp.releaseMutex.server (T.tid t) s.obj
      some { s with
        obj := r.state
        history := if r.status = .wait0 then .released t :: s.history else s.history }
    else none
  | .exit t =>
    if s.live t then
      some { obj := (wfusyncAbandonMutex (T.tid t) s.obj).2
             live := update s.live t false
             history := .exited t :: s.history }
    else none
  | .start t =>
    if s.live t then none else some { s with live := update s.live t true }
  | .flags multiWaiters serverWaiters =>
    some { s with obj := { s.obj with
      word := { s.obj.word with multiWaiters := multiWaiters, serverWaiters := serverWaiters } } }

/-- A mutex as `create_mutex_sync` makes it, free or owned by its creator. -/
def MutexRun.Created (s : MutexRun ι) : Prop :=
  s.obj.word.type = .mutex ∧
    ((s.obj.low = 0 ∧ s.obj.high = 0 ∧ s.history = []) ∨
      ∃ t, s.live t = true ∧ s.obj.low = T.tid t ∧ s.obj.high = 1 ∧ s.history = [.acquired t])

/-- The server does not count an owner past the largest `int`. -/
def Countable (s : MutexRun ι) : MutexAct ι → Prop
  | .acquire t .serverWait => s.obj.low = T.tid t → s.obj.high ≠ intMax
  | _ => True

/-- An acquisition of the mutex by thread `tid`. -/
inductive Acquires (tid : Int) (s : WfusyncState) : WfusyncState → Prop
  | recursive : s.low = tid → s.high < intMax → Acquires tid s { s with high := s.high + 1 }
  | fresh (generation : ℕ) : s.low ≤ 0 →
      Acquires tid s { s with low := tid, high := 1, generation := generation }

section Acquisition

variable {tid : Int} {s : WfusyncState}

lemma consumeMutexStateLocked_spec (hhigh : s.low = tid → s.high ≤ intMax) :
    (((consumeMutexStateLocked tid s).1 = .wait0 ∨
        (consumeMutexStateLocked tid s).1 = .abandonedWait0) ∧
      Acquires tid s (consumeMutexStateLocked tid s).2) ∨
    (((consumeMutexStateLocked tid s).1 = .notImplemented ∨
        (consumeMutexStateLocked tid s).1 = .timeout) ∧
      (consumeMutexStateLocked tid s).2 = s) := by
  unfold consumeMutexStateLocked
  split
  · rename_i hown
    split
    · exact .inr ⟨.inl rfl, rfl⟩
    · exact .inl ⟨.inl rfl, .recursive hown (lt_of_le_of_ne (hhigh hown) ‹_›)⟩
  split
  · exact .inl ⟨.inl rfl, .fresh _ (by omega)⟩
  · split
    · exact .inl ⟨.inr rfl, .fresh _ (by omega)⟩
    · exact .inr ⟨.inr rfl, rfl⟩

lemma consumeMutexStateLocked_attempt (hhigh : s.low = tid → s.high ≤ intMax) :
    let r : Bool × WfusyncState := match consumeMutexStateLocked tid s with
      | (.wait0, s') | (.abandonedWait0, s') => (true, s')
      | (_, s') => (false, s')
    (r.1 = true ∧ Acquires tid s r.2) ∨ (r.1 = false ∧ r.2 = s) := by
  have hspec := consumeMutexStateLocked_spec hhigh
  rcases hc : consumeMutexStateLocked tid s with ⟨status, s'⟩
  rw [hc] at hspec
  rcases hspec with ⟨rfl | rfl, hacq⟩ | ⟨rfl | rfl, hs⟩
  · exact .inl ⟨rfl, hacq⟩
  · exact .inl ⟨rfl, hacq⟩
  · exact .inr ⟨rfl, hs⟩
  · exact .inr ⟨rfl, hs⟩

lemma wfusyncMutexSatisfied_spec (hpos : s.low = tid → 0 ≤ s.high)
    (hhigh : s.low = tid → s.high < intMax) :
    ((wfusyncMutexSatisfied tid s).1 = true ∧ Acquires tid s (wfusyncMutexSatisfied tid s).2.2) ∨
    ((wfusyncMutexSatisfied tid s).1 = false ∧ (wfusyncMutexSatisfied tid s).2.2 = s) := by
  unfold wfusyncMutexSatisfied
  split
  · rename_i hown
    have hlt := hhigh hown
    rw [toSigned_of_range (by omega) (by omega)]
    exact .inl ⟨rfl, .recursive hown hlt⟩
  split
  · exact .inl ⟨rfl, .fresh _ (by omega)⟩
  · split
    · exact .inl ⟨rfl, .fresh _ (by omega)⟩
    · exact .inr ⟨rfl, rfl⟩

lemma tryWaitAllTake_mutex_spec (hhigh : s.low = tid → s.high ≤ intMax) {s' : WfusyncState}
    (h : tryWaitAllTake .mutex tid s = some s') : Acquires tid s s' := by
  unfold tryWaitAllTake at h
  dsimp only at h
  split at h
  · rename_i hown
    split at h
    · cases h
    · cases h
      exact .recursive hown (lt_of_le_of_ne (hhigh hown) ‹_›)
  split at h
  · cases h
    exact .fresh _ (by omega)
  · cases h

variable (tid) in
/-- Every path either acquires the mutex or fails without touching it. -/
theorem acquirePath_spec (path : AcquirePath) (hpos : s.low = tid → 0 ≤ s.high)
    (hhigh : s.low = tid → s.high ≤ intMax)
    (hcount : path = .serverWait → s.low = tid → s.high ≠ intMax) :
    ((path.attempt tid s).1 = true ∧ Acquires tid s (path.attempt tid s).2) ∨
    ((path.attempt tid s).1 = false ∧ (path.attempt tid s).2 = s) := by
  cases path with
  | waitMutex =>
    simp only [AcquirePath.attempt, consumeMutexState]
    cases wfusyncLockGranted s .mutex with
    | false => exact .inr ⟨rfl, rfl⟩
    | true => exact consumeMutexStateLocked_attempt hhigh
  | tryWaitAllLocal generation ready =>
    simp only [AcquirePath.attempt]
    split
    · split
      · exact .inr ⟨rfl, rfl⟩
      · cases ready with
        | false => exact .inr ⟨rfl, rfl⟩
        | true => exact consumeMutexStateLocked_attempt hhigh
    · exact .inr ⟨rfl, rfl⟩
  | serverWait =>
    simp only [AcquirePath.attempt]
    split
    · exact wfusyncMutexSatisfied_spec hpos
        fun hown => lt_of_le_of_ne (hhigh hown) (hcount rfl hown)
    · exact .inr ⟨rfl, rfl⟩
  | serverTryWaitAll generation ready =>
    simp only [AcquirePath.attempt]
    split
    · split
      · exact .inr ⟨rfl, rfl⟩
      cases ready with
      | false => exact .inr ⟨rfl, rfl⟩
      | true =>
        simp only [if_true]
        split
        · exact .inl ⟨rfl, tryWaitAllTake_mutex_spec hhigh ‹_›⟩
        · exact .inr ⟨rfl, rfl⟩
    · exact .inr ⟨rfl, rfl⟩

end Acquisition

/-- A release of the mutex by thread `tid`. -/
inductive Releases (tid : Int) (s : WfusyncState) : WfusyncState → Prop
  | inner : s.low = tid → 1 < s.high → Releases tid s { s with high := s.high - 1 }
  | last : s.low = tid → s.high ≤ 1 → s.high ≠ 0 → Releases tid s { s with high := 0, low := 0 }

section Release

variable {tid : Int} {s : WfusyncState}

lemma releaseMutexLocked_spec :
    ((releaseMutexLocked tid s).status = .wait0 ∧ Releases tid s (releaseMutexLocked tid s).state) ∨
    ((releaseMutexLocked tid s).status ≠ .wait0 ∧ (releaseMutexLocked tid s).state = s) := by
  unfold releaseMutexLocked
  split
  · exact .inr ⟨by simp [SignalResult.refused], rfl⟩
  rename_i hown
  push Not at hown
  split
  · exact .inl ⟨rfl, .inner hown.1 ‹_›⟩
  · exact .inl ⟨rfl, .last hown.1 (by omega) hown.2⟩

variable (tid) in
lemma releaseMutex_client_spec (generation : ℕ) :
    ((SignalOp.releaseMutex.client tid generation s).status = .wait0 ∧
      Releases tid s (SignalOp.releaseMutex.client tid generation s).state) ∨
    ((SignalOp.releaseMutex.client tid generation s).status ≠ .wait0 ∧
      (SignalOp.releaseMutex.client tid generation s).state = s) := by
  unfold SignalOp.client
  split
  · exact .inr ⟨by simp [SignalResult.refused], rfl⟩
  · split
    · exact .inr ⟨by simp [SignalResult.refused], rfl⟩
    · exact releaseMutexLocked_spec

variable (tid) in
lemma releaseMutex_server_spec : ((SignalOp.releaseMutex.server tid s).status = .wait0 ∧
      Releases tid s (SignalOp.releaseMutex.server tid s).state) ∨
    ((SignalOp.releaseMutex.server tid s).status ≠ .wait0 ∧
      (SignalOp.releaseMutex.server tid s).state = s) := by
  unfold SignalOp.server
  split
  · exact releaseMutexLocked_spec
  · exact .inr ⟨by simp [SignalResult.refused], rfl⟩

end Release

def Encodes (obj : WfusyncState) (live : ι → Bool) : RecursiveLock ι → Prop
  | .free => obj.low = 0
  | .abandoned => obj.low < 0
  | .owned t depth =>
    live t = true ∧ obj.low = T.tid t ∧ obj.high = depth + 1 ∧ obj.high ≤ intMax

def Refines (s : MutexRun ι) : Prop :=
  ∃ l, RecursiveLock.replay s.history = some l ∧ Encodes T s.obj s.live l

variable {T}

section Encodes

variable {obj obj' : WfusyncState} {live : ι → Bool} {l : RecursiveLock ι}

omit [DecidableEq ι] in
lemma Encodes.owner (h : Encodes T obj live l) {t : ι} (hown : obj.low = T.tid t) :
    ∃ depth, l = .owned t depth ∧ live t = true ∧ obj.high = depth + 1 ∧ obj.high ≤ intMax := by
  have hpos := T.pos t
  cases l with
  | free =>
    have hfree : obj.low = 0 := h
    omega
  | abandoned =>
    have habandoned : obj.low < 0 := h
    omega
  | owned u depth =>
    obtain ⟨hlive, hu, hhigh, hmax⟩ := h
    have htu : t = u := T.injective (hown.symm.trans hu)
    subst htu
    exact ⟨depth, rfl, hlive, hhigh, hmax⟩

omit [DecidableEq ι] in
lemma Encodes.range (h : Encodes T obj live l) (t : ι) (hown : obj.low = T.tid t) :
    0 ≤ obj.high ∧ obj.high ≤ intMax := by
  obtain ⟨depth, -, -, hhigh, hmax⟩ := h.owner hown
  exact ⟨by omega, hmax⟩

lemma Encodes.acquire (h : Encodes T obj live l) {t : ι} (ht : live t = true)
    (hacq : Acquires (T.tid t) obj obj') :
    ∃ l', l.next (.acquired t) = some l' ∧ Encodes T obj' live l' := by
  cases hacq with
  | recursive hown hlt =>
    obtain ⟨depth, rfl, -, hhigh, -⟩ := h.owner hown
    refine ⟨.owned t (depth + 1), by simp [RecursiveLock.next], ht, hown, ?_, ?_⟩
    · simp [hhigh]
    · dsimp only
      omega
  | fresh generation hle =>
    have henc : Encodes T { obj with low := T.tid t, high := 1, generation := generation } live
        (.owned t 0) := ⟨ht, rfl, rfl, show (1 : Int) ≤ intMax by decide⟩
    cases l with
    | free | abandoned => exact ⟨_, rfl, henc⟩
    | owned u depth =>
      have hu := T.pos u
      have := h.2.1
      omega

lemma Encodes.release (h : Encodes T obj live l) {t : ι} (hrel : Releases (T.tid t) obj obj') :
    ∃ l', l.next (.released t) = some l' ∧ Encodes T obj' live l' := by
  have hown : obj.low = T.tid t := by cases hrel <;> assumption
  obtain ⟨depth, rfl, hlive, hhigh, hmax⟩ := h.owner hown
  cases depth with
  | zero =>
    cases hrel with
    | inner _ hlt => omega
    | last _ _ _ => exact ⟨.free, by simp [RecursiveLock.next], rfl⟩
  | succ depth =>
    cases hrel with
    | inner _ hlt =>
      exact ⟨.owned t depth, by simp [RecursiveLock.next], hlive, hown, by dsimp only; omega,
        by dsimp only; omega⟩
    | last _ hle _ => omega

lemma Encodes.exit (h : Encodes T obj live l) (t : ι) : ∃ l', l.next (.exited t) = some l' ∧
      Encodes T (wfusyncAbandonMutex (T.tid t) obj).2 (update live t false) l' := by
  by_cases hown : obj.low = T.tid t
  · obtain ⟨depth, rfl, -, hhigh, -⟩ := h.owner hown
    have hpos := T.pos t
    refine ⟨.abandoned, by simp [RecursiveLock.next], ?_⟩
    simp only [Encodes, wfusyncAbandonMutex]
    rw [if_neg (by omega)]
    dsimp only
    omega
  have hsame : (wfusyncAbandonMutex (T.tid t) obj).2 = obj := by
    unfold wfusyncAbandonMutex
    rw [if_pos (.inl hown)]
  rw [hsame]
  cases l with
  | free | abandoned => exact ⟨_, rfl, h⟩
  | owned u depth =>
    have htu : t ≠ u := fun hc => hown (hc ▸ h.2.1)
    refine ⟨.owned u depth, by simp [RecursiveLock.next, htu], ?_, h.2⟩
    rw [update_of_ne htu.symm]
    exact h.1

end Encodes

lemma created_refines {s : MutexRun ι} (h : s.Created T) : Refines T s := by
  obtain ⟨-, ⟨hlow, -, hhist⟩ | ⟨t, ht, hlow, hhigh, hhist⟩⟩ := h
  · exact ⟨.free, by rw [hhist]; rfl, hlow⟩
  · refine ⟨.owned t 0, by rw [hhist]; rfl, ht, hlow, hhigh, ?_⟩
    rw [hhigh]
    decide

lemma refines_step {s s' : MutexRun ι} {a : MutexAct ι} (h : Refines T s)
    (hgood : Countable T s a) (hstep : mutexStep T s a = some s') : Refines T s' := by
  obtain ⟨l, hl, henc⟩ := h
  cases a with
  | acquire t path =>
    simp only [mutexStep, ite_none_right_eq_some, some.injEq] at hstep
    obtain ⟨hlive, rfl⟩ := hstep
    have hspec := acquirePath_spec (T.tid t) path (fun ho => (henc.range t ho).1)
      (fun ho => (henc.range t ho).2) (fun hp ho => by subst hp; exact hgood ho)
    rcases hspec with ⟨hok, hacq⟩ | ⟨hok, hsame⟩
    · obtain ⟨l', hnext, henc'⟩ := henc.acquire hlive hacq
      exact ⟨l', by simp [hok, RecursiveLock.replay, hl, hnext], henc'⟩
    · exact ⟨l, by simpa [hok] using hl, by simpa [hsame] using henc⟩
  | releaseClient t generation =>
    simp only [mutexStep, ite_none_right_eq_some, some.injEq] at hstep
    obtain ⟨hlive, rfl⟩ := hstep
    rcases releaseMutex_client_spec (T.tid t) (s := s.obj) generation with
      ⟨hok, hrel⟩ | ⟨hok, hsame⟩
    · obtain ⟨l', hnext, henc'⟩ := henc.release hrel
      exact ⟨l', by simp [hok, RecursiveLock.replay, hl, hnext], henc'⟩
    · exact ⟨l, by simpa [hok] using hl, by simpa [hsame] using henc⟩
  | releaseServer t =>
    simp only [mutexStep, ite_none_right_eq_some, some.injEq] at hstep
    obtain ⟨hlive, rfl⟩ := hstep
    rcases releaseMutex_server_spec (T.tid t) (s := s.obj) with ⟨hok, hrel⟩ | ⟨hok, hsame⟩
    · obtain ⟨l', hnext, henc'⟩ := henc.release hrel
      exact ⟨l', by simp [hok, RecursiveLock.replay, hl, hnext], henc'⟩
    · exact ⟨l, by simpa [hok] using hl, by simpa [hsame] using henc⟩
  | exit t =>
    simp only [mutexStep, ite_none_right_eq_some, some.injEq] at hstep
    obtain ⟨hlive, rfl⟩ := hstep
    obtain ⟨l', hnext, henc'⟩ := henc.exit t
    exact ⟨l', by simp [RecursiveLock.replay, hl, hnext], henc'⟩
  | start t =>
    simp only [mutexStep, ite_none_left_eq_some, some.injEq] at hstep
    obtain ⟨hdead, rfl⟩ := hstep
    refine ⟨l, hl, ?_⟩
    cases l with
    | free => exact henc
    | abandoned => exact henc
    | owned u depth =>
      refine ⟨?_, henc.2⟩
      by_cases hut : u = t
      · simp [hut]
      · simpa [hut] using henc.1
  | flags multiWaiters serverWaiters =>
    simp only [mutexStep, some.injEq] at hstep
    subst hstep
    refine ⟨l, hl, ?_⟩
    cases l with
    | free => exact henc
    | abandoned => exact henc
    | owned u depth => exact henc

/-- What a recursive mutex promises about the word, in terms of the history alone. -/
structure RecursiveMutex (T : ThreadIds ι) (s : MutexRun ι) : Prop where
  lock : Refines T s
  unique : ∀ t u, 0 < holds s.history t → 0 < holds s.history u → t = u
  owner : ∀ t, s.obj.low = T.tid t ↔ 0 < holds s.history t
  count : ∀ t, s.obj.low = T.tid t → s.live t = true ∧ s.obj.high = holds s.history t
  free : s.obj.low ≤ 0 ↔ ∀ t, holds s.history t = 0

lemma Encodes.low_eq_tid {obj : WfusyncState} {live : ι → Bool} {l : RecursiveLock ι}
    (h : Encodes T obj live l) (t : ι) : obj.low = T.tid t ↔ 0 < l.count t := by
  rw [RecursiveLock.count_pos_iff]
  constructor
  · intro hown
    obtain ⟨depth, hl, -⟩ := h.owner hown
    exact ⟨depth, hl⟩
  · rintro ⟨depth, rfl⟩
    exact h.2.1

lemma Encodes.low_nonpos {obj : WfusyncState} {live : ι → Bool} {l : RecursiveLock ι}
    (h : Encodes T obj live l) : obj.low ≤ 0 ↔ ∀ t, l.count t = 0 := by
  cases l with
  | free =>
    have hlow : obj.low = 0 := h
    simp [hlow, RecursiveLock.count]
  | abandoned =>
    have hlow : obj.low < 0 := h
    simp [hlow.le, RecursiveLock.count]
  | owned t depth =>
    have hpos := T.pos t
    have hlow := h.2.1
    constructor
    · intro hle
      omega
    · intro hzero
      have ht := hzero t
      simp only [RecursiveLock.count, if_true] at ht
      omega

lemma Refines.acquire_step {s s' : MutexRun ι} {t : ι} {path : AcquirePath} (h : Refines T s)
    (hgood : Countable T s (.acquire t path))
    (hstep : mutexStep T s (.acquire t path) = some s') :
    s'.history = .acquired t :: s.history ∨ (s'.obj = s.obj ∧ s'.history = s.history) := by
  obtain ⟨l, -, henc⟩ := h
  simp only [mutexStep, ite_none_right_eq_some, some.injEq] at hstep
  obtain ⟨-, rfl⟩ := hstep
  have hspec := acquirePath_spec (T.tid t) path (fun ho => (henc.range t ho).1)
    (fun ho => (henc.range t ho).2) (fun hp ho => by subst hp; exact hgood ho)
  rcases hspec with ⟨hok, -⟩ | ⟨hok, hsame⟩
  · exact .inl (by simp [hok])
  · exact .inr ⟨hsame, by simp [hok]⟩

lemma Refines.recursiveMutex {s : MutexRun ι} (h : Refines T s) : RecursiveMutex T s := by
  obtain ⟨l, hl, henc⟩ := h
  have hcount : ∀ t, holds s.history t = l.count t := holds_eq_count hl
  refine ⟨⟨l, hl, henc⟩, ?_, ?_, ?_, ?_⟩
  · intro t u ht hu
    rw [hcount] at ht hu
    exact RecursiveLock.count_pos_unique ht hu
  · intro t
    rw [hcount]
    exact henc.low_eq_tid t
  · intro t hown
    obtain ⟨depth, rfl, hlive, hhigh, -⟩ := henc.owner hown
    refine ⟨hlive, ?_⟩
    rw [hcount, hhigh]
    simp [RecursiveLock.count]
  · simp only [hcount]
    exact henc.low_nonpos

/-- As long as no server wait is satisfied for an owner whose count is the largest `int`, the
mutex is a recursive lock with the history of its successful operations, and an attempt that
counts no acquisition leaves the word as it was. -/
theorem mutex_refines_recursive_lock (T : ThreadIds ι) {s : MutexRun ι}
    (h : Reaches (mutexStep T) (Countable T) (MutexRun.Created T) s) :
    RecursiveMutex T s ∧
      ∀ t path s', Countable T s (.acquire t path) →
        mutexStep T s (.acquire t path) = some s' →
        s'.history = .acquired t :: s.history ∨ (s'.obj = s.obj ∧ s'.history = s.history) := by
  have href : Refines T s :=
    h.invariant (fun _ => created_refines) fun _ _ _ => refines_step
  exact ⟨href.recursiveMutex, fun t path s' hgood hstep => href.acquire_step hgood hstep⟩

def twoThreads : ThreadIds (Fin 2) where
  tid t := t.val + 1
  pos t := by omega
  injective t u h := by
    have : (t.val : Int) + 1 = u.val + 1 := h
    omega

/-- Both threads alive, the mutex owned by thread 0 with the given count and history. -/
def ownedRun (high : Int) (history : List (LockEvent (Fin 2))) : MutexRun (Fin 2) :=
  ⟨⟨1, high, 0, ⟨.mutex, false, false, false⟩⟩, fun _ => true, history⟩

/-- A thread that owns a mutex twice and gives one level back still owns it once. -/
theorem mutex_refines_recursive_lock_twice :
    RecursiveMutex twoThreads (ownedRun 1 [.released 0, .acquired 0, .acquired 0]) := by
  have hcreated : Reaches (mutexStep twoThreads) (Countable twoThreads)
      (MutexRun.Created twoThreads) (ownedRun 1 [.acquired 0]) :=
    .start ⟨rfl, .inr ⟨0, rfl, rfl, rfl, rfl⟩⟩
  have htwice : Reaches (mutexStep twoThreads) (Countable twoThreads)
      (MutexRun.Created twoThreads) (ownedRun 2 [.acquired 0, .acquired 0]) :=
    hcreated.next (a := .acquire 0 .waitMutex) (by trivial) rfl
  exact (mutex_refines_recursive_lock twoThreads
    (htwice.next (a := .releaseServer 0) (by trivial) rfl)).1

lemma ownedRun_reachable (n : ℕ) (hn : (n : Int) < intMax) :
    Reachable (mutexStep twoThreads) (MutexRun.Created twoThreads)
      (ownedRun (n + 1) (List.replicate (n + 1) (.acquired 0))) := by
  induction n with
  | zero => exact .start ⟨rfl, .inr ⟨0, rfl, rfl, rfl, rfl⟩⟩
  | succ n ih =>
    refine (ih (by omega)).next (a := .acquire 0 .waitMutex) trivial ?_
    have hne : ((n : Int) + 1) ≠ intMax := by omega
    simp [mutexStep, ownedRun, AcquirePath.attempt, consumeMutexState, wfusyncLockGranted,
      consumeMutexStateLocked, twoThreads, hne, List.replicate_succ]

lemma holds_replicate (n : ℕ) : holds (List.replicate n (.acquired (0 : Fin 2))) 0 = n := by
  induction n with
  | zero => rfl
  | succ n ih =>
    rw [List.replicate_succ, holds, ih]
    simp [LockEvent.apply]

/-- One server wait too many wraps the count, and the next release frees the mutex under an
owner that still has `INT_MAX` acquisitions to release. -/
theorem mutex_freed_early :
    ¬ ∀ s, Reachable (mutexStep twoThreads) (MutexRun.Created twoThreads) s →
      RecursiveMutex twoThreads s := by
  intro hall
  have hfull := ownedRun_reachable 2147483646 (by decide)
  generalize hhist : List.replicate (2147483646 + 1) (LockEvent.acquired (0 : Fin 2)) = es at hfull
  have hes : holds es 0 = 2147483647 := by
    rw [← hhist, holds_replicate]
    rfl
  have hwrap : Reachable (mutexStep twoThreads) (MutexRun.Created twoThreads)
      (ownedRun (-2147483648) (.acquired 0 :: es)) :=
    hfull.next (a := .acquire 0 .serverWait) trivial rfl
  have hfreed : Reachable (mutexStep twoThreads) (MutexRun.Created twoThreads)
      ⟨⟨0, 0, 0, ⟨.mutex, false, false, false⟩⟩, fun _ => true, .released 0 :: .acquired 0 :: es⟩ :=
    hwrap.next (a := .releaseServer 0) trivial rfl
  have hzero := (hall _ hfreed).free.mp le_rfl 0
  simp [holds, LockEvent.apply, hes] at hzero

end WineForge.WfuSync
