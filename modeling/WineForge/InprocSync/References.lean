import WineForge.Library.Census
import WineForge.Library.Transition
import WineForge.InprocSync.State

/-!
# References to the cache

The thread with `fd_cache_mutex` is the only one that fills an entry or marks it as closed, and the
count of an entry is the number of references to it that threads hold, and one for the handle.
-/

namespace WineForge.InprocSync

open Function Library

variable {T : Type} {s s' : State T} {t : T}

def Caller.locked : Caller → Bool
  | get _ => false
  | getLocked _ | close _ => true

def After.locked : After → Bool
  | miss c => c.locked
  | again _ | close _ => true
  | done => false

def Pc.locked : Pc → Bool
  | idle | lockGet _ | lockClose _ | checkType _ _ | checkAccess _ _ => false
  | lookup c | load c | cas c _ | checkClosed c => c.locked
  | releaseFd _ after | releaseDec _ _ after | releaseClose _ after => after.locked
  | request _ | cache _ _ | cacheCheck _ _ | storeFd _ _ | storeAccess _ _ | storeType _ _
  | storeClosed _ _ | publish _ _ | unlock _ _ | setClosed _ | closeRequest _ | closeUnlock => true

lemma Caller.miss_locked (c : Caller) : c.miss.locked = c.locked := by
  cases c <;> rfl

lemma After.pc_locked (after : After) : after.pc.locked = after.locked := by
  cases after with
  | miss c => exact c.miss_locked
  | _ => rfl

def MutexInv (s : State T) : Prop := ∀ t, (s.pc t).locked = true ↔ s.mutex = some t

lemma MutexInv.unique (h : MutexInv s) {u : T} (ht : (s.pc t).locked = true)
    (hu : (s.pc u).locked = true) : t = u := by
  have hmutex := (h t).mp ht
  rw [(h u).mp hu] at hmutex
  exact (Option.some.inj hmutex).symm

section Mutex

variable [DecidableEq T] {pc : Pc}

lemma MutexInv.same (h : MutexInv s) (hmutex : s'.mutex = s.mutex)
    (hpc : s'.pc = update s.pc t pc) (hsame : pc.locked = (s.pc t).locked) :
    MutexInv s' := by
  intro u
  rw [hmutex, hpc, ← h u]
  by_cases heq : u = t
  · rw [heq, update_self, hsame]
  · rw [update_of_ne heq]

lemma MutexInv.acquire (h : MutexInv s) (hfree : s.mutex = none) (hmutex : s'.mutex = some t)
    (hpc : s'.pc = update s.pc t pc) (hlocked : pc.locked = true) : MutexInv s' := by
  intro u
  rw [hmutex, hpc]
  by_cases heq : u = t
  · rw [heq, update_self]
    exact iff_of_true hlocked rfl
  · rw [update_of_ne heq, h u, hfree]
    exact iff_of_false (by simp) fun hsome => heq (Option.some.inj hsome).symm

lemma MutexInv.release (h : MutexInv s) (hmutex : s'.mutex = none)
    (hpc : s'.pc = update s.pc t pc) (hlocked : (s.pc t).locked = true)
    (hunlocked : pc.locked = false) : MutexInv s' := by
  intro u
  rw [hmutex, hpc]
  by_cases heq : u = t
  · rw [heq, update_self, hunlocked]
    exact iff_of_false (by simp) (by simp)
  · rw [update_of_ne heq]
    exact iff_of_false (fun hu => heq (h.unique hu hlocked)) (by simp)

omit [DecidableEq T] in
lemma closeFd_frame (s : State T) (fd : Nat) :
    closeFd s fd = { s with fds := (closeFd s fd).fds, closes := (closeFd s fd).closes } := by
  unfold closeFd
  split <;> rfl

lemma enterSection_eq_some {c : Caller} : enterSection s t c = some s' ↔
    s.mutex = none ∧ s' = { s.setPc t (.lookup c) with mutex := some t } := by
  unfold enterSection
  cases hmutex : s.mutex with
  | some u => simp
  | none => simp [eq_comm]

lemma next_mutex (h : MutexInv s) (hnext : next s t = some s') : MutexInv s' := by
  unfold next at hnext
  cases hpc : s.pc t <;> simp only [hpc, Option.some.injEq, reduceCtorEq] at hnext
  case lockGet | lockClose =>
    obtain ⟨hfree, rfl⟩ := enterSection_eq_some.mp hnext
    exact h.acquire hfree rfl rfl rfl
  case lookup c | load c =>
    refine hnext ▸ h.same rfl rfl ?_
    rw [hpc]
    split
    · exact c.miss_locked
    · rfl
  case cas c val =>
    rw [← hnext]
    split
    · exact h.same rfl rfl (by rw [hpc]; rfl)
    refine h.same rfl rfl ?_
    rw [hpc]
    split
    · exact c.miss_locked
    · rfl
  case checkClosed c =>
    refine hnext ▸ h.same rfl rfl ?_
    rw [hpc]
    split
    · rfl
    · cases c <;> rfl
  case cache | checkAccess =>
    rw [← hnext]
    split <;> exact h.same rfl rfl (by rw [hpc]; rfl)
  case cacheCheck =>
    refine hnext ▸ h.same rfl rfl ?_
    rw [hpc]
    split <;> rfl
  case unlock req grant =>
    rw [← hnext]
    cases grant <;> exact h.release rfl rfl (by rw [hpc]; rfl) rfl
  case checkType =>
    refine hnext ▸ h.same rfl rfl ?_
    rw [hpc]
    split
    · rfl
    · split <;> rfl
  case releaseFd ref after =>
    cases ref <;> simp only [Option.some.injEq] at hnext <;>
      exact hnext ▸ h.same rfl rfl (by rw [hpc]; rfl)
  case releaseDec idx fd after =>
    refine hnext ▸ h.same rfl rfl ?_
    rw [hpc]
    split
    · rfl
    · exact after.pc_locked
  case releaseClose fd after =>
    rw [closeFd_frame] at hnext
    refine hnext ▸ h.same rfl rfl ?_
    rw [hpc]
    exact after.pc_locked
  case closeUnlock =>
    exact hnext ▸ h.release rfl rfl (by rw [hpc]; rfl) rfl
  all_goals exact hnext ▸ h.same rfl rfl (by rw [hpc]; rfl)

end Mutex

def Ref.refs (i : Nat) : Ref → Nat
  | cache idx => if idx = i then 1 else 0
  | stack _ => 0

def After.refs (i : Nat) : After → Nat
  | again handle => if handleToIndex handle = i then 1 else 0
  | _ => 0

def Pc.refs (i : Nat) : Pc → Nat
  | checkClosed c => if handleToIndex c.handle = i then 1 else 0
  | unlock _ (some grant) | checkType _ grant | checkAccess _ grant => grant.ref.refs i
  | releaseFd ref after => ref.refs i + after.refs i
  | releaseDec idx _ after => (if idx = i then 1 else 0) + after.refs i
  | releaseClose _ after => after.refs i
  | setClosed handle => if handleToIndex handle = i then 1 else 0
  | _ => 0

def State.refs (s : State T) (i : Nat) (t : T) : Nat :=
  (s.pc t).refs i + ((s.held t).map (·.ref.refs i)).sum

lemma Caller.miss_refs (c : Caller) (i : Nat) : c.miss.refs i = 0 := by
  cases c <;> rfl

lemma After.pc_refs (after : After) (i : Nat) : after.pc.refs i = after.refs i := by
  cases after with
  | miss c => exact c.miss_refs i
  | _ => rfl

section Counting

variable [DecidableEq T] {pc : Pc} {i : Nat}

lemma refs_same {held : List Grant} (hpc : s'.pc = update s.pc t pc)
    (hheld : s'.held = update s.held t held)
    (h : pc.refs i + (held.map (·.ref.refs i)).sum = s.refs i t) :
    ∀ u, s'.refs i u = s.refs i u := by
  intro u
  by_cases heq : u = t
  · rw [heq, ← h, State.refs, hpc, hheld, update_self, update_self]
  · rw [State.refs, hpc, hheld, update_of_ne heq, update_of_ne heq]
    rfl

lemma refs_add (hpc : s'.pc = update s.pc t pc) (hheld : s'.held = s.held)
    (h : pc.refs i = (s.pc t).refs i + 1) :
    ∀ u, s'.refs i u = s.refs i u + if u = t then 1 else 0 := by
  intro u
  rw [State.refs, State.refs, hpc, hheld]
  by_cases heq : u = t
  · rw [heq, update_self, h, if_pos rfl]
    omega
  · rw [update_of_ne heq, if_neg heq]
    rfl

lemma refs_remove (hpc : s'.pc = update s.pc t pc) (hheld : s'.held = s.held)
    (h : (s.pc t).refs i = pc.refs i + 1) :
    ∀ u, s.refs i u = s'.refs i u + if u = t then 1 else 0 := by
  intro u
  rw [State.refs, State.refs, hpc, hheld]
  by_cases heq : u = t
  · rw [heq, update_self, h, if_pos rfl]
    omega
  · rw [update_of_ne heq, if_neg heq]
    rfl

/-- The count is the number of references, with one more as long as the handle is open. -/
def Counted (s : State T) (i : Nat) : Prop :=
  ∃ n : Nat, Tally (s.refs i) n ∧
    (s.refcount i = n ∧ (n = 0 ∨ (s.sync i).closed = true) ∨
      s.refcount i = n + 1 ∧ (s.sync i).closed = false)

section

variable (h : Counted s i)

include h

lemma Counted.nonneg : 0 ≤ s.refcount i := by
  obtain ⟨n, _, hcount⟩ := h
  omega

lemma Counted.pos (ht : 0 < s.refs i t) : 0 < s.refcount i := by
  obtain ⟨n, htally, hcount⟩ := h
  have hpos := htally.pos ht
  omega

lemma Counted.same (hrefs : ∀ u, s'.refs i u = s.refs i u) (hcount : s'.refcount i = s.refcount i)
    (hclosed : s.refcount i ≠ 0 → (s'.sync i).closed = (s.sync i).closed) : Counted s' i := by
  obtain ⟨n, htally, hn⟩ := h
  refine ⟨n, htally.congr hrefs, ?_⟩
  rw [hcount]
  by_cases hzero : s.refcount i = 0
  · exact .inl ⟨by omega, by omega⟩
  · rw [hclosed hzero]
    exact hn

lemma Counted.acquire (hrefs : ∀ u, s'.refs i u = s.refs i u + if u = t then 1 else 0)
    (hold : s.refcount i ≠ 0) (hcount : s'.refcount i = s.refcount i + 1)
    (hclosed : (s'.sync i).closed = (s.sync i).closed) : Counted s' i := by
  obtain ⟨n, htally, hn⟩ := h
  refine ⟨n + 1, htally.add t hrefs, ?_⟩
  rw [hcount, hclosed]
  obtain ⟨hn, hclosed⟩ | ⟨hn, hopen⟩ := hn
  · exact .inl ⟨by omega, .inr (hclosed.resolve_left (by omega))⟩
  · exact .inr ⟨by omega, hopen⟩

lemma Counted.release (hrefs : ∀ u, s.refs i u = s'.refs i u + if u = t then 1 else 0)
    (hcount : s'.refcount i = s.refcount i - 1)
    (hclosed : (s'.sync i).closed = (s.sync i).closed) : Counted s' i := by
  obtain ⟨n, htally, hn⟩ := h
  obtain ⟨hpos, htally⟩ := htally.remove t hrefs
  refine ⟨n - 1, htally, ?_⟩
  rw [hcount, hclosed]
  obtain ⟨hn, hclosed⟩ | ⟨hn, hopen⟩ := hn
  · exact .inl ⟨by omega, .inr (hclosed.resolve_left (by omega))⟩
  · exact .inr ⟨by omega, hopen⟩

lemma Counted.close
    (hrefs : ∀ u, s'.refs i u = s.refs i u + if u = t then 1 else 0) (ht : 0 < s.refs i t)
    (hcount : s'.refcount i = s.refcount i) (hopen : (s.sync i).closed = false)
    (hclosed : (s'.sync i).closed = true) : Counted s' i := by
  obtain ⟨n, htally, hn⟩ := h
  have hpos := htally.pos ht
  refine ⟨n + 1, htally.add t hrefs, .inl ⟨?_, .inr hclosed⟩⟩
  obtain ⟨hn, hclosed⟩ | ⟨hn, _⟩ := hn
  · rw [hopen] at hclosed
    exact absurd hclosed (by simp; omega)
  · omega

lemma Counted.publish (hrefs : ∀ u, s'.refs i u = s.refs i u + if u = t then 1 else 0)
    (hold : s.refcount i = 0) (hcount : s'.refcount i = 2)
    (hopen : (s'.sync i).closed = false) : Counted s' i := by
  obtain ⟨n, htally, hn⟩ := h
  refine ⟨n + 1, htally.add t hrefs, .inr ⟨?_, hopen⟩⟩
  omega

end

end Counting

end WineForge.InprocSync
