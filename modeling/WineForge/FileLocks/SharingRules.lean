import WineForge.FileLocks.Holes

/-!
# The sharing rules of byte-range locks

A request is granted when no lock stands in its way. Two ranges with bytes meet in a common byte;
an empty range meets the ranges that have bytes on both sides of its position.
-/

namespace WineForge.FileLocks

open Library List

def FileLock.Straight (lock : FileLock) : Prop :=
  lock.stop = 0 ∨ lock.start ≤ lock.stop

lemma FileLock.Straight.le {lock : FileLock} (h : lock.Straight) :
    lock.start.toNat ≤ endNat lock.stop :=
  (end_compare lock.start lock.stop).2.2.1.mp h

/-- The range is empty, and the other one has bytes before and behind its position. -/
def FileLock.Inside (lock lock' : FileLock) : Prop :=
  lock.start.toNat = endNat lock.stop ∧ lock'.start.toNat < lock.start.toNat ∧
    lock.start.toNat < endNat lock'.stop

def FileLock.Meets (lock lock' : FileLock) : Prop :=
  (∃ byte, lock.covers byte ∧ lock'.covers byte) ∨ lock.Inside lock' ∨ lock'.Inside lock

lemma lockOverlaps_eq (lock : FileLock) (start stop : FilePos) :
    lockOverlaps lock start stop = true ↔
      start.toNat < endNat lock.stop ∧ lock.start.toNat < endNat stop := by
  have hbehind := (end_compare start lock.stop).1
  have hbefore := (end_compare lock.start stop).1
  unfold lockOverlaps
  rw [← not_le, ← not_le, ← hbehind, ← hbefore]
  split_ifs with h₁ h₂
  · simp [h₁]
  · simp [h₂]
  · simp only [true_iff]
    exact ⟨h₁, h₂⟩

lemma lockOverlaps_iff {lock lock' : FileLock} (h : lock.Straight) (h' : lock'.Straight) :
    lockOverlaps lock lock'.start lock'.stop = true ↔ lock.Meets lock' := by
  have hle := h.le
  have hle' := h'.le
  rw [lockOverlaps_eq]
  unfold FileLock.Meets FileLock.Inside FileLock.covers
  constructor
  · rintro ⟨h₁, h₂⟩
    by_cases hempty : lock.start.toNat = endNat lock.stop
    · exact .inr (.inl ⟨hempty, by omega, h₂⟩)
    · by_cases hempty' : lock'.start.toNat = endNat lock'.stop
      · exact .inr (.inr ⟨hempty', by omega, h₁⟩)
      · exact .inl ⟨max lock.start.toNat lock'.start.toNat, by omega, by omega⟩
  · rintro (⟨byte, h₁, h₂⟩ | ⟨h₁, h₂, h₃⟩ | ⟨h₁, h₂, h₃⟩)
    · exact ⟨by omega, by omega⟩
    · exact ⟨by omega, h₃⟩
    · exact ⟨h₃, by omega⟩

def requested (fd process : ℕ) (shared : Bool) (start count : FilePos) : FileLock :=
  ⟨fd, process, shared, start, start + count⟩

lemma wraps_iff (start count : FilePos) : (start + count ≠ 0 ∧ start + count < start) ↔
      18446744073709551616 < start.toNat + count.toNat := by
  have hstart := start.toNat_lt
  have hcount := count.toNat_lt
  rw [UInt64.lt_iff_toNat_lt, ne_eq, ← UInt64.toNat_inj, UInt64.toNat_add]
  simp only [UInt64.toNat_zero]
  omega

variable {start count : FilePos} {shared : Bool}

lemma requested_straight {fd process : ℕ} (h : start.toNat + count.toNat ≤ 18446744073709551616) :
    (requested fd process shared start count).Straight := by
  have hnot := mt (wraps_iff start count).mp (not_lt.mpr h)
  by_cases hzero : start + count = 0
  · exact .inl hzero
  · exact .inr (UInt64.not_lt.mp fun hlt => hnot ⟨hzero, hlt⟩)

lemma removeUnixLocks_locks (env : UnixEnv) (fd : ℕ) (start stop : FilePos) (s : InodeState) :
    (removeUnixLocks env fd start stop s).locks = s.locks := by
  unfold removeUnixLocks
  split
  · rfl
  split
  · rfl
  simp only
  split
  · rfl
  · split
    · rfl
    · split <;> rfl

lemma inodeClosePending_locks (s : InodeState) : (inodeClosePending s).locks = s.locks := by
  unfold inodeClosePending
  split <;> rfl

lemma removeLock_locks (env : UnixEnv) (removeUnix : Bool) (p : FileLock → Bool)
    (s : InodeState) : (removeLock env removeUnix p s).locks = s.locks.eraseP p := by
  unfold removeLock
  split
  · rename_i hnone
    rw [eraseP_of_forall_not]
    intro lock hlock
    rw [find?_eq_none] at hnone
    exact hnone lock hlock
  have hfinish : ∀ s' : InodeState, s'.locks = s.locks.eraseP p →
      (if s'.locks = [] then inodeClosePending s' else s').locks = s.locks.eraseP p := by
    intro s' hs'
    split
    · rw [inodeClosePending_locks, hs']
    · exact hs'
  apply hfinish
  split
  · exact removeUnixLocks_locks ..
  · rfl

lemma removeProcessLocks_sublist (env : UnixEnv) (process n : ℕ) (s : InodeState) :
    (removeProcessLocks env process n s).locks.Sublist s.locks := by
  induction n generalizing s with
  | zero => exact List.Sublist.refl _
  | succ n ih =>
    have hrest := ih (removeLock env true (·.process == process) s)
    rw [removeLock_locks] at hrest
    exact hrest.trans eraseP_sublist

lemma removeFdLocksLoop_sublist (env : UnixEnv) (fd n : ℕ) (range : FilePos × FilePos)
    (s : InodeState) : (removeFdLocksLoop env fd n range s).2.locks.Sublist s.locks := by
  induction n generalizing range s with
  | zero => exact List.Sublist.refl _
  | succ n ih =>
    simp only [removeFdLocksLoop]
    split
    · exact List.Sublist.refl _
    · refine (ih _ _).trans ?_
      rw [removeLock_locks]
      exact eraseP_sublist

lemma destroyFd_sublist (env : UnixEnv) (fd : ℕ) (s : InodeState) :
    (destroyFd env fd s).locks.Sublist s.locks := by
  have hfd : (removeFdLocks env fd s).locks.Sublist s.locks := by
    unfold removeFdLocks
    simp only
    split
    · rw [removeUnixLocks_locks]
      exact removeFdLocksLoop_sublist ..
    · exact removeFdLocksLoop_sublist ..
  unfold destroyFd
  simp only
  split <;> exact hfd

def unixGrants (env : UnixEnv) (lock : FileLock) (u : UnixState) : Prop :=
  (setUnixLock env lock.fd lock.start lock.stop (if lock.shared then .read else .write) u).1 = none

lemma addLock_spec (env : UnixEnv) (lock : FileLock) (s : InodeState) :
    ((addLock env lock s).1 = none ↔ env.alloc = true ∧ unixGrants env lock s.unix) ∧
      ((addLock env lock s).1 = none → (addLock env lock s).2.locks = s.locks ++ [lock]) ∧
      ((addLock env lock s).1 ≠ none → (addLock env lock s).2.locks = s.locks) := by
  unfold addLock unixGrants
  by_cases halloc : env.alloc = true
  · by_cases hunix : (setUnixLock env lock.fd lock.start lock.stop
        (if lock.shared then .read else .write) s.unix).1 = none
    · simp [halloc, hunix]
    · simp [halloc, hunix]
  · simp [halloc]

def FileLock.Forbids (lock new : FileLock) : Prop :=
  lock.Meets new ∧ ¬ (new.shared = true ∧ (lock.shared = true ∨ lock.fd = new.fd))

/-- The conditions of `lock_fd`. -/
structure Grants (env : UnixEnv) (s : InodeState) (fd process : ℕ) (start count : FilePos)
    (shared : Bool) : Prop where
  straight : start.toNat + count.toNat ≤ 18446744073709551616
  free : ∀ lock ∈ s.locks, ¬ lock.Forbids (requested fd process shared start count)
  alloc : env.alloc = true
  unix : unixGrants env (requested fd process shared start count) s.unix

variable {fd : ℕ}

lemma blocks_iff {lock : FileLock} (h : lock.Straight) (process : ℕ)
    (hstraight : start.toNat + count.toNat ≤ 18446744073709551616) :
    blocks fd shared start (start + count) lock = true ↔
      lock.Forbids (requested fd process shared start count) := by
  have hnew : (requested fd process shared start count).Straight := requested_straight hstraight
  have hmeets := lockOverlaps_iff h hnew
  unfold blocks FileLock.Forbids
  rw [← hmeets]
  cases shared <;> simp [requested]

variable {s : InodeState}

lemma lockFd_free (env : UnixEnv) (process : ℕ) (wait : Bool)
    (hstraight : start.toNat + count.toNat ≤ 18446744073709551616)
    (hfree : s.locks.find? (blocks fd shared start (start + count)) = none) :
    ((lockFd env fd process start count shared wait s).1 = ⟨none, none⟩ ↔
        (addLock env (requested fd process shared start count) s).1 = none) ∧
      (lockFd env fd process start count shared wait s).2 =
        (addLock env (requested fd process shared start count) s).2 := by
  have hnot := mt (wraps_iff start count).mp (not_lt.mpr hstraight)
  unfold lockFd
  simp only [if_neg hnot, hfree]
  split
  · rename_i hconflict
    refine ⟨iff_of_false (fun h => (by cases h)) ?_, rfl⟩
    intro hnone
    have hstatus := hconflict.1
    rw [show (addLock env ⟨fd, process, shared, start, start + count⟩ s).1 = none from hnone]
      at hstatus
    cases hstatus
  · exact ⟨⟨fun h => congrArg LockReply.status h, fun h => by rw [requested] at h; rw [h]⟩, rfl⟩

lemma lockFd_refused (env : UnixEnv) (process : ℕ) (wait : Bool)
    (h : 18446744073709551616 < start.toNat + count.toNat ∨
      s.locks.find? (blocks fd shared start (start + count)) ≠ none) :
    (lockFd env fd process start count shared wait s).1 ≠ ⟨none, none⟩ ∧
      (lockFd env fd process start count shared wait s).2 = s := by
  unfold lockFd
  by_cases hwrap : start + count ≠ 0 ∧ start + count < start
  · rw [if_pos hwrap]
    exact ⟨fun h => (by cases h), rfl⟩
  rw [if_neg hwrap]
  have hblocked := h.resolve_left (mt (wraps_iff start count).mpr hwrap)
  obtain ⟨lock, hlock⟩ := Option.ne_none_iff_exists'.mp hblocked
  rw [hlock]
  simp only
  split <;> exact ⟨fun h => (by cases h), rfl⟩

/-- Which requests are granted, and what they leave. -/
theorem lockFd_spec (env : UnixEnv) (fd process : ℕ) (start count : FilePos) (shared wait : Bool)
    (hs : ∀ lock ∈ s.locks, lock.Straight) :
    ((lockFd env fd process start count shared wait s).1 = ⟨none, none⟩ ↔
        Grants env s fd process start count shared) ∧
      ((lockFd env fd process start count shared wait s).1 = ⟨none, none⟩ →
        (lockFd env fd process start count shared wait s).2.locks =
          s.locks ++ [requested fd process shared start count]) ∧
      ((lockFd env fd process start count shared wait s).1 ≠ ⟨none, none⟩ →
        (lockFd env fd process start count shared wait s).2.locks = s.locks) := by
  by_cases hstraight : start.toNat + count.toNat ≤ 18446744073709551616
  · by_cases hfree : s.locks.find? (blocks fd shared start (start + count)) = none
    · obtain ⟨hiff, hstate⟩ := lockFd_free env process wait hstraight hfree
      obtain ⟨hgrant, hadded, hsame⟩ :=
        addLock_spec env (requested fd process shared start count) s
      rw [hiff, hstate]
      refine ⟨hgrant.trans ⟨fun h => ⟨hstraight, fun lock hlock => ?_, h.1, h.2⟩,
        fun h => ⟨h.alloc, h.unix⟩⟩, hadded, fun h => hsame (mt hiff.mpr h)⟩
      rw [← blocks_iff (hs lock hlock) process hstraight]
      exact find?_eq_none.mp hfree lock hlock
    obtain ⟨hno, hstate⟩ := lockFd_refused env process wait (.inr hfree)
    refine ⟨iff_of_false hno fun h => hfree ?_, fun h => absurd h hno, fun _ => by rw [hstate]⟩
    rw [find?_eq_none]
    intro lock hlock
    rw [blocks_iff (hs lock hlock) process hstraight]
    exact h.free lock hlock
  · obtain ⟨hno, hstate⟩ := lockFd_refused env process wait (.inl (not_le.mp hstraight))
    exact ⟨iff_of_false hno fun h => hstraight h.straight, fun h => absurd h hno,
      fun _ => by rw [hstate]⟩

/-- What two locks of an inode have in common: they are both shared, or the later one is a shared
lock of the same fd. -/
def FileLock.Agrees (lock later : FileLock) : Prop :=
  lock.Meets later →
    (lock.shared = true ∧ later.shared = true) ∨ (later.shared = true ∧ later.fd = lock.fd)

structure LocksInv (s : InodeState) : Prop where
  straight : ∀ lock ∈ s.locks, lock.Straight
  agree : s.locks.Pairwise FileLock.Agrees

lemma LocksInv.sublist {s s' : InodeState} (h : LocksInv s) (hsub : s'.locks.Sublist s.locks) :
    LocksInv s' where
  straight lock hlock := h.straight lock (hsub.subset hlock)
  agree := h.agree.sublist hsub

lemma agrees_of_not_forbids {lock new : FileLock} (h : ¬ lock.Forbids new) : lock.Agrees new := by
  intro hmeets
  unfold FileLock.Forbids at h
  rw [not_and, not_not] at h
  obtain ⟨hshared, hlock | hfd⟩ := h hmeets
  · exact .inl ⟨hlock, hshared⟩
  · exact .inr ⟨hshared, hfd.symm⟩

lemma LocksInv.lock (h : LocksInv s) (env : UnixEnv) (fd process : ℕ)
    (start count : FilePos) (shared wait : Bool) :
    LocksInv (lockFd env fd process start count shared wait s).2 := by
  obtain ⟨hgrants, hadded, hsame⟩ :=
    lockFd_spec env fd process start count shared wait h.straight
  by_cases hgranted : (lockFd env fd process start count shared wait s).1 = ⟨none, none⟩
  · have hg := hgrants.mp hgranted
    have hlocks := hadded hgranted
    refine ⟨fun lock hlock => ?_, ?_⟩
    · rw [hlocks] at hlock
      rcases mem_append.mp hlock with hold | hnew
      · exact h.straight lock hold
      · rw [mem_singleton.mp hnew]
        exact requested_straight hg.straight
    rw [hlocks, pairwise_append]
    refine ⟨h.agree, pairwise_singleton _ _, fun lock hlock new hnew => ?_⟩
    rw [mem_singleton.mp hnew]
    exact agrees_of_not_forbids (hg.free lock hlock)
  · exact h.sublist (by rw [hsame hgranted])

lemma unlockFd_sublist (env : UnixEnv) (fd : ℕ) (start count : FilePos) (s : InodeState) :
    (unlockFd env fd start count s).2.locks.Sublist s.locks := by
  unfold unlockFd
  simp only
  split
  · rw [removeLock_locks]
    exact eraseP_sublist
  · exact List.Sublist.refl _

lemma LocksInv.step {s s' : InodeState} {a : LockAct} (h : LocksInv s)
    (hstep : lockStep s a = some s') : LocksInv s' := by
  cases a with
  | lock env fd process start count shared wait =>
    cases hstep
    exact h.lock env fd process start count shared wait
  | unlock env fd start count =>
    cases hstep
    exact h.sublist (unlockFd_sublist env fd start count s)
  | exitProcess env process =>
    cases hstep
    exact h.sublist (removeProcessLocks_sublist env process _ s)
  | destroy env fd =>
    cases hstep
    exact h.sublist (destroyFd_sublist env fd s)

theorem locks_inv (h : Reachable lockStep InodeState.Initial s) : LocksInv s := by
  apply h.invariant (P := LocksInv)
  · intro u hu
    refine ⟨fun lock hlock => ?_, ?_⟩
    · rw [hu.1] at hlock
      cases hlock
    · rw [hu.1]
      exact .nil
  · exact fun _ _ _ hs _ hstep => hs.step hstep

/-- The lock that `unlock_fd` looks for, whichever process owns it. -/
def FileLock.Matches (lock : FileLock) (fd : ℕ) (start count : FilePos) : Prop :=
  lock.fd = fd ∧ lock.start = start ∧ lock.stop = start + count

lemma sameRange_iff {lock : FileLock} :
    sameRange fd start (start + count) lock = true ↔ lock.Matches fd start count := by
  simp [sameRange, FileLock.Matches]

lemma unlockFd_spec (env : UnixEnv) (fd : ℕ) (start count : FilePos) (s : InodeState) :
    ((∃ lock ∈ s.locks, lock.Matches fd start count) →
        (unlockFd env fd start count s).1 = none ∧
          ∃ before lock after, s.locks = before ++ lock :: after ∧
            lock.Matches fd start count ∧ (∀ l ∈ before, ¬ l.Matches fd start count) ∧
            (unlockFd env fd start count s).2.locks = before ++ after) ∧
      ((¬ ∃ lock ∈ s.locks, lock.Matches fd start count) →
        unlockFd env fd start count s = (some .rangeNotLocked, s)) := by
  have hany : s.locks.any (sameRange fd start (start + count)) = true ↔
      ∃ lock ∈ s.locks, lock.Matches fd start count := by
    rw [any_eq_true]
    simp only [sameRange_iff]
  unfold unlockFd
  constructor
  · intro hsome
    obtain ⟨lock, hlock, hmatch⟩ := hsome
    rw [if_pos (hany.mpr ⟨lock, hlock, hmatch⟩)]
    refine ⟨rfl, ?_⟩
    obtain ⟨found, before, after, hbefore, hfound, hsplit, herase⟩ :=
      exists_of_eraseP hlock (sameRange_iff.mpr hmatch)
    refine ⟨before, found, after, hsplit, sameRange_iff.mp hfound, fun l hl => ?_, ?_⟩
    · rw [← sameRange_iff]
      exact hbefore l hl
    · rw [removeLock_locks]
      exact herase
  · intro hnone
    rw [if_neg (mt hany.mp hnone)]

def newInode : InodeState where
  locks := []
  unix := ⟨fun _ => .unlock, offTMax, fun _ => true⟩
  pending := 0
  fault := none

lemma newInode_initial : newInode.Initial :=
  ⟨rfl, rfl, rfl, fun _ => rfl, rfl, rfl⟩

def quietEnv : UnixEnv :=
  ⟨true, fun _ _ _ => .ok⟩

def tenBytesActs : List LockAct :=
  [.lock quietEnv 1 1 0 10 false false]

def requestBytes (start count : FilePos) (byte : ℕ) : Prop :=
  start.toNat ≤ byte ∧ byte < start.toNat + count.toNat

end WineForge.FileLocks
