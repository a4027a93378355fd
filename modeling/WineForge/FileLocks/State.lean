import WineForge.Library.Transition

/-!
# Byte-range locks of one inode

The locks of `server/fd.c` and the Unix locks that the server sets for them. One inode is
modelled, with any number of `struct fd` on it; the lists of locks of an fd and of a process are
the locks of the inode's list that name them, in the same order.
-/

namespace WineForge.FileLocks

open Function

/-- `file_pos_t`. -/
abbrev FilePos := UInt64

/-- `OFF_T_MAX`, for a 64-bit `off_t`. -/
def offTMax : FilePos := 0x7fffffffffffffff

def intMax : FilePos := 0x7fffffff

/-- `struct file_lock`; the region is `[start;stop)`. -/
structure FileLock where
  fd : ℕ
  process : ℕ
  shared : Bool
  start : FilePos
  stop : FilePos
  deriving DecidableEq, Repr

inductive LockStatus
  | invalidParameter | fileLockConflict | pending | accessDenied
  | noMemory | rangeNotLocked | fileError
  deriving DecidableEq, Repr

/-- `F_UNLCK`, `F_RDLCK` and `F_WRLCK`. -/
inductive UnixLockType
  | unlock | read | write
  deriving DecidableEq, Repr

/-- What `fcntl( F_SETLK )` answers. `EACCES` is a conflict when `F_GETLK` works and means that
the file system has no locks when it does not. -/
inductive FcntlReply
  | ok | conflict | unsupported | badf | inval | other
  deriving DecidableEq, Repr

/-- The surroundings of one server call: whether memory can be had, and what `fcntl` answers for
a type, a start and the current limit. -/
structure UnixEnv where
  alloc : Bool
  fcntl : UnixLockType → FilePos → FilePos → FcntlReply

/-- The Unix locks of the server on the inode, byte by byte, `max_unix_offset` and the flags
`fs_locks`. -/
structure UnixState where
  held : ℕ → UnixLockType
  maxOffset : FilePos
  fsLocks : ℕ → Bool

/-- The bytes that an `F_SETLK` call is about: a length of zero reaches to the largest offset, a
negative length goes backwards. -/
def flockBytes (start stop limit : FilePos) (byte : ℕ) : Bool :=
  if stop = 0 ∨ limit < stop then decide (start.toNat ≤ byte ∧ byte ≤ offTMax.toNat)
  else if start ≤ stop then decide (start.toNat ≤ byte ∧ byte < stop.toNat)
  else decide (stop.toNat ≤ byte ∧ byte < start.toNat)

def UnixState.setBytes (u : UnixState) (start stop : FilePos) (type : UnixLockType) : UnixState :=
  { u with held := fun byte => if flockBytes start stop u.maxOffset byte then type else u.held byte }

/-- The loop of `set_unix_lock`; the status is `none` for success. It is repeated at most once
with a read lock and once with a smaller limit, so three rounds are enough. -/
def setUnixLockLoop (env : UnixEnv) (fd : ℕ) (start stop : FilePos) :
    ℕ → UnixLockType → UnixState → Option LockStatus × UnixState
  | 0, _, u => (some .fileError, u)
  | rounds + 1, type, u =>
    if start = stop then (none, u)
    else if u.maxOffset < start then (none, u)
    else
      match env.fcntl type start u.maxOffset with
      | .ok => (none, u.setBytes start stop type)
      | .conflict => (some .fileLockConflict, u)
      | .unsupported => (none, { u with fsLocks := update u.fsLocks fd false })
      | .badf =>
        if type = .write then setUnixLockLoop env fd start stop rounds .read u
        else (some .accessDenied, u)
      | .inval =>
        if intMax < u.maxOffset then
          setUnixLockLoop env fd start stop rounds type { u with maxOffset := intMax }
        else (some .fileError, u)
      | .other => (some .fileError, u)

def setUnixLock (env : UnixEnv) (fd : ℕ) (start stop : FilePos) (type : UnixLockType)
    (u : UnixState) : Option LockStatus × UnixState :=
  if u.fsLocks fd then setUnixLockLoop env fd start stop 3 type u else (none, u)

def lockOverlaps (lock : FileLock) (start stop : FilePos) : Bool :=
  if lock.stop ≠ 0 ∧ lock.stop ≤ start then false
  else if stop ≠ 0 ∧ stop ≤ lock.start then false
  else true

/-! ### The list of holes

`remove_unix_locks` keeps the holes in a buffer of fixed size and links them with pointers; the
indices of the buffer stand for the pointers. -/

@[ext]
structure Hole where
  next : Option ℕ
  prev : Option ℕ
  start : FilePos
  stop : FilePos
  deriving DecidableEq, Repr

/-- What must not happen: a write behind the end of the buffer, a failed assertion, or a walk
along the links that does not end. -/
inductive HoleFault
  | overflow | assertion | endless
  deriving DecidableEq, Repr

/-- The buffer, `first`, and the index of `next`. -/
structure HoleBuffer where
  hole : ℕ → Hole
  first : Option ℕ
  used : ℕ

namespace HoleBuffer

def single (start stop : FilePos) : HoleBuffer where
  hole _ := ⟨none, none, start, stop⟩
  first := some 0
  used := 1

def setStart (b : HoleBuffer) (i : ℕ) (pos : FilePos) : HoleBuffer :=
  { b with hole := update b.hole i { b.hole i with start := pos } }

def setStop (b : HoleBuffer) (i : ℕ) (pos : FilePos) : HoleBuffer :=
  { b with hole := update b.hole i { b.hole i with stop := pos } }

def setPrev (b : HoleBuffer) (i : ℕ) (link : Option ℕ) : HoleBuffer :=
  { b with hole := update b.hole i { b.hole i with prev := link } }

def setNext (b : HoleBuffer) (i : ℕ) (link : Option ℕ) : HoleBuffer :=
  { b with hole := update b.hole i { b.hole i with next := link } }

/-- `cur->next->prev = cur->prev`, if there is a next hole. -/
def unlinkNext (b : HoleBuffer) (cur : ℕ) : HoleBuffer :=
  match (b.hole cur).next with
  | some next => b.setPrev next (b.hole cur).prev
  | none => b

/-- `cur->prev->next = cur->next`, or the new `first`. -/
def unlinkPrev (b : HoleBuffer) (cur : ℕ) : HoleBuffer :=
  match (b.hole cur).prev with
  | some prev => b.setNext prev (b.hole cur).next
  | none => { b with first := (b.hole cur).next }

def unlink (b : HoleBuffer) (cur : ℕ) : HoleBuffer :=
  (b.unlinkNext cur).unlinkPrev cur

/-- The new hole that follows a split; the link back of the hole behind it is left alone. -/
def split (b : HoleBuffer) (cur : ℕ) (lock : FileLock) : HoleBuffer where
  hole := update (update b.hole b.used
      ⟨(b.hole cur).next, some cur, lock.stop, (b.hole cur).stop⟩) cur
    { b.hole cur with next := some b.used, stop := lock.start }
  first := b.first
  used := b.used + 1

def walk (lock : FileLock) (capacity : ℕ) : ℕ → Option ℕ → HoleBuffer → Except HoleFault HoleBuffer
  | _, none, b => .ok b
  | 0, some _, _ => .error .endless
  | fuel + 1, some cur, b =>
    let h := b.hole cur
    if h.stop ≤ lock.start then walk lock capacity fuel h.next b
    else if lock.stop ≠ 0 ∧ lock.stop ≤ h.start then .ok b
    else if lock.start ≤ h.start then
      if lock.stop ≠ 0 ∧ lock.stop < h.stop then .ok (b.setStart cur lock.stop)
      else walk lock capacity fuel h.next ((b.setStart cur lock.stop).unlink cur)
    else if lock.stop = 0 ∨ h.stop ≤ lock.stop then
      if h.start < lock.start then walk lock capacity fuel h.next (b.setStop cur lock.start)
      else .error .assertion
    else if capacity ≤ b.used then .error .overflow
    else if lock.stop < h.stop ∧ lock.start < lock.stop then .ok (b.split cur lock)
    else .error .assertion

def cutAll (capacity : ℕ) : List FileLock → HoleBuffer → Except HoleFault HoleBuffer
  | [], b => .ok b
  | lock :: locks, b => do
    let b' ← b.walk lock capacity b.used b.first
    cutAll capacity locks b'

def collect (b : HoleBuffer) : ℕ → Option ℕ → Except HoleFault (List Hole)
  | _, none => .ok []
  | 0, some _ => .error .endless
  | fuel + 1, some cur => do
    let rest ← b.collect fuel (b.hole cur).next
    return b.hole cur :: rest

end HoleBuffer

/-- `pending` counts the descriptors of closed fds that are kept open while there are locks. -/
structure InodeState where
  locks : List FileLock
  unix : UnixState
  pending : ℕ
  fault : Option HoleFault

/-- The calls of `set_unix_lock` that clear the holes. -/
def clearHoles (env : UnixEnv) (fd : ℕ) : List Hole → UnixState → UnixState
  | [], u => u
  | h :: holes, u => clearHoles env fd holes (setUnixLock env fd h.start h.stop .unlock u).2

/-- The locks that `remove_unix_locks` looks at. -/
def touching (locks : List FileLock) (start stop : FilePos) : List FileLock :=
  locks.filter fun lock => decide (lock.start ≠ lock.stop) && lockOverlaps lock start stop

/-- The area of `remove_unix_locks`, clipped to the offsets that Unix knows. -/
def clippedStop (limit stop : FilePos) : FilePos :=
  if stop = 0 ∨ limit < stop then limit + 1 else stop

def unlockedHoles (locks : List FileLock) (start stop : FilePos) :
    Except HoleFault (List Hole) := do
  let b ← (HoleBuffer.single start stop).cutAll (locks.length + 1) locks
  b.collect b.used b.first

def removeUnixLocks (env : UnixEnv) (fd : ℕ) (start stop : FilePos) (s : InodeState) : InodeState :=
  if !s.unix.fsLocks fd then s
  else if start = stop ∨ s.unix.maxOffset < start then s
  else
    let stop := clippedStop s.unix.maxOffset stop
    let locks := touching s.locks start stop
    if locks = [] then { s with unix := (setUnixLock env fd start stop .unlock s.unix).2 }
    else if !env.alloc then s
    else
      match unlockedHoles locks start stop with
      | .ok holes => { s with unix := clearHoles env fd holes s.unix }
      | .error fault => { s with fault := some fault }

def UnixState.close (u : UnixState) : UnixState :=
  { u with held := fun _ => .unlock }

def inodeClosePending (s : InodeState) : InodeState :=
  if s.pending = 0 then s else { s with pending := 0, unix := s.unix.close }

/-- `remove_lock`, for the first lock that the test selects. -/
def removeLock (env : UnixEnv) (removeUnix : Bool) (p : FileLock → Bool) (s : InodeState) :
    InodeState :=
  match s.locks.find? p with
  | none => s
  | some lock =>
    let s := { s with locks := s.locks.eraseP p }
    let s := if removeUnix then removeUnixLocks env lock.fd lock.start lock.stop s else s
    if s.locks = [] then inodeClosePending s else s

/-- `add_lock`; the status is `none` for success. -/
def addLock (env : UnixEnv) (lock : FileLock) (s : InodeState) : Option LockStatus × InodeState :=
  if !env.alloc then (some .noMemory, s)
  else
    let r := setUnixLock env lock.fd lock.start lock.stop
      (if lock.shared then .read else .write) s.unix
    if r.1 = none then (none, { s with locks := s.locks ++ [lock], unix := r.2 })
    else (r.1, { s with unix := r.2 })

/-- What `lock_fd` returns: no status when the lock was granted, and the lock to wait on. -/
structure LockReply where
  status : Option LockStatus
  waitFor : Option FileLock
  deriving DecidableEq, Repr

def blocks (fd : ℕ) (shared : Bool) (start stop : FilePos) (lock : FileLock) : Bool :=
  lockOverlaps lock start stop && !(shared && (lock.shared || decide (lock.fd = fd)))

/-- `lock_fd`, for an fd with an inode. -/
def lockFd (env : UnixEnv) (fd process : ℕ) (start count : FilePos) (shared wait : Bool)
    (s : InodeState) : LockReply × InodeState :=
  let stop := start + count
  if stop ≠ 0 ∧ stop < start then (⟨some .invalidParameter, none⟩, s)
  else
    match s.locks.find? (blocks fd shared start stop) with
    | some lock =>
      if wait then (⟨some .pending, some lock⟩, s) else (⟨some .fileLockConflict, none⟩, s)
    | none =>
      let r := addLock env ⟨fd, process, shared, start, stop⟩ s
      if r.1 = some .fileLockConflict ∧ wait then (⟨some .pending, none⟩, r.2)
      else (⟨r.1, none⟩, r.2)

/-- The test of `unlock_fd`. -/
def sameRange (fd : ℕ) (start stop : FilePos) (lock : FileLock) : Bool :=
  decide (lock.fd = fd ∧ lock.start = start ∧ lock.stop = stop)

def unlockFd (env : UnixEnv) (fd : ℕ) (start count : FilePos) (s : InodeState) :
    Option LockStatus × InodeState :=
  let stop := start + count
  if s.locks.any (sameRange fd start stop) then
    (none, removeLock env true (sameRange fd start stop) s)
  else (some .rangeNotLocked, s)

/-- `remove_process_locks`, as many rounds as there are locks. -/
def removeProcessLocks (env : UnixEnv) (process : ℕ) : ℕ → InodeState → InodeState
  | 0, s => s
  | n + 1, s => removeProcessLocks env process n (removeLock env true (·.process == process) s)

/-- The loop of `remove_fd_locks`, with the range that it collects. -/
def removeFdLocksLoop (env : UnixEnv) (fd : ℕ) :
    ℕ → FilePos × FilePos → InodeState → (FilePos × FilePos) × InodeState
  | 0, range, s => (range, s)
  | n + 1, (start, stop), s =>
    match s.locks.find? (·.fd == fd) with
    | none => ((start, stop), s)
    | some lock =>
      let start' := if lock.start < start then lock.start else start
      let stop' := if lock.stop = 0 ∨ stop < lock.stop then lock.stop - 1 else stop
      removeFdLocksLoop env fd n (start', stop') (removeLock env false (·.fd == fd) s)

def removeFdLocks (env : UnixEnv) (fd : ℕ) (s : InodeState) : InodeState :=
  let r := removeFdLocksLoop env fd s.locks.length (-1, 0) s
  if r.1.1 < r.1.2 then removeUnixLocks env fd r.1.1 (r.1.2 + 1) r.2 else r.2

/-- `fd_destroy`: the locks are removed, and the descriptor is closed or kept. -/
def destroyFd (env : UnixEnv) (fd : ℕ) (s : InodeState) : InodeState :=
  let s := removeFdLocks env fd s
  if s.locks = [] then { s with unix := s.unix.close } else { s with pending := s.pending + 1 }

inductive LockAct
  | lock (env : UnixEnv) (fd process : ℕ) (start count : FilePos) (shared wait : Bool)
  | unlock (env : UnixEnv) (fd : ℕ) (start count : FilePos)
  | exitProcess (env : UnixEnv) (process : ℕ)
  | destroy (env : UnixEnv) (fd : ℕ)

def lockStep (s : InodeState) : LockAct → Option InodeState
  | .lock env fd process start count shared wait =>
    some (lockFd env fd process start count shared wait s).2
  | .unlock env fd start count => some (unlockFd env fd start count s).2
  | .exitProcess env process => some (removeProcessLocks env process s.locks.length s)
  | .destroy env fd => some (destroyFd env fd s)

def InodeState.Initial (s : InodeState) : Prop :=
  s.locks = [] ∧ s.unix.held = (fun _ => .unlock) ∧ s.unix.maxOffset = offTMax ∧
    (∀ fd, s.unix.fsLocks fd = true) ∧ s.pending = 0 ∧ s.fault = none

end WineForge.FileLocks
