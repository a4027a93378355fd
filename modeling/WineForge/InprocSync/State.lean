import Mathlib.Algebra.Order.Ring.Int

/-!
# The cache of in-process synchronization objects

The cache of a process maps handles to file descriptors, with a reference count in each entry. It
is read without a lock; `fd_cache_mutex` is held to fill an entry, and to close a handle. The
steps of a thread are its accesses to the memory of the cache, and its system calls.
-/

namespace WineForge.InprocSync

open Function

/-- `enum inproc_sync_type`, without `INPROC_SYNC_UNKNOWN`. -/
inductive SyncType
  | internal | event | mutex | semaphore
  deriving DecidableEq, Repr

/-- `struct inproc_sync`, apart from `refcount`. -/
structure Sync where
  fd : Nat
  access : BitVec 32
  type : SyncType
  closed : Bool
  deriving DecidableEq, Repr

/-- A handle on the server, with the type of its in-process synchronization object, if any. -/
structure ServerEntry where
  object : Nat
  access : BitVec 32
  type : Option SyncType
  deriving DecidableEq, Repr

def blockSize : Nat := 65536 / 16

def cacheEntries : Nat := 128

/-- `wine_server_obj_handle`. -/
def objHandle (handle : BitVec 64) : BitVec 32 :=
  if (handle.setWidth 32).signExtend 64 ≠ handle then 0xfffffff0#32 else handle.setWidth 32

/-- `inproc_sync_handle_to_index`, with the entry and the index in the block as one number. -/
def handleToIndex (handle : BitVec 64) : Nat := (objHandle handle >>> 2 - 1#32).toNat

def isPseudoHandle (handle : BitVec 64) : Bool := 0xfffffffa#32 ≤ handle.setWidth 32

/-- The arguments of `get_inproc_sync`; the type may be `INPROC_SYNC_UNKNOWN`. -/
structure Request where
  handle : BitVec 64
  desiredType : Option SyncType
  desiredAccess : BitVec 32
  deriving DecidableEq, Repr

/-- Who calls `get_cached_inproc_sync`. -/
inductive Caller
  | get (req : Request)
  /-- `get_inproc_sync` with `fd_cache_mutex`. -/
  | getLocked (req : Request)
  /-- `close_inproc_sync`. -/
  | close (handle : BitVec 64)
  deriving DecidableEq, Repr

def Caller.handle : Caller → BitVec 64
  | get req | getLocked req => req.handle
  | close handle => handle

/-- A pointer to an entry, or to an object on the stack that could not be cached. -/
inductive Ref
  | cache (idx : Nat)
  | stack (sync : Sync)
  deriving DecidableEq, Repr

/-- What `get_inproc_sync` returns. The last two fields are not in the code: they say which open
file the descriptor was, and what the handle was on the server, when it was looked up. -/
structure Grant where
  ref : Ref
  handle : BitVec 64
  file : Option Nat
  named : Option ServerEntry
  deriving DecidableEq, Repr

/-- Where `release_inproc_sync` returns to. -/
inductive After
  /-- `get_cached_inproc_sync`, which returns `NULL`. -/
  | miss (c : Caller)
  /-- The two releases of `close_inproc_sync`. -/
  | again (handle : BitVec 64)
  | close (handle : BitVec 64)
  | done
  deriving DecidableEq, Repr

/-- The next step of a thread. -/
inductive Pc
  | idle
  /-- `get_inproc_sync` and `close_inproc_sync`, before `fd_cache_mutex`. -/
  | lockGet (req : Request)
  | lockClose (handle : BitVec 64)
  | lookup (c : Caller)
  /-- `interlocked_inc_if_nonzero`. -/
  | load (c : Caller)
  | cas (c : Caller) (val : Int)
  | checkClosed (c : Caller)
  /-- `get_server_inproc_sync`. -/
  | request (req : Request)
  /-- `cache_inproc_sync`. -/
  | cache (req : Request) (sync : Sync)
  | cacheCheck (req : Request) (sync : Sync)
  | storeFd (req : Request) (sync : Sync)
  | storeAccess (req : Request) (sync : Sync)
  | storeType (req : Request) (sync : Sync)
  | storeClosed (req : Request) (sync : Sync)
  | publish (req : Request) (sync : Sync)
  | unlock (req : Request) (grant : Option Grant)
  | checkType (req : Request) (grant : Grant)
  | checkAccess (req : Request) (grant : Grant)
  /-- `release_inproc_sync`. -/
  | releaseFd (ref : Ref) (after : After)
  | releaseDec (idx fd : Nat) (after : After)
  | releaseClose (fd : Nat) (after : After)
  /-- `close_inproc_sync`. -/
  | setClosed (handle : BitVec 64)
  /-- The server call of `NtClose` or `NtDuplicateObject`. -/
  | closeRequest (handle : BitVec 64)
  | closeUnlock
  deriving DecidableEq, Repr

structure State (T : Type) where
  /-- `inproc_sync_cache`. -/
  block : Nat → Bool
  /-- A `LONG`, far from its limits: a thread holds 64 references at most. -/
  refcount : Nat → Int
  sync : Nat → Sync
  /-- The thread that holds `fd_cache_mutex`. -/
  mutex : Option T
  pc : T → Pc
  held : T → List Grant
  /-- The handles of the process on the server. -/
  handles : Nat → Option ServerEntry
  /-- The file descriptors of the process, with the files that they stand for. Each file is opened
  once; the server sends those of its objects, and the others have nothing to do with the cache. -/
  fds : Nat → Option Nat
  count : Nat
  object : Nat → Option Nat
  closes : Nat → Nat

variable {T : Type}

def State.grant (s : State T) (ref : Ref) (handle : BitVec 64) : Grant :=
  let fd := match ref with
    | .cache idx => (s.sync idx).fd
    | .stack sync => sync.fd
  ⟨ref, handle, s.fds fd, s.handles (handleToIndex handle)⟩

def State.syncOf (s : State T) : Ref → Sync
  | .cache idx => s.sync idx
  | .stack sync => sync

/-- `get_cached_inproc_sync` returns `NULL`. -/
def Caller.miss : Caller → Pc
  | get req => .lockGet req
  | getLocked req => .request req
  | close handle => .closeRequest handle

/-- `release_inproc_sync` returns. -/
def After.pc : After → Pc
  | miss c => c.miss
  | again handle => .releaseFd (.cache (handleToIndex handle)) (.close handle)
  | close handle => .closeRequest handle
  | done => .idle

variable [DecidableEq T]

def State.setPc (s : State T) (t : T) (pc : Pc) : State T :=
  { s with pc := update s.pc t pc }

def State.setSync (s : State T) (idx : Nat) (sync : Sync) : State T :=
  { s with sync := update s.sync idx sync }

def State.setRefcount (s : State T) (idx : Nat) (refcount : Int) : State T :=
  { s with refcount := update s.refcount idx refcount }

/-- `server_enter_uninterrupted_section`, which has a step when the mutex is free. -/
def enterSection (s : State T) (t : T) (c : Caller) : Option (State T) :=
  match s.mutex with
  | some _ => none
  | none => some { s.setPc t (.lookup c) with mutex := some t }

/-- `close`. -/
def closeFd (s : State T) (fd : Nat) : State T :=
  match s.fds fd with
  | none => s
  | some file =>
    { s with
      fds := update s.fds fd none
      closes := update s.closes file (s.closes file + 1) }

def openFd (s : State T) (fd : Nat) (object : Option Nat) : State T :=
  { s with
    fds := update s.fds fd (some s.count)
    count := s.count + 1
    object := update s.object s.count object }

def next (s : State T) (t : T) : Option (State T) :=
  match s.pc t with
  | .idle | .request _ | .closeRequest _ => none
  | .lockGet req => enterSection s t (.getLocked req)
  | .lockClose handle => enterSection s t (.close handle)
  | .lookup c =>
    let entry := handleToIndex c.handle / blockSize
    some (s.setPc t (if entry ≥ cacheEntries ∨ s.block entry = false then c.miss else .load c))
  | .load c =>
    let val := s.refcount (handleToIndex c.handle)
    some (s.setPc t (if val = 0 then c.miss else .cas c val))
  | .cas c val =>
    let idx := handleToIndex c.handle
    some (if s.refcount idx = val then (s.setRefcount idx (val + 1)).setPc t (.checkClosed c)
      else s.setPc t (if s.refcount idx = 0 then c.miss else .cas c (s.refcount idx)))
  | .checkClosed c =>
    let idx := handleToIndex c.handle
    some (s.setPc t (if (s.sync idx).closed then .releaseFd (.cache idx) (.miss c)
      else match c with
        | .get req => .checkType req (s.grant (.cache idx) req.handle)
        | .getLocked req => .unlock req (some (s.grant (.cache idx) req.handle))
        | .close handle => .setClosed handle))
  | .cache req sync =>
    let entry := handleToIndex req.handle / blockSize
    some (if isPseudoHandle req.handle ∨ entry ≥ cacheEntries then
        s.setPc t (.unlock req (some (s.grant (.stack sync) req.handle)))
      else { s.setPc t (.cacheCheck req sync) with block := update s.block entry true })
  | .cacheCheck req sync =>
    some (s.setPc t (if s.refcount (handleToIndex req.handle) ≠ 0 then
        .unlock req (some (s.grant (.stack sync) req.handle))
      else .storeFd req sync))
  | .storeFd req sync =>
    let idx := handleToIndex req.handle
    some ((s.setSync idx { s.sync idx with fd := sync.fd }).setPc t (.storeAccess req sync))
  | .storeAccess req sync =>
    let idx := handleToIndex req.handle
    some ((s.setSync idx { s.sync idx with access := sync.access }).setPc t (.storeType req sync))
  | .storeType req sync =>
    let idx := handleToIndex req.handle
    some ((s.setSync idx { s.sync idx with type := sync.type }).setPc t (.storeClosed req sync))
  | .storeClosed req sync =>
    let idx := handleToIndex req.handle
    some ((s.setSync idx { s.sync idx with closed := sync.closed }).setPc t (.publish req sync))
  | .publish req _ =>
    let idx := handleToIndex req.handle
    some ((s.setRefcount idx 2).setPc t (.unlock req (some (s.grant (.cache idx) req.handle))))
  | .unlock req grant =>
    let s := { s with mutex := none }
    some (match grant with
      | none => s.setPc t .idle
      | some grant => s.setPc t (.checkType req grant))
  | .checkType req grant =>
    some (s.setPc t (match req.desiredType with
      | none => .checkAccess req grant
      | some type =>
        if type ≠ (s.syncOf grant.ref).type then .releaseFd grant.ref .done
        else .checkAccess req grant))
  | .checkAccess req grant =>
    some (if (s.syncOf grant.ref).access &&& req.desiredAccess ≠ req.desiredAccess then
        s.setPc t (.releaseFd grant.ref .done)
      else { s.setPc t .idle with held := update s.held t (s.held t ++ [grant]) })
  | .releaseFd (.cache idx) after => some (s.setPc t (.releaseDec idx (s.sync idx).fd after))
  | .releaseFd (.stack sync) after => some (s.setPc t (.releaseClose sync.fd after))
  | .releaseDec idx fd after =>
    let ref := s.refcount idx - 1
    some ((s.setRefcount idx ref).setPc t (if ref = 0 then .releaseClose fd after else after.pc))
  | .releaseClose fd after => some ((closeFd s fd).setPc t after.pc)
  | .setClosed handle =>
    let idx := handleToIndex handle
    some ((s.setSync idx { s.sync idx with closed := true }).setPc t
      (.releaseFd (.cache idx) (.again handle)))
  | .closeUnlock => some { s.setPc t .idle with mutex := none }

inductive Op (T : Type)
  | getInprocSync (t : T) (req : Request)
  | releaseInprocSync (t : T) (grant : Grant)
  /-- `NtClose`, `NtDuplicateObject` with `DUPLICATE_CLOSE_SOURCE`, and the other callers of
  `close_inproc_sync`. -/
  | close (t : T) (handle : BitVec 64)
  | next (t : T)
  /-- The server sends a file descriptor, or returns an error. -/
  | received (t : T) (fd : Nat)
  | refused (t : T)
  /-- `anon_mmap_alloc` fails. -/
  | blockFailed (t : T)
  /-- The server closes the handle, leaves it open, or leaves it open with another access. -/
  | closed (t : T)
  | kept (t : T)
  | replaced (t : T) (access : BitVec 32)
  /-- The server returns a new handle. -/
  | create (idx : Nat) (entry : ServerEntry)
  /-- Another file is opened or closed. -/
  | openOther (fd : Nat)
  | closeOther (fd : Nat)
  deriving DecidableEq, Repr

def step (s : State T) : Op T → Option (State T)
  | .getInprocSync t req => if s.pc t = .idle then some (s.setPc t (.lookup (.get req))) else none
  | .releaseInprocSync t grant =>
    if s.pc t = .idle ∧ grant ∈ s.held t then
      some { s.setPc t (.releaseFd grant.ref .done) with
        held := update s.held t ((s.held t).erase grant) }
    else none
  | .close t handle => if s.pc t = .idle then some (s.setPc t (.lockClose handle)) else none
  | .next t => next s t
  | .received t fd =>
    match s.pc t with
    | .request req =>
      match s.handles (handleToIndex req.handle) with
      | some ⟨object, access, some type⟩ =>
        if s.fds fd = none then
          some ((openFd s fd (some object)).setPc t (.cache req ⟨fd, access, type, false⟩))
        else none
      | _ => none
    | _ => none
  | .refused t =>
    match s.pc t with
    | .request req => some (s.setPc t (.unlock req none))
    | _ => none
  | .blockFailed t =>
    match s.pc t with
    | .cache req sync =>
      let entry := handleToIndex req.handle / blockSize
      if isPseudoHandle req.handle = false ∧ entry < cacheEntries ∧ entry ≠ 0 ∧
          s.block entry = false then
        some (s.setPc t (.unlock req (some (s.grant (.stack sync) req.handle))))
      else none
    | _ => none
  | .closed t =>
    match s.pc t with
    | .closeRequest handle =>
      some { s.setPc t .closeUnlock with
        handles := update s.handles (handleToIndex handle) none }
    | _ => none
  | .kept t =>
    match s.pc t with
    | .closeRequest _ => some (s.setPc t .closeUnlock)
    | _ => none
  | .replaced t access =>
    match s.pc t with
    | .closeRequest handle =>
      some { s.setPc t .closeUnlock with
        handles := update s.handles (handleToIndex handle)
          ((s.handles (handleToIndex handle)).map ({ · with access := access })) }
    | _ => none
  | .create idx entry =>
    if s.handles idx = none then
      some { s with handles := update s.handles idx (some entry) }
    else none
  | .openOther fd => if s.fds fd = none then some (openFd s fd none) else none
  | .closeOther fd =>
    match s.fds fd with
    | some file => if s.object file = none then some (closeFd s fd) else none
    | none => none

def Initial (s : State T) : Prop :=
  (∀ i, s.block i = false) ∧ (∀ i, s.refcount i = 0) ∧ s.mutex = none ∧ (∀ t, s.pc t = .idle) ∧
    (∀ t, s.held t = []) ∧ (∀ fd, s.fds fd = none) ∧ s.count = 0 ∧ ∀ file, s.closes file = 0

end WineForge.InprocSync
