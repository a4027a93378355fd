import Mathlib.Algebra.Order.Ring.Int

/-!
# User handles

The table of user handles, which server objects and clients share: the entries of
`shared_session->user_entries`, the pointers of `server_objects` and the list of free entries.
-/

namespace WineForge.UserHandles

open Function

abbrev UserHandle := BitVec 32

def firstUserHandle : Nat := 0x20
def lastUserHandle : Nat := 0xffef

def maxUserHandles : Nat := (lastUserHandle - firstUserHandle + 1) / 2

def ntuserObjWindow : Nat := 0x01
def ntuserObjMenu : Nat := 0x02
def ntuserObjIcon : Nat := 0x03
def ntuserObjWinpos : Nat := 0x04
def ntuserObjAccel : Nat := 0x08
def ntuserObjHook : Nat := 0x0f
def ntuserObjImc : Nat := 0x11

structure UserEntry where
  /-- The offset of the shared object, or the next free entry. -/
  offset : Nat
  pid : Nat
  type : Nat
  generation : Nat
  deriving DecidableEq, Repr

/-- What the server keeps for a handle: one of its objects, or the pointer `(void *)-1` that stands
for a handle that a client has allocated. -/
inductive Pointer (O : Type)
  | client
  | object (o : O)
  deriving DecidableEq, Repr

structure Tables (O : Type) where
  entries : Nat → UserEntry
  serverObjects : Nat → Option (Pointer O)
  freelist : Nat
  nbHandles : Nat
  /-- The handle and the type of each server object that is not destroyed. -/
  objects : O → Option (UserHandle × Nat)
  /-- How often each index was handed out. The server does not keep this. -/
  allocated : Nat → Nat

/-- The end of the list of free entries, `-1`. -/
def noEntry : Nat := 2 ^ 64 - 1

variable {O : Type}

/-- `handle_to_entry`, with the index of the entry for its address. -/
def handleToEntry (s : Tables O) (handle : UserHandle) : Option Nat :=
  let generation := handle.toNat / 65536
  -- an unsigned subtraction, which wraps around below the first handle
  let index := (handle.toNat % 65536 + 4294967296 - firstUserHandle) % 4294967296 / 2
  if index ≥ s.nbHandles then none
  else
    let entry := s.entries index
    if entry.type = 0 then none
    else if generation = 0 ∨ generation = 0xffff then some index
    else if generation = entry.generation then some index
    else none

/-- `entry_to_handle` for the entry at `index`. -/
def entryToHandle (index generation : Nat) : UserHandle :=
  BitVec.ofNat 32 (index * 2 + firstUserHandle + generation * 65536)

def nextGeneration (generation : Nat) : Nat :=
  let generation := (generation + 1) % 65536
  if generation = 0 ∨ generation = 0xffff then 1 else generation

def allocIndex (s : Tables O) : Nat :=
  if s.freelist ≠ noEntry then s.freelist else s.nbHandles

def allocGeneration (s : Tables O) : Nat :=
  if s.freelist ≠ noEntry then nextGeneration (s.entries s.freelist).generation else 1

def allocUserEntry (s : Tables O) (offset pid type : Nat) : Tables O :=
  let index := allocIndex s
  { s with
    entries := update s.entries index ⟨offset, pid, type, allocGeneration s⟩
    freelist := if s.freelist ≠ noEntry then (s.entries s.freelist).offset else s.freelist
    nbHandles := if s.freelist ≠ noEntry then s.nbHandles else s.nbHandles + 1
    allocated := update s.allocated index (s.allocated index + 1) }

def freeUserEntry (s : Tables O) (index : Nat) : Tables O :=
  { s with
    entries := update s.entries index
      { s.entries index with type := 0, offset := s.freelist }
    freelist := index }

/-- `alloc_user_handle`, which returns the handle. -/
def allocUserHandle (s : Tables O) (ptr : Pointer O) (offset pid type : Nat) :
    Tables O × UserHandle :=
  let index := allocIndex s
  let s' := allocUserEntry s offset pid type
  ({ s' with serverObjects := update s'.serverObjects index (some ptr) },
    entryToHandle index (s'.entries index).generation)

def getUserObject (s : Tables O) (handle : UserHandle) (type : Nat) : Option (Pointer O) :=
  match handleToEntry s handle with
  | none => none
  | some index => if (s.entries index).type ≠ type then none else s.serverObjects index

def freeUserHandle (s : Tables O) (handle : UserHandle) : Tables O :=
  match handleToEntry s handle with
  | none => s
  | some index =>
    freeUserEntry { s with serverObjects := update s.serverObjects index none } index

def clientTypes : List Nat :=
  [ntuserObjMenu, ntuserObjIcon, ntuserObjWinpos, ntuserObjAccel, ntuserObjImc]

def serverTypes : List Nat := [ntuserObjHook, ntuserObjWindow]

/-- The loop of `free_process_user_handles`, over `n` entries from index `i` on. -/
def freeProcessEntries (pid : Nat) : Nat → Nat → Tables O → Tables O
  | 0, _, s => s
  | n + 1, i, s =>
    let entry := s.entries i
    freeProcessEntries pid n (i + 1)
      (if entry.type ∈ clientTypes ∧ entry.pid = pid then freeUserEntry s i else s)

def freeProcessUserHandles (s : Tables O) (pid : Nat) : Tables O :=
  freeProcessEntries pid s.nbHandles 0 s

/-- The `alloc_user_handle` request. -/
def allocRequest (s : Tables O) (pid type : Nat) : Tables O × UserHandle :=
  allocUserHandle s .client 0 pid type

/-- The `free_user_handle` request. -/
def freeRequest (s : Tables O) (handle : UserHandle) (type : Nat) : Tables O :=
  match handleToEntry s handle with
  | none => s
  | some index => if (s.entries index).type = type then freeUserEntry s index else s

inductive Op (O : Type)
  /-- A window or a hook is created. -/
  | create (o : O) (offset pid type : Nat)
  | destroy (o : O)
  | allocRequest (pid type : Nat)
  | freeRequest (handle : UserHandle) (type : Nat)
  | processExit (pid : Nat)
  deriving DecidableEq, Repr

variable [DecidableEq O]

def step (s : Tables O) : Op O → Option (Tables O)
  | .create o offset pid type =>
    if s.objects o ≠ none ∨ type ∉ serverTypes then some s
    else if allocIndex s ≥ maxUserHandles then none
    else
      let (s', handle) := allocUserHandle s (.object o) offset pid type
      some { s' with objects := update s'.objects o (some (handle, type)) }
  | .destroy o =>
    match s.objects o with
    | none => some s
    | some (handle, _) =>
      some { freeUserHandle s handle with objects := update s.objects o none }
  | .allocRequest pid type =>
    if allocIndex s ≥ maxUserHandles then none else some (allocRequest s pid type).1
  | .freeRequest handle type => some (freeRequest s handle type)
  | .processExit pid => some (freeProcessUserHandles s pid)

def NoHandles (s : Tables O) : Prop :=
  s.freelist = noEntry ∧ s.nbHandles = 0 ∧ (∀ o, s.objects o = none) ∧ ∀ i, s.allocated i = 0

end WineForge.UserHandles
