import WineForge.Library.Stops
import WineForge.Registry.State

/-!
# The tree of registry keys

A key object is linked to its parent by its name, which it loses when it is deleted while handles to
it stay open. Keys are numbered in the order of their creation, and a key that is freed stays in the
map without a name. Whatever reads the name of a key that has none stops the server.
-/

namespace WineForge.KeyTree

open WineForge.Library
open WineForge.Registry (WChar Name KeyValue backslash compareName minSubkeys minValues maxNameLen
  maxValueLen regLink symlinkStr getPathElement isWow6432node memicmpStrW grow shrink)

abbrev KeyId := Nat

/-- The parent that an object name points to. -/
inductive Parent
  | null
  | directory
  | key (id : KeyId)
  deriving DecidableEq, Repr

structure ObjectName where
  name : Name
  parent : Parent
  deriving DecidableEq, Repr

structure Flags where
  isVolatile : Bool
  deleted : Bool
  dirty : Bool
  symlink : Bool
  wowshare : Bool
  predef : Bool
  deriving DecidableEq, Repr

structure Key where
  /-- the name of the object header -/
  name : Option ObjectName
  isPermanent : Bool
  keyClass : Option Name
  subkeys : List KeyId
  nbSubkeys : Nat
  wow6432node : Option KeyId
  values : List KeyValue
  nbValues : Nat
  flags : Flags
  modif : Int
  deriving Repr

/-- A key as `alloc_object` and `key_init` leave it. -/
def Key.blank : Key where
  name := none
  isPermanent := false
  keyClass := none
  subkeys := []
  nbSubkeys := 0
  wow6432node := none
  values := []
  nbValues := 0
  flags := ⟨false, false, false, false, false, false⟩
  modif := 0

structure Server where
  key : KeyId → Key
  /-- the number of the next key -/
  next : KeyId
  rootKey : Option KeyId
  /-- the open handles of all processes -/
  handles : List (Nat × KeyId)
  /-- the keys of `save_branch_info` -/
  branches : List KeyId
  /-- which of the next allocations succeed; those that follow do -/
  allocs : List Bool

def Server.modify (s : Server) (i : KeyId) (f : Key → Key) : Server :=
  { s with key := fun j => if j = i then f (s.key i) else s.key j }

def memAlloc (s : Server) : Bool × Server :=
  match s.allocs with
  | [] => (true, s)
  | ok :: allocs => (ok, { s with allocs := allocs })

def memAllocIf (needed : Bool) (s : Server) : Bool × Server :=
  if needed then memAlloc s else (true, s)

/-- Why a request does not come to its end. -/
inductive Stop
  /-- the name of a key that has none is read -/
  | nameless
  /-- a null pointer is taken for a key -/
  | nullKey
  /-- an object of another type is taken for a key -/
  | notKey
  /-- an assertion or the initialisation fails -/
  | fatal
  /-- a loop goes on for more turns than are followed -/
  | unbounded
  deriving DecidableEq, Repr

variable (toLower : WChar → WChar) (debug : Bool)

/-- The dereference of `key->obj.name`. -/
def Server.nameOf (s : Server) (key : KeyId) : Except Stop ObjectName :=
  match (s.key key).name with
  | none => .error .nameless
  | some name => .ok name

def getParent (s : Server) (key : KeyId) : Except Stop (Option KeyId) := do
  let name ← s.nameOf key
  match name.parent with
  | .key parent => pure (some parent)
  | _ => pure none

/-- The elements of the path of a key below `base`. -/
def dumpPath : Nat → Server → KeyId → Option KeyId → Except Stop (List Name)
  | 0, _, _, _ => .error .unbounded
  | fuel + 1, s, key, base => do
    let parent ← getParent s key
    let above ←
      match parent with
      | none => pure []
      | some parent => if some parent = base then pure [] else dumpPath fuel s parent base
    let name ← s.nameOf key
    pure (above ++ [name.name])

def dumpOperation (fuel : Nat) (s : Server) (key : KeyId) : Except Stop (List Name) :=
  if debug then dumpPath fuel s key none else pure []

/-- `while (min <= max)` with `stop` for `max + 1`: the entry whose comparison is zero, and its index
or the index where it belongs. -/
def search {α : Type} (compare : α → Except Stop Int) (a : List α) :
    Nat → Nat → Nat → Except Stop (Option α × Nat)
  -- there are no more turns than entries
  | 0, min, _ => pure (none, min)
  | turns + 1, min, stop =>
    if min < stop then
      let i := (min + (stop - 1)) / 2
      match a[i]? with
      | none => pure (none, min)
      | some x => do
        let res ← compare x
        if res = 0 then pure (some x, i)
        else if 0 < res then search compare a turns min i
        else search compare a turns (i + 1) stop
    else pure (none, min)

def findSubkey (s : Server) (key : KeyId) (name : Name) : Except Stop (Option KeyId × Nat) :=
  let subkeys := (s.key key).subkeys
  let compare := fun subkey => do
    let stored ← s.nameOf subkey
    pure (compareName toLower stored.name name)
  search compare subkeys subkeys.length 0 subkeys.length

def findValue (s : Server) (key : KeyId) (name : Name) : Except Stop (Option KeyValue × Nat) :=
  let values := (s.key key).values
  let compare := fun value : KeyValue => pure (compareName toLower value.name name)
  search compare values values.length 0 values.length

def makeDirty : Nat → Server → KeyId → Except Stop Server
  | 0, _, _ => .error .unbounded
  | fuel + 1, s, key =>
    let flags := (s.key key).flags
    if flags.dirty || flags.isVolatile then pure s
    else do
      let s := s.modify key fun k => { k with flags := { k.flags with dirty := true } }
      match ← getParent s key with
      | none => pure s
      | some parent => makeDirty fuel s parent

/-- The loop of `touch_key` over the parents, whose notifications are checked. -/
def notifyParents : Nat → Server → KeyId → Except Stop Unit
  | 0, _, _ => .error .unbounded
  | fuel + 1, s, key => do
    match ← getParent s key with
    | none => pure ()
    | some parent => notifyParents fuel s parent

def touchKey (fuel : Nat) (now : Int) (s : Server) (key : KeyId) : Except Stop Server := do
  let s ← makeDirty fuel (s.modify key fun k => { k with modif := now }) key
  notifyParents fuel s key
  pure s

def updateKeyTime : Nat → Server → KeyId → Int → Except Stop Server
  | 0, _, _, _ => .error .unbounded
  | fuel + 1, s, key, modif =>
    if (s.key key).modif ≠ 0 then pure s
    else do
      let s := s.modify key fun k => { k with modif := modif }
      match ← getParent s key with
      | none => pure s
      | some parent => updateKeyTime fuel s parent modif

def makeClean : Nat → Server → KeyId → Except Stop Server
  | 0, _, _ => .error .unbounded
  | fuel + 1, s, key =>
    let flags := (s.key key).flags
    if flags.isVolatile || !flags.dirty then pure s
    else
      let s := s.modify key fun k => { k with flags := { k.flags with dirty := false } }
      (s.key key).subkeys.foldlM (fun s subkey => makeClean fuel s subkey) s

/-- The value is inserted at the index that the search returned, unless the name is too long or an
allocation fails. -/
def insertValue (s : Server) (key : KeyId) (name : Name) (index : Nat) : Server × Bool :=
  if maxValueLen < name.length then (s, false)
  else
    let k := s.key key
    let full := k.values.length = k.nbValues
    let (ok, s) := memAllocIf full s
    match (if full then grow minValues k.nbValues ok else some k.nbValues) with
    | none => (s, false)
    | some nb =>
      let s := s.modify key fun k => { k with nbValues := nb }
      let (ok, s) := memAllocIf (name ≠ []) s
      if !ok then (s, false)
      else
        let value : KeyValue := ⟨name, 0, []⟩
        (s.modify key fun k => { k with values := k.values.insertIdx index value }, true)

end WineForge.KeyTree
