import WineForge.KeyTree.State

/-!
# Looking up and creating keys

A path is looked up from a root key, or from the root directory through objects outside the registry,
of which only the effect of their `lookup_name` is known. A key that is a symbolic link starts a new
lookup of its target.
-/

namespace WineForge.KeyTree

open WineForge.Registry (WChar Name KeyValue backslash compareName minSubkeys minValues maxNameLen
  maxValueLen regLink symlinkStr getPathElement isWow6432node memicmpStrW grow shrink)

inductive Obj
  | key (id : KeyId)
  /-- an object outside the registry -/
  | other (id : Nat)
  deriving DecidableEq, Repr

structure Attributes where
  openif : Bool
  openlink : Bool
  permanent : Bool
  keyWow64 : Bool
  deriving DecidableEq, Repr

/-- What `lookup_name` of an object outside the registry does. The name that is left is `none` when
its pointer is null. -/
inductive Found
  | stop (name : Option Name)
  | failed
  | other (id : Nat) (name : Option Name)
  /-- the root key, which is linked into a directory -/
  | rootKey (name : Option Name)
  /-- the object that the target of a symbolic link leads to -/
  | link (target : Name)
  deriving Repr

/-- The objects outside the registry. -/
structure Objects where
  rootDirectory : Nat
  isDirectory : Nat → Bool
  /-- by the object, the name unless its pointer is null, the attributes and the root -/
  lookupName : Nat → Option (Option Name) → Attributes → Obj → Found
  /-- the bit at the place where a key has `KEY_WOWSHARE` -/
  wowshareBit : Nat → Bool

/-- What the request of a client meets with, besides the registry. -/
structure Circumstances where
  objects : Objects
  /-- the privilege that the request asks for is held -/
  privileged : Bool
  /-- the access checks of the handles are passed -/
  granted : Bool
  /-- the process is a 32-bit one of a 64-bit prefix -/
  wow64 : Bool
  now : Int
  allocs : List Bool
  /-- the handle that is free next, if one can be allocated -/
  newHandle : Option Nat
  /-- how many turns of a loop are followed -/
  fuel : Nat

variable (toLower : WChar → WChar) (c : Circumstances)

abbrev Resolved := Option (Obj × Option Name)

inductive Move
  | stop (name : Option Name)
  | failed
  | next (object : Obj) (name : Option Name)

def toWChars : List UInt8 → Name
  | low :: high :: data => (low.toUInt16 + 256 * high.toUInt16) :: toWChars data
  | _ => []

def linkTarget (value : KeyValue) : Option Name :=
  let target := toWChars value.data
  if target.head? = some backslash then some target else none

def isEmpty (name : Option Name) : Bool := name.getD [] == []

def followLink (resolve : Name → Attributes → Except Stop Resolved) (s : Server)
    (attr : Attributes) (key : KeyId) (name : Option Name) : Except Stop Move :=
  if isEmpty name && attr.openlink then pure (.stop name)
  else do
    let (value, _) ← findValue toLower s key symlinkStr
    match value.bind linkTarget with
    | none => pure .failed
    | some target =>
      match ← resolve target ⟨false, false, false, false⟩ with
      | none => pure .failed
      | some (object, left) =>
        -- a link inside of a path must have been resolved completely
        if !isEmpty name && !isEmpty left then pure .failed
        else
          let name := if isEmpty name then left else name
          if attr.keyWow64 && name.isNone then
            match object with
            | .other id =>
              if c.objects.wowshareBit id then .error .notKey else pure (.next object name)
            | .key found =>
              if (s.key found).flags.wowshare then do
                match ← getParent s found with
                | none => .error .nullKey
                | some parent => pure (.next (.key parent) name)
              else pure (.next object name)
          else pure (.next object name)

/-- `name` is `none` for a null pointer, `some none` for a null string. -/
def keyLookupName (resolve : Name → Attributes → Except Stop Resolved) (s : Server)
    (attr : Attributes) (key : KeyId) (given : Bool) (name : Option Name) : Except Stop Move :=
  if !given then pure (.stop name)
  else if (s.key key).flags.deleted then pure .failed
  else if (s.key key).flags.symlink then followLink toLower c resolve s attr key name
  else
    match name with
    | none => pure (.stop none)
    | some str =>
      let len := getPathElement str
      if maxNameLen < len then pure .failed
      else do
        let tmp := str.take len
        -- skip trailing backslashes
        let rest := (str.drop len).dropWhile (· == backslash)
        let (found, _) ← findSubkey toLower s key tmp
        let wowshare := (s.key key).flags.wowshare && attr.keyWow64
        let parent ← if found.isNone && wowshare then getParent s key else pure none
        if found.isNone && wowshare && parent.isNone then .error .nullKey
        else do
          let found ←
            match parent with
            | none => pure found
            | some parent => do
              let (found, _) ← findSubkey toLower s parent tmp
              pure found
          match found, parent with
          | none, some parent => pure (.next (.key parent) (some str))
          | none, none => if rest ≠ [] then pure .failed else pure (.stop (some tmp))
          | some found, _ =>
            if rest = [] then pure (.next (.key found) none)
            else
              let node :=
                match (s.key found).wow6432node with
                | some node => if attr.keyWow64 && !isWow6432node toLower rest then node else found
                | none => found
              pure (.next (.key node) (some rest))

/-- The loop of `lookup_named_object`. -/
def lookupLoop (resolve : Name → Attributes → Except Stop Resolved) (s : Server)
    (attr : Attributes) (root : Obj) (given : Bool) :
    Nat → Obj → Option Name → Except Stop Resolved
  | 0, _, _ => .error .unbounded
  | fuel + 1, parent, name => do
    let move ←
      match parent with
      | .key key => keyLookupName toLower c resolve s attr key given name
      | .other id =>
        match c.objects.lookupName id (if given then some name else none) attr root with
        | .stop name => pure (.stop name)
        | .failed => pure .failed
        | .other id name => pure (.next (.other id) name)
        | .rootKey name =>
          match s.rootKey with
          | none => pure .failed
          | some key => pure (.next (.key key) name)
        | .link target => do
          match ← resolve target attr with
          | none => pure .failed
          | some (object, left) => if isEmpty left then pure (.next object name) else pure .failed
    match move with
    | .stop name => pure (some (parent, name))
    | .failed => pure none
    | .next object name => lookupLoop resolve s attr root given fuel object name

def lookupAt (s : Server) : Nat → Option Obj → Name → Attributes → Except Stop Resolved
  | 0, _, _, _ => pure none
  | level + 1, root, name, attr =>
    let resolve := fun target attr => lookupAt s level none target attr
    match root, name with
    | some root, name =>
      if name.head? = some backslash then pure none
      else lookupLoop toLower c resolve s attr root (name != []) c.fuel root (some name)
    | none, [] => pure none
    | none, first :: name =>
      if first ≠ backslash then pure none
      else
        let root := Obj.other c.objects.rootDirectory
        lookupLoop toLower c resolve s attr root (name != []) c.fuel root (some name)

def lookupNamedObject (s : Server) (root : Option Obj) (name : Name) (attr : Attributes) :
    Except Stop Resolved :=
  lookupAt toLower c s 33 root name attr

def openNamedObject (s : Server) (root : Option Obj) (name : Name) (attr : Attributes) :
    Except Stop (Option KeyId) :=
  if 65534 ≤ 2 * name.length then pure none
  else do
    match ← lookupNamedObject toLower c s root name attr with
    | some (.key key, left) => if isEmpty left then pure (some key) else pure none
    | _ => pure none

/-- Which view of the registry is asked for. -/
structure Access where
  wow64Key64 : Bool
  wow64Key32 : Bool
  deriving DecidableEq, Repr

def Access.of (access : Access) : Access :=
  if c.wow64 then access else ⟨true, false⟩

def grabWow6432node (s : Server) (key : KeyId) : KeyId :=
  match (s.key key).wow6432node with
  | none => key
  | some node => if (s.key node).flags.wowshare then key else node

def getWow6432node : Nat → Server → KeyId → Except Stop (Option KeyId)
  | 0, _, _ => .error .unbounded
  | fuel + 1, s, key =>
    match (s.key key).wow6432node with
    | some node => pure (some node)
    | none => do
      match ← getParent s key with
      | none => pure (some key)
      | some parent =>
        if (s.key parent).wow6432node = some key then pure (some key)
        else do
          match ← getWow6432node fuel s parent with
          | none => pure (some key)
          | some node => do
            let name ← s.nameOf key
            let (found, _) ← findSubkey toLower s node name.name
            pure found

def getWow6432Parent (s : Server) (parent : KeyId) (access : Access) (name : Name) :
    Except Stop KeyId :=
  if access.wow64Key64 || isWow6432node toLower name then pure parent
  else do
    match ← getWow6432node toLower c.fuel s parent with
    | some key =>
      if access.wow64Key32 || (s.key key).flags.wowshare then pure key else pure parent
    | none => pure parent

def keyLinkName (s : Server) (key : KeyId) (name : Name) :
    Obj → Except Stop (Server × Option ObjectName)
  | .other id =>
    -- only the root key can be created inside a normal directory
    if s.rootKey.isNone && c.objects.isDirectory id then pure (s, some ⟨name, .directory⟩)
    else pure (s, none)
  | .key parent =>
    let nb := (s.key parent).nbSubkeys
    let full := (s.key parent).subkeys.length = nb
    let (ok, s) := memAllocIf full s
    match (if full then grow minSubkeys nb ok else some nb) with
    | none => pure (s, none)
    | some nb => do
      let (_, index) ← findSubkey toLower s parent name
      let s := s.modify parent fun k =>
        { k with nbSubkeys := nb, subkeys := k.subkeys.insertIdx index key }
      if isWow6432node toLower name then do
        let parentName ← s.nameOf parent
        if isWow6432node toLower parentName.name then pure (s, some ⟨name, .key parent⟩)
        else
          let s := s.modify parent fun k => { k with wow6432node := some key }
          pure (s, some ⟨name, .key parent⟩)
      else pure (s, some ⟨name, .key parent⟩)

def keyUnlinkName (s : Server) (key : KeyId) (name : ObjectName) : Server :=
  match name.parent with
  | .key parent =>
    let subkeys := (s.key parent).subkeys.erase key
    let nb := (s.key parent).nbSubkeys
    let shrinks := minSubkeys < nb ∧ subkeys.length < nb / 2 + 1
    let (ok, s) := memAllocIf shrinks s
    s.modify parent fun k =>
      { k with
        subkeys := subkeys
        nbSubkeys := shrink minSubkeys nb subkeys.length ok
        wow6432node := if k.wow6432node = some key then none else k.wow6432node }
  | _ => s

def unlinkNamedObject (s : Server) (key : KeyId) : Server :=
  match (s.key key).name with
  | none => s
  | some name => keyUnlinkName (s.modify key fun k => { k with name := none }) key name

structure KeyInitData where
  createLink : Bool
  isVolatile : Bool
  keyClass : Name
  modif : Int

structure Params where
  root : Option Obj
  name : Name
  attr : Attributes
  /-- a security descriptor is given -/
  sd : Bool
  data : KeyInitData

/-- The number of a new key, unless its allocation or that of its security descriptor fails. -/
def allocKey (s : Server) (sd : Bool) : Server × Option KeyId :=
  let (ok, s) := memAlloc s
  if !ok then (s, none)
  else
    let key := s.next
    let s := { s with next := s.next + 1 }
    let (ok, s) := memAllocIf sd s
    if !ok then (s, none) else (s, some key)

def keyInit (s : Server) (key : KeyId) (data : KeyInitData) : Except Stop (Server × Bool) := do
  let parent ← getParent s key
  let s := s.modify key fun k => { Key.blank with name := k.name, modif := data.modif }
  let (ok, s) := memAllocIf (data.keyClass ≠ []) s
  if !ok then pure (s, false)
  else
    let keyClass := if data.keyClass = [] then none else some data.keyClass
    let flags := { Key.blank.flags with symlink := data.createLink }
    let s := s.modify key fun k => { k with keyClass := keyClass, flags := flags }
    if data.isVolatile then
      pure (s.modify key fun k => { k with flags := { k.flags with isVolatile := true } }, true)
    else if parent.any fun parent => (s.key parent).flags.isVolatile then pure (s, false)
    else pure (s.modify key fun k => { k with flags := { k.flags with dirty := true } }, true)

inductive Created
  | failed
  | existing (key : KeyId)
  | new (key : KeyId)

def createObjectWithoutName (s : Server) (params : Params) : Except Stop (Server × Created) :=
  match allocKey s params.sd with
  | (s, none) => pure (s, .failed)
  | (s, some key) => do
    let (s, ok) ← keyInit s key params.data
    if ok then pure (s, .new key) else pure (s, .failed)

def createObjectWithName (s : Server) (params : Params) : Except Stop (Server × Created) :=
  if params.name = [] then createObjectWithoutName s params
  else do
    match ← lookupNamedObject toLower c s params.root params.name params.attr with
    | none => pure (s, .failed)
    | some (parent, left) =>
      if isEmpty left then
        match parent with
        | .key key => if params.attr.openif then pure (s, .existing key) else pure (s, .failed)
        | .other _ => pure (s, .failed)
      else
        let (ok, s) := memAlloc s
        if !ok then pure (s, .failed)
        else
          match allocKey s params.sd with
          | (s, none) => pure (s, .failed)
          | (s, some key) => do
            let (s, name) ← keyLinkName toLower c s key (left.getD []) parent
            match name with
            | none => pure (s, .failed)
            | some name => do
              let s := s.modify key fun k => { k with name := some name }
              let (s, ok) ← keyInit s key params.data
              if ok then pure (s, .new key) else pure (unlinkNamedObject s key, .failed)

def createNamedObject (s : Server) (params : Params) : Except Stop (Server × Created) := do
  let (s, created) ← createObjectWithName toLower c s params
  match created with
  | .failed => pure (s, .failed)
  | .existing key | .new key =>
    if params.attr.permanent then
      pure (s.modify key fun k => { k with isPermanent := true }, created)
    else pure (s, created)

/-- The elements that `create_key_recursive` takes from a path, where one backslash ends an element
and a last one ends the path. -/
def pathElements : Name → List Name
  | [] => []
  | first :: name =>
    if first = backslash then [] :: pathElements name
    else
      match pathElements name with
      | [] => [[first]]
      | element :: elements => (first :: element) :: elements

def createElements (modif : Int) : List Name → Server → KeyId → Except Stop (Server × Option KeyId)
  | [], s, parent => pure (s, some parent)
  | element :: elements, s, parent => do
    let (s, created) ← createNamedObject toLower c s
      ⟨some (.key parent), element, ⟨true, false, false, false⟩, false, ⟨false, false, [], modif⟩⟩
    match created with
    | .failed => pure (s, none)
    | .existing key | .new key => createElements modif elements s key

def createKeyRecursive (s : Server) (root : KeyId) (name : Name) (modif : Int) :
    Except Stop (Server × Option KeyId) :=
  createElements toLower c modif (pathElements name) s root

end WineForge.KeyTree
