import WineForge.Library.SortedArray

/-!
# Subkeys and values of a registry key

A key keeps its subkeys and its values in arrays that are searched by name. The comparison folds the
characters by a table that is loaded at run time, which is the parameter `toLower` here. An array is
modelled by the list of its entries in use, so its `last` index is one less than the length.
-/

namespace WineForge.Registry

open WineForge.Library

abbrev WChar := UInt16
abbrev Name := List WChar

structure Subkey where
  /-- the address of the key object -/
  id : Nat
  name : Name
  deriving DecidableEq, Repr

structure KeyValue where
  name : Name
  type : Nat
  data : List UInt8
  deriving DecidableEq, Repr

structure Key where
  name : Name
  symlink : Bool
  predef : Bool
  subkeys : List Subkey
  nbSubkeys : Nat
  wow6432node : Option Nat
  values : List KeyValue
  nbValues : Nat
  /-- the address of the next key object -/
  nextId : Nat
  deriving Repr

inductive Status
  | success
  | objectNameCollision
  | invalidParameter
  | invalidHandle
  | cannotDelete
  | accessDenied
  | nameTooLong
  | noMemory
  | objectNameNotFound
  | childMustBeVolatile
  | noMoreEntries
  deriving DecidableEq, Repr

def minSubkeys : Nat := 8
def minValues : Nat := 8
def maxNameLen : Nat := 256
def maxValueLen : Nat := 16383
def regLink : Nat := 6

def wow6432nodeStr : Name := "Wow6432Node".toList.map fun c => c.toNat.toUInt16
def symlinkStr : Name := "SymbolicLinkValue".toList.map fun c => c.toNat.toUInt16
def backslash : WChar := 0x5c

/-- Which allocations of a request succeed. -/
structure Alloc where
  object : Bool
  grow : Bool
  name : Bool
  data : Bool
  shrink : Bool
  deriving Repr

variable (toLower : WChar → WChar)

/-- The difference of the first pair of characters that differ, among the first `len`. -/
def memicmpStrW : Name → Name → Nat → Int
  | a :: str1, b :: str2, len + 1 =>
    let ret : Int := (toLower a).toNat - (toLower b).toNat
    if ret ≠ 0 then ret else memicmpStrW str1 str2 len
  | _, _, _ => 0

def getPathElement (name : Name) : Nat := (name.takeWhile (· != backslash)).length

def isWow6432node (name : Name) : Bool :=
  let len := getPathElement name
  len == wow6432nodeStr.length && memicmpStrW toLower name wow6432nodeStr len == 0

/-- The comparison of a stored name with the one that is looked for; lengths are in bytes. -/
def compareName (stored name : Name) : Int :=
  let len := min stored.length name.length
  let res := memicmpStrW toLower stored name len
  if res = 0 then (2 * stored.length : Int) - 2 * name.length else res

def findSubkey (key : Key) (name : Name) : Option Subkey × Nat :=
  bisect (fun subkey => compareName toLower subkey.name name) key.subkeys 0 key.subkeys.length

def findValue (key : Key) (name : Name) : Option KeyValue × Nat :=
  bisect (fun value => compareName toLower value.name name) key.values 0 key.values.length

def grow (minSize nb : Nat) (ok : Bool) : Option Nat :=
  if !ok then none else if nb ≠ 0 then some (nb + nb / 2) else some minSize

def shrink (minSize nb used : Nat) (ok : Bool) : Nat :=
  if minSize < nb ∧ used < nb / 2 + 1 then
    if !ok then nb else max (nb - nb / 3) minSize
  else nb

def growSubkeys (key : Key) (ok : Bool) : Option Key :=
  (grow minSubkeys key.nbSubkeys ok).map fun nb => { key with nbSubkeys := nb }

def growValues (key : Key) (ok : Bool) : Option Key :=
  (grow minValues key.nbValues ok).map fun nb => { key with nbValues := nb }

def keyLinkName (parent : Key) (subkey : Subkey) (alloc : Alloc) : Option Key :=
  let grown :=
    if parent.subkeys.length = parent.nbSubkeys then growSubkeys parent alloc.grow else some parent
  grown.map fun parent =>
    let index := (findSubkey toLower parent subkey.name).2
    -- the new last slot is overwritten, by the entry before it or by the subkey
    let shifted := shiftUp (parent.subkeys ++ [subkey]) index parent.subkeys.length
    { parent with
      subkeys := shifted.set index subkey
      wow6432node :=
        if isWow6432node toLower subkey.name && !isWow6432node toLower parent.name then
          some subkey.id
        else parent.wow6432node }

def subkeyIndex (parent : Key) (id : Nat) : Option Nat :=
  parent.subkeys.findIdx? fun subkey => subkey.id == id

def keyUnlinkName (parent : Key) (id : Nat) (alloc : Alloc) : Key :=
  match subkeyIndex parent id with
  -- the name has no parent
  | none => parent
  | some i =>
    let last := parent.subkeys.length - 1
    let subkeys := (shiftDown parent.subkeys i (last - i)).dropLast
    { parent with
      subkeys := subkeys
      wow6432node := if parent.wow6432node = some id then none else parent.wow6432node
      nbSubkeys := shrink minSubkeys parent.nbSubkeys subkeys.length alloc.shrink }

/-- What `key_init` reports for a new subkey. -/
inductive Init
  | ok
  /-- the class name cannot be copied -/
  | noMemory
  /-- the parent is volatile and the new key is not -/
  | childMustBeVolatile
  deriving DecidableEq, Repr

/-- `create_named_object` once the path leads to this key and `name` is left of it: the new or the
existing subkey. -/
def createSubkey (parent : Key) (name : Name) (init : Init) (alloc : Alloc) :
    Key × Status × Option Nat :=
  if maxNameLen < name.length then (parent, .invalidParameter, none)
  else
    match findSubkey toLower parent name with
    | (some subkey, _) => (parent, .objectNameCollision, some subkey.id)
    | (none, _) =>
      if !alloc.name || !alloc.object then (parent, .noMemory, none)
      else
        let subkey : Subkey := ⟨parent.nextId, name⟩
        match keyLinkName toLower parent subkey alloc with
        | none => (parent, .noMemory, none)
        | some parent =>
          let parent := { parent with nextId := parent.nextId + 1 }
          match init with
          | .ok => (parent, .success, some subkey.id)
          | .noMemory => (keyUnlinkName parent subkey.id alloc, .noMemory, none)
          | .childMustBeVolatile =>
            (keyUnlinkName parent subkey.id alloc, .childMustBeVolatile, none)

def renameKey (parent : Key) (id : Nat) (newName : Name) (alloc : Alloc) : Key × Status :=
  let len := getPathElement newName
  if len = 0 ∨ len ≠ newName.length ∨ maxNameLen < len then (parent, .invalidParameter)
  else
    match subkeyIndex parent id with
    -- the key is not linked
    | none => (parent, .cannotDelete)
    | some curIndex =>
      match findSubkey toLower parent newName with
      | (some _, _) => (parent, .cannotDelete)
      | (none, index) =>
        if parent.wow6432node = some id || isWow6432node toLower newName then
          (parent, .invalidParameter)
        else if !alloc.name then (parent, .noMemory)
        else
          let key : Subkey := ⟨id, newName⟩
          let subkeys :=
            if curIndex < index then
              let index := index - 1
              (shiftDown parent.subkeys curIndex (index - curIndex)).set index key
            else (shiftUp parent.subkeys index curIndex).set index key
          ({ parent with subkeys := subkeys }, .success)

/-- `enum_key`: the subkey at an index. -/
def enumKey (key : Key) (index : Nat) : Except Status Subkey :=
  if key.predef then .error .invalidHandle
  else
    match key.subkeys[index]? with
    | none => .error .noMoreEntries
    | some subkey => .ok subkey

def insertValue (key : Key) (name : Name) (index : Nat) (value : KeyValue) (alloc : Alloc) :
    Key × Status :=
  if maxValueLen < name.length then (key, .nameTooLong)
  else
    let grown :=
      if key.values.length = key.nbValues then growValues key alloc.grow else some key
    match grown with
    | none => (key, .noMemory)
    | some key =>
      if name ≠ [] && !alloc.name then (key, .noMemory)
      else
        let shifted := shiftUp (key.values ++ [value]) index key.values.length
        ({ key with values := shifted.set index value }, .success)

def setValue (key : Key) (name : Name) (type : Nat) (data : List UInt8) (alloc : Alloc) :
    Key × Status :=
  if key.predef then (key, .invalidHandle)
  else
    let (found, index) := findValue toLower key name
    let same := found.any fun value => value.type == type && value.data == data && data != []
    if same then (key, .success)
    else if key.symlink && (type != regLink || name.length != symlinkStr.length ||
        memicmpStrW toLower name symlinkStr name.length != 0) then (key, .accessDenied)
    else if data ≠ [] && !alloc.data then (key, .noMemory)
    else
      match found with
      | none => insertValue key name index ⟨name, type, data⟩ alloc
      | some value => ({ key with values := key.values.set index ⟨value.name, type, data⟩ }, .success)

def deleteValue (key : Key) (name : Name) (alloc : Alloc) : Key × Status :=
  if key.predef then (key, .invalidHandle)
  else
    match findValue toLower key name with
    | (none, _) => (key, .objectNameNotFound)
    | (some _, index) =>
      let last := key.values.length - 1
      let values := (shiftDown key.values index (last - index)).dropLast
      ({ key with
        values := values
        nbValues := shrink minValues key.nbValues values.length alloc.shrink }, .success)

/-- `enum_value`: the value at an index. -/
def enumValue (key : Key) (index : Nat) : Except Status KeyValue :=
  if key.predef then .error .invalidHandle
  else
    match key.values[index]? with
    | none => .error .noMoreEntries
    | some value => .ok value

inductive Op
  | create (name : Name) (init : Init) (alloc : Alloc)
  /-- the subkey is deleted -/
  | unlink (id : Nat) (alloc : Alloc)
  | rename (id : Nat) (newName : Name) (alloc : Alloc)
  | set (name : Name) (type : Nat) (data : List UInt8) (alloc : Alloc)
  | delete (name : Name) (alloc : Alloc)
  /-- the flags of the key are set -/
  | flag (symlink predef : Bool)

def step (key : Key) : Op → Key × Status × Option Nat
  | .create name init alloc => createSubkey toLower key name init alloc
  | .unlink id alloc => (keyUnlinkName key id alloc, .success, none)
  | .rename id newName alloc =>
    let (key, status) := renameKey toLower key id newName alloc
    (key, status, none)
  | .set name type data alloc =>
    let (key, status) := setValue toLower key name type data alloc
    (key, status, none)
  | .delete name alloc =>
    let (key, status) := deleteValue toLower key name alloc
    (key, status, none)
  | .flag symlink predef => ({ key with symlink := symlink, predef := predef }, .success, none)

/-- A key as `key_init` leaves it. -/
def Key.new (name : Name) : Key where
  name := name
  symlink := false
  predef := false
  subkeys := []
  nbSubkeys := 0
  wow6432node := none
  values := []
  nbValues := 0
  nextId := 0

end WineForge.Registry
