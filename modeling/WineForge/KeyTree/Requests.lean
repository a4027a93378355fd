import WineForge.KeyTree.Lookup

/-!
# Registry requests

The handlers of the requests for registry keys, the loading and saving of branches, and the tree that
`init_registry` builds. Replies and status codes are left out.
-/

namespace WineForge.KeyTree

open WineForge.Registry (WChar Name KeyValue backslash compareName minSubkeys minValues maxNameLen
  maxValueLen regLink symlinkStr getPathElement isWow6432node memicmpStrW grow shrink)

variable (toLower : WChar → WChar) (debug : Bool) (c : Circumstances)

inductive KeyInformation
  | name
  | basic
  | node
  | full
  | cached
  | other
  deriving DecidableEq, Repr

def enumKey (s : Server) (key : KeyId) (index : Int) (infoClass : KeyInformation) :
    Except Stop Unit :=
  if (s.key key).flags.predef then pure ()
  else
    -- -1 means use the specified key directly
    let key? :=
      if index = -1 then some key
      else if index < 0 then none
      else (s.key key).subkeys[index.toNat]?
    match key? with
    | none => pure ()
    | some key => do
      let _ ← s.nameOf key
      match infoClass with
      | .other => pure ()
      | .full | .cached =>
        (s.key key).subkeys.foldlM (fun _ subkey => do
            let _ ← s.nameOf subkey
            pure ())
          ()
        let _ ← dumpOperation debug c.fuel s key
      | .name | .basic | .node =>
        let _ ← dumpOperation debug c.fuel s key

def renameKey (s : Server) (key : KeyId) (newName : Name) : Except Stop Server := do
  let parent ← getParent s key
  let len := getPathElement newName
  -- changing to a path is not allowed
  if len = 0 ∨ len ≠ newName.length ∨ maxNameLen < len then pure s
  else
    match parent with
    | none => pure s
    | some parent => do
      let (found, index) ← findSubkey toLower s parent newName
      if found.isSome then pure s
      else if (s.key parent).wow6432node = some key ∨ isWow6432node toLower newName = true then
        pure s
      else
        let (ok, s) := memAlloc s
        if !ok then pure s
        else do
          let curIndex := (s.key parent).subkeys.findIdx (· == key)
          let index := if curIndex < index then index - 1 else index
          let s := s.modify parent fun k =>
            { k with subkeys := (k.subkeys.erase key).insertIdx index key }
          let s := s.modify key fun k => { k with name := some ⟨newName, .key parent⟩ }
          let _ ← dumpOperation debug c.fuel s key
          touchKey c.fuel c.now s key

mutual

def deleteKey : Nat → Server → KeyId → Bool → Except Stop (Server × Bool)
  | 0, _, _, _ => .error .unbounded
  | fuel + 1, s, key, recurse =>
    if (s.key key).flags.deleted then pure (s, true)
    else do
      match ← getParent s key with
      | none => pure (s, false)
      | some parent =>
        if (s.key key).flags.predef then pure (s, false)
        else do
          let (s, ok) ←
            if recurse then deleteSubkeys fuel s key
            else pure (s, (s.key key).subkeys.isEmpty)
          if !ok then pure (s, false)
          else do
            let _ ← dumpOperation debug c.fuel s key
            let s := s.modify key fun k => { k with flags := { k.flags with deleted := true } }
            let s := unlinkNamedObject s key
            let s ← touchKey c.fuel c.now s parent
            pure (s, true)

/-- `while (key->last_subkey >= 0)` -/
def deleteSubkeys : Nat → Server → KeyId → Except Stop (Server × Bool)
  | 0, _, _ => .error .unbounded
  | fuel + 1, s, key =>
    match (s.key key).subkeys.getLast? with
    | none => pure (s, true)
    | some subkey => do
      let (s, ok) ← deleteKey fuel s subkey true
      if ok then deleteSubkeys fuel s key else pure (s, false)

end

def setValue (s : Server) (key : KeyId) (name : Name) (type : Nat) (data : List UInt8) :
    Except Stop Server :=
  if (s.key key).flags.predef then pure s
  else do
    let (found, index) ← findValue toLower s key name
    if found.any fun value => value.type == type && value.data == data && data != [] then do
      let _ ← dumpOperation debug c.fuel s key
      pure s
    else if (s.key key).flags.symlink && (type != regLink || name.length != symlinkStr.length ||
        memicmpStrW toLower name symlinkStr name.length != 0) then pure s
    else
      let (ok, s) := memAllocIf (data ≠ []) s
      if !ok then pure s
      else
        let (s, ok) := if found.isNone then insertValue s key name index else (s, true)
        if !ok then pure s
        else do
          let s := s.modify key fun k =>
            { k with
              values := k.values.modify index fun value =>
                { value with type := type, data := data } }
          let s ← touchKey c.fuel c.now s key
          let _ ← dumpOperation debug c.fuel s key
          pure s

/-- `get_value`, with the value that is found. -/
def getValue (s : Server) (key : KeyId) (name : Name) : Except Stop (Option KeyValue) :=
  if (s.key key).flags.predef then pure none
  else do
    let (found, _) ← findValue toLower s key name
    if found.isSome then do
      let _ ← dumpOperation debug c.fuel s key
      pure found
    else pure none

/-- `enum_value`, with the value at the index. -/
def enumValue (s : Server) (key : KeyId) (index : Int) (infoClass : Bool) :
    Except Stop (Option KeyValue) :=
  if (s.key key).flags.predef || index < 0 then pure none
  else
    match (s.key key).values[index.toNat]? with
    | none => pure none
    | some value =>
      if !infoClass then pure none
      else do
        let _ ← dumpOperation debug c.fuel s key
        pure (some value)

def deleteValue (s : Server) (key : KeyId) (name : Name) : Except Stop Server :=
  if (s.key key).flags.predef then pure s
  else do
    let (found, index) ← findValue toLower s key name
    if found.isNone then pure s
    else do
      let _ ← dumpOperation debug c.fuel s key
      let s := s.modify key fun k => { k with values := k.values.eraseIdx index }
      let s ← touchKey c.fuel c.now s key
      let nb := (s.key key).nbValues
      let used := (s.key key).values.length
      let shrinks := minValues < nb ∧ used < nb / 2 + 1
      let (ok, s) := memAllocIf shrinks s
      pure (s.modify key fun k => { k with nbValues := shrink minValues nb used ok })

/-- A line of a registry file, with its strings as they are parsed; `none` is a malformed one. -/
inductive Line
  | key (path : Option Name) (modif : Option Int)
  | value (name : Option Name) (data : Option (Nat × List UInt8))
  | time (modif : Int)
  | keyClass (name : Option Name)
  | link
  /-- the architecture, and whether it is the one of the prefix -/
  | arch (matching : Bool)
  | other

/-- The loop of `get_prefix_len` from a key upwards. -/
def prefixLevel (s : Server) (element : Name) : Nat → Option KeyId → Nat → Except Stop Nat
  | 0, _, _ => .error .unbounded
  | fuel + 1, key?, res =>
    if key? = s.rootKey then pure 0
    else
      match key? with
      | none => .error .nullKey
      | some key => do
        let name ← s.nameOf key
        if element.length = name.name.length ∧
            memicmpStrW toLower element name.name element.length = 0 then pure res
        else do
          let parent ← getParent s key
          prefixLevel s element fuel parent (res + 1)

def getPrefixLen (s : Server) (key : KeyId) : Option Name → Except Stop Nat
  | none => pure 0
  | some path =>
    let element := path.takeWhile fun ch => ch != backslash && ch != 0
    prefixLevel toLower s element c.fuel (some key) 1

def skipPrefix : Nat → Name → Nat × Name
  | prefixLen, [] => (prefixLen, [])
  | 0, path => (0, path)
  | prefixLen + 1, ch :: path =>
    if ch = 0 then (prefixLen + 1, ch :: path)
    else if ch = backslash then skipPrefix prefixLen path
    else skipPrefix (prefixLen + 1) path

def loadKey (s : Server) (base : KeyId) (path : Option Name) (prefixLen : Nat) :
    Except Stop (Server × Option KeyId) :=
  match path with
  | none => pure (s, none)
  | some path =>
    let (left, rest) := skipPrefix prefixLen path
    if rest.headD 0 = 0 then
      -- empty key name, return base key
      if 1 < left then pure (s, none) else pure (s, some base)
    else createKeyRecursive toLower c s base rest 0

def loadValue (s : Server) (key : KeyId) (name : Option Name) (data : Option (Nat × List UInt8)) :
    Except Stop Server :=
  match name with
  | none => pure s
  | some name => do
    let (found, index) ← findValue toLower s key name
    let (s, ok) := if found.isNone then insertValue s key name index else (s, true)
    if !ok then pure s
    else
      let (type, bytes) := data.getD (0, [])
      let (ok, s) := memAllocIf (bytes ≠ []) s
      if !ok then pure s
      else
        pure (s.modify key fun k =>
          { k with
            values := k.values.modify index fun value =>
              { value with type := type, data := bytes } })

def loadKeyOption (s : Server) (key : KeyId) : Line → Except Stop Server
  | .time modif => updateKeyTime c.fuel s key modif
  | .keyClass (some name) =>
    let (ok, s) := memAlloc s
    pure (s.modify key fun k => { k with keyClass := if ok then some name else none })
  | .link => pure (s.modify key fun k => { k with flags := { k.flags with symlink := true } })
  | _ => pure s

/-- The key that is being loaded, its time, and the elements to skip once they are known. -/
structure Loading where
  subkey : Option KeyId
  modif : Int
  prefixLen : Option Nat

def finishSubkey (s : Server) (loading : Loading) : Except Stop Server :=
  match loading.subkey with
  | none => pure s
  | some subkey => updateKeyTime c.fuel s subkey loading.modif

/-- The lines of a file after the first; the result tells if it is no registry file. -/
def loadKeys (base : KeyId) : List Line → Server → Loading → Except Stop (Server × Bool)
  | [], s, loading => do
    let s ← finishSubkey c s loading
    pure (s, false)
  | .key path modif :: lines, s, loading => do
    let s ← finishSubkey c s loading
    let prefixLen ←
      match loading.prefixLen with
      | some prefixLen => pure prefixLen
      | none => getPrefixLen toLower c s base path
    let (s, subkey) ← loadKey toLower c s base path prefixLen
    loadKeys base lines s ⟨subkey, modif.getD c.now, some prefixLen⟩
  | .value name data :: lines, s, loading =>
    match loading.subkey with
    | none => loadKeys base lines s loading
    | some subkey => do
      let s ← loadValue toLower s subkey name data
      loadKeys base lines s loading
  | line :: lines, s, loading =>
    match loading.subkey, line with
    | none, .arch false => pure (s, true)
    | none, _ => loadKeys base lines s loading
    | some subkey, line => do
      let s ← loadKeyOption c s subkey line
      loadKeys base lines s loading

def saveSubkeys : Nat → Server → KeyId → KeyId → Except Stop (List (List Name))
  | 0, _, _, _ => .error .unbounded
  | fuel + 1, s, key, base =>
    let k := s.key key
    if k.flags.isVolatile then pure []
    else do
      let own ←
        if k.values ≠ [] ∨ k.subkeys = [] ∨ k.keyClass.isSome ∨ k.flags.symlink = true then do
          let path ← if key ≠ base then dumpPath c.fuel s key (some base) else pure []
          pure [path]
        else pure []
      k.subkeys.foldlM (fun saved subkey => do
          let below ← saveSubkeys fuel s subkey base
          pure (saved ++ below))
        own

def saveAllSubkeys (s : Server) (key : KeyId) : Except Stop (List (List Name)) := do
  let path ← dumpPath c.fuel s key none
  let saved ← saveSubkeys c c.fuel s key key
  pure (path :: saved)

/-- `opened` and `written` tell if the file can be opened and is written. -/
def saveBranch (opened written : KeyId → Bool) (s : Server) (key : KeyId) : Except Stop Server :=
  if !(s.key key).flags.dirty then do
    let _ ← dumpOperation debug c.fuel s key
    pure s
  else if !opened key then pure s
  else do
    let _ ← dumpOperation debug c.fuel s key
    let _ ← saveAllSubkeys c s key
    if written key then makeClean c.fuel s key else pure s

def periodicSave (opened written : KeyId → Bool) (s : Server) : Except Stop Server :=
  s.branches.foldlM (saveBranch debug c opened written) s

def ofString (str : String) : Name := str.toList.map fun ch => ch.toNat.toUInt16

/-- The lines of a file after its first line, unless that is not the one of a registry file. -/
abbrev RegistryFile := Option (List Line)

inductive Machine
  | i386
  | armnt
  deriving DecidableEq, Repr

def Machine.classes : Machine → Name
  | .i386 => ofString "Software\\Classes\\Wow6432Node"
  | .armnt => ofString "Software\\Classes\\WowAA32Node"

/-- The path for `local_user_sid`. -/
def currentUserPath : Name := ofString "User\\S-1-5-21-0-0-0-1000"

/-- What `init_registry` finds in the configuration directory, and the machines that are supported
besides the native one. -/
structure Start where
  circumstances : Circumstances
  systemReg : Option RegistryFile
  userdefReg : Option RegistryFile
  userReg : Option RegistryFile
  machines : List Machine

def mustCreate : Except Stop (Server × Option KeyId) → Except Stop (Server × KeyId)
  | .ok (s, some key) => .ok (s, key)
  | .ok (_, none) => .error .fatal
  | .error stop => .error stop

/-- `false` if the file does not exist. -/
def loadInitRegistryFromFile (s : Server) (file : Option RegistryFile) (key : KeyId) :
    Except Stop (Server × Bool) := do
  let (s, notRegistry) ←
    match file with
    | none => pure (s, false)
    | some none => pure (s, true)
    | some (some lines) => loadKeys toLower c key lines s ⟨none, c.now, some 0⟩
  if notRegistry then pure (s, true)
  else
    let s := s.modify key fun k => { k with isPermanent := true }
    pure ({ s with branches := s.branches ++ [key] }, file.isSome)

def flagKey (s : Server) (root : KeyId) (name : Name) (flag : Flags → Flags) :
    Except Stop (Server × Option KeyId) := do
  let (s, key) ← createKeyRecursive toLower c s root name c.now
  match key with
  | none => pure (s, none)
  | some key => pure (s.modify key fun k => { k with flags := flag k.flags }, some key)

def emptyServer (allocs : List Bool) : Server where
  key := fun _ => Key.blank
  next := 0
  rootKey := none
  handles := []
  branches := []
  allocs := allocs

def controlSet001Path : List UInt8 :=
  (ofString "\\Registry\\Machine\\System\\ControlSet001").flatMap fun ch : WChar =>
    [ch.toUInt8, (ch >>> 8).toUInt8]

def initRegistry (start : Start) : Except Stop Server := do
  let c := start.circumstances
  let (s, created) ← createNamedObject toLower c (emptyServer c.allocs)
    ⟨none, ofString "\\REGISTRY", ⟨false, false, true, false⟩, false, ⟨false, false, [], c.now⟩⟩
  match created with
  | .failed | .existing _ => .error .fatal
  | .new root => do
    let s := { s with rootKey := some root }
    let (s, hklm) ← mustCreate (createKeyRecursive toLower c s root (ofString "Machine") c.now)
    let (s, exists?) ← loadInitRegistryFromFile toLower c s start.systemReg hklm
    let s ←
      if exists? then pure s
      else do
        let (s, key) ← flagKey toLower c s hklm (ofString "System\\CurrentControlSet")
          fun flags => { flags with symlink := true }
        match key with
        | none => pure s
        | some key => setValue toLower debug c s key symlinkStr regLink controlSet001Path
    let (s, default) ←
      mustCreate (createKeyRecursive toLower c s root (ofString "User\\.Default") c.now)
    let (s, _) ← loadInitRegistryFromFile toLower c s start.userdefReg default
    let (s, hkcu) ← mustCreate (createKeyRecursive toLower c s root currentUserPath c.now)
    let (s, _) ← loadInitRegistryFromFile toLower c s start.userReg hkcu
    let s ← start.machines.foldlM
      (fun s machine => do
        let (s, _) ← flagKey toLower c s hklm machine.classes
          fun flags => { flags with wowshare := true }
        pure s)
      s
    let perflib := ofString "Software\\Microsoft\\Windows NT\\CurrentVersion\\Perflib\\009"
    let (s, _) ← flagKey toLower c s hklm perflib fun flags => { flags with predef := true }
    pure s

def getHandleObj (s : Server) (hkey : Nat) : Option KeyId :=
  if c.granted then s.handles.lookup hkey else none

def getHkeyObj (s : Server) (hkey : Nat) : Option KeyId :=
  (getHandleObj c s hkey).filter fun key => !(s.key key).flags.deleted

def allocHandle (s : Server) (key : KeyId) : Server :=
  match c.newHandle with
  | none => s
  | some hkey =>
    if (s.handles.lookup hkey).isNone then { s with handles := (hkey, key) :: s.handles } else s

/-- The root key of a request: `none` if the handle is refused. -/
def rootOf (s : Server) : Option Nat → Option (Option KeyId)
  | none => some none
  | some hkey => (getHkeyObj c s hkey).map some

def wow64Root (s : Server) (access : Access) (name : Name) : Option KeyId → Except Stop (Option Obj)
  | none => pure none
  | some parent => do
    let key ← getWow6432Parent toLower c s parent access name
    pure (some (.key key))

/-- The handler of `create_key`. -/
def createKeyRequest (s : Server) (rootdir : Option Nat) (name : Name) (attr : Attributes)
    (sd : Bool) (access : Access) (data : KeyInitData) : Except Stop Server :=
  let access := access.of c
  let attr := { attr with keyWow64 := attr.keyWow64 || !access.wow64Key64 }
  let attr := if data.createLink then { attr with openif := false, openlink := true } else attr
  match rootOf c s rootdir with
  | none => pure s
  | some parent => do
    let root ← wow64Root toLower c s access name parent
    let data := { data with modif := c.now }
    let (s, created) ←
      if name ≠ [] then createNamedObject toLower c s ⟨root, name, attr, sd, data⟩
      else do
        let found ← openNamedObject toLower c s root name attr
        pure (s, match found with | none => .failed | some key => .existing key)
    match created with
    | .failed => pure s
    | .existing key =>
      pure (allocHandle c s (if access.wow64Key64 then key else grabWow6432node s key))
    | .new key => do
      let s := allocHandle c s key
      let s ←
        if parent.isSome then do
          match ← getParent s key with
          | none => .error .nullKey
          | some parent => touchKey c.fuel c.now s parent
        else pure s
      let _ ← dumpOperation debug c.fuel s key
      pure s

/-- The handler of `open_key`. -/
def openKeyRequest (s : Server) (parent : Option Nat) (name : Name) (attr : Attributes)
    (access : Access) : Except Stop Server :=
  let access := access.of c
  let attr := { attr with keyWow64 := attr.keyWow64 || !access.wow64Key64 }
  match rootOf c s parent with
  | none => pure s
  | some parent => do
    let root ← wow64Root toLower c s access name parent
    match ← openNamedObject toLower c s root name attr with
    | none => pure s
    | some key => do
      let key := if access.wow64Key64 then key else grabWow6432node s key
      let s := allocHandle c s key
      let _ ← dumpOperation debug c.fuel s key
      pure s

/-- The handler of `load_registry`. -/
def loadRegistryRequest (s : Server) (rootdir : Option Nat) (name : Name) (attr : Attributes)
    (sd : Bool) (file : Option RegistryFile) : Except Stop Server :=
  if !c.privileged then pure s
  else
    match rootOf c s rootdir with
    | none => pure s
    | some parent => do
      let (s, created) ← createNamedObject toLower c s
        ⟨parent.map .key, name, attr, sd, ⟨false, false, [], c.now⟩⟩
      match created, file with
      | .existing key, some (some lines) | .new key, some (some lines) => do
        let (s, _) ← loadKeys toLower c key lines s ⟨none, c.now, none⟩
        pure s
      | _, _ => pure s

/-- The handler of `unload_registry`. -/
def unloadRegistryRequest (s : Server) (parent : Option Nat) (name : Name) (attr : Attributes) :
    Except Stop Server :=
  if !c.privileged then pure s
  else
    match rootOf c s parent with
    | none => pure s
    | some parent => do
      match ← openNamedObject toLower c s (parent.map .key) name attr with
      | none => pure s
      | some key =>
        -- a key with open handles or a permanent one stays
        if s.handles.any (·.2 == key) || (s.key key).isPermanent then pure s
        else do
          let (s, _) ← deleteKey debug c c.fuel s key true
          pure s

inductive Request
  | createKey (rootdir : Option Nat) (name : Name) (attr : Attributes) (sd : Bool)
      (access : Access) (data : KeyInitData)
  | openKey (parent : Option Nat) (name : Name) (attr : Attributes) (access : Access)
  | deleteKey (hkey : Nat)
  | enumKey (hkey : Nat) (index : Int) (infoClass : KeyInformation)
  | setKeyValue (hkey : Nat) (name : Name) (type : Nat) (data : List UInt8)
  | getKeyValue (hkey : Nat) (name : Name)
  | enumKeyValue (hkey : Nat) (index : Int) (infoClass : Bool)
  | deleteKeyValue (hkey : Nat) (name : Name)
  | loadRegistry (rootdir : Option Nat) (name : Name) (attr : Attributes) (sd : Bool)
      (file : Option RegistryFile)
  | unloadRegistry (parent : Option Nat) (name : Name) (attr : Attributes)
  | saveRegistry (hkey : Nat) (opened : Bool)
  | renameKey (hkey : Nat) (name : Name)
  | closeHandle (hkey : Nat)
  | duplicateHandle (hkey : Nat)
  /-- the timer of the periodic save, or the save at the end -/
  | saveBranches (opened written : KeyId → Bool)

def withKey (s : Server) (key : Option KeyId) (f : KeyId → Except Stop Server) :
    Except Stop Server :=
  match key with
  | none => pure s
  | some key => f key

def step (s : Server) : Circumstances × Request → Except Stop Server
  | (c, request) =>
    let s := { s with allocs := c.allocs }
    match request with
    | .createKey rootdir name attr sd access data =>
      createKeyRequest toLower debug c s rootdir name attr sd access data
    | .openKey parent name attr access => openKeyRequest toLower debug c s parent name attr access
    | .deleteKey hkey =>
      -- here a deleted key is not refused
      withKey s (getHandleObj c s hkey) fun key => do
        let (s, _) ← deleteKey debug c c.fuel s key false
        pure s
    | .enumKey hkey index infoClass =>
      withKey s (getHkeyObj c s hkey) fun key => do
        enumKey debug c s key index infoClass
        pure s
    | .setKeyValue hkey name type data =>
      withKey s (getHkeyObj c s hkey) fun key => setValue toLower debug c s key name type data
    | .getKeyValue hkey name =>
      withKey s (getHkeyObj c s hkey) fun key => do
        let _ ← getValue toLower debug c s key name
        pure s
    | .enumKeyValue hkey index infoClass =>
      withKey s (getHkeyObj c s hkey) fun key => do
        let _ ← enumValue debug c s key index infoClass
        pure s
    | .deleteKeyValue hkey name =>
      withKey s (getHkeyObj c s hkey) fun key => deleteValue toLower debug c s key name
    | .loadRegistry rootdir name attr sd file =>
      loadRegistryRequest toLower c s rootdir name attr sd file
    | .unloadRegistry parent name attr => unloadRegistryRequest toLower debug c s parent name attr
    | .saveRegistry hkey opened =>
      if !c.privileged then pure s
      else
        withKey s (getHkeyObj c s hkey) fun key =>
          if opened then do
            let _ ← saveAllSubkeys c s key
            pure s
          else pure s
    | .renameKey hkey name =>
      withKey s (getHkeyObj c s hkey) fun key => renameKey toLower debug c s key name
    | .closeHandle hkey => pure { s with handles := s.handles.filter (·.1 != hkey) }
    | .duplicateHandle hkey =>
      withKey s (getHandleObj c s hkey) fun key => pure (allocHandle c s key)
    | .saveBranches opened written => periodicSave debug c opened written s

end WineForge.KeyTree
