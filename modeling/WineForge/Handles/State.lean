import WineForge.Handles.Table

/-!
# The handle tables of the server

Every process has a table, and there is one global table whose handles are obfuscated. The
operations are the ones of `handle.c`. What they ask of the object, of the tokens and of the
allocator is an input of each step.
-/

namespace WineForge.Handles

variable {Pid Obj : Type*} [DecidableEq Pid]

structure State (Pid Obj : Type*) where
  handles : Pid → Option (HandleTable Obj)
  globalTable : Option (HandleTable Obj)

def State.tableOf (s : State Pid Obj) : Option Pid → Option (HandleTable Obj)
  | none => s.globalTable
  | some p => s.handles p

def State.setTable (s : State Pid Obj) (table : HandleTable Obj) : Option Pid → State Pid Obj
  | none => { s with globalTable := some table }
  | some p => { s with handles := Function.update s.handles p (some table) }

def reservedInherit : AccessMask := 0x04000000
def reservedCloseProtect : AccessMask := 0x08000000
def reservedAll : AccessMask := reservedInherit ||| reservedCloseProtect

def maximumAllowed : AccessMask := 0x02000000
def genericAll : AccessMask := 0x10000000
def objInherit : BitVec 32 := 0x00000002

def duplicateCloseSource : BitVec 32 := 0x00000001
def duplicateSameAccess : BitVec 32 := 0x00000002
def duplicateSameAttributes : BitVec 32 := 0x00000004
def duplicateMakeGlobal : BitVec 32 := 0x80000000

def handleObfuscator : Handle := 0x544a4def

def handleIsGlobal (handle : Handle) : Bool :=
  decide ((handle ^^^ handleObfuscator).toNat ≤ maxHandleEntries * 4)

def handleLocalToGlobal (handle : Handle) : Handle :=
  if handle = 0 then 0 else handle ^^^ handleObfuscator

def handleGlobalToLocal (handle : Handle) : Handle := handle ^^^ handleObfuscator

inductive TokenRef where
  /-- the token of the current thread or process -/
  | caller
  /-- the impersonation token of the current thread -/
  | current
  | dst
  deriving DecidableEq, Repr

/-- What one request finds outside the tables. -/
structure Env (Obj : Type*) where
  mapObjAccess : Obj → AccessMask → AccessMask
  checkObjectAccess : TokenRef → Obj → AccessMask → Option AccessMask
  hasCurrentToken : Bool
  magic : Handle → Option Obj
  closeAllowed : Bool
  allocOk : Bool
  reallocOk : Bool

inductive Status where
  | success
  | invalidHandle
  | handleNotClosable
  deriving DecidableEq, Repr

/-- An entry and the place where it was found. -/
structure Found (Pid Obj : Type*) where
  table : Option Pid
  index : Int
  entry : HandleEntry Obj

def getHandle (s : State Pid Obj) (process : Pid) (handle : Handle) :
    Except Fault (Option (Found Pid Obj)) :=
  let ref := if handleIsGlobal handle then none else some process
  let handle := if handleIsGlobal handle then handleGlobalToLocal handle else handle
  match s.tableOf ref with
  | none => .ok none
  | some table =>
    let index := handleToIndex handle
    if index < 0 then .ok none
    else if index > table.last then .ok none
    else
      match readPtr table index with
      | .error fault => .error fault
      | .ok none => .ok none
      | .ok (some entry) => .ok (some ⟨ref, index, entry⟩)

def getMagicHandle (env : Env Obj) (handle : Handle) : Option Obj :=
  if handle ∈ [0xfffffffa, 0xfffffffb, 0xfffffffc, 0xfffffffe, 0x7fffffff, 0xffffffff] then
    env.magic handle
  else none

/-- `alloc_entry` on a table of the state. -/
def allocIn (env : Env Obj) (s : State Pid Obj) (ref : Option Pid) (table : HandleTable Obj)
    (obj : Obj) (access : AccessMask) : Except Fault (State Pid Obj × Handle) :=
  match allocEntry env.reallocOk table obj access with
  | .error fault => .error fault
  | .ok (table, handle) => .ok (s.setTable table ref, handle)

def allocHandleEntry (env : Env Obj) (s : State Pid Obj) (process : Pid) (obj : Obj)
    (access : AccessMask) (attr : BitVec 32) : Except Fault (State Pid Obj × Handle) :=
  if access &&& reservedAll ≠ 0 then .error .aborted
  else
    let access := if attr &&& objInherit ≠ 0 then access ||| reservedInherit else access
    match s.handles process with
    | none => .ok (s, 0)
    | some table => allocIn env s (some process) table obj access

/-- The access that `alloc_handle_no_access_check` stores. -/
def uncheckedAccess (env : Env Obj) (obj : Obj) (access : AccessMask) : AccessMask :=
  env.mapObjAccess obj (if access &&& maximumAllowed ≠ 0 then genericAll else access) &&&
    ~~~reservedAll

def allocHandleNoAccessCheck (env : Env Obj) (s : State Pid Obj) (process : Pid) (obj : Obj)
    (access : AccessMask) (attr : BitVec 32) : Except Fault (State Pid Obj × Handle) :=
  allocHandleEntry env s process obj (uncheckedAccess env obj access) attr

/-- The access that `alloc_handle` stores, if it is granted any. -/
def checkedAccess (env : Env Obj) (obj : Obj) (access : AccessMask) : Option AccessMask :=
  let access := env.mapObjAccess obj access &&& ~~~reservedAll
  if access = 0 then none else env.checkObjectAccess .caller obj access

def allocHandle (env : Env Obj) (s : State Pid Obj) (process : Pid) (obj : Obj)
    (access : AccessMask) (attr : BitVec 32) : Except Fault (State Pid Obj × Handle) :=
  match checkedAccess env obj access with
  | none => .ok (s, 0)
  | some access => allocHandleEntry env s process obj access attr

def allocGlobalHandleNoAccessCheck (env : Env Obj) (s : State Pid Obj) (obj : Obj)
    (access : AccessMask) : Except Fault (State Pid Obj × Handle) :=
  match s.globalTable with
  | some table =>
    match allocIn env s none table obj access with
    | .error fault => .error fault
    | .ok (s, handle) => .ok (s, handleLocalToGlobal handle)
  | none =>
    if env.allocOk then
      match allocIn env s none (allocHandleTable 0) obj access with
      | .error fault => .error fault
      | .ok (s, handle) => .ok (s, handleLocalToGlobal handle)
    else .ok (s, 0)

def allocGlobalHandle (env : Env Obj) (s : State Pid Obj) (obj : Obj) (access : AccessMask) :
    Except Fault (State Pid Obj × Handle) :=
  if access = 0 then allocGlobalHandleNoAccessCheck env s obj access
  else
    match env.checkObjectAccess .caller obj access with
    | none => .ok (s, 0)
    | some access => allocGlobalHandleNoAccessCheck env s obj access

/-- `close_handle` computes the index from the handle it was given. -/
def closeHandle (env : Env Obj) (s : State Pid Obj) (process : Pid) (handle : Handle) :
    Except Fault (State Pid Obj × Status) :=
  let index := handleToIndex handle
  match getHandle s process handle with
  | .error fault => .error fault
  | .ok none => .ok (s, .invalidHandle)
  | .ok (some found) =>
    if found.entry.access &&& reservedCloseProtect ≠ 0 then .ok (s, .handleNotClosable)
    else if env.closeAllowed = false then .ok (s, .handleNotClosable)
    else
      let ref := if handleIsGlobal handle then none else some process
      match s.tableOf ref with
      | none => .error .aborted
      | some table =>
        match writeCell table index .empty with
        | .error fault => .error fault
        | .ok table =>
          let table := if index < table.free then { table with free := index.toNat } else table
          if index = table.last then
            match shrinkHandleTable env.reallocOk table with
            | .error fault => .error fault
            | .ok table => .ok (s.setTable table ref, .success)
          else .ok (s.setTable table ref, .success)

def writeAccess (s : State Pid Obj) (found : Found Pid Obj) (access : AccessMask) :
    Except Fault (State Pid Obj) :=
  match s.tableOf found.table with
  | none => .error .aborted
  | some table =>
    match writeCell table found.index (.used { found.entry with access := access }) with
    | .error fault => .error fault
    | .ok table => .ok (s.setTable table found.table)

def changedFlags (access : AccessMask) (mask flags : BitVec 32) : AccessMask :=
  let mask := (mask <<< 26) &&& reservedAll
  (access &&& ~~~mask) ||| ((flags <<< 26) &&& mask)

def setHandleFlags (env : Env Obj) (s : State Pid Obj) (process : Pid) (handle : Handle)
    (mask flags : BitVec 32) : Except Fault (State Pid Obj × Int) :=
  match getMagicHandle env handle with
  | some _ => .ok (s, 0)
  | none =>
    match getHandle s process handle with
    | .error fault => .error fault
    | .ok none => .ok (s, -1)
    | .ok (some found) =>
      match writeAccess s found (changedFlags found.entry.access mask flags) with
      | .error fault => .error fault
      | .ok s => .ok (s, ((found.entry.access &&& reservedAll) >>> 26).toNat)

def duplicateSource (env : Env Obj) (s : State Pid Obj) (src : Pid) (srcHandle : Handle) :
    Except Fault (Option (Obj × Option (Found Pid Obj))) :=
  match getHandle s src srcHandle with
  | .error fault => .error fault
  | .ok found =>
    match getMagicHandle env srcHandle, found with
    | some obj, found => .ok (some (obj, found))
    | none, some found => .ok (some (found.entry.ptr, some found))
    | none, none => .ok none

/-- The two access checks of a duplicate that asks for more rights. The token of a missing process
is not there to be checked. -/
def duplicateCheck (env : Env Obj) (obj : Obj) (dst : Option Pid) (access : AccessMask) :
    Except Fault (Option AccessMask) :=
  match (if env.hasCurrentToken then env.checkObjectAccess .current obj access else some access) with
  | none => .ok none
  | some access =>
    match dst with
    | none => .error .aborted
    | some _ => .ok (env.checkObjectAccess .dst obj access)

def allocForDst (dst : Option Pid) (alloc : Pid → Except Fault (State Pid Obj × Handle)) :
    Except Fault (State Pid Obj × Handle) :=
  match dst with
  | none => .error .aborted
  | some dst => alloc dst

/-- The branches of `duplicate_handle` that choose the new handle. -/
def duplicateEntry (env : Env Obj) (s : State Pid Obj) (src : Pid) (srcHandle : Handle)
    (dst : Option Pid) (obj : Obj) (found : Option (Found Pid Obj)) (srcAccess access : AccessMask)
    (attr options : BitVec 32) : Except Fault (State Pid Obj × Handle) :=
  if access &&& ~~~srcAccess ≠ 0 then
    match duplicateCheck env obj dst access with
    | .error fault => .error fault
    | .ok none => .ok (s, 0)
    | .ok (some access) =>
      if options &&& duplicateMakeGlobal ≠ 0 then allocGlobalHandle env s obj access
      else allocForDst dst fun dst => allocHandleNoAccessCheck env s dst obj access attr
  else if options &&& duplicateMakeGlobal ≠ 0 then
    allocGlobalHandleNoAccessCheck env s obj access
  else
    match found with
    | some found =>
      if options &&& duplicateCloseSource ≠ 0 ∧ some src = dst ∧
          found.entry.access &&& reservedCloseProtect = 0 then
        match writeAccess s found
          (if attr &&& objInherit ≠ 0 then access ||| reservedInherit else access) with
        | .error fault => .error fault
        | .ok s => .ok (s, srcHandle)
      else allocForDst dst fun dst => allocHandleEntry env s dst obj access attr
    | none => allocForDst dst fun dst => allocHandleEntry env s dst obj access attr

def duplicateWanted (env : Env Obj) (obj : Obj) (srcAccess access : AccessMask)
    (options : BitVec 32) : AccessMask :=
  if options &&& duplicateSameAccess ≠ 0 then srcAccess
  else env.mapObjAccess obj access &&& ~~~reservedAll

def sourceAccess (env : Env Obj) (obj : Obj) : Option (Found Pid Obj) → AccessMask
  | some found => found.entry.access
  | none => env.mapObjAccess obj genericAll

def duplicateHandle (env : Env Obj) (s : State Pid Obj) (src : Pid) (srcHandle : Handle)
    (dst : Option Pid) (access : AccessMask) (attr options : BitVec 32) :
    Except Fault (State Pid Obj × Handle) :=
  match duplicateSource env s src srcHandle with
  | .error fault => .error fault
  | .ok none => .ok (s, 0)
  | .ok (some (obj, found)) =>
    let srcFlags := (sourceAccess env obj found &&& reservedAll) >>> 26
    let srcAccess := sourceAccess env obj found &&& ~~~reservedAll
    let access := duplicateWanted env obj srcAccess access options
    match duplicateEntry env s src srcHandle dst obj found srcAccess access attr options with
    | .error fault => .error fault
    | .ok (s, res) =>
      if res ≠ 0 ∧ options &&& duplicateSameAttributes ≠ 0 then
        match dst with
        | none => .error .aborted
        | some dst =>
          match setHandleFlags env s dst res (-1) srcFlags with
          | .error fault => .error fault
          | .ok (s, _) => .ok (s, res)
      else .ok (s, res)

/-- `inherit_handle` looks the handle up in the parent, but computes the index itself. -/
def inheritHandle (s : State Pid Obj) (parent : Pid) (handle : Handle) (table : HandleTable Obj) :
    Except Fault (HandleTable Obj) :=
  match getHandle s parent handle with
  | .error fault => .error fault
  | .ok none => .ok table
  | .ok (some found) =>
    if found.entry.access &&& reservedInherit = 0 then .ok table
    else
      let index := handleToIndex handle
      match readPtr table index with
      | .error fault => .error fault
      | .ok (some _) => .ok table
      | .ok none =>
        match writeCell table index (.used found.entry) with
        | .error fault => .error fault
        | .ok table => .ok { table with last := max table.last index }

def inheritHandles (s : State Pid Obj) (parent : Pid) :
    List Handle → HandleTable Obj → Except Fault (HandleTable Obj)
  | [], table => .ok table
  | handle :: handles, table =>
    match inheritHandle s parent handle table with
    | .error fault => .error fault
    | .ok table => inheritHandles s parent handles table

def inheritCells : List (Cell Obj) → Except Fault (List (Cell Obj))
  | [] => .ok []
  | .junk :: _ => .error .uninitialised
  | .empty :: cells =>
    match inheritCells cells with
    | .error fault => .error fault
    | .ok cells => .ok (.empty :: cells)
  | .used entry :: cells =>
    match inheritCells cells with
    | .error fault => .error fault
    | .ok cells =>
      .ok ((if entry.access &&& reservedInherit ≠ 0 then .used entry else .empty) :: cells)

/-- `memset` on the first `n` cells. -/
def clearCells (table : HandleTable Obj) (n : Nat) : Except Fault (HandleTable Obj) :=
  if n ≤ table.count then
    .ok { table with entries := List.replicate n .empty ++ table.entries.drop n }
  else .error .outOfBounds

/-- `memcpy` of the cells up to `last`, and the loop behind it. -/
def copyCells (table parentTable : HandleTable Obj) : Except Fault (HandleTable Obj) :=
  let n := (parentTable.last + 1).toNat
  if n ≤ table.count ∧ n ≤ parentTable.count then
    match inheritCells (parentTable.entries.take n) with
    | .error fault => .error fault
    | .ok cells =>
      .ok { table with entries := cells ++ table.entries.drop n, last := parentTable.last }
  else .error .outOfBounds

def copiedTable (s : State Pid Obj) (parent : Pid) (parentTable : HandleTable Obj)
    (handles : Option (List Handle)) (stdHandles : Fin 3 → Handle) :
    Except Fault (HandleTable Obj) :=
  match handles with
  | some handles =>
    match clearCells (allocHandleTable parentTable.count) parentTable.count with
    | .error fault => .error fault
    | .ok table =>
      match inheritHandles s parent handles table with
      | .error fault => .error fault
      | .ok table => inheritHandles s parent (List.ofFn stdHandles) table
  | none => copyCells (allocHandleTable parentTable.count) parentTable

def copyHandleTable (env : Env Obj) (s : State Pid Obj) (parent : Pid)
    (handles : Option (List Handle)) (stdHandles : Fin 3 → Handle) :
    Except Fault (Option (HandleTable Obj)) :=
  match s.handles parent with
  | none => .error .aborted
  | some parentTable =>
    if env.allocOk = false then .ok none
    else
      match copiedTable s parent parentTable handles stdHandles with
      | .error fault => .error fault
      | .ok table =>
        match shrinkHandleTable env.reallocOk table with
        | .error fault => .error fault
        | .ok table => .ok (some table)

/-- The reads of `handle_table_destroy`. -/
def readCells (table : HandleTable Obj) : Nat → Except Fault Unit
  | 0 => .ok ()
  | n + 1 =>
    match readPtr table n with
    | .error fault => .error fault
    | .ok _ => readCells table n

def closeProcessHandles (s : State Pid Obj) (process : Pid) : Except Fault (State Pid Obj) :=
  match s.handles process with
  | none => .ok s
  | some table =>
    match readCells table (table.last + 1).toNat with
    | .error fault => .error fault
    | .ok _ => .ok { s with handles := Function.update s.handles process none }

inductive Op (Pid Obj : Type*) where
  | alloc (process : Pid) (obj : Obj) (access : AccessMask) (attr : BitVec 32)
  | allocChecked (process : Pid) (obj : Obj) (access : AccessMask) (attr : BitVec 32)
  | close (process : Pid) (handle : Handle)
  | setFlags (process : Pid) (handle : Handle) (mask flags : BitVec 32)
  | duplicate (src : Pid) (srcHandle : Handle) (dst : Option Pid) (access : AccessMask)
      (attr options : BitVec 32)
  | newTable (process : Pid)
  | copyTable (process parent : Pid) (handles : Option (List Handle)) (stdHandles : Fin 3 → Handle)
  | closeAll (process : Pid)

inductive Result where
  | done
  | handle (handle : Handle)
  | status (status : Status)
  | flags (flags : Int)
  deriving DecidableEq, Repr

def withHandle : Except Fault (State Pid Obj × Handle) → Except Fault (State Pid Obj × Result)
  | .error fault => .error fault
  | .ok (s, handle) => .ok (s, .handle handle)

def exec (s : State Pid Obj) (env : Env Obj) : Op Pid Obj → Except Fault (State Pid Obj × Result)
  | .alloc process obj access attr =>
    withHandle (allocHandleNoAccessCheck env s process obj access attr)
  | .allocChecked process obj access attr =>
    withHandle (allocHandle env s process obj access attr)
  | .close process handle =>
    match closeHandle env s process handle with
    | .error fault => .error fault
    | .ok (s, status) => .ok (s, .status status)
  | .setFlags process handle mask flags =>
    match setHandleFlags env s process handle mask flags with
    | .error fault => .error fault
    | .ok (s, flags) => .ok (s, .flags flags)
  | .duplicate src srcHandle dst access attr options =>
    withHandle (duplicateHandle env s src srcHandle dst access attr options)
  | .newTable process =>
    if (s.handles process).isSome then .error .aborted
    else if env.allocOk then .ok (s.setTable (allocHandleTable 0) (some process), .done)
    else .ok (s, .done)
  | .copyTable process parent handles stdHandles =>
    if (s.handles process).isSome then .error .aborted
    else
      match copyHandleTable env s parent handles stdHandles with
      | .error fault => .error fault
      | .ok none => .ok (s, .done)
      | .ok (some table) => .ok (s.setTable table (some process), .done)
  | .closeAll process =>
    match closeProcessHandles s process with
    | .error fault => .error fault
    | .ok s => .ok (s, .done)

lemma exec_occupied {s : State Pid Obj} (env : Env Obj) {process : Pid} {table : HandleTable Obj}
    (h : s.handles process = some table) :
    exec s env (.newTable process) = .error .aborted ∧
      ∀ parent handles stdHandles,
        exec s env (.copyTable process parent handles stdHandles) = .error .aborted := by
  simp [exec, h]

def step (s : State Pid Obj) (a : Env Obj × Op Pid Obj) : Option (State Pid Obj) :=
  match exec s a.1 a.2 with
  | .error _ => none
  | .ok (s, _) => some s

def Initial (s : State Pid Obj) : Prop := s.globalTable = none ∧ ∀ p, s.handles p = none

end WineForge.Handles
