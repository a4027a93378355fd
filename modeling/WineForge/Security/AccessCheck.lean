import WineForge.Security.Descriptor

/-!
# Tokens and the access check

A token carries the user's SID, the groups with their attributes and the privileges. A restricted
token is a copy in which the listed groups are marked and the listed privileges are left out.
-/

namespace WineForge.Security

open WineForge.Library
open WineForge.Library.ByteMemory

inductive Status where
  | success
  | accessDenied
  | genericNotMapped
  | invalidSecurityDescr
  | privilegeNotHeld
  | bufferTooSmall
  | badImpersonationLevel
  deriving DecidableEq, Repr

structure Luid where
  lowPart : BitVec 32
  highPart : BitVec 32
  deriving DecidableEq, Repr

structure LuidAttr where
  luid : Luid
  attrs : BitVec 32
  deriving DecidableEq, Repr

structure Privilege where
  luid : Luid
  enabled : Bool
  byDefault : Bool
  deriving DecidableEq, Repr

structure Group where
  attrs : BitVec 32
  sid : Sid
  deriving DecidableEq, Repr

def seGroupEnabledByDefault : BitVec 32 := 0x00000002
def seGroupEnabled : BitVec 32 := 0x00000004
def seGroupUseForDenyOnly : BitVec 32 := 0x00000010
def sePrivilegeUsedForAccess : BitVec 32 := 0x80000000
def seSecurityPrivilege : Luid := ⟨8, 0⟩

def securityAnonymous : Int := 0
def securityDelegation : Int := 3

/-- The primary group is one of the groups. -/
structure Token where
  privileges : List Privilege
  groups : List Group
  user : Sid
  primaryGroup : Nat
  primaryGroup_lt : primaryGroup < groups.length
  primary : Bool
  impersonationLevel : Int
  deriving DecidableEq, Repr

def isEqualLuid (luid1 luid2 : Luid) : Bool :=
  luid1.lowPart == luid2.lowPart && luid1.highPart == luid2.highPart

def filterGroup (group : Group) (filter : List Sid) : Bool :=
  filter.any fun sid => equalSid group.sid sid

def filterPrivilege (privilege : Privilege) (filter : List LuidAttr) : Bool :=
  filter.any fun entry => isEqualLuid privilege.luid entry.luid

def duplicateGroup (removeGroups : List Sid) (group : Group) : Group :=
  if filterGroup group removeGroups then
    { group with
      attrs := (group.attrs &&& ~~~(seGroupEnabled ||| seGroupEnabledByDefault)) |||
        seGroupUseForDenyOnly }
  else group

def duplicatePrivilege (removePrivs : List LuidAttr) (privilege : Privilege) : Option Privilege :=
  if filterPrivilege privilege removePrivs then none
  else some ⟨privilege.luid, privilege.enabled, privilege.enabled⟩

def tokenDuplicate (srcToken : Token) (primary : Bool) (impersonationLevel : Int)
    (removePrivs : List LuidAttr) (removeGroups : List Sid) : Except Status Token :=
  if !primary && (decide (impersonationLevel < securityAnonymous) ||
      decide (impersonationLevel > securityDelegation) ||
      (!srcToken.primary && decide (impersonationLevel > srcToken.impersonationLevel))) then
    .error .badImpersonationLevel
  else
    .ok {
      privileges := srcToken.privileges.filterMap (duplicatePrivilege removePrivs)
      groups := srcToken.groups.map (duplicateGroup removeGroups)
      user := srcToken.user
      primaryGroup := srcToken.primaryGroup
      primaryGroup_lt := by simpa using srcToken.primaryGroup_lt
      primary := primary
      impersonationLevel := if primary then -1 else impersonationLevel }

def luidAttrAt (mem : ByteMemory) (a : Nat) : LuidAttr where
  luid := ⟨BitVec.ofNat 32 (mem.readLE a 4), BitVec.ofNat 32 (mem.readLE (a + 4) 4)⟩
  attrs := BitVec.ofNat 32 (mem.readLE (a + 8) 4)

/-- The identifiers counted by `get_sid_count` in the `size` bytes from `a` on. Each takes at
least eight bytes, so `size` rounds are enough. -/
def sidsFrom (mem : ByteMemory) : Nat → Nat → Nat → List Sid
  | 0, _, _ => []
  | rounds + 1, a, size =>
    if sidValidSize mem a size then
      sidAt mem a :: sidsFrom mem rounds (a + sidLen (sidAt mem a)) (size - sidLen (sidAt mem a))
    else []

def filterTokenPrivileges (mem : ByteMemory) (dataSize privilegesSize : Nat) : List LuidAttr :=
  (List.range (min privilegesSize dataSize / 12)).map fun i => luidAttrAt mem (12 * i)

def filterTokenGroups (mem : ByteMemory) (dataSize privilegesSize : Nat) : List Sid :=
  let privCount := min privilegesSize dataSize / 12
  sidsFrom mem (dataSize - privCount * 12) (privCount * 12) (dataSize - privCount * 12)

def filterToken (mem : ByteMemory) (dataSize privilegesSize : Nat) (srcToken : Token) :
    Except Status Token :=
  tokenDuplicate srcToken srcToken.primary srcToken.impersonationLevel
    (filterTokenPrivileges mem dataSize privilegesSize)
    (filterTokenGroups mem dataSize privilegesSize)

def tokenFindPrivilege (token : Token) (luid : Luid) (enabledOnly : Bool) : Option Privilege :=
  match token.privileges.find? fun privilege => isEqualLuid luid privilege.luid with
  | none => none
  | some privilege => if enabledOnly && !privilege.enabled then none else some privilege

def privilegeHeld (token : Token) (reqpriv : LuidAttr) : Bool :=
  match tokenFindPrivilege token reqpriv.luid true with
  | none => false
  | some privilege => privilege.enabled

/-- The result and the privileges written to `usedprivs`. -/
def tokenCheckPrivileges (token : Token) (allRequired : Bool) (reqprivs : List LuidAttr) :
    Bool × List LuidAttr :=
  let enabledCount := reqprivs.countP (privilegeHeld token)
  (if allRequired then enabledCount == reqprivs.length else decide (0 < enabledCount),
    reqprivs.map fun reqpriv =>
      if privilegeHeld token reqpriv then
        { reqpriv with attrs := reqpriv.attrs ||| sePrivilegeUsedForAccess }
      else reqpriv)

def groupPresent (sid : Sid) (deny : Bool) (group : Group) : Bool :=
  if group.attrs &&& seGroupEnabled == 0 then false
  else if !deny && group.attrs &&& seGroupUseForDenyOnly != 0 then false
  else equalSid group.sid sid

def tokenSidPresent (token : Token) (sid : Sid) (deny : Bool) : Bool :=
  if equalSid token.user sid then true else token.groups.any (groupPresent sid deny)

structure AccessState where
  currentAccess : AccessMask
  deniedAccess : AccessMask
  deriving DecidableEq, Repr

/-- One entry of the list. The second component says that the walk jumps to `done`. -/
def aceStep (token : Token) (desiredAccess : AccessMask) (mapping : GenericMap) (ace : Ace)
    (s : AccessState) : AccessState × Bool :=
  if ace.type == accessDeniedAceType then
    if tokenSidPresent token ace.sid true then
      let access := mapAccess ace.mask mapping
      if desiredAccess &&& maximumAllowed != 0 then
        ({ s with deniedAccess := s.deniedAccess ||| access }, false)
      else
        ({ s with deniedAccess := s.deniedAccess ||| (access &&& ~~~s.currentAccess) },
          desiredAccess &&& access != 0)
    else (s, false)
  else if ace.type == accessAllowedAceType then
    if tokenSidPresent token ace.sid false then
      let access := mapAccess ace.mask mapping
      if desiredAccess &&& maximumAllowed != 0 then
        ({ s with currentAccess := s.currentAccess ||| access }, false)
      else
        ({ s with currentAccess := s.currentAccess ||| (access &&& ~~~s.deniedAccess) }, false)
    else (s, false)
  else (s, false)

def inheritOnly (ace : Ace) : Bool := ace.flags &&& inheritOnlyAce != 0

def aceLoop (token : Token) (desiredAccess : AccessMask) (mapping : GenericMap) :
    List Ace → AccessState → AccessState
  | [], s => s
  | ace :: aces, s =>
    if inheritOnly ace then aceLoop token desiredAccess mapping aces s
    else
      let step := aceStep token desiredAccess mapping ace s
      -- the walk also stops when nothing is wanted: `granted_access` is still zero here
      if step.2 || desiredAccess == 0 then step.1
      else aceLoop token desiredAccess mapping aces step.1

/-- What the check returns, and what it leaves in its out parameters. -/
structure AccessCheck where
  ret : Status
  grantedAccess : AccessMask
  status : Status
  privCount : Option Nat
  privs : Option LuidAttr
  deriving DecidableEq, Repr

/-- The computation behind the label `done`. -/
def finalAccess (desiredAccess : AccessMask) (s : AccessState) : AccessMask :=
  if desiredAccess &&& maximumAllowed != 0 then s.currentAccess &&& ~~~s.deniedAccess
  else if s.currentAccess &&& desiredAccess == desiredAccess then
    s.currentAccess &&& desiredAccess
  else 0

def grant (access : AccessMask) (privCount : Option Nat) (privs : Option LuidAttr) : AccessCheck :=
  ⟨.success, access, .success, privCount, privs⟩

def checkDacl (token : Token) (owner : Sid) (aces : List Ace) (desiredAccess : AccessMask)
    (mapping : GenericMap) (currentAccess : AccessMask) (privCount : Option Nat)
    (privs : Option LuidAttr) : AccessCheck :=
  let isOwner := tokenSidPresent token owner false
  let currentAccess :=
    if isOwner then currentAccess ||| (standardRightsRequired ||| synchronize) else currentAccess
  if isOwner && desiredAccess == currentAccess then grant currentAccess privCount privs
  else
    let granted := finalAccess desiredAccess
      (aceLoop token desiredAccess mapping aces ⟨currentAccess, 0⟩)
    ⟨.success, granted, if granted != 0 then .success else .accessDenied, privCount, privs⟩

/-- `privCount` is the capacity of `privs`, or nothing where the caller passes no pointer;
`status` is what the status variable holds before the call. -/
def tokenAccessCheck (token : Token) (mem : ByteMemory) (sd : Nat) (desiredAccess : AccessMask)
    (privCount : Option Nat) (mapping : GenericMap) (status : Status) : AccessCheck :=
  let noPrivs := privCount.map fun _ => 0
  if desiredAccess &&& genericRights != 0 then ⟨.genericNotMapped, 0, status, noPrivs, none⟩
  else
    match sdGetOwner mem sd, sdGetGroup mem sd with
    | some owner, some _ =>
      match sdGetDacl mem sd with
      | (true, some dacl) =>
        if desiredAccess &&& accessSystemSecurity != 0 then
          let (held, used) := tokenCheckPrivileges token true [⟨seSecurityPrivilege, 0⟩]
          if held then
            if privCount == some 0 then ⟨.bufferTooSmall, 0, status, some 1, none⟩
            else
              let onePriv := privCount.map fun _ => 1
              let privs := if privCount.isSome then used.head? else none
              if desiredAccess == accessSystemSecurity then
                grant accessSystemSecurity onePriv privs
              else
                checkDacl token (sidAt mem owner) (aclAces mem dacl) desiredAccess mapping
                  accessSystemSecurity onePriv privs
          else ⟨.success, 0, .privilegeNotHeld, noPrivs, none⟩
        else
          checkDacl token (sidAt mem owner) (aclAces mem dacl) desiredAccess mapping 0 noPrivs none
      | _ => grant (if desiredAccess &&& maximumAllowed != 0 then mapping.all else desiredAccess)
          noPrivs none
    | _, _ => ⟨.invalidSecurityDescr, 0, status, noPrivs, none⟩

def AccessCheck.Grants (result : AccessCheck) (bit : Nat) : Prop :=
  result.ret = .success ∧ result.status = .success ∧ result.grantedAccess.getLsbD bit = true

end WineForge.Security
