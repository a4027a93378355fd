import WineForge.Library.ByteMemory

/-!
# Security descriptors in memory

A descriptor is a header with the lengths of the parts behind it: owner, group, SACL and DACL.
The validity check bounds those lengths and walks both lists, but an entry may give a size below
its own header, so two entries may overlap and an identifier may reach behind the buffer. The
readers below are therefore total functions of the whole memory.
-/

namespace WineForge.Security

open List WineForge.Library
open WineForge.Library.ByteMemory

abbrev AccessMask := BitVec 32

def genericRead : AccessMask := 0x80000000
def genericWrite : AccessMask := 0x40000000
def genericExecute : AccessMask := 0x20000000
def genericAll : AccessMask := 0x10000000
def maximumAllowed : AccessMask := 0x02000000
def accessSystemSecurity : AccessMask := 0x01000000
def synchronize : AccessMask := 0x00100000
def standardRightsRequired : AccessMask := 0x000f0000

def genericRights : AccessMask := genericRead ||| genericWrite ||| genericExecute ||| genericAll

structure GenericMap where
  read : AccessMask
  write : AccessMask
  exec : AccessMask
  all : AccessMask
  deriving DecidableEq, Repr

def mapAccess (access : AccessMask) (mapping : GenericMap) : AccessMask :=
  let access := if access &&& genericRead != 0 then access ||| mapping.read else access
  let access := if access &&& genericWrite != 0 then access ||| mapping.write else access
  let access := if access &&& genericExecute != 0 then access ||| mapping.exec else access
  let access := if access &&& genericAll != 0 then access ||| mapping.all else access
  access &&& ~~~genericRights

/-- A security identifier is as long as its second byte, the number of sub-authorities, says. -/
structure Sid where
  bytes : List UInt8
  length_bytes : bytes.length = 8 + 4 * (bytes.getD 1 0).toNat
  deriving DecidableEq, Repr

def Sid.subCount (sid : Sid) : UInt8 := sid.bytes.getD 1 0

def sidLen (sid : Sid) : Nat := 8 + 4 * sid.subCount.toNat

def equalSid (sid1 sid2 : Sid) : Bool :=
  sid1.subCount == sid2.subCount && sid1.bytes.take (sidLen sid1) == sid2.bytes.take (sidLen sid1)

def sidAt (mem : ByteMemory) (a : Nat) : Sid where
  bytes := mem.fetch a (8 + 4 * (mem (a + 1)).toNat)
  length_bytes := by
    rw [show 8 + 4 * (mem (a + 1)).toNat = (6 + 4 * (mem (a + 1)).toNat) + 1 + 1 by omega]
    simp [fetch_succ]
    omega

def sidValidSize (mem : ByteMemory) (a size : Nat) : Bool :=
  decide (8 ≤ size) && decide (sidLen (sidAt mem a) ≤ size)

structure Ace where
  type : UInt8
  flags : UInt8
  size : Nat
  mask : AccessMask
  sid : Sid
  deriving DecidableEq, Repr

def accessAllowedAceType : UInt8 := 0
def accessDeniedAceType : UInt8 := 1
def systemAuditAceType : UInt8 := 2
def systemAlarmAceType : UInt8 := 3
def systemMandatoryLabelAceType : UInt8 := 0x11
def inheritOnlyAce : UInt8 := 0x08

def aceAt (mem : ByteMemory) (a : Nat) : Ace where
  type := mem a
  flags := mem (a + 1)
  size := mem.readLE (a + 2) 2
  mask := BitVec.ofNat 32 (mem.readLE (a + 4) 4)
  sid := sidAt mem (a + 8)

/-- The entries met by `count` steps of `ace_next` from address `a`. -/
def acesFrom (mem : ByteMemory) : Nat → Nat → List Ace
  | 0, _ => []
  | count + 1, a => aceAt mem a :: acesFrom mem count (a + (aceAt mem a).size)

def aclCount (mem : ByteMemory) (acl : Nat) : Nat := mem.readLE (acl + 4) 2

def aclAces (mem : ByteMemory) (acl : Nat) : List Ace :=
  acesFrom mem (aclCount mem acl) (acl + 8)

def knownAceType (type : UInt8) : Bool :=
  type == accessDeniedAceType || type == accessAllowedAceType || type == systemAuditAceType ||
    type == systemAlarmAceType || type == systemMandatoryLabelAceType

def acesValid (mem : ByteMemory) : Nat → Nat → Nat → Bool
  | 0, _, _ => true
  | count + 1, a, size =>
    let ace := aceAt mem a
    if size < 8 || size < ace.size then false
    else if !knownAceType ace.type then false
    -- the size of the entry less its header is an unsigned 32-bit number
    else if !sidValidSize mem (a + 8) ((ace.size + 2 ^ 32 - 8) % 2 ^ 32) then false
    else acesValid mem count (a + ace.size) (size - ace.size)

def maxAclLen : Nat := 65535

def aclIsValid (mem : ByteMemory) (acl size : Nat) : Bool :=
  if size < 8 then false else acesValid mem (aclCount mem acl) (acl + 8) (min size maxAclLen - 8)

def seDaclPresent : AccessMask := 0x00000004

def sdControl (mem : ByteMemory) (sd : Nat) : AccessMask := BitVec.ofNat 32 (mem.readLE sd 4)
def sdOwnerLen (mem : ByteMemory) (sd : Nat) : Nat := mem.readLE (sd + 4) 4
def sdGroupLen (mem : ByteMemory) (sd : Nat) : Nat := mem.readLE (sd + 8) 4
def sdSaclLen (mem : ByteMemory) (sd : Nat) : Nat := mem.readLE (sd + 12) 4
def sdDaclLen (mem : ByteMemory) (sd : Nat) : Nat := mem.readLE (sd + 16) 4

def sdGetOwner (mem : ByteMemory) (sd : Nat) : Option Nat :=
  if sdOwnerLen mem sd ≠ 0 then some (sd + 20) else none

def sdGetGroup (mem : ByteMemory) (sd : Nat) : Option Nat :=
  if sdGroupLen mem sd ≠ 0 then some (sd + 20 + sdOwnerLen mem sd) else none

def sdGetSacl (mem : ByteMemory) (sd : Nat) : Option Nat :=
  if sdSaclLen mem sd ≠ 0 then some (sd + 20 + sdOwnerLen mem sd + sdGroupLen mem sd) else none

def sdGetDacl (mem : ByteMemory) (sd : Nat) : Bool × Option Nat :=
  (sdControl mem sd &&& seDaclPresent != 0,
    if sdDaclLen mem sd ≠ 0 then
      some (sd + 20 + sdOwnerLen mem sd + sdGroupLen mem sd + sdSaclLen mem sd)
    else none)

/-- Whether the part at `at?` of a descriptor passes its own check, or is left out. -/
def partIsValid (check : Nat → Bool) : Option Nat → Bool
  | none => true
  | some a => check a

def sdIsValid (mem : ByteMemory) (sd size : Nat) : Bool :=
  if size < 20 then false
  else if sdOwnerLen mem sd ≥ 8 + 4 * 255 || 20 + sdOwnerLen mem sd > size then false
  else if !partIsValid (fun a => sidValidSize mem a (sdOwnerLen mem sd)) (sdGetOwner mem sd) then
    false
  else if sdGroupLen mem sd ≥ 8 + 4 * 255 ||
      20 + sdOwnerLen mem sd + sdGroupLen mem sd > size then false
  else if !partIsValid (fun a => sidValidSize mem a (sdGroupLen mem sd)) (sdGetGroup mem sd) then
    false
  else if sdSaclLen mem sd ≥ maxAclLen ||
      20 + sdOwnerLen mem sd + sdGroupLen mem sd + sdSaclLen mem sd > size then false
  else if !partIsValid (fun a => aclIsValid mem a (sdSaclLen mem sd)) (sdGetSacl mem sd) then false
  else if sdDaclLen mem sd ≥ maxAclLen ||
      20 + sdOwnerLen mem sd + sdGroupLen mem sd + sdSaclLen mem sd + sdDaclLen mem sd > size then
    false
  else partIsValid (fun a => aclIsValid mem a (sdDaclLen mem sd)) (sdGetDacl mem sd).2

@[simp] lemma sidLen_eq (sid : Sid) : sidLen sid = sid.bytes.length := sid.length_bytes.symm

lemma equalSid_iff {sid1 sid2 : Sid} : equalSid sid1 sid2 = true ↔ sid1 = sid2 := by
  constructor
  · intro h
    obtain ⟨hcount, hbytes⟩ := Bool.and_eq_true_iff.mp h
    have hlen : sid1.bytes.length = sid2.bytes.length := by
      rw [← sidLen_eq, ← sidLen_eq, sidLen, sidLen, eq_of_beq hcount]
    have heq : sid1.bytes = sid2.bytes := by
      have htake := eq_of_beq hbytes
      rwa [sidLen_eq, take_length, hlen, take_length] at htake
    cases sid1
    cases sid2
    simpa using heq
  · rintro rfl
    simp [equalSid]

lemma Sid.length_le (sid : Sid) : sid.bytes.length ≤ 8 + 4 * 255 := by
  have hlt := (sid.bytes.getD 1 0).toNat_lt
  have hlen := sid.length_bytes
  omega

/-- The bytes that `set_ace` writes. -/
def setAce (sid : Sid) (type flags : UInt8) (mask : AccessMask) : List UInt8 :=
  [type, flags] ++ leBytes 2 (8 + sidLen sid) ++ leBytes 4 mask.toNat ++ sid.bytes

def aclRevision : UInt8 := 2

/-- A list of `count` entries with the bytes `aces`. -/
def aclBytes (count : Nat) (aces : List UInt8) : List UInt8 :=
  [aclRevision, 0] ++ leBytes 2 (8 + aces.length) ++ leBytes 2 count ++ [0, 0] ++ aces

def sdBytes (owner group : Sid) (dacl : List UInt8) : List UInt8 :=
  leBytes 4 seDaclPresent.toNat ++ leBytes 4 (sidLen owner) ++ leBytes 4 (sidLen group) ++
    leBytes 4 0 ++ leBytes 4 dacl.length ++ owner.bytes ++ group.bytes ++ dacl

/-- The entry that `set_ace` lays out. -/
def entry (sid : Sid) (type flags : UInt8) (mask : AccessMask) : Ace :=
  ⟨type, flags, 8 + sid.bytes.length, mask, sid⟩

def Ace.bytes (ace : Ace) : List UInt8 := setAce ace.sid ace.type ace.flags ace.mask

@[simp] lemma length_setAce (sid : Sid) (type flags : UInt8) (mask : AccessMask) :
    (setAce sid type flags mask).length = 8 + sid.bytes.length := by
  simp [setAce]
  omega

variable {mem : ByteMemory} {a : Nat}

@[simp] lemma sidAt_bytes : (sidAt mem a).bytes = mem.fetch a (8 + 4 * (mem (a + 1)).toNat) := rfl

lemma Sid.eq_of_bytes {sid1 sid2 : Sid} (h : sid1.bytes = sid2.bytes) : sid1 = sid2 := by
  cases sid1
  cases sid2
  simpa using h

lemma sidAt_of_holds {sid : Sid} (h : Holds mem a sid.bytes) : sidAt mem a = sid := by
  have hfetch := h.fetch
  have hcount : mem (a + 1) = sid.bytes.getD 1 0 := by
    have hlen : sid.bytes.length = (sid.bytes.length - 2) + 1 + 1 := by
      have hle := sid.length_bytes
      omega
    rw [← hfetch, hlen, fetch_succ, fetch_succ]
    simp
  apply Sid.eq_of_bytes
  rw [sidAt_bytes, hcount, ← sid.length_bytes, hfetch]

lemma holds_setAce {sid : Sid} {type flags : UInt8} {mask : AccessMask} :
    Holds mem a (setAce sid type flags mask) ↔
      mem a = type ∧ mem (a + 1) = flags ∧ Holds mem (a + 2) (leBytes 2 (8 + sidLen sid)) ∧
        Holds mem (a + 4) (leBytes 4 mask.toNat) ∧ Holds mem (a + 8) sid.bytes := by
  simp only [setAce, append_assoc, cons_append, nil_append, holds_cons,
    holds_append, length_leBytes, add_assoc, Nat.reduceAdd]

lemma aceAt_of_holds {sid : Sid} {type flags : UInt8} {mask : AccessMask}
    (h : Holds mem a (setAce sid type flags mask)) : aceAt mem a = entry sid type flags mask := by
  obtain ⟨htype, hflags, hlen, hmask, hbytes⟩ := holds_setAce.mp h
  have hsid := sid.length_le
  have hlen' := hlen.readLE (by rw [sidLen_eq]; omega)
  have hmask' := hmask.readLE mask.isLt
  simp [aceAt, entry, htype, hflags, hlen', hmask', sidAt_of_holds hbytes]

lemma acesFrom_of_holds {aces : List Ace}
    (hentry : ∀ ace ∈ aces, ace = entry ace.sid ace.type ace.flags ace.mask)
    (h : Holds mem a (aces.flatMap Ace.bytes)) : acesFrom mem aces.length a = aces := by
  induction aces generalizing a with
  | nil => rfl
  | cons ace aces ih =>
    rw [flatMap_cons, holds_append] at h
    have hace : aceAt mem a = ace := by
      rw [aceAt_of_holds h.1, ← hentry ace (by simp)]
    have hsize : ace.size = ace.bytes.length := by
      rw [hentry ace (by simp)]
      simp [entry, Ace.bytes]
    have hrest := ih (fun x hx => hentry x (mem_cons_of_mem ace hx)) h.2
    rw [length_cons, acesFrom, hace, hsize, hrest]

lemma acesValid_of_holds {aces : List Ace} {size : Nat}
    (hentry : ∀ ace ∈ aces, ace = entry ace.sid ace.type ace.flags ace.mask)
    (htype : ∀ ace ∈ aces, knownAceType ace.type = true)
    (h : Holds mem a (aces.flatMap Ace.bytes)) (hfit : (aces.flatMap Ace.bytes).length ≤ size) :
    acesValid mem aces.length a size = true := by
  induction aces generalizing a size with
  | nil => rfl
  | cons ace aces ih =>
    rw [flatMap_cons, length_append] at hfit
    rw [flatMap_cons, holds_append] at h
    have hace : aceAt mem a = ace := by
      rw [aceAt_of_holds h.1, ← hentry ace (by simp)]
    have hsid : sidAt mem (a + 8) = ace.sid := by
      rw [← hace]
      rfl
    have hlen : ace.bytes.length = 8 + ace.sid.bytes.length := length_setAce _ _ _ _
    have hsize : ace.size = ace.bytes.length := by
      rw [hentry ace (by simp)]
      simp [entry, Ace.bytes]
    have hbound := ace.sid.length_le
    have hmin := ace.sid.length_bytes
    have hrest : acesValid mem aces.length (a + ace.bytes.length) (size - ace.size) = true := by
      apply ih (fun x hx => hentry x (mem_cons_of_mem ace hx))
        (fun x hx => htype x (mem_cons_of_mem ace hx)) h.2
      omega
    have hmod : (ace.size + 2 ^ 32 - 8) % 2 ^ 32 = ace.sid.bytes.length := by omega
    have hvalid : sidValidSize mem (a + 8) ((ace.size + 2 ^ 32 - 8) % 2 ^ 32) = true := by
      rw [sidValidSize, hmod, hsid, sidLen_eq]
      simp
      omega
    have hroom : (decide (size < 8) || decide (size < ace.size)) = false := by
      simp
      omega
    rw [hsize] at hrest
    simp only [length_cons, acesValid, hace, hroom, htype ace (by simp), hvalid]
    rw [hsize]
    simpa using hrest

lemma holds_aclBytes {count : Nat} {aces : List UInt8} : Holds mem a (aclBytes count aces) ↔
      mem a = aclRevision ∧ mem (a + 1) = 0 ∧ Holds mem (a + 2) (leBytes 2 (8 + aces.length)) ∧
        Holds mem (a + 4) (leBytes 2 count) ∧ mem (a + 6) = 0 ∧ mem (a + 7) = 0 ∧
          Holds mem (a + 8) aces := by
  simp only [aclBytes, append_assoc, cons_append, nil_append, holds_cons,
    holds_append, length_leBytes, add_assoc, Nat.reduceAdd]

lemma holds_sdBytes {owner group : Sid} {dacl : List UInt8} :
    Holds mem a (sdBytes owner group dacl) ↔
      Holds mem a (leBytes 4 seDaclPresent.toNat) ∧ Holds mem (a + 4) (leBytes 4 (sidLen owner)) ∧
        Holds mem (a + 8) (leBytes 4 (sidLen group)) ∧ Holds mem (a + 12) (leBytes 4 0) ∧
          Holds mem (a + 16) (leBytes 4 dacl.length) ∧ Holds mem (a + 20) owner.bytes ∧
            Holds mem (a + 20 + owner.bytes.length) group.bytes ∧
              Holds mem (a + 20 + owner.bytes.length + group.bytes.length) dacl := by
  simp only [sdBytes, append_assoc, holds_append, length_leBytes, add_assoc, Nat.reduceAdd]

variable {aces : List Ace}

def daclBytes (aces : List Ace) : List UInt8 := aclBytes aces.length (aces.flatMap Ace.bytes)

lemma length_daclBytes (aces : List Ace) : (daclBytes aces).length = 8 + (aces.flatMap Ace.bytes).length := by
  simp [daclBytes, aclBytes]
  omega

lemma length_le_flatMap (aces : List Ace) : aces.length ≤ (aces.flatMap Ace.bytes).length := by
  induction aces with
  | nil => simp
  | cons ace aces ih =>
    have hlen : ace.bytes.length = 8 + ace.sid.bytes.length := length_setAce _ _ _ _
    rw [flatMap_cons, length_append, length_cons]
    omega

lemma aclCount_of_holds (h : Holds mem a (daclBytes aces))
    (hfit : (daclBytes aces).length < maxAclLen) : aclCount mem a = aces.length := by
  obtain ⟨_, _, _, hcount, _⟩ := holds_aclBytes.mp h
  have hle := length_le_flatMap aces
  have hlt : (daclBytes aces).length < 65535 := hfit
  rw [length_daclBytes] at hlt
  exact hcount.readLE (by omega)

lemma aclAces_of_holds (hentry : ∀ ace ∈ aces, ace = entry ace.sid ace.type ace.flags ace.mask)
    (h : Holds mem a (daclBytes aces)) (hfit : (daclBytes aces).length < maxAclLen) :
    aclAces mem a = aces := by
  obtain ⟨_, _, _, _, _, _, haces⟩ := holds_aclBytes.mp h
  rw [aclAces, aclCount_of_holds h hfit, acesFrom_of_holds hentry haces]

lemma aclIsValid_of_holds (hentry : ∀ ace ∈ aces, ace = entry ace.sid ace.type ace.flags ace.mask)
    (htype : ∀ ace ∈ aces, knownAceType ace.type = true)
    (h : Holds mem a (daclBytes aces)) (hfit : (daclBytes aces).length < maxAclLen) :
    aclIsValid mem a (daclBytes aces).length = true := by
  obtain ⟨_, _, _, _, _, _, haces⟩ := holds_aclBytes.mp h
  have hlen := length_daclBytes aces
  have hmin : min (daclBytes aces).length maxAclLen = (daclBytes aces).length := by omega
  rw [aclIsValid, if_neg (by omega), hmin, aclCount_of_holds h hfit]
  exact acesValid_of_holds hentry htype haces (by omega)

/-- What the readers find in a descriptor that was laid out at `sd`. -/
structure Describes (mem : ByteMemory) (sd : Nat) (owner group : Sid) (aces : List Ace) :
    Prop where
  owner_eq : ∃ a, sdGetOwner mem sd = some a ∧ sidAt mem a = owner
  group_eq : ∃ a, sdGetGroup mem sd = some a ∧ sidAt mem a = group
  dacl_eq : ∃ a, sdGetDacl mem sd = (true, some a) ∧ aclAces mem a = aces

section Describes

variable {owner group : Sid} {aces : List Ace} {sd : Nat}

section

variable (h : Holds mem sd (sdBytes owner group (daclBytes aces)))

include h

lemma sdOwnerLen_of_holds : sdOwnerLen mem sd = owner.bytes.length := by
  have hle := owner.length_le
  have hread := (holds_sdBytes.mp h).2.1.readLE (by rw [sidLen_eq]; omega)
  rwa [sidLen_eq] at hread

lemma sdGroupLen_of_holds : sdGroupLen mem sd = group.bytes.length := by
  have hle := group.length_le
  have hread := (holds_sdBytes.mp h).2.2.1.readLE (by rw [sidLen_eq]; omega)
  rwa [sidLen_eq] at hread

lemma sdSaclLen_of_holds : sdSaclLen mem sd = 0 :=
  (holds_sdBytes.mp h).2.2.2.1.readLE (by norm_num)

lemma sdDaclLen_of_holds (hfit : (daclBytes aces).length < maxAclLen) :
    sdDaclLen mem sd = (daclBytes aces).length := by
  have hlt : (daclBytes aces).length < 65535 := hfit
  exact (holds_sdBytes.mp h).2.2.2.2.1.readLE (by omega)

lemma sdControl_of_holds : sdControl mem sd = seDaclPresent := by
  have hread := (holds_sdBytes.mp h).1.readLE seDaclPresent.isLt
  simp [sdControl, hread]

end

theorem describes_of_holds (hentry : ∀ ace ∈ aces, ace = entry ace.sid ace.type ace.flags ace.mask)
    (h : Holds mem sd (sdBytes owner group (daclBytes aces)))
    (hfit : (daclBytes aces).length < maxAclLen) : Describes mem sd owner group aces := by
  have howner := sdOwnerLen_of_holds h
  have hgroup := sdGroupLen_of_holds h
  have hsacl := sdSaclLen_of_holds h
  have hdacl := sdDaclLen_of_holds h hfit
  have hcontrol := sdControl_of_holds h
  obtain ⟨_, _, _, _, _, hownerb, hgroupb, hdaclb⟩ := holds_sdBytes.mp h
  have hpos := owner.length_bytes
  have hpos' := group.length_bytes
  have hlen := length_daclBytes aces
  have hpresent : (seDaclPresent &&& seDaclPresent != 0) = true := by decide
  constructor
  · refine ⟨sd + 20, ?_, sidAt_of_holds hownerb⟩
    rw [sdGetOwner, howner, if_pos (by omega)]
  · refine ⟨sd + 20 + owner.bytes.length, ?_, sidAt_of_holds hgroupb⟩
    rw [sdGetGroup, howner, hgroup, if_pos (by omega)]
  · refine ⟨_, ?_, aclAces_of_holds hentry hdaclb hfit⟩
    rw [sdGetDacl, howner, hgroup, hsacl, hdacl, hcontrol, hpresent, if_pos (by omega), add_zero]

theorem sdIsValid_of_holds (hentry : ∀ ace ∈ aces, ace = entry ace.sid ace.type ace.flags ace.mask)
    (htype : ∀ ace ∈ aces, knownAceType ace.type = true)
    (h : Holds mem sd (sdBytes owner group (daclBytes aces)))
    (hownerLen : owner.bytes.length < 8 + 4 * 255) (hgroupLen : group.bytes.length < 8 + 4 * 255)
    (hfit : (daclBytes aces).length < maxAclLen) :
    sdIsValid mem sd (sdBytes owner group (daclBytes aces)).length = true := by
  have howner := sdOwnerLen_of_holds h
  have hgroup := sdGroupLen_of_holds h
  have hsacl := sdSaclLen_of_holds h
  have hdacl := sdDaclLen_of_holds h hfit
  obtain ⟨_, _, _, _, _, hownerb, hgroupb, hdaclb⟩ := holds_sdBytes.mp h
  have hacl := aclIsValid_of_holds hentry htype hdaclb hfit
  have hpos := owner.length_bytes
  have hpos' := group.length_bytes
  have hlen := length_daclBytes aces
  have htotal : (sdBytes owner group (daclBytes aces)).length =
      20 + owner.bytes.length + group.bytes.length + (daclBytes aces).length := by
    simp [sdBytes]
    omega
  have hownerOk : sidValidSize mem (sd + 20) owner.bytes.length = true := by
    simp [sidValidSize, sidAt_of_holds hownerb]
    omega
  have hgroupOk : sidValidSize mem (sd + 20 + owner.bytes.length) group.bytes.length = true := by
    simp [sidValidSize, sidAt_of_holds hgroupb]
    omega
  unfold maxAclLen at hfit
  simp only [sdIsValid, sdGetOwner, sdGetGroup, sdGetSacl, sdGetDacl, howner, hgroup, hsacl, hdacl,
    htotal, maxAclLen]
  rw [if_neg (by omega), if_neg (by simp; omega), if_neg, if_neg (by simp; omega), if_neg,
    if_neg (by simp), if_neg (by simp [partIsValid]), if_neg (by simp; omega)]
  · rw [if_pos (by omega)]
    exact hacl
  · rw [if_pos (by omega)]
    simpa [partIsValid] using hgroupOk
  · rw [if_pos (by omega)]
    simpa [partIsValid] using hownerOk

end Describes

end WineForge.Security
