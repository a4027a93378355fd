import WineForge.Security.Restriction

/-!
# What an accepted descriptor keeps inside its buffer

The check of a list bounds the entries by the length the list was given with. It compares neither
that length with the size stored in the list, which the later copies use, nor the size of an entry
with its own header: the room that is left for the identifier is then a difference that wraps.
-/

namespace WineForge.Security

open Option WineForge.Library
open WineForge.Library.ByteMemory

/-- The `len` bytes from `a` on are among the `size` bytes from `base` on. -/
structure Inside (a len base size : Nat) : Prop where
  start : base ≤ a
  stop : a + len ≤ base + size

variable {a len : Nat} {at? : Option Nat}

lemma Inside.trans {b size c total : Nat} (h : Inside a len b size)
    (h' : Inside b size c total) : Inside a len c total := by
  constructor
  · exact h'.start.trans h.start
  · exact h.stop.trans h'.stop

def aclSize (mem : ByteMemory) (acl : Nat) : Nat := mem.readLE (acl + 2) 2

/-- The addresses at which `count` steps of `ace_next` arrive. -/
def aceAddresses (mem : ByteMemory) : Nat → Nat → List Nat
  | 0, _ => []
  | count + 1, a => a :: aceAddresses mem count (a + (aceAt mem a).size)

def aclAddresses (mem : ByteMemory) (acl : Nat) : List Nat :=
  aceAddresses mem (aclCount mem acl) (acl + 8)

structure AclSafe (mem : ByteMemory) (acl size : Nat) : Prop where
  header : Inside acl 8 acl size
  stored : Inside acl (aclSize mem acl) acl size
  ace : ∀ a ∈ aclAddresses mem acl, Inside a 8 acl size ∧ Inside a (aceAt mem a).size acl size
  sid : ∀ a ∈ aclAddresses mem acl, Inside (a + 8) (sidLen (aceAt mem a).sid) a (aceAt mem a).size

/-- What the check of a list leaves out. -/
structure AclFits (mem : ByteMemory) (acl size : Nat) : Prop where
  stored : aclSize mem acl ≤ size
  ace : ∀ a ∈ aclAddresses mem acl, 8 ≤ (aceAt mem a).size

variable {mem mem' : ByteMemory} {acl size : Nat}

lemma acesValid_inside {count : Nat} (h : acesValid mem count a size = true) :
    ∀ b ∈ aceAddresses mem count a, Inside b 8 a size ∧ Inside b (aceAt mem b).size a size ∧
        sidValidSize mem (b + 8) (((aceAt mem b).size + 2 ^ 32 - 8) % 2 ^ 32) = true := by
  induction count generalizing a size with
  | zero =>
    intro b hb
    simp [aceAddresses] at hb
  | succ count ih =>
    simp only [acesValid] at h
    split at h
    · cases h
    next hroom =>
      rw [Bool.or_eq_true, decide_eq_true_eq, decide_eq_true_eq] at hroom
      split at h
      · cases h
      split at h
      · cases h
      next hsid =>
        intro b hb
        rw [aceAddresses, List.mem_cons] at hb
        obtain rfl | hb := hb
        · have hvalid : sidValidSize mem (b + 8) (((aceAt mem b).size + 2 ^ 32 - 8) % 2 ^ 32) =
              true := by
            simpa using hsid
          exact ⟨⟨by omega, by omega⟩, ⟨by omega, by omega⟩, hvalid⟩
        have hrest : Inside (a + (aceAt mem a).size) (size - (aceAt mem a).size) a size :=
          ⟨by omega, by omega⟩
        obtain ⟨hheader, hbytes, hvalid⟩ := ih h b hb
        exact ⟨hheader.trans hrest, hbytes.trans hrest, hvalid⟩

lemma aclIsValid_inside (h : aclIsValid mem acl size = true) :
    8 ≤ size ∧ ∀ a ∈ aclAddresses mem acl,
      Inside a 8 acl size ∧ Inside a (aceAt mem a).size acl size ∧
        sidValidSize mem (a + 8) (((aceAt mem a).size + 2 ^ 32 - 8) % 2 ^ 32) = true := by
  unfold aclIsValid at h
  split at h
  · cases h
  next hsize =>
    have hroom : Inside (acl + 8) (min size maxAclLen - 8) acl size := by
      constructor <;> omega
    refine ⟨by omega, fun a ha => ?_⟩
    obtain ⟨hheader, hbytes, hvalid⟩ := acesValid_inside h a ha
    exact ⟨hheader.trans hroom, hbytes.trans hroom, hvalid⟩

lemma sid_inside_ace (hsize : 8 ≤ (aceAt mem a).size)
    (hvalid : sidValidSize mem (a + 8) (((aceAt mem a).size + 2 ^ 32 - 8) % 2 ^ 32) = true) :
    Inside (a + 8) (sidLen (aceAt mem a).sid) a (aceAt mem a).size := by
  rw [sidValidSize, Bool.and_eq_true, decide_eq_true_eq, decide_eq_true_eq] at hvalid
  have hsid : (aceAt mem a).sid = sidAt mem (a + 8) := rfl
  rw [hsid]
  constructor <;> omega

lemma aclSafe_iff (h : aclIsValid mem acl size = true) :
    AclSafe mem acl size ↔ AclFits mem acl size := by
  obtain ⟨hsize, hinside⟩ := aclIsValid_inside h
  constructor
  · intro hsafe
    constructor
    · have hstop := hsafe.stored.stop
      omega
    · intro a ha
      have hstop := (hsafe.sid a ha).stop
      omega
  · intro hfits
    constructor
    · exact ⟨le_rfl, by omega⟩
    · exact ⟨le_rfl, Nat.add_le_add_left hfits.stored acl⟩
    · intro a ha
      exact ⟨(hinside a ha).1, (hinside a ha).2.1⟩
    · intro a ha
      exact sid_inside_ace (hfits.ace a ha) (hinside a ha).2.2

lemma Inside.agree {base : Nat} (hin : Inside a len base size)
    (h : Agree mem mem' base size) : Agree mem mem' a len :=
  h.mono hin.start hin.stop

lemma sidLen_sidAt : sidLen (sidAt mem a) = 8 + 4 * (mem (a + 1)).toNat := by
  rw [sidLen_eq, sidAt_bytes, length_fetch]

lemma sidAt_agree (h : Agree mem mem' a (sidLen (sidAt mem a))) : sidAt mem' a = sidAt mem a := by
  rw [sidLen_sidAt] at h
  have hcount : mem' (a + 1) = mem (a + 1) := h (a + 1) (by omega) (by omega)
  apply Sid.eq_of_bytes
  rw [sidAt_bytes, sidAt_bytes, hcount, Agree.fetch h]

lemma aceAt_agree (hheader : Agree mem mem' a 8)
    (hsid : Agree mem mem' (a + 8) (sidLen (aceAt mem a).sid)) : aceAt mem' a = aceAt mem a := by
  have htype : mem' a = mem a := hheader a (by omega) (by omega)
  have hflags : mem' (a + 1) = mem (a + 1) := hheader (a + 1) (by omega) (by omega)
  have hsize : mem'.readLE (a + 2) 2 = mem.readLE (a + 2) 2 :=
    (hheader.mono (by omega) (by omega)).readLE
  have hmask : mem'.readLE (a + 4) 4 = mem.readLE (a + 4) 4 :=
    (hheader.mono (by omega) (by omega)).readLE
  unfold aceAt
  rw [htype, hflags, hsize, hmask, sidAt_agree hsid]

lemma acesFrom_agree {count : Nat} (h : ∀ b ∈ aceAddresses mem count a,
      Agree mem mem' b 8 ∧ Agree mem mem' (b + 8) (sidLen (aceAt mem b).sid)) :
    acesFrom mem' count a = acesFrom mem count a := by
  induction count generalizing a with
  | zero => rfl
  | succ count ih =>
    simp only [aceAddresses, List.forall_mem_cons] at h
    have hace := aceAt_agree h.1.1 h.1.2
    rw [acesFrom, acesFrom, hace, ih h.2]

lemma AclSafe.aclAces_eq (h : AclSafe mem acl size) (hagree : Agree mem mem' acl size) :
    aclAces mem' acl = aclAces mem acl := by
  have hheader := h.header.agree hagree
  have hcount : aclCount mem' acl = aclCount mem acl :=
    Agree.readLE (hheader.mono (by omega) (by omega))
  rw [aclAces, aclAces, hcount]
  apply acesFrom_agree
  intro a ha
  obtain ⟨hfirst, hbytes⟩ := h.ace a ha
  exact ⟨hfirst.agree hagree, ((h.sid a ha).trans hbytes).agree hagree⟩

/-- The list that `create_token` keeps of the `size` bytes behind the privileges. -/
def createTokenDacl (mem : ByteMemory) (dacl size : Nat) : Option (List UInt8) :=
  if !aclIsValid mem dacl size then none else some (mem.fetch dacl (aclSize mem dacl))

/-- The list that `set_token_default_dacl` keeps of a request with `acl_size` bytes. -/
def setTokenDefaultDacl (mem : ByteMemory) (acl acl_size : Nat) : Option (List UInt8) :=
  if !aclIsValid mem acl acl_size then none else some (mem.fetch acl acl_size)

/-- The length that `get_token_default_dacl` copies from the list it finds at the start of a block,
and reads at its third byte. -/
def getTokenDefaultDaclLen (block : List UInt8) : Nat := aclSize (ofList block) 0

/-- The reply of `get_token_default_dacl` is a part of the block the list was kept in. -/
structure ReplyInside (block : List UInt8) : Prop where
  size : Inside 2 2 0 block.length
  bytes : Inside 0 (getTokenDefaultDaclLen block) 0 block.length

/-- The three requests on a default list read the list they are given, and the block they keep. -/
structure DefaultDaclSafe (mem : ByteMemory) (acl size : Nat) : Prop where
  create : Inside acl (aclSize mem acl) acl size
  created : ∀ block, createTokenDacl mem acl size = some block → ReplyInside block
  set : ∀ block, setTokenDefaultDacl mem acl size = some block → ReplyInside block

lemma getTokenDefaultDaclLen_fetch (h : 4 ≤ len) :
    getTokenDefaultDaclLen (mem.fetch acl len) = aclSize mem acl := by
  exact readLE_ofList_fetch (by omega)

lemma defaultDaclSafe_iff (h : aclIsValid mem acl size = true) :
    DefaultDaclSafe mem acl size ↔ 4 ≤ aclSize mem acl ∧ aclSize mem acl ≤ size := by
  have hcreate : createTokenDacl mem acl size = some (mem.fetch acl (aclSize mem acl)) := by
    simp [createTokenDacl, h]
  have hset : setTokenDefaultDacl mem acl size = some (mem.fetch acl size) := by
    simp [setTokenDefaultDacl, h]
  constructor
  · intro hsafe
    have hcreated := (hsafe.created _ hcreate).size.stop
    have hstored := hsafe.create.stop
    rw [length_fetch] at hcreated
    omega
  · rintro ⟨hfield, hstored⟩
    constructor
    · exact ⟨le_rfl, by omega⟩
    · intro block hblock
      rw [hcreate, some_inj] at hblock
      subst hblock
      constructor
      · rw [length_fetch]
        exact ⟨by omega, by omega⟩
      · rw [getTokenDefaultDaclLen_fetch hfield, length_fetch]
        exact ⟨le_rfl, le_rfl⟩
    · intro block hblock
      rw [hset, some_inj] at hblock
      subst hblock
      constructor
      · rw [length_fetch]
        exact ⟨by omega, by omega⟩
      · rw [getTokenDefaultDaclLen_fetch (by omega), length_fetch]
        exact ⟨le_rfl, by omega⟩

/-- The identifier at `a?` is inside its `len` bytes, and these are inside the descriptor. -/
def SidPartSafe (mem : ByteMemory) (sd size : Nat) (at? : Option Nat) (len : Nat) : Prop :=
  ∀ a, at? = some a → Inside a (sidLen (sidAt mem a)) a len ∧ Inside a len sd size

def AclPartSafe (mem : ByteMemory) (sd size : Nat) (at? : Option Nat) (len : Nat) : Prop :=
  ∀ acl, at? = some acl → Inside acl len sd size ∧ AclSafe mem acl len

def AclPartFits (mem : ByteMemory) (at? : Option Nat) (len : Nat) : Prop :=
  ∀ acl, at? = some acl → AclFits mem acl len

structure SdSafe (mem : ByteMemory) (sd size : Nat) : Prop where
  header : Inside sd 20 sd size
  owner : SidPartSafe mem sd size (sdGetOwner mem sd) (sdOwnerLen mem sd)
  group : SidPartSafe mem sd size (sdGetGroup mem sd) (sdGroupLen mem sd)
  sacl : AclPartSafe mem sd size (sdGetSacl mem sd) (sdSaclLen mem sd)
  dacl : AclPartSafe mem sd size (sdGetDacl mem sd).2 (sdDaclLen mem sd)
  /-- the access check depends on no byte outside -/
  check : ∀ mem', Agree mem mem' sd size →
    ∀ token desiredAccess privCount mapping status,
      tokenAccessCheck token mem' sd desiredAccess privCount mapping status =
        tokenAccessCheck token mem sd desiredAccess privCount mapping status

/-- What the check of a descriptor establishes. -/
structure SdChecked (mem : ByteMemory) (sd size : Nat) : Prop where
  room : 20 + sdOwnerLen mem sd + sdGroupLen mem sd + sdSaclLen mem sd + sdDaclLen mem sd ≤ size
  owner : partIsValid (fun a => sidValidSize mem a (sdOwnerLen mem sd)) (sdGetOwner mem sd) = true
  group : partIsValid (fun a => sidValidSize mem a (sdGroupLen mem sd)) (sdGetGroup mem sd) = true
  sacl : partIsValid (fun a => aclIsValid mem a (sdSaclLen mem sd)) (sdGetSacl mem sd) = true
  dacl : partIsValid (fun a => aclIsValid mem a (sdDaclLen mem sd)) (sdGetDacl mem sd).2 = true

variable {sd : Nat}

lemma sdIsValid_checked (h : sdIsValid mem sd size = true) : SdChecked mem sd size := by
  unfold sdIsValid at h
  split at h
  · cases h
  split at h
  · cases h
  split at h
  · cases h
  next howner =>
    split at h
    · cases h
    split at h
    · cases h
    next hgroup =>
      split at h
      · cases h
      split at h
      · cases h
      next hsacl =>
        split at h
        · cases h
        next hroom =>
          rw [Bool.or_eq_true, not_or, decide_eq_true_eq, decide_eq_true_eq] at hroom
          constructor
          · omega
          · simpa using howner
          · simpa using hgroup
          · simpa using hsacl
          · exact h

lemma partIsValid_iff {check : Nat → Bool} :
    partIsValid check at? = true ↔ ∀ a, at? = some a → check a = true := by
  cases at? <;> simp [partIsValid]

lemma sidPartSafe_of (h : partIsValid (fun a => sidValidSize mem a len) at? = true)
    (hin : ∀ a, at? = some a → Inside a len sd size) : SidPartSafe mem sd size at? len := by
  intro a ha
  have hvalid := partIsValid_iff.mp h a ha
  rw [sidValidSize, Bool.and_eq_true, decide_eq_true_eq, decide_eq_true_eq] at hvalid
  exact ⟨⟨le_rfl, by omega⟩, hin a ha⟩

lemma aclPartSafe_iff (h : partIsValid (fun a => aclIsValid mem a len) at? = true)
    (hin : ∀ a, at? = some a → Inside a len sd size) :
    AclPartSafe mem sd size at? len ↔ AclPartFits mem at? len := by
  constructor
  · intro hsafe acl hacl
    exact (aclSafe_iff (partIsValid_iff.mp h acl hacl)).mp (hsafe acl hacl).2
  · intro hfits acl hacl
    exact ⟨hin acl hacl, (aclSafe_iff (partIsValid_iff.mp h acl hacl)).mpr (hfits acl hacl)⟩

section Parts

variable {a : Nat} (h : SdChecked mem sd size)
include h

lemma SdChecked.owner_inside (ha : sdGetOwner mem sd = some a) :
    Inside a (sdOwnerLen mem sd) sd size := by
  have hroom := h.room
  rw [sdGetOwner, ite_none_right_eq_some, some_inj] at ha
  constructor <;> omega

lemma SdChecked.group_inside (ha : sdGetGroup mem sd = some a) :
    Inside a (sdGroupLen mem sd) sd size := by
  have hroom := h.room
  rw [sdGetGroup, ite_none_right_eq_some, some_inj] at ha
  constructor <;> omega

lemma SdChecked.sacl_inside (ha : sdGetSacl mem sd = some a) :
    Inside a (sdSaclLen mem sd) sd size := by
  have hroom := h.room
  rw [sdGetSacl, ite_none_right_eq_some, some_inj] at ha
  constructor <;> omega

lemma SdChecked.dacl_inside (ha : (sdGetDacl mem sd).2 = some a) :
    Inside a (sdDaclLen mem sd) sd size := by
  have hroom := h.room
  rw [sdGetDacl, ite_none_right_eq_some, some_inj] at ha
  constructor <;> omega

end Parts

lemma header_agree (h : Agree mem mem' sd 20) :
    sdGetOwner mem' sd = sdGetOwner mem sd ∧ sdGetGroup mem' sd = sdGetGroup mem sd ∧
      sdGetDacl mem' sd = sdGetDacl mem sd := by
  have hcontrol : mem'.readLE sd 4 = mem.readLE sd 4 := (h.mono (by omega) (by omega)).readLE
  have howner : sdOwnerLen mem' sd = sdOwnerLen mem sd :=
    Agree.readLE (h.mono (by omega) (by omega))
  have hgroup : sdGroupLen mem' sd = sdGroupLen mem sd :=
    Agree.readLE (h.mono (by omega) (by omega))
  have hsacl : sdSaclLen mem' sd = sdSaclLen mem sd :=
    Agree.readLE (h.mono (by omega) (by omega))
  have hdacl : sdDaclLen mem' sd = sdDaclLen mem sd :=
    Agree.readLE (h.mono (by omega) (by omega))
  refine ⟨?_, ?_, ?_⟩
  · rw [sdGetOwner, sdGetOwner, howner]
  · rw [sdGetGroup, sdGetGroup, howner, hgroup]
  · rw [sdGetDacl, sdGetDacl, sdControl, sdControl, hcontrol, howner, hgroup, hsacl, hdacl]

lemma tokenAccessCheck_agree (hheader : Inside sd 20 sd size)
    (howner : SidPartSafe mem sd size (sdGetOwner mem sd) (sdOwnerLen mem sd))
    (hdacl : AclPartSafe mem sd size (sdGetDacl mem sd).2 (sdDaclLen mem sd))
    (hagree : Agree mem mem' sd size) (token : Token) (desiredAccess : AccessMask)
    (privCount : Option Nat) (mapping : GenericMap) (status : Status) :
    tokenAccessCheck token mem' sd desiredAccess privCount mapping status =
      tokenAccessCheck token mem sd desiredAccess privCount mapping status := by
  obtain ⟨hownerEq, hgroupEq, hdaclEq⟩ := header_agree (hheader.agree hagree)
  have hsid : ∀ a, sdGetOwner mem sd = some a → sidAt mem' a = sidAt mem a := by
    intro a ha
    obtain ⟨hin, hpart⟩ := howner a ha
    exact sidAt_agree ((hin.trans hpart).agree hagree)
  have haces : ∀ acl, (sdGetDacl mem sd).2 = some acl → aclAces mem' acl = aclAces mem acl := by
    intro acl hacl
    obtain ⟨hpart, hsafe⟩ := hdacl acl hacl
    exact hsafe.aclAces_eq (hpart.agree hagree)
  unfold tokenAccessCheck
  rw [hownerEq, hgroupEq, hdaclEq]
  cases hat : sdGetOwner mem sd with
  | none => rfl
  | some a =>
    rcases hboth : sdGetDacl mem sd with ⟨present, dacl⟩
    cases dacl with
    | none =>
      cases sdGetGroup mem sd <;> cases present <;> rfl
    | some acl =>
      have hsidEq := hsid a hat
      have hacesEq := haces acl (by rw [hboth])
      cases sdGetGroup mem sd <;> cases present <;> simp only [hsidEq, hacesEq]

/-- **What later readers trust.** The parts of an accepted descriptor are inside each other if the
stored size of each list is within its length and no entry that is met is smaller than its own
header. The requests on a default list then stay inside as well, except that a copy of fewer than
four bytes does not contain the stored size. -/
theorem accepted_safe_to_walk (mem : ByteMemory) (sd size acl len : Nat) :
    (sdIsValid mem sd size = true →
        (SdSafe mem sd size ↔
          AclPartFits mem (sdGetSacl mem sd) (sdSaclLen mem sd) ∧
            AclPartFits mem (sdGetDacl mem sd).2 (sdDaclLen mem sd))) ∧
      (aclIsValid mem acl len = true →
        (AclSafe mem acl len ∧ DefaultDaclSafe mem acl len ↔
          AclFits mem acl len ∧ 4 ≤ aclSize mem acl)) := by
  constructor
  · intro hvalid
    have hchecked := sdIsValid_checked hvalid
    have hsacl := aclPartSafe_iff hchecked.sacl fun _ => hchecked.sacl_inside
    have hdacl := aclPartSafe_iff hchecked.dacl fun _ => hchecked.dacl_inside
    constructor
    · intro hsafe
      exact ⟨hsacl.mp hsafe.sacl, hdacl.mp hsafe.dacl⟩
    · rintro ⟨hsaclFits, hdaclFits⟩
      have hheader : Inside sd 20 sd size := ⟨le_rfl, by have hroom := hchecked.room; omega⟩
      have howner := sidPartSafe_of hchecked.owner fun _ => hchecked.owner_inside
      have hgroup := sidPartSafe_of hchecked.group fun _ => hchecked.group_inside
      constructor
      · exact hheader
      · exact howner
      · exact hgroup
      · exact hsacl.mpr hsaclFits
      · exact hdacl.mpr hdaclFits
      · intro mem' hagree
        exact tokenAccessCheck_agree hheader howner (hdacl.mpr hdaclFits) hagree
  · intro hvalid
    rw [aclSafe_iff hvalid, defaultDaclSafe_iff hvalid]
    constructor
    · rintro ⟨hfits, hfield, _⟩
      exact ⟨hfits, hfield⟩
    · rintro ⟨hfits, hfield⟩
      exact ⟨hfits, hfield, hfits.stored⟩


/-! ### A stored size and an entry that reach outside -/

def worldMayRead : List Ace := [entry worldSid accessAllowedAceType 0 1]

theorem accepted_safe_to_walk_world :
    (SdSafe (ofList (sdBytes worldSid worldSid (daclBytes worldMayRead))) 0 72 ↔
        AclPartFits (ofList (sdBytes worldSid worldSid (daclBytes worldMayRead))) none 0 ∧
          AclPartFits (ofList (sdBytes worldSid worldSid (daclBytes worldMayRead))) (some 44) 28) ∧
      (AclSafe (ofList (daclBytes worldMayRead)) 0 28 ∧
          DefaultDaclSafe (ofList (daclBytes worldMayRead)) 0 28 ↔
        AclFits (ofList (daclBytes worldMayRead)) 0 28 ∧
          4 ≤ aclSize (ofList (daclBytes worldMayRead)) 0) := by
  constructor
  · exact (accepted_safe_to_walk _ 0 72 0 0).1 (by decide +kernel)
  · exact (accepted_safe_to_walk _ 0 0 0 28).2 (by decide +kernel)

def oversizedBytes : List UInt8 := [aclRevision, 0] ++ leBytes 2 65535 ++ leBytes 2 0 ++ [0, 0]

def headerOnlyBytes : List UInt8 :=
  [aclRevision, 0] ++ leBytes 2 16 ++ leBytes 2 1 ++ [0, 0] ++
    ([accessAllowedAceType, 0] ++ leBytes 2 0 ++ leBytes 4 1)

def headerOnlySd : List UInt8 := sdBytes worldSid worldSid headerOnlyBytes

/-- The reply to `get_token_default_dacl` is then 65535 bytes of a block of eight, and the access
check reads the identifier of the entry behind the end of the descriptor. -/
theorem accepted_reaches_outside : (aclIsValid (ofList oversizedBytes) 0 8 = true ∧
        ¬(AclSafe (ofList oversizedBytes) 0 8 ∧ DefaultDaclSafe (ofList oversizedBytes) 0 8)) ∧
      (sdIsValid (ofList headerOnlySd) 0 headerOnlySd.length = true ∧
        ¬SdSafe (ofList headerOnlySd) 0 headerOnlySd.length) := by
  refine ⟨⟨by decide +kernel, ?_⟩, by decide +kernel, ?_⟩
  · rintro ⟨hsafe, _⟩
    have hstored : aclSize (ofList oversizedBytes) 0 = 65535 := by decide +kernel
    have hstop := hsafe.stored.stop
    omega
  · intro hsafe
    have hdacl : (sdGetDacl (ofList headerOnlySd) 0).2 = some 44 := by decide +kernel
    have hmem : 52 ∈ aclAddresses (ofList headerOnlySd) 44 := by decide +kernel
    have hsize : (aceAt (ofList headerOnlySd) 52).size = 0 := by decide +kernel
    have hstop := ((hsafe.dacl 44 hdacl).2.sid 52 hmem).stop
    omega

end WineForge.Security
