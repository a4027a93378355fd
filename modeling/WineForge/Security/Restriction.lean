import WineForge.Security.AccessCheck

/-!
# What restricting a token does to the access it is granted

Marking a group takes it out of the allow entries, but it takes it out of the deny entries as
well: the membership test asks for `SE_GROUP_ENABLED` before it looks at the deny flag. The
restricted token is therefore granted no more than the old one exactly as long as no effective
deny entry names a group that the restriction has marked.
-/

namespace WineForge.Security

open BitVec Bool List WineForge.Library
open WineForge.Library.ByteMemory

/-- Every right of `a` is one of `b`. -/
def Within (a b : AccessMask) : Prop := ∀ i, a.getLsbD i = true → b.getLsbD i = true

lemma Within.refl (a : AccessMask) : Within a a := fun _ h => h

variable {a b current : AccessMask} {removeGroups : List Sid} {group : Group} {s' s : AccessState}
  {privCount : Option Nat} {privs : Option LuidAttr} {bit : Nat}

lemma Within.or {c d : AccessMask} (hac : Within a c) (hbd : Within b d) :
    Within (a ||| b) (c ||| d) := by
  intro i h
  rw [getLsbD_or, or_eq_true] at h ⊢
  exact h.imp (hac i) (hbd i)

lemma Within.or_left (h : Within a b) (c : AccessMask) : Within a (b ||| c) := by
  intro i hi
  rw [BitVec.getLsbD_or, h i hi, Bool.true_or]

lemma Within.diff {c d : AccessMask} (hab : Within a b) (hdc : Within d c) :
    Within (a &&& ~~~c) (b &&& ~~~d) := by
  intro i h
  rw [getLsbD_and, and_eq_true, getLsbD_not, and_eq_true] at h ⊢
  refine ⟨hab i h.1, h.2.1, ?_⟩
  by_contra hd
  simp [hdc i (by simpa using hd)] at h

lemma Within.cover {desired : AccessMask} (hab : Within a b)
    (h : a &&& desired = desired) : b &&& desired = desired := by
  ext i hi
  have hi' : (a &&& desired).getLsbD i = desired.getLsbD i := by rw [h]
  have hab' := hab i
  simp only [getLsbD_and] at hi'
  simp only [← getLsbD_eq_getElem, getLsbD_and]
  cases hd : desired.getLsbD i with
  | false => simp
  | true =>
    rw [hd, Bool.and_true] at hi'
    rw [hab' hi', Bool.and_true]

lemma duplicateGroup_marked (h : filterGroup group removeGroups = true) :
    (duplicateGroup removeGroups group).attrs &&& seGroupEnabled = 0 := by
  have hmask : ~~~(seGroupEnabled ||| seGroupEnabledByDefault) &&& seGroupEnabled = 0#32 := by
    decide
  have hflag : seGroupUseForDenyOnly &&& seGroupEnabled = 0#32 := by decide
  rw [duplicateGroup, if_pos h]
  change _ = 0#32
  ext i hi
  have hmask' := congrArg (fun x => x.getLsbD i) hmask
  have hflag' := congrArg (fun x => x.getLsbD i) hflag
  simp only [BitVec.getLsbD_and, BitVec.getLsbD_zero] at hmask' hflag'
  simp only [← BitVec.getLsbD_eq_getElem, BitVec.getLsbD_and, BitVec.getLsbD_or,
    BitVec.getLsbD_zero, Bool.and_or_distrib_right, Bool.and_assoc, hmask', hflag', Bool.and_false,
    Bool.or_self]

lemma groupPresent_duplicate (removeGroups : List Sid) (group : Group) (sid : Sid) (deny : Bool) :
    groupPresent sid deny (duplicateGroup removeGroups group) =
      (!filterGroup group removeGroups && groupPresent sid deny group) := by
  cases h : filterGroup group removeGroups with
  | true =>
    rw [groupPresent, duplicateGroup_marked h]
    simp
  | false =>
    rw [duplicateGroup, if_neg (by simp [h])]
    simp

section Restricted

variable {token restricted : Token} {primary : Bool} {level : Int} {removePrivs : List LuidAttr}
  {removeGroups : List Sid}

lemma tokenDuplicate_eq (h : tokenDuplicate token primary level removePrivs removeGroups =
    .ok restricted) :
    restricted.user = token.user ∧
      restricted.groups = token.groups.map (duplicateGroup removeGroups) ∧
      restricted.privileges = token.privileges.filterMap (duplicatePrivilege removePrivs) := by
  unfold tokenDuplicate at h
  split at h
  · cases h
  · injection h with h
    subst h
    exact ⟨rfl, rfl, rfl⟩

variable {sid : Sid} {deny : Bool}

lemma tokenSidPresent_iff {token : Token} : tokenSidPresent token sid deny = true ↔
      token.user = sid ∨ ∃ group ∈ token.groups, groupPresent sid deny group = true := by
  unfold tokenSidPresent
  by_cases huser : equalSid token.user sid = true
  · rw [if_pos huser]
    simp [equalSid_iff.mp huser]
  · have hne : token.user ≠ sid := fun heq => huser (equalSid_iff.mpr heq)
    rw [if_neg huser]
    simp [hne]

lemma tokenSidPresent_restricted
    (h : tokenDuplicate token primary level removePrivs removeGroups = .ok restricted) :
    tokenSidPresent restricted sid deny = true ↔
      token.user = sid ∨ ∃ group ∈ token.groups,
        filterGroup group removeGroups = false ∧ groupPresent sid deny group = true := by
  obtain ⟨huser, hgroups, _⟩ := tokenDuplicate_eq h
  rw [tokenSidPresent_iff, huser, hgroups]
  simp [groupPresent_duplicate]

lemma tokenSidPresent_of_restricted
    (h : tokenDuplicate token primary level removePrivs removeGroups = .ok restricted)
    (hpresent : tokenSidPresent restricted sid deny = true) :
    tokenSidPresent token sid deny = true := by
  rw [tokenSidPresent_restricted h] at hpresent
  rw [tokenSidPresent_iff]
  obtain huser | ⟨group, hgroup, _, hin⟩ := hpresent
  · exact .inl huser
  · exact .inr ⟨group, hgroup, hin⟩

lemma isEqualLuid_iff {luid1 luid2 : Luid} : isEqualLuid luid1 luid2 = true ↔ luid1 = luid2 := by
  cases luid1
  cases luid2
  simp [isEqualLuid]

lemma duplicatePrivilege_eq_some {privilege copy : Privilege} :
    duplicatePrivilege removePrivs privilege = some copy ↔
      filterPrivilege privilege removePrivs = false ∧
        copy = ⟨privilege.luid, privilege.enabled, privilege.enabled⟩ := by
  unfold duplicatePrivilege
  cases filterPrivilege privilege removePrivs <;> simp [eq_comm]

lemma find_duplicatePrivilege {luid : Luid} {hasLuid : Privilege → Bool}
    (hhas : ∀ p, hasLuid p = true ↔ luid = p.luid) {privileges : List Privilege} {copy : Privilege}
    (h : (privileges.filterMap (duplicatePrivilege removePrivs)).find? hasLuid = some copy) :
    ∃ privilege, privileges.find? hasLuid = some privilege ∧
      privilege.enabled = copy.enabled := by
  induction privileges with
  | nil => simp at h
  | cons p privileges ih =>
    by_cases hluid : luid = p.luid
    · have hkept : filterPrivilege p removePrivs = false := by
        have hcopy := (hhas copy).mp (find?_some h)
        obtain ⟨q, _, hq⟩ := mem_filterMap.mp (mem_of_find?_eq_some h)
        obtain ⟨hkept, rfl⟩ := duplicatePrivilege_eq_some.mp hq
        have hsame : q.luid = p.luid := hcopy.symm.trans hluid
        unfold filterPrivilege at hkept ⊢
        rwa [hsame] at hkept
      have hdup : duplicatePrivilege removePrivs p = some ⟨p.luid, p.enabled, p.enabled⟩ :=
        duplicatePrivilege_eq_some.mpr ⟨hkept, rfl⟩
      have hcopy : hasLuid ⟨p.luid, p.enabled, p.enabled⟩ = true := (hhas _).mpr hluid
      rw [filterMap_cons_some hdup, find?_cons_of_pos hcopy] at h
      refine ⟨p, find?_cons_of_pos ((hhas p).mpr hluid), ?_⟩
      injection h with h
      rw [← h]
    · rw [find?_cons_of_neg (fun heq => hluid ((hhas p).mp heq))]
      apply ih
      cases hdup : duplicatePrivilege removePrivs p with
      | none => rwa [filterMap_cons_none hdup] at h
      | some q =>
        obtain ⟨_, rfl⟩ := duplicatePrivilege_eq_some.mp hdup
        have hcopy : ¬hasLuid ⟨p.luid, p.enabled, p.enabled⟩ = true :=
          fun heq => hluid ((hhas ⟨p.luid, p.enabled, p.enabled⟩).mp heq)
        rwa [filterMap_cons_some hdup, find?_cons_of_neg hcopy] at h

lemma privilegeHeld_of_restricted
    (h : tokenDuplicate token primary level removePrivs removeGroups = .ok restricted)
    {reqpriv : LuidAttr} (hheld : privilegeHeld restricted reqpriv = true) :
    privilegeHeld token reqpriv = true := by
  obtain ⟨_, _, hprivs⟩ := tokenDuplicate_eq h
  unfold privilegeHeld tokenFindPrivilege at hheld ⊢
  rw [hprivs] at hheld
  cases hfind : (token.privileges.filterMap (duplicatePrivilege removePrivs)).find?
      (fun p => isEqualLuid reqpriv.luid p.luid) with
  | none => simp [hfind] at hheld
  | some copy =>
    obtain ⟨privilege, hold, henabled⟩ := find_duplicatePrivilege (fun _ => isEqualLuid_iff) hfind
    cases hcopy : copy.enabled <;> simp_all

end Restricted

/-- What one run holds against another that is granted no more. -/
structure Narrower (s' s : AccessState) : Prop where
  current : Within s'.currentAccess s.currentAccess
  denied : Within s.deniedAccess s'.deniedAccess

/-- A token that is in fewer allow entries, but in the same deny entries of `aces`. -/
structure Restricts (restricted token : Token) (aces : List Ace) : Prop where
  present : ∀ sid deny, tokenSidPresent restricted sid deny = true →
    tokenSidPresent token sid deny = true
  keepsDeny : ∀ ace ∈ aces, inheritOnly ace = false → ace.type = accessDeniedAceType →
    tokenSidPresent token ace.sid true = true → tokenSidPresent restricted ace.sid true = true

variable {token restricted : Token} {aces : List Ace} {desired : AccessMask} {mapping : GenericMap}

lemma Restricts.tail {ace : Ace} (h : Restricts restricted token (ace :: aces)) :
    Restricts restricted token aces where
  present := h.present
  keepsDeny x hx := h.keepsDeny x (mem_cons_of_mem ace hx)

lemma aceStep_narrower {ace : Ace} (hs : Narrower s' s)
    (h : Restricts restricted token (ace :: aces)) (hflags : inheritOnly ace = false) :
    Narrower (aceStep restricted desired mapping ace s').1 (aceStep token desired mapping ace s).1 ∧
      (aceStep restricted desired mapping ace s').2 = (aceStep token desired mapping ace s).2 := by
  have hcurrent := hs.current
  have hdenied := hs.denied
  by_cases hdeny : ace.type = accessDeniedAceType
  · have hsame : tokenSidPresent restricted ace.sid true = tokenSidPresent token ace.sid true := by
      apply Bool.eq_iff_iff.mpr
      exact ⟨h.present ace.sid true, h.keepsDeny ace (by simp) hflags hdeny⟩
    unfold aceStep
    simp only [hdeny, beq_self_eq_true, if_true, hsame]
    split
    · split
      · exact ⟨⟨hcurrent, hdenied.or (Within.refl _)⟩, rfl⟩
      · exact ⟨⟨hcurrent, hdenied.or ((Within.refl _).diff hcurrent)⟩, rfl⟩
    · exact ⟨hs, rfl⟩
  unfold aceStep
  have hne : (ace.type == accessDeniedAceType) = false := by simpa using hdeny
  simp only [hne, Bool.false_eq_true, if_false]
  split
  · by_cases hin : tokenSidPresent restricted ace.sid false = true
    · -- both are in the entry
      have hin' := h.present ace.sid false hin
      simp only [hin, hin', if_true]
      split
      · exact ⟨⟨hcurrent.or (Within.refl _), hdenied⟩, rfl⟩
      · exact ⟨⟨hcurrent.or ((Within.refl _).diff hdenied), hdenied⟩, rfl⟩
    -- the old token may gain rights here
    have hout : tokenSidPresent restricted ace.sid false = false := by simpa using hin
    simp only [hout, Bool.false_eq_true, if_false]
    split
    · split
      · exact ⟨⟨hcurrent.or_left _, hdenied⟩, rfl⟩
      · exact ⟨⟨hcurrent.or_left _, hdenied⟩, rfl⟩
    · exact ⟨hs, rfl⟩
  · exact ⟨hs, rfl⟩

lemma aceLoop_narrower (hs : Narrower s' s) (h : Restricts restricted token aces) :
    Narrower (aceLoop restricted desired mapping aces s')
      (aceLoop token desired mapping aces s) := by
  induction aces generalizing s' s with
  | nil => exact hs
  | cons ace aces ih =>
    unfold aceLoop
    cases hflags : inheritOnly ace with
    | true => exact ih hs h.tail
    | false =>
      obtain ⟨hstep, hdone⟩ := @aceStep_narrower s' s token restricted aces desired mapping ace hs h
        hflags
      simp only [hdone, false_eq_true, if_false]
      split
      · exact hstep
      · exact ih hstep h.tail

lemma finalAccess_within (hs : Narrower s' s) :
    Within (finalAccess desired s') (finalAccess desired s) := by
  unfold finalAccess
  split
  · exact hs.current.diff hs.denied
  by_cases hcover : s'.currentAccess &&& desired = desired
  · have hcover' := hs.current.cover hcover
    simp [hcover, hcover', Within.refl]
  · intro i hi
    simp [hcover] at hi

lemma finalAccess_within_desired (hmax : desired &&& maximumAllowed = 0) (s : AccessState) :
    Within (finalAccess desired s) desired := by
  intro i hi
  unfold finalAccess at hi
  simp only [hmax, bne_self_eq_false, false_eq_true, if_false] at hi
  split at hi
  · simp only [getLsbD_and, and_eq_true] at hi
    exact hi.2
  · simp at hi

lemma grant_grants {access : AccessMask} :
    (grant access privCount privs).Grants bit ↔ access.getLsbD bit = true := by
  simp [grant, AccessCheck.Grants]

lemma not_maximum_of_owner (h : current &&& maximumAllowed = 0) :
    (current ||| (standardRightsRequired ||| synchronize)) &&& maximumAllowed = 0 := by
  have howner : (standardRightsRequired ||| synchronize) &&& maximumAllowed = 0 := by decide
  rw [BitVec.and_or_distrib_right, h, howner, BitVec.or_self]

def walkResult (token : Token) (aces : List Ace) (desired : AccessMask) (mapping : GenericMap)
    (current : AccessMask) : AccessMask :=
  finalAccess desired (aceLoop token desired mapping aces ⟨current, 0⟩)

def ownerAccess (token : Token) (owner : Sid) (current : AccessMask) : AccessMask :=
  if tokenSidPresent token owner false then
    current ||| (standardRightsRequired ||| synchronize)
  else current

lemma checkDacl_grants {owner : Sid} :
    (checkDacl token owner aces desired mapping current privCount privs).Grants bit ↔
      if tokenSidPresent token owner false = true ∧ desired = ownerAccess token owner current then
        desired.getLsbD bit = true
      else
        (walkResult token aces desired mapping (ownerAccess token owner current)).getLsbD bit
          = true := by
  unfold checkDacl
  by_cases hearly : tokenSidPresent token owner false = true ∧
      desired = ownerAccess token owner current
  · have hdesired := hearly.2
    rw [if_pos hearly]
    unfold ownerAccess at hdesired
    simp only [hearly.1, Bool.true_and, if_true] at hdesired ⊢
    rw [if_pos (by simpa using hdesired), grant_grants, ← hdesired]
  rw [if_neg hearly, if_neg]
  · change (_ ∧ (if walkResult token aces desired mapping (ownerAccess token owner current) != 0
      then Status.success else .accessDenied) = .success ∧ _) ↔ _
    constructor
    · exact fun h => h.2.2
    · intro h
      refine ⟨rfl, ?_, h⟩
      rw [if_pos]
      apply bne_iff_ne.mpr
      intro hzero
      rw [hzero] at h
      simp at h
  · rw [and_eq_true, beq_iff_eq]
    exact hearly

lemma checkDacl_narrower (h : Restricts restricted token aces) {owner : Sid}
    (hcurrent : current &&& maximumAllowed = 0)
    {privs' : Option LuidAttr}
    (hgrants : (checkDacl restricted owner aces desired mapping current privCount privs').Grants
      bit) :
    (checkDacl token owner aces desired mapping current privCount privs).Grants bit := by
  rw [checkDacl_grants] at hgrants ⊢
  by_cases howner : tokenSidPresent token owner false = true ∧
      desired = ownerAccess token owner current
  · -- the old token is granted all of `desired`, which holds no `MAXIMUM_ALLOWED`
    have hmax : desired &&& maximumAllowed = 0 := by
      rw [howner.2, ownerAccess, if_pos howner.1]
      exact not_maximum_of_owner hcurrent
    rw [if_pos howner]
    split at hgrants
    · exact hgrants
    · exact finalAccess_within_desired hmax _ bit hgrants
  have howner' : ¬(tokenSidPresent restricted owner false = true ∧
      desired = ownerAccess restricted owner current) := by
    rintro ⟨hin, hdesired⟩
    have hin' := h.present owner false hin
    apply howner
    rw [ownerAccess, if_pos hin] at hdesired
    rw [ownerAccess, if_pos hin']
    exact ⟨hin', hdesired⟩
  rw [if_neg howner'] at hgrants
  rw [if_neg howner]
  have hwithin : Within (ownerAccess restricted owner current)
      (ownerAccess token owner current) := by
    unfold ownerAccess
    by_cases hin : tokenSidPresent restricted owner false = true
    · rw [if_pos hin, if_pos (h.present owner false hin)]
      exact Within.refl _
    rw [if_neg hin]
    split
    · exact (Within.refl current).or_left _
    · exact Within.refl current
  have hstart : Narrower ⟨ownerAccess restricted owner current, 0⟩
      ⟨ownerAccess token owner current, 0⟩ := ⟨hwithin, Within.refl 0⟩
  exact finalAccess_within (aceLoop_narrower hstart h) bit hgrants

def sdAces (mem : ByteMemory) (sd : Nat) : List Ace :=
  match sdGetDacl mem sd with
  | (true, some dacl) => aclAces mem dacl
  | _ => []

lemma tokenCheckPrivileges_one (token : Token) (reqpriv : LuidAttr) :
    (tokenCheckPrivileges token true [reqpriv]).1 = privilegeHeld token reqpriv := by
  cases h : privilegeHeld token reqpriv <;> simp [tokenCheckPrivileges, h]

/-- Access is granted to the restricted token only where the old one has it, as long as the deny
entries still see it. -/
theorem tokenAccessCheck_narrower {mem : ByteMemory} {sd : Nat}
    {status : Status} (h : Restricts restricted token (sdAces mem sd))
    (hprivs : ∀ reqpriv, privilegeHeld restricted reqpriv = true →
      privilegeHeld token reqpriv = true)
    (hgrants : (tokenAccessCheck restricted mem sd desired privCount mapping status).Grants bit) :
    (tokenAccessCheck token mem sd desired privCount mapping status).Grants bit := by
  unfold tokenAccessCheck at hgrants ⊢
  unfold sdAces at h
  by_cases hgeneric : (desired &&& genericRights != 0) = true
  · rwa [if_pos hgeneric] at hgrants ⊢
  rw [if_neg hgeneric] at hgrants ⊢
  cases howner : sdGetOwner mem sd with
  | none => simp [howner, AccessCheck.Grants] at hgrants
  | some owner =>
    cases hgroup : sdGetGroup mem sd with
    | none => simp [howner, hgroup, AccessCheck.Grants] at hgrants
    | some group =>
      rcases hdacl : sdGetDacl mem sd with ⟨_ | _, _ | dacl⟩
      · simpa [howner, hgroup, hdacl] using hgrants
      · simpa [howner, hgroup, hdacl] using hgrants
      · simpa [howner, hgroup, hdacl] using hgrants
      rw [hdacl] at h
      simp only [howner, hgroup, hdacl, tokenCheckPrivileges_one] at hgrants ⊢
      by_cases hsystem : (desired &&& accessSystemSecurity != 0) = true
      · rw [if_pos hsystem] at hgrants ⊢
        -- without the privilege nothing is granted
        by_cases hheld : privilegeHeld restricted ⟨seSecurityPrivilege, 0⟩ = true
        · rw [if_pos hheld] at hgrants
          rw [if_pos (hprivs _ hheld)]
          split
          · rename_i hcount
            rwa [if_pos hcount] at hgrants
          rename_i hcount
          rw [if_neg hcount] at hgrants
          split
          · rename_i hdesired
            rw [if_pos hdesired, grant_grants] at hgrants
            rwa [grant_grants]
          · rename_i hdesired
            rw [if_neg hdesired] at hgrants
            exact checkDacl_narrower h (by decide) hgrants
        · rw [if_neg hheld] at hgrants
          simp [AccessCheck.Grants] at hgrants
      · rw [if_neg hsystem] at hgrants ⊢
        exact checkDacl_narrower h (by simp) hgrants

/-! ### The groups that a restriction takes out of the deny entries -/

def Enabled (group : Group) : Prop := group.attrs &&& seGroupEnabled ≠ 0

instance (group : Group) : Decidable (Enabled group) := inferInstanceAs (Decidable (_ ≠ _))

lemma groupPresent_deny {sid : Sid} :
    groupPresent sid true group = true ↔ Enabled group ∧ group.sid = sid := by
  unfold groupPresent Enabled
  by_cases henabled : group.attrs &&& seGroupEnabled = 0
  · simp [henabled]
  · simp [equalSid_iff]

lemma filterGroup_congr {group' : Group} (h : group.sid = group'.sid) :
    filterGroup group removeGroups = filterGroup group' removeGroups := by
  unfold filterGroup
  rw [h]

lemma restricts_of_unmarked {primary : Bool} {level : Int} {removePrivs : List LuidAttr}
    (h : tokenDuplicate token primary level removePrivs removeGroups = .ok restricted)
    (hdeny : ∀ ace ∈ aces, inheritOnly ace = false → ace.type = accessDeniedAceType →
      ∀ group ∈ token.groups, Enabled group → filterGroup group removeGroups = true →
        group.sid = ace.sid → ace.sid = token.user) : Restricts restricted token aces where
  present _ _ := tokenSidPresent_of_restricted h
  keepsDeny ace hace hflags htype hpresent := by
    rw [tokenSidPresent_restricted h]
    rw [tokenSidPresent_iff] at hpresent
    obtain huser | ⟨group, hgroup, hin⟩ := hpresent
    · exact .inl huser
    obtain ⟨henabled, hsid⟩ := groupPresent_deny.mp hin
    cases hmark : filterGroup group removeGroups with
    | true => exact .inl (hdeny ace hace hflags htype group hgroup henabled hmark hsid).symm
    | false => exact .inr ⟨group, hgroup, hmark, hin⟩

section Separating

/-! A descriptor that denies a group one right and then allows it to the user. -/

def worldSid : Sid := ⟨[1, 1, 0, 0, 0, 0, 0, 1, 0, 0, 0, 0], by decide⟩

def denyThenAllow (group user : Sid) : List Ace :=
  [entry group accessDeniedAceType 0 1, entry user accessAllowedAceType 0 1]

def noMapping : GenericMap := ⟨0, 0, 0, 0⟩

def denyThenAllowBytes (group user : Sid) : List UInt8 :=
  sdBytes worldSid worldSid (daclBytes (denyThenAllow group user))

lemma length_denyThenAllow (group user : Sid) :
    (daclBytes (denyThenAllow group user)).length < maxAclLen := by
  have hgroup := group.length_le
  have huser := user.length_le
  rw [length_daclBytes]
  simp [denyThenAllow, Ace.bytes, entry, maxAclLen]
  omega

lemma denyThenAllow_entries (group user : Sid) :
    ∀ ace ∈ denyThenAllow group user, ace = entry ace.sid ace.type ace.flags ace.mask := by
  simp [denyThenAllow, entry]

lemma denyThenAllow_valid (group user : Sid) :
    sdIsValid (ofList (denyThenAllowBytes group user)) 0 (denyThenAllowBytes group user).length
      = true := by
  have htype : ∀ ace ∈ denyThenAllow group user, knownAceType ace.type = true := by
    simp [denyThenAllow, entry, knownAceType]
  exact sdIsValid_of_holds (denyThenAllow_entries group user) htype (holds_ofList _) (by decide)
    (by decide) (length_denyThenAllow group user)

lemma denyThenAllow_describes (group user : Sid) :
    Describes (ofList (denyThenAllowBytes group user)) 0 worldSid worldSid
      (denyThenAllow group user) :=
  describes_of_holds (denyThenAllow_entries group user) (holds_ofList _)
    (length_denyThenAllow group user)

variable {owner group : Sid}

lemma tokenAccessCheck_describes {mem : ByteMemory} {sd : Nat}
    (h : Describes mem sd owner group aces) (hgeneric : desired &&& genericRights = 0)
    (hsystem : desired &&& accessSystemSecurity = 0) (privCount : Option Nat) (status : Status) :
    tokenAccessCheck token mem sd desired privCount mapping status =
      checkDacl token owner aces desired mapping 0 (privCount.map fun _ => 0) none := by
  obtain ⟨a, howner, rfl⟩ := h.owner_eq
  obtain ⟨b, hgroup, _⟩ := h.group_eq
  obtain ⟨c, hdacl, rfl⟩ := h.dacl_eq
  simp [tokenAccessCheck, hgeneric, howner, hgroup, hdacl, hsystem]

lemma ownerAccess_ne_one (owner : Sid) : 1#32 ≠ ownerAccess token owner 0#32 := by
  unfold ownerAccess
  split <;> decide

lemma ownerAccess_and_one (owner : Sid) : ownerAccess token owner 0#32 &&& 1#32 = 0#32 := by
  unfold ownerAccess
  split <;> decide

lemma mapAccess_one : mapAccess 1#32 noMapping = 1#32 := by decide

lemma one_not_maximum : 1#32 &&& maximumAllowed = 0#32 := by decide

lemma finalAccess_one {s : AccessState} :
    (finalAccess 1#32 s).getLsbD 0 = true ↔ s.currentAccess &&& 1#32 = 1#32 := by
  unfold finalAccess
  by_cases hcover : s.currentAccess &&& 1#32 = 1#32
  · simp [one_not_maximum, hcover]
  · simp [one_not_maximum, hcover]

lemma denyThenAllow_denied {user : Sid} (hgroup : tokenSidPresent token group true = true) :
    ¬(checkDacl token owner (denyThenAllow group user) 1#32 noMapping 0#32 none none).Grants 0 := by
  have hzero : ownerAccess token owner 0#32 &&& 1#32 = 0#32 := ownerAccess_and_one owner
  rw [checkDacl_grants, if_neg (fun h => ownerAccess_ne_one owner h.2), walkResult, finalAccess_one]
  -- the walk jumps to the end at the first entry
  simp [aceLoop, denyThenAllow, entry, inheritOnly, aceStep, hgroup, mapAccess_one, one_not_maximum,
    hzero]

lemma denyThenAllow_allowed {user : Sid} (hgroup : tokenSidPresent token group true = false)
    (huser : tokenSidPresent token user false = true) :
    (checkDacl token owner (denyThenAllow group user) 1#32 noMapping 0#32 none none).Grants 0 := by
  have hdeny : accessAllowedAceType ≠ accessDeniedAceType := by decide
  rw [checkDacl_grants, if_neg (fun h => ownerAccess_ne_one owner h.2), walkResult, finalAccess_one]
  simp [aceLoop, denyThenAllow, entry, inheritOnly, aceStep, hgroup, huser, hdeny, mapAccess_one,
    one_not_maximum, BitVec.and_or_distrib_right, ownerAccess_and_one]

end Separating

/-- The restricted token is granted nothing that the old one is refused, for every descriptor,
exactly when no enabled group is marked other than one that names the user. For a single descriptor
it is enough that no effective deny entry names a marked group. -/
theorem restricted_access {primary : Bool} {level : Int} {removePrivs : List LuidAttr}
    {removeGroups : List Sid}
    (h : tokenDuplicate token primary level removePrivs removeGroups = .ok restricted) :
    ((∀ mem sd size, sdIsValid mem sd size = true →
        ∀ mapping desired privCount status bit,
          (tokenAccessCheck restricted mem sd desired privCount mapping status).Grants bit →
          (tokenAccessCheck token mem sd desired privCount mapping status).Grants bit) ↔
      ∀ group ∈ token.groups, Enabled group → filterGroup group removeGroups = true →
        group.sid = token.user) ∧
    ∀ mem sd size, sdIsValid mem sd size = true →
      (∀ ace ∈ sdAces mem sd, inheritOnly ace = false → ace.type = accessDeniedAceType →
        ∀ group ∈ token.groups, Enabled group → filterGroup group removeGroups = true →
          group.sid = ace.sid → ace.sid = token.user) →
      ∀ mapping desired privCount status bit,
        (tokenAccessCheck restricted mem sd desired privCount mapping status).Grants bit →
        (tokenAccessCheck token mem sd desired privCount mapping status).Grants bit := by
  refine (fun hone => ⟨⟨?_, ?_⟩, hone⟩) ?_
  · intro mem sd size _ hdeny mapping desired privCount status bit hgrants
    exact tokenAccessCheck_narrower (restricts_of_unmarked h hdeny)
      (fun _ => privilegeHeld_of_restricted h) hgrants
  · intro hall group hgroup henabled hmark
    by_contra hne
    -- the descriptor that tells the two tokens apart
    have hpresent : tokenSidPresent token group.sid true = true :=
      tokenSidPresent_iff.mpr (.inr ⟨group, hgroup, groupPresent_deny.mpr ⟨henabled, rfl⟩⟩)
    have hgone : tokenSidPresent restricted group.sid true = false := by
      apply eq_false_iff.mpr
      rw [Ne, tokenSidPresent_restricted h]
      rintro (huser | ⟨group', _, hmark', hin⟩)
      · exact hne huser.symm
      · rw [filterGroup_congr (groupPresent_deny.mp hin).2, hmark] at hmark'
        cases hmark'
    have huser : tokenSidPresent restricted token.user false = true :=
      (tokenSidPresent_restricted h).mpr (.inl rfl)
    have hdescribes := denyThenAllow_describes group.sid token.user
    have hgeneric : (1 : AccessMask) &&& genericRights = 0 := by decide
    have hsystem : (1 : AccessMask) &&& accessSystemSecurity = 0 := by decide
    have hboth := hall _ 0 _ (denyThenAllow_valid group.sid token.user) noMapping 1 none .success 0
    rw [tokenAccessCheck_describes hdescribes hgeneric hsystem,
      tokenAccessCheck_describes hdescribes hgeneric hsystem] at hboth
    exact denyThenAllow_denied hpresent (hboth (denyThenAllow_allowed hgone huser))
  · intro hmarked mem sd size hvalid
    apply hone mem sd size hvalid
    intro ace _ _ _ group hgroup henabled hmark hsid
    rw [← hsid]
    exact hmarked group hgroup henabled hmark

/-! A guest whose only group is denied a right that the user is allowed. -/

def guestSid : Sid := ⟨[1, 1, 0, 0, 0, 0, 0, 5, 0xe8, 3, 0, 0], by decide⟩

def guestToken : Token where
  privileges := []
  groups := [⟨seGroupEnabled ||| seGroupEnabledByDefault, worldSid⟩]
  user := guestSid
  primaryGroup := 0
  primaryGroup_lt := by decide
  primary := false
  impersonationLevel := 2

def guestRestricted : Token where
  privileges := []
  groups := [⟨seGroupUseForDenyOnly, worldSid⟩]
  user := guestSid
  primaryGroup := 0
  primaryGroup_lt := by decide
  primary := false
  impersonationLevel := 2

theorem guest_gains_access : tokenDuplicate guestToken false 2 [] [worldSid] = .ok guestRestricted ∧
      sdIsValid (ofList (denyThenAllowBytes worldSid guestSid)) 0
        (denyThenAllowBytes worldSid guestSid).length = true ∧
      (tokenAccessCheck guestRestricted (ofList (denyThenAllowBytes worldSid guestSid)) 0 1 none
        noMapping .success).grantedAccess = 1 ∧
      (tokenAccessCheck guestToken (ofList (denyThenAllowBytes worldSid guestSid)) 0 1 none
        noMapping .success).grantedAccess = 0 := by
  decide +kernel

theorem restricted_access_guest : ¬∀ mem sd size, sdIsValid mem sd size = true →
      ∀ mapping desired privCount status bit,
        (tokenAccessCheck guestRestricted mem sd desired privCount mapping status).Grants bit →
        (tokenAccessCheck guestToken mem sd desired privCount mapping status).Grants bit := by
  intro hall
  have hcopy : tokenDuplicate guestToken false 2 [] [worldSid] = .ok guestRestricted := by
    decide +kernel
  have huser := (restricted_access hcopy).1.mp hall
    ⟨seGroupEnabled ||| seGroupEnabledByDefault, worldSid⟩ (by simp [guestToken]) (by decide)
    (by decide)
  exact absurd huser (by decide)

end WineForge.Security
