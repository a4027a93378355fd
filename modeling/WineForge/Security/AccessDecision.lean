import WineForge.Security.FirstMatch

/-!
# What the access check decides

The decision follows the order of the list unless a deny entry comes for a right that is granted
already.
-/

namespace WineForge.Security

open BitVec WineForge.Library
open WineForge.Library.ByteMemory

def Askable (bit : ℕ) : Prop :=
  bit < 32 ∧
    BitVec.twoPow 32 bit &&& (genericRights ||| accessSystemSecurity ||| maximumAllowed) = 0

instance (bit : ℕ) : Decidable (Askable bit) := inferInstanceAs (Decidable (_ ∧ _))

section Decision

variable (token : Token) (mem : ByteMemory) (sd : ℕ) (owner : Sid) (desired : AccessMask)
  (privCount : Option ℕ) (mapping : GenericMap) (status : Status)

/-- Access is granted if every desired right is, and the maximum is what is granted alone. -/
structure DecidesInOrder : Prop where
  asked : desired &&& maximumAllowed = 0 →
    ((tokenAccessCheck token mem sd desired privCount mapping status).Granted ↔
      ∀ bit, desired.getLsbD bit = true → Prescribed token owner mapping (sdAces mem sd) bit)
  maximum : desired &&& maximumAllowed ≠ 0 → ∀ bit, Askable bit →
    ((tokenAccessCheck token mem sd desired privCount mapping status).grantedAccess.getLsbD bit
        = true ↔
      (tokenAccessCheck token mem sd (BitVec.twoPow 32 bit) privCount mapping status).Granted)

/-- No deny entry comes in the way of a right that the order of the list grants: something is asked
for, and if all of it is prescribed, each right is allowed before a deny entry for any of them; asked
for the maximum, no entry denies a right that is prescribed. -/
structure OrderKept : Prop where
  asked : desired &&& maximumAllowed = 0 → desired ≠ 0 ∧
    ((∀ bit, desired.getLsbD bit = true → Prescribed token owner mapping (sdAces mem sd) bit) →
      ∀ bit, desired.getLsbD bit = true → ownerRight token owner bit = true ∨
        ∃ ace ∈ untilDenied token desired mapping (sdAces mem sd),
          allows token ace = true ∧ mentions mapping ace bit = true)
  maximum : desired &&& maximumAllowed ≠ 0 → ∀ bit, Askable bit →
    Prescribed token owner mapping (sdAces mem sd) bit →
      ∀ ace ∈ sdAces mem sd, denies token ace = true → ¬mentions mapping ace bit = true

end Decision

variable {token : Token} {mem : ByteMemory} {sd a dacl : ℕ} {desired : AccessMask}
  {privCount : Option ℕ} {mapping : GenericMap} {status : Status}

lemma tokenAccessCheck_eq (howner : sdGetOwner mem sd = some a) (hgroup : sdGetGroup mem sd ≠ none)
    (hdacl : sdGetDacl mem sd = (true, some dacl)) (hgeneric : desired &&& genericRights = 0)
    (hsystem : desired &&& accessSystemSecurity = 0) :
    tokenAccessCheck token mem sd desired privCount mapping status =
      checkDacl token (sidAt mem a) (sdAces mem sd) desired mapping 0
        (privCount.map fun _ => 0) none := by
  obtain ⟨group, hgroup⟩ := Option.ne_none_iff_exists'.mp hgroup
  simp [tokenAccessCheck, sdAces, hgeneric, howner, hgroup, hdacl, hsystem]

lemma and_eq_zero_of_or {x y z : AccessMask} (h : x &&& (y ||| z) = 0) :
    x &&& y = 0 ∧ x &&& z = 0 := by
  have hbit : ∀ i, (x &&& (y ||| z)).getLsbD i = false := by
    intro i
    rw [h]
    simp
  simp only [getLsbD_and, getLsbD_or, Bool.and_or_distrib_left,
    Bool.or_eq_false_iff] at hbit
  constructor
  · ext i hi
    simpa [← getLsbD_eq_getElem] using (hbit i).1
  · ext i hi
    simpa [← getLsbD_eq_getElem] using (hbit i).2

lemma granted_alone (howner : sdGetOwner mem sd = some a) (hgroup : sdGetGroup mem sd ≠ none)
    (hdacl : sdGetDacl mem sd = (true, some dacl)) {bit : ℕ} (hbit : Askable bit) :
    (tokenAccessCheck token mem sd (BitVec.twoPow 32 bit) privCount mapping status).Granted ↔
      Prescribed token (sidAt mem a) mapping (sdAces mem sd) bit := by
  obtain ⟨hlt, hspecial⟩ := hbit
  obtain ⟨hspecial, hmax⟩ := and_eq_zero_of_or hspecial
  obtain ⟨hgeneric, hsystem⟩ := and_eq_zero_of_or hspecial
  have hself : (BitVec.twoPow 32 bit).getLsbD bit = true := by simp [hlt]
  have hne : BitVec.twoPow 32 bit ≠ 0 := by
    intro hzero
    rw [hzero] at hself
    simp at hself
  rw [tokenAccessCheck_eq howner hgroup hdacl hgeneric hsystem, checkDacl_asked hmax hne]
  constructor
  · intro hall
    exact (hall bit hself).imp_right (firstMatch_of_untilDenied hself)
  · intro hprescribed i hi
    have hi' : bit = i := by simpa [hlt] using hi
    subst hi'
    refine hprescribed.imp_right ?_
    rintro ⟨ace, hfirst, htype⟩
    exact untilDenied_of_firstMatch hlt hfirst htype

/-- The check decides as the order of the list prescribes if and only if no deny entry comes in the
way of a right that is granted already. -/
theorem token_access_check_order (howner : sdGetOwner mem sd = some a)
    (hgroup : sdGetGroup mem sd ≠ none) (hdacl : sdGetDacl mem sd = (true, some dacl))
    (hgeneric : desired &&& genericRights = 0) (hsystem : desired &&& accessSystemSecurity = 0) :
    DecidesInOrder token mem sd (sidAt mem a) desired privCount mapping status ↔
      OrderKept token mem sd (sidAt mem a) desired mapping := by
  have hcheck : tokenAccessCheck token mem sd desired privCount mapping status =
      checkDacl token (sidAt mem a) (sdAces mem sd) desired mapping 0
        (privCount.map fun _ => 0) none :=
    tokenAccessCheck_eq howner hgroup hdacl hgeneric hsystem
  constructor
  · intro h
    constructor
    · intro hmax
      have hasked := h.asked hmax
      rw [hcheck] at hasked
      have hne : desired ≠ 0 := by
        rintro rfl
        exact checkDacl_zero (hasked.mpr fun bit hbit => by simp at hbit)
      rw [checkDacl_asked hmax hne] at hasked
      exact ⟨hne, hasked.mpr⟩
    · intro hmax bit hbit hprescribed
      have hgranted := (h.maximum hmax bit hbit).mpr
        ((granted_alone howner hgroup hdacl hbit).mpr hprescribed)
      rw [hcheck, checkDacl_maximum hmax] at hgranted
      exact hgranted.2
  · intro h
    constructor
    · intro hmax
      obtain ⟨hne, hkept⟩ := h.asked hmax
      rw [hcheck, checkDacl_asked hmax hne]
      refine ⟨fun hall bit hbit => ?_, hkept⟩
      exact (hall bit hbit).imp_right (firstMatch_of_untilDenied hbit)
    · intro hmax bit hbit
      rw [granted_alone howner hgroup hdacl hbit, hcheck, checkDacl_maximum hmax]
      constructor
      · rintro ⟨hright, hnone⟩
        exact hright.imp_right (firstMatch_of_not_denied hnone)
      · intro hprescribed
        refine ⟨hprescribed.imp_right ?_, h.maximum hmax bit hbit hprescribed⟩
        rintro ⟨ace, hfirst, htype⟩
        have hmatch := List.find?_some (p := fun ace => (denies token ace || allows token ace) &&
          mentions mapping ace bit) hfirst
        rw [Bool.and_eq_true] at hmatch
        exact ⟨ace, List.mem_of_find?_eq_some hfirst, allows_of_type hmatch.1 htype, hmatch.2⟩

/-! ### A right that is allowed, denied and followed by another one -/

/-- The first right is allowed and then denied, the second one is allowed at the end. -/
def allowDenyAllow : List Ace :=
  [entry guestSid accessAllowedAceType 0 1, entry guestSid accessDeniedAceType 0 1,
    entry guestSid accessAllowedAceType 0 2]

def allowDenyAllowBytes : List UInt8 := sdBytes worldSid worldSid (daclBytes allowDenyAllow)

theorem token_access_check_order_guest :
    DecidesInOrder guestToken (ofList allowDenyAllowBytes) 0 (sidAt (ofList allowDenyAllowBytes) 20)
        2 none noMapping .success ↔
      OrderKept guestToken (ofList allowDenyAllowBytes) 0
        (sidAt (ofList allowDenyAllowBytes) 20) 2 noMapping := by
  have howner : sdGetOwner (ofList allowDenyAllowBytes) 0 = some 20 := by decide +kernel
  have hdacl : sdGetDacl (ofList allowDenyAllowBytes) 0 = (true, some 44) := by decide +kernel
  exact token_access_check_order howner (by decide +kernel) hdacl (by decide) (by decide)

/-- Both rights are granted alone, but not together. -/
theorem granted_right_denied_later :
    sdIsValid (ofList allowDenyAllowBytes) 0 allowDenyAllowBytes.length = true ∧
      ¬DecidesInOrder guestToken (ofList allowDenyAllowBytes) 0
        (sidAt (ofList allowDenyAllowBytes) 20) 3 none noMapping .success := by
  refine ⟨by decide +kernel, fun h => ?_⟩
  have hdenied : ¬(tokenAccessCheck guestToken (ofList allowDenyAllowBytes) 0 3 none noMapping
      .success).Granted := by decide +kernel
  have hfirst : firstMatch guestToken noMapping 0 (sdAces (ofList allowDenyAllowBytes) 0) =
      some (entry guestSid accessAllowedAceType 0 1) := by decide +kernel
  have hsecond : firstMatch guestToken noMapping 1 (sdAces (ofList allowDenyAllowBytes) 0) =
      some (entry guestSid accessAllowedAceType 0 2) := by decide +kernel
  apply hdenied
  apply (h.asked (by decide)).mpr
  intro bit hbit
  have hbits : ∀ i < 32, (3 : AccessMask).getLsbD i = true → i = 0 ∨ i = 1 := by decide
  right
  obtain rfl | rfl := hbits bit (lt_of_getLsbD hbit) hbit
  · exact ⟨_, hfirst, rfl⟩
  · exact ⟨_, hsecond, rfl⟩

end WineForge.Security
