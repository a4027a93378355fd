import WineForge.Security.Restriction

/-!
# The order of the access list

For one right the first entry that mentions it and applies to the token decides. The check works on
masks: asked for several rights it stops at the first deny entry that mentions any of them, also one
that is granted already, and asked for the maximum it lets every deny entry count.
-/

namespace WineForge.Security

open List WineForge.Library
open WineForge.Library.ByteMemory

def mentions (mapping : GenericMap) (ace : Ace) (bit : ℕ) : Bool :=
  (mapAccess ace.mask mapping).getLsbD bit

def denies (token : Token) (ace : Ace) : Bool :=
  !inheritOnly ace && ace.type == accessDeniedAceType && tokenSidPresent token ace.sid true

def allows (token : Token) (ace : Ace) : Bool :=
  !inheritOnly ace && ace.type == accessAllowedAceType && tokenSidPresent token ace.sid false

def firstMatch (token : Token) (mapping : GenericMap) (bit : ℕ) (aces : List Ace) : Option Ace :=
  aces.find? fun ace => (denies token ace || allows token ace) && mentions mapping ace bit

def ownerRight (token : Token) (owner : Sid) (bit : ℕ) : Bool :=
  tokenSidPresent token owner false && (standardRightsRequired ||| synchronize).getLsbD bit

def Prescribed (token : Token) (owner : Sid) (mapping : GenericMap) (aces : List Ace) (bit : ℕ) :
    Prop :=
  ownerRight token owner bit = true ∨
    ∃ ace, firstMatch token mapping bit aces = some ace ∧ ace.type = accessAllowedAceType

def untilDenied (token : Token) (desired : AccessMask) (mapping : GenericMap) (aces : List Ace) :
    List Ace :=
  aces.takeWhile fun ace => !(denies token ace && desired &&& mapAccess ace.mask mapping != 0)

variable {token : Token} {desired : AccessMask} {mapping : GenericMap} {ace : Ace}
  {aces : List Ace} {s : AccessState} {bit : ℕ}

lemma denies_not_allows (h : denies token ace = true) : allows token ace = false := by
  simp only [denies, Bool.and_eq_true, beq_iff_eq] at h
  simp [allows, h.1.2, accessDeniedAceType, accessAllowedAceType]

lemma and_ne_zero_iff {a b : AccessMask} :
    (a &&& b != 0) = true ↔ ∃ bit, a.getLsbD bit = true ∧ b.getLsbD bit = true := by
  rw [bne_iff_ne]
  constructor
  · intro hne
    by_contra hnone
    apply hne
    change _ = 0#32
    ext i hi
    simp only [← BitVec.getLsbD_eq_getElem, BitVec.getLsbD_and, BitVec.getLsbD_zero]
    by_contra hboth
    rw [Bool.not_eq_false, Bool.and_eq_true] at hboth
    exact hnone ⟨i, hboth⟩
  · rintro ⟨i, ha, hb⟩ hzero
    have hi := congrArg (fun x => x.getLsbD i) hzero
    simp only [BitVec.getLsbD_and, ha, hb, Bool.and_self] at hi
    simp at hi

lemma untilDenied_stop (hdeny : denies token ace = true)
    (hhit : (desired &&& mapAccess ace.mask mapping != 0) = true) :
    untilDenied token desired mapping (ace :: aces) = [] := by
  rw [untilDenied, takeWhile_cons, hdeny, hhit]
  rfl

lemma untilDenied_pass
    (h : denies token ace = false ∨ (desired &&& mapAccess ace.mask mapping != 0) = false) :
    untilDenied token desired mapping (ace :: aces) =
      ace :: untilDenied token desired mapping aces := by
  have hfalse : (denies token ace && desired &&& mapAccess ace.mask mapping != 0) = false := by
    rw [Bool.and_eq_false_iff]
    exact h
  rw [untilDenied, takeWhile_cons, hfalse]
  rfl

lemma aceStep_other (hinherit : inheritOnly ace = false) (hdeny : denies token ace = false)
    (hallow : allows token ace = false) : aceStep token desired mapping ace s = (s, false) := by
  simp only [denies, allows, hinherit, Bool.not_false, Bool.true_and] at hdeny hallow
  unfold aceStep
  by_cases htype : (ace.type == accessDeniedAceType) = true
  · rw [if_pos htype]
    rw [htype, Bool.true_and] at hdeny
    rw [hdeny]
    rfl
  rw [if_neg htype]
  by_cases htype' : (ace.type == accessAllowedAceType) = true
  · rw [if_pos htype']
    rw [htype', Bool.true_and] at hallow
    rw [hallow]
    rfl
  · rw [if_neg htype']

lemma aceStep_denies (hdeny : denies token ace = true) : aceStep token desired mapping ace s =
      if desired &&& maximumAllowed != 0 then
        ({ s with deniedAccess := s.deniedAccess ||| mapAccess ace.mask mapping }, false)
      else
        ({ s with deniedAccess :=
            s.deniedAccess ||| (mapAccess ace.mask mapping &&& ~~~s.currentAccess) },
          desired &&& mapAccess ace.mask mapping != 0) := by
  simp only [denies, Bool.and_eq_true] at hdeny
  obtain ⟨⟨_, htype⟩, hpresent⟩ := hdeny
  unfold aceStep
  rw [if_pos htype, if_pos hpresent]

lemma aceStep_allows (hallow : allows token ace = true) : aceStep token desired mapping ace s =
      if desired &&& maximumAllowed != 0 then
        ({ s with currentAccess := s.currentAccess ||| mapAccess ace.mask mapping }, false)
      else
        ({ s with currentAccess :=
            s.currentAccess ||| (mapAccess ace.mask mapping &&& ~~~s.deniedAccess) }, false) := by
  simp only [allows, Bool.and_eq_true] at hallow
  obtain ⟨⟨_, htype⟩, hpresent⟩ := hallow
  have htype' : ¬(ace.type == accessDeniedAceType) = true := by
    rw [beq_iff_eq.mp htype]
    decide
  unfold aceStep
  rw [if_neg htype', if_pos htype, if_pos hpresent]

lemma not_applies_of_inheritOnly (token : Token) (h : inheritOnly ace = true) :
    denies token ace = false ∧ allows token ace = false := by
  simp [denies, allows, h]

/-- Asked for rights, the walk collects those that are allowed before the first deny entry for one of
them. -/
lemma aceLoop_asked (hmax : desired &&& maximumAllowed = 0) (hne : desired ≠ 0)
    (hclear : ∀ i, desired.getLsbD i = true → s.deniedAccess.getLsbD i = false)
    (hbit : desired.getLsbD bit = true) :
    (aceLoop token desired mapping aces s).currentAccess.getLsbD bit = true ↔
      s.currentAccess.getLsbD bit = true ∨ ∃ ace ∈ untilDenied token desired mapping aces,
        allows token ace = true ∧ mentions mapping ace bit = true := by
  have hmax' : ¬(desired &&& maximumAllowed != 0) = true := by simp [hmax]
  have hne' : (desired == 0) = false := by simpa using hne
  induction aces generalizing s with
  | nil => simp [aceLoop, untilDenied]
  | cons ace aces ih =>
    -- an entry that does not apply is passed over
    have hskip : denies token ace = false → allows token ace = false →
        ((aceLoop token desired mapping aces s).currentAccess.getLsbD bit = true ↔
          s.currentAccess.getLsbD bit = true ∨
            ∃ x ∈ untilDenied token desired mapping (ace :: aces),
              allows token x = true ∧ mentions mapping x bit = true) := by
      intro hdeny hallow
      refine (ih hclear).trans ?_
      rw [untilDenied_pass (.inl hdeny)]
      simp [hallow]
    unfold aceLoop
    cases hinherit : inheritOnly ace with
    | true =>
      obtain ⟨hdeny, hallow⟩ := not_applies_of_inheritOnly token hinherit
      exact hskip hdeny hallow
    | false =>
      dsimp only
      rw [hne', Bool.or_false]
      cases hdeny : denies token ace with
      | true =>
        rw [aceStep_denies hdeny, if_neg hmax']
        by_cases hhit : (desired &&& mapAccess ace.mask mapping != 0) = true
        · rw [if_pos hhit, untilDenied_stop hdeny hhit]
          simp
        rw [if_neg hhit]
        refine (ih ?_).trans ?_
        · intro i hi
          have hmiss : (mapAccess ace.mask mapping).getLsbD i = false := by
            by_contra hin
            exact hhit (and_ne_zero_iff.mpr ⟨i, hi, by simpa using hin⟩)
          rw [BitVec.getLsbD_or, hclear i hi, BitVec.getLsbD_and, hmiss]
          rfl
        · rw [untilDenied_pass (.inr (by simpa using hhit))]
          simp [denies_not_allows hdeny]
      | false =>
        cases hallow : allows token ace with
        | true =>
          rw [aceStep_allows hallow, if_neg hmax', if_neg (by rintro ⟨⟩), untilDenied_pass (.inl hdeny)]
          refine (ih ?_).trans ?_
          · exact hclear
          have hlt : bit < 32 := BitVec.lt_of_getLsbD hbit
          have hnew : (mapAccess ace.mask mapping &&& ~~~s.deniedAccess).getLsbD bit =
              (mapAccess ace.mask mapping).getLsbD bit := by
            rw [BitVec.getLsbD_and, BitVec.getLsbD_not, hclear bit hbit]
            simp [hlt]
          rw [BitVec.getLsbD_or, hnew]
          simp [hallow, mentions, or_assoc]
        | false =>
          rw [aceStep_other hinherit hdeny hallow, if_neg (by rintro ⟨⟩)]
          exact hskip hdeny hallow

lemma aceLoop_maximum (hmax : desired &&& maximumAllowed ≠ 0) :
    ((aceLoop token desired mapping aces s).currentAccess.getLsbD bit = true ↔
      s.currentAccess.getLsbD bit = true ∨ ∃ ace ∈ aces,
        allows token ace = true ∧ mentions mapping ace bit = true) ∧
    ((aceLoop token desired mapping aces s).deniedAccess.getLsbD bit = true ↔
      s.deniedAccess.getLsbD bit = true ∨ ∃ ace ∈ aces,
        denies token ace = true ∧ mentions mapping ace bit = true) := by
  have hmax' : (desired &&& maximumAllowed != 0) = true := by simpa using hmax
  have hne' : (desired == 0) = false := by
    rw [beq_eq_false_iff_ne]
    rintro rfl
    exact hmax (by simp)
  induction aces generalizing s with
  | nil => simp [aceLoop]
  | cons ace aces ih =>
    unfold aceLoop
    cases hinherit : inheritOnly ace with
    | true =>
      obtain ⟨hdeny, hallow⟩ := not_applies_of_inheritOnly token hinherit
      refine ⟨ih.1.trans ?_, ih.2.trans ?_⟩
      · simp [hallow]
      · simp [hdeny]
    | false =>
      dsimp only
      rw [hne', Bool.or_false]
      cases hdeny : denies token ace with
      | true =>
        rw [aceStep_denies hdeny, if_pos hmax', if_neg (by rintro ⟨⟩)]
        refine ⟨ih.1.trans ?_, ih.2.trans ?_⟩
        · simp [denies_not_allows hdeny]
        · simp [hdeny, mentions, or_assoc]
      | false =>
        cases hallow : allows token ace with
        | true =>
          rw [aceStep_allows hallow, if_pos hmax', if_neg (by rintro ⟨⟩)]
          refine ⟨ih.1.trans ?_, ih.2.trans ?_⟩
          · simp [hallow, mentions, or_assoc]
          · simp [hdeny]
        | false =>
          rw [aceStep_other hinherit hdeny hallow, if_neg (by rintro ⟨⟩)]
          refine ⟨ih.1.trans ?_, ih.2.trans ?_⟩
          · simp [hallow]
          · simp [hdeny]

lemma firstMatch_cons (bit : ℕ) : firstMatch token mapping bit (ace :: aces) =
    if ((denies token ace || allows token ace) && mentions mapping ace bit) = true then some ace
    else firstMatch token mapping bit aces := by
  rw [firstMatch, find?_cons]
  cases (denies token ace || allows token ace) && mentions mapping ace bit <;> rfl

lemma type_of_allows (h : allows token ace = true) : ace.type = accessAllowedAceType := by
  simp only [allows, Bool.and_eq_true, beq_iff_eq] at h
  exact h.1.2

lemma allows_of_type (h : (denies token ace || allows token ace) = true)
    (htype : ace.type = accessAllowedAceType) : allows token ace = true := by
  rw [Bool.or_eq_true] at h
  obtain hdeny | hallow := h
  · simp only [denies, Bool.and_eq_true, beq_iff_eq] at hdeny
    rw [hdeny.1.2] at htype
    cases htype
  · exact hallow

lemma firstMatch_of_untilDenied (hbit : desired.getLsbD bit = true)
    (h : ∃ ace ∈ untilDenied token desired mapping aces,
      allows token ace = true ∧ mentions mapping ace bit = true) :
    ∃ ace, firstMatch token mapping bit aces = some ace ∧ ace.type = accessAllowedAceType := by
  induction aces with
  | nil =>
    obtain ⟨_, hmem, _⟩ := h
    cases hmem
  | cons ace aces ih =>
    rw [firstMatch_cons]
    by_cases hmatch : ((denies token ace || allows token ace) && mentions mapping ace bit) = true
    · rw [if_pos hmatch]
      rw [Bool.and_eq_true, Bool.or_eq_true] at hmatch
      obtain ⟨hdeny | hallow, hmention⟩ := hmatch
      · have hhit : (desired &&& mapAccess ace.mask mapping != 0) = true :=
          and_ne_zero_iff.mpr ⟨bit, hbit, hmention⟩
        rw [untilDenied_stop hdeny hhit] at h
        obtain ⟨_, hmem, _⟩ := h
        cases hmem
      · exact ⟨ace, rfl, type_of_allows hallow⟩
    rw [if_neg hmatch]
    apply ih
    obtain ⟨x, hx, hallow, hmention⟩ := h
    have hmem : x ∈ ace :: untilDenied token desired mapping aces := by
      by_cases hstop : denies token ace = true ∧
          (desired &&& mapAccess ace.mask mapping != 0) = true
      · rw [untilDenied_stop hstop.1 hstop.2] at hx
        cases hx
      · rw [not_and_or, Bool.not_eq_true, Bool.not_eq_true] at hstop
        rw [untilDenied_pass hstop] at hx
        exact hx
    obtain rfl | hrest := mem_cons.mp hmem
    · rw [hallow, hmention] at hmatch
      simp at hmatch
    · exact ⟨x, hrest, hallow, hmention⟩

lemma untilDenied_of_firstMatch {i : ℕ} (hi : i < 32)
    (h : firstMatch token mapping i aces = some ace) (htype : ace.type = accessAllowedAceType) :
    ∃ ace ∈ untilDenied token (BitVec.twoPow 32 i) mapping aces,
      allows token ace = true ∧ mentions mapping ace i = true := by
  induction aces with
  | nil => cases h
  | cons x aces ih =>
    rw [firstMatch_cons] at h
    split at h
    · rename_i hmatch
      cases h
      rw [Bool.and_eq_true] at hmatch
      have hallow := allows_of_type hmatch.1 htype
      have hdeny : denies token ace = false := by
        by_contra hdeny
        rw [Bool.not_eq_false] at hdeny
        rw [denies_not_allows hdeny] at hallow
        cases hallow
      rw [untilDenied_pass (.inl hdeny)]
      exact ⟨ace, mem_cons_self, hallow, hmatch.2⟩
    · rename_i hmatch
      obtain ⟨y, hy, hfound⟩ := ih h
      have hpass : denies token x = false ∨
          (BitVec.twoPow 32 i &&& mapAccess x.mask mapping != 0) = false := by
        rw [← Bool.not_eq_true, ← Bool.not_eq_true, ← not_and_or]
        rintro ⟨hdeny, hhit⟩
        obtain ⟨j, hj, hmention⟩ := and_ne_zero_iff.mp hhit
        have hij : i = j := by simpa [hi] using hj
        subst hij
        apply hmatch
        rw [hdeny, mentions, hmention]
        rfl
      rw [untilDenied_pass hpass]
      exact ⟨y, mem_cons_of_mem x hy, hfound⟩

lemma firstMatch_of_not_denied (hnone : ∀ ace ∈ aces, denies token ace = true →
      ¬mentions mapping ace bit = true)
    (h : ∃ ace ∈ aces, allows token ace = true ∧ mentions mapping ace bit = true) :
    ∃ ace, firstMatch token mapping bit aces = some ace ∧ ace.type = accessAllowedAceType := by
  cases hfind : firstMatch token mapping bit aces with
  | none =>
    obtain ⟨x, hx, hallow, hmention⟩ := h
    have hnot := find?_eq_none.mp hfind x hx
    rw [hallow, hmention] at hnot
    simp at hnot
  | some x =>
    refine ⟨x, rfl, ?_⟩
    have hmem := mem_of_find?_eq_some hfind
    have hmatch := find?_some (p := fun ace => (denies token ace || allows token ace) &&
      mentions mapping ace bit) hfind
    rw [Bool.and_eq_true, Bool.or_eq_true] at hmatch
    obtain ⟨hdeny | hallow, hmention⟩ := hmatch
    · exact absurd hmention (hnone x hmem hdeny)
    · exact type_of_allows hallow

def AccessCheck.Granted (result : AccessCheck) : Prop :=
  result.ret = .success ∧ result.status = .success

instance (result : AccessCheck) : Decidable result.Granted := inferInstanceAs (Decidable (_ ∧ _))

lemma and_eq_self_iff {a b : AccessMask} :
    a &&& b = b ↔ ∀ bit, b.getLsbD bit = true → a.getLsbD bit = true := by
  constructor
  · intro heq i hi
    rw [← heq, BitVec.getLsbD_and, Bool.and_eq_true] at hi
    exact hi.1
  · intro hall
    ext i hi
    simp only [← BitVec.getLsbD_eq_getElem, BitVec.getLsbD_and]
    cases hb : b.getLsbD i with
    | false => simp
    | true => rw [hall i hb, Bool.and_true]

lemma getLsbD_ownerAccess {owner : Sid} (bit : ℕ) :
    (ownerAccess token owner 0).getLsbD bit = ownerRight token owner bit := by
  unfold ownerAccess ownerRight
  cases tokenSidPresent token owner false <;> simp

section Decision

variable {owner : Sid} {privCount : Option ℕ} {privs : Option LuidAttr}

/-- Asked for rights, access is granted where each of them is one of the owner's or is allowed before
the first deny entry for any of them. -/
lemma checkDacl_asked (hmax : desired &&& maximumAllowed = 0) (hne : desired ≠ 0) :
    (checkDacl token owner aces desired mapping 0 privCount privs).Granted ↔
      ∀ bit, desired.getLsbD bit = true → ownerRight token owner bit = true ∨
        ∃ ace ∈ untilDenied token desired mapping aces,
          allows token ace = true ∧ mentions mapping ace bit = true := by
  have hmax' : ¬(desired &&& maximumAllowed != 0) = true := by simp [hmax]
  unfold checkDacl
  by_cases hearly : tokenSidPresent token owner false = true ∧ desired = ownerAccess token owner 0
  · have hdesired := hearly.2
    unfold ownerAccess at hdesired
    simp only [hearly.1, Bool.true_and, if_true] at hdesired ⊢
    rw [if_pos (by simpa using hdesired)]
    apply iff_of_true ⟨rfl, rfl⟩
    intro i hi
    left
    rw [← getLsbD_ownerAccess, ← hearly.2, hi]
  rw [if_neg (by rw [Bool.and_eq_true, beq_iff_eq]; exact hearly)]
  have hloop : ∀ bit, desired.getLsbD bit = true →
      ((aceLoop token desired mapping aces ⟨ownerAccess token owner 0, 0⟩).currentAccess.getLsbD
        bit = true ↔ ownerRight token owner bit = true ∨
          ∃ ace ∈ untilDenied token desired mapping aces,
            allows token ace = true ∧ mentions mapping ace bit = true) := by
    intro i hi
    rw [aceLoop_asked hmax hne (fun _ _ => by simp) hi, getLsbD_ownerAccess]
  change (_ ∧ (if walkResult token aces desired mapping (ownerAccess token owner 0) != 0
    then Status.success else .accessDenied) = .success) ↔ _
  generalize hcurrent : (aceLoop token desired mapping aces
    ⟨ownerAccess token owner 0, 0⟩).currentAccess = current at hloop
  have hresult : walkResult token aces desired mapping (ownerAccess token owner 0) =
      if (current &&& desired == desired) = true then current &&& desired else 0 := by
    rw [walkResult, finalAccess, if_neg hmax', hcurrent]
  rw [hresult]
  by_cases hall : ∀ bit, desired.getLsbD bit = true → current.getLsbD bit = true
  · have hcover := and_eq_self_iff.mpr hall
    have htest : (current &&& desired == desired) = true := beq_iff_eq.mpr hcover
    have hnonzero : (desired != 0) = true := bne_iff_ne.mpr hne
    rw [if_pos htest, hcover, if_pos hnonzero]
    apply iff_of_true ⟨rfl, rfl⟩
    intro i hi
    exact (hloop i hi).mp (hall i hi)
  have hcover : ¬(current &&& desired == desired) = true := by
    rw [beq_iff_eq, and_eq_self_iff]
    exact hall
  have hzero : ¬((0 : AccessMask) != 0) = true := by decide
  rw [if_neg hcover, if_neg hzero]
  apply iff_of_false fun h => absurd h.2 (by rintro ⟨⟩)
  intro hright
  exact hall fun i hi => (hloop i hi).mpr (hright i hi)

lemma checkDacl_zero : ¬(checkDacl token owner aces 0 mapping 0 privCount privs).Granted := by
  unfold checkDacl
  have hearly : ¬(tokenSidPresent token owner false && (0 : AccessMask) ==
      if tokenSidPresent token owner false then 0 ||| (standardRightsRequired ||| synchronize)
      else 0) = true := by
    cases tokenSidPresent token owner false <;> decide
  rw [if_neg hearly]
  rintro ⟨_, hstatus⟩
  simp [finalAccess] at hstatus

lemma checkDacl_maximum (hmax : desired &&& maximumAllowed ≠ 0) (bit : ℕ) :
    (checkDacl token owner aces desired mapping 0 privCount privs).grantedAccess.getLsbD bit
        = true ↔
      (ownerRight token owner bit = true ∨
        ∃ ace ∈ aces, allows token ace = true ∧ mentions mapping ace bit = true) ∧
      ∀ ace ∈ aces, denies token ace = true → ¬mentions mapping ace bit = true := by
  have hmax' : (desired &&& maximumAllowed != 0) = true := by simpa using hmax
  have hearly : ¬(tokenSidPresent token owner false && desired ==
      if tokenSidPresent token owner false then 0 ||| (standardRightsRequired ||| synchronize)
      else 0) = true := by
    rw [Bool.and_eq_true, beq_iff_eq]
    rintro ⟨howner, hdesired⟩
    rw [if_pos howner] at hdesired
    rw [hdesired] at hmax
    exact hmax (by decide)
  unfold checkDacl
  rw [if_neg hearly]
  change (walkResult token aces desired mapping (ownerAccess token owner 0)).getLsbD bit = true ↔ _
  rw [walkResult, finalAccess, if_pos hmax', BitVec.getLsbD_and, Bool.and_eq_true,
    (aceLoop_maximum hmax).1, getLsbD_ownerAccess]
  refine and_congr_right fun hcurrent => ?_
  have hlt : bit < 32 := by
    obtain howner | ⟨x, _, _, hmention⟩ := hcurrent
    · rw [← getLsbD_ownerAccess] at howner
      exact BitVec.lt_of_getLsbD howner
    · exact BitVec.lt_of_getLsbD hmention
  rw [BitVec.getLsbD_not, Bool.and_eq_true, Bool.not_eq_true', ← Bool.not_eq_true,
    (aceLoop_maximum hmax).2]
  simp [hlt]

end Decision

end WineForge.Security
