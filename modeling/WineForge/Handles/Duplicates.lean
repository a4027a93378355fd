import WineForge.Handles.FaithfulMap
import WineForge.Handles.Room

/-!
# The request that duplicates a handle

The request names two processes and a handle of the first. The second is left out when a global
handle is asked for, and the source is closed whatever came of the duplicate.
-/

namespace WineForge.Handles

open BitVec Function Option WineForge.Library

variable {Pid Obj : Type*}

structure DupRequest where
  srcProcess : Handle
  srcHandle : Handle
  dstProcess : Handle
  access : AccessMask
  attributes : BitVec 32
  options : BitVec 32

def processDupHandle : AccessMask := 0x0040

/-- `ops` holds of the objects of the type that is asked for. -/
def getHandleObj (env : Env Obj) (s : State Pid Obj) (process : Pid) (handle : Handle)
    (access : AccessMask) (ops : Obj → Bool) : Except Fault (Option Obj) :=
  match getMagicHandle env handle with
  | some obj => .ok (if ops obj then some obj else none)
  | none =>
    match getHandle s process handle with
    | .error fault => .error fault
    | .ok none => .ok none
    | .ok (some found) =>
      if !ops found.entry.ptr then .ok none
      else if found.entry.access &&& access ≠ access then .ok none
      else .ok (some found.entry.ptr)

/-- `processOf` is the process that an object is, if it is one. -/
def getProcessFromHandle (env : Env Obj) (processOf : Obj → Option Pid) (s : State Pid Obj)
    (current : Pid) (handle : Handle) (access : AccessMask) : Except Fault (Option Pid) :=
  match getHandleObj env s current handle access fun obj => (processOf obj).isSome with
  | .error fault => .error fault
  | .ok obj => .ok (obj.bind processOf)

variable [DecidableEq Pid]

def duplicateFor (env : Env Obj) (s : State Pid Obj) (src : Pid) (dst : Option Pid)
    (req : DupRequest) : Except Fault (State Pid Obj × Handle) :=
  if req.options &&& duplicateMakeGlobal ≠ 0 ∨ dst.isSome then
    duplicateHandle env s src req.srcHandle dst req.access req.attributes req.options
  else .ok (s, 0)

def closeSource (env : Env Obj) (src : Pid) (dst : Option Pid) (req : DupRequest) :
    State Pid Obj × Handle → Except Fault (State Pid Obj × Handle)
  | (s, handle) =>
    if req.options &&& duplicateCloseSource ≠ 0 ∧ (some src ≠ dst ∨ req.srcHandle ≠ handle) then
      match closeHandle env s src req.srcHandle with
      | .error fault => .error fault
      | .ok (s, _) => .ok (s, handle)
    else .ok (s, handle)

/-- The handler, with the handle of its reply. `shrinkOk` is about the `realloc` of the close. -/
def dupHandle (env : Env Obj) (shrinkOk : Bool) (processOf : Obj → Option Pid)
    (s : State Pid Obj) (current : Pid) (req : DupRequest) :
    Except Fault (State Pid Obj × Handle) :=
  match getProcessFromHandle env processOf s current req.srcProcess processDupHandle with
  | .error fault => .error fault
  | .ok none => .ok (s, 0)
  | .ok (some src) =>
    let dst :=
      if req.options &&& duplicateMakeGlobal ≠ 0 then .ok none
      else getProcessFromHandle env processOf s current req.dstProcess processDupHandle
    match dst with
    | .error fault => .error fault
    | .ok dst =>
      match duplicateFor env s src dst req with
      | .error fault => .error fault
      | .ok result => closeSource { env with reallocOk := shrinkOk } src dst req result

variable {env : Env Obj} {s s' : State Pid Obj} {src : Pid} {dst : Option Pid} {req : DupRequest}
  {obj : Obj} {found : Option (Found Pid Obj)}

def srcRights (env : Env Obj) (obj : Obj) (found : Option (Found Pid Obj)) : AccessMask :=
  sourceAccess env obj found &&& ~~~reservedAll

def wantedRights (env : Env Obj) (obj : Obj) (found : Option (Found Pid Obj)) (req : DupRequest) :
    AccessMask :=
  duplicateWanted env obj (srcRights env obj found) req.access req.options

def AsksMore (env : Env Obj) (obj : Obj) (found : Option (Found Pid Obj)) (req : DupRequest) :
    Prop :=
  wantedRights env obj found req &&& ~~~srcRights env obj found ≠ 0

/-- The rights of the source, some of them, or the ones that the checks of the object grant. -/
def Bounded (env : Env Obj) (obj : Obj) (found : Option (Found Pid Obj)) (dst : Option Pid)
    (req : DupRequest) (access : AccessMask) : Prop :=
  access &&& ~~~reservedAll &&& ~~~srcRights env obj found = 0 ∨
    ∃ granted, duplicateCheck env obj dst (wantedRights env obj found req) = .ok (some granted) ∧
      SameRights access (env.mapObjAccess obj granted)

def Closed (s s' : State Pid Obj) (process : Pid) (handle : Handle) : Prop :=
  ∃ slot, slotOf process handle = some slot ∧ (s.lookup slot).isSome ∧ s'.lookup slot = none

/-- A source handle that becomes the new handle is not closed. -/
structure WithinBounds (env : Env Obj) (s s' : State Pid Obj) (src : Pid) (dst : Option Pid)
    (req : DupRequest) (handle : Handle) : Prop where
  designates : handle ≠ 0 →
    ∃ obj found, Source env s src req.srcHandle obj found ∧
      ∀ process, req.options &&& duplicateMakeGlobal ≠ 0 ∨ dst = some process →
        ∃ new, getHandle s' process handle = .ok (some new) ∧ new.entry.ptr = obj ∧
          Bounded env obj found dst req new.entry.access
  failed : handle = 0 → ∀ slot, s.lookup slot = none → s'.lookup slot = none
  closed : Closed s s' src req.srcHandle ↔
    req.options &&& duplicateCloseSource ≠ 0 ∧ Closes s env src req.srcHandle ∧
      ¬(dst = some src ∧ handle = req.srcHandle)

def destination (env : Env Obj) (processOf : Obj → Option Pid) (s : State Pid Obj) (current : Pid)
    (req : DupRequest) : Option Pid :=
  if req.options &&& duplicateMakeGlobal ≠ 0 then none
  else
    match getProcessFromHandle env processOf s current req.dstProcess processDupHandle with
    | .error _ => none
    | .ok dst => dst

def Safe (env : Env Obj) (shrinkOk : Bool) (processOf : Obj → Option Pid) (s : State Pid Obj)
    (current : Pid) (req : DupRequest) : Prop :=
  match getProcessFromHandle env processOf s current req.srcProcess processDupHandle with
  | .error _ => False
  | .ok none => dupHandle env shrinkOk processOf s current req = .ok (s, 0)
  | .ok (some src) =>
    ∃ s' handle, dupHandle env shrinkOk processOf s current req = .ok (s', handle) ∧
      WithinBounds env s s' src (destination env processOf s current req) req handle

def InPlace (env : Env Obj) (s : State Pid Obj) (src : Pid) (dst : Option Pid)
    (req : DupRequest) : Prop :=
  req.options &&& duplicateMakeGlobal = 0 ∧ req.options &&& duplicateCloseSource ≠ 0 ∧
    dst = some src ∧ ∃ obj found, Source env s src req.srcHandle obj (some found) ∧
      ¬AsksMore env obj (some found) req ∧ found.entry.access &&& reservedCloseProtect = 0

def NeedsNoDestination (env : Env Obj) (s : State Pid Obj) (src : Pid) (req : DupRequest) : Prop :=
  ∀ obj found, Source env s src req.srcHandle obj found →
    (AsksMore env obj found req → env.hasCurrentToken = true ∧
      env.checkObjectAccess .current obj (wantedRights env obj found req) = none) ∧
    (¬AsksMore env obj found req →
      req.options &&& duplicateSameAttributes = 0 ∨ ¬HasRoom env s none)

/-- What keeps a request from going wrong. -/
structure Avoids (env : Env Obj) (s : State Pid Obj) (src : Pid) (dst : Option Pid)
    (req : DupRequest) : Prop where
  global : req.options &&& duplicateMakeGlobal ≠ 0 → NeedsNoDestination env s src req
  /-- a check that grants `MAXIMUM_ALLOWED` itself is not taken for all rights -/
  maximum : req.options &&& duplicateMakeGlobal = 0 → ∀ obj found process granted,
    Source env s src req.srcHandle obj found → dst = some process → AsksMore env obj found req →
    duplicateCheck env obj dst (wantedRights env obj found req) = .ok (some granted) →
    HasRoom env s dst → granted &&& maximumAllowed ≠ 0 →
    Bounded env obj found dst req (env.mapObjAccess obj genericAll)
  /-- no global handle is closed -/
  close : req.options &&& duplicateCloseSource ≠ 0 → handleIsGlobal req.srcHandle = true →
    Closes s env src req.srcHandle → InPlace env s src dst req

omit [DecidableEq Pid] in
lemma source_unique {obj' : Obj} {found' : Option (Found Pid Obj)}
    (h : Source env s src req.srcHandle obj found)
    (h' : Source env s src req.srcHandle obj' found') : obj = obj' ∧ found = found' := by
  unfold Source at h h'
  rw [h] at h'
  injection h' with h'
  injection h' with h'
  injection h' with hobj hfound
  exact ⟨hobj, hfound⟩

omit [DecidableEq Pid] in
lemma not_inPlace_of_asksMore (dst : Option Pid)
    (hsource : Source env s src req.srcHandle obj found) (hmore : AsksMore env obj found req) :
    ¬InPlace env s src dst req := by
  rintro ⟨_, _, _, obj', found', hsource', hless, _⟩
  obtain ⟨rfl, rfl⟩ := source_unique hsource hsource'
  exact hless hmore

omit [DecidableEq Pid] in
lemma source_entry (hs : s.Valid) (h : Source env s src req.srcHandle obj found) :
    getHandle s src req.srcHandle = .ok found ∧
      ((∃ entry, found = some entry) ∨ getMagicHandle env req.srcHandle = some obj) := by
  obtain ⟨found', hget, hcase⟩ := @duplicateSource_found _ _ env s hs src req.srcHandle
  unfold Source at h
  obtain hnone | ⟨obj', hsome⟩ := hcase
  · rw [h] at hnone
    cases hnone
  rw [h] at hsome
  injection hsome with hsome
  injection hsome with hsome
  injection hsome with hobj hfound
  subst hobj hfound
  refine ⟨hget, ?_⟩
  unfold duplicateSource at h
  rw [hget] at h
  cases hmagic : getMagicHandle env req.srcHandle with
  | some magic =>
    rw [hmagic] at h
    injection h with h
    injection h with h
    injection h with hobj _
    exact .inr (congrArg some hobj)
  | none =>
    cases found with
    | some entry => exact .inl ⟨entry, rfl⟩
    | none =>
      rw [hmagic] at h
      cases h

variable {handle : Handle}

omit [DecidableEq Pid] in
lemma magic_slot (h : getMagicHandle env handle = some obj) {slot : Slot Pid}
    (hslot : slotOf src handle = some slot) : maxHandleEntries ≤ slot.2 := by
  unfold getMagicHandle at h
  split at h
  · next hmem =>
    have hglobal : handleIsGlobal handle = false ∧ 0x7fffffff ≤ handle.toNat := by
      simp only [List.mem_cons, List.not_mem_nil, or_false] at hmem
      obtain rfl | rfl | rfl | rfl | rfl | rfl := hmem <;> decide
    obtain ⟨hlocal, hlarge⟩ := hglobal
    unfold slotOf at hslot
    simp only [hlocal, Bool.false_eq_true, if_false] at hslot
    rw [if_neg (by omega)] at hslot
    injection hslot with hslot
    rw [← hslot]
    unfold maxHandleEntries
    omega
  · cases h

lemma Allocated.ne_source (hs : s.Valid) (hsource : Source env s src req.srcHandle obj found)
    {ref : Option Pid} {newObj : Obj} {access : AccessMask}
    (halloc : Allocated s.lookup s'.lookup ref handle newObj access) {slot : Slot Pid}
    (hslot : slotOf src req.srcHandle = some slot) : s'.lookup slot = s.lookup slot := by
  obtain ⟨i, stored, _, hi, hnone, _, hupdate⟩ := halloc
  rw [hupdate, update_of_ne]
  rintro rfl
  obtain ⟨hget, ⟨entry, rfl⟩ | hmagic⟩ := source_entry hs hsource
  · rw [getHandle_eq hs, hslot, bind_some, hnone] at hget
    cases hget
  · exact absurd (magic_slot hmagic hslot) (Nat.not_le.mpr hi)
/-- How the duplicate of a request ends. -/
inductive DupResult (env : Env Obj) (s : State Pid Obj) (src : Pid) (dst : Option Pid)
    (req : DupRequest) (s' : State Pid Obj) : Handle → Prop where
  | failed (hsame : s'.lookup = s.lookup) (hnot : ¬InPlace env s src dst req) :
    DupResult env s src dst req s' 0
  | new {handle : Handle} {obj : Obj} {found : Option (Found Pid Obj)} {granted : AccessMask}
    (hsource : Source env s src req.srcHandle obj found)
    (hgrants : DuplicateGrants env obj dst (srcRights env obj found)
      (wantedRights env obj found req) req.options granted)
    (halloc : Allocated s.lookup s'.lookup
      (if req.options &&& duplicateMakeGlobal = 0 then dst else none) handle obj granted)
    (hnot : ¬InPlace env s src dst req) : DupResult env s src dst req s' handle
  | reused {obj : Obj} {found : Option (Found Pid Obj)} {granted : AccessMask}
    (hsource : Source env s src req.srcHandle obj found)
    (hgrants : DuplicateGrants env obj dst (srcRights env obj found)
      (wantedRights env obj found req) req.options granted)
    (hreused : Reused s.lookup s'.lookup src req.srcHandle granted)
    (hin : InPlace env s src dst req) : DupResult env s src dst req s' req.srcHandle

lemma DupResult.flags {s'' : State Pid Obj} {process : Pid}
    (h : DupResult env s src (some process) req s' handle) (hne : handle ≠ 0)
    (hflags : FlagsOutcome s' process handle s'') :
    DupResult env s src (some process) req s'' handle := by
  cases h with
  | failed hsame hnot => exact absurd rfl hne
  | new hsource hgrants halloc hnot =>
    refine .new hsource hgrants (halloc.flags ?_ hflags) hnot
    split
    · exact .inr rfl
    · exact .inl rfl
  | reused hsource hgrants hreused hin =>
    have hprocess : process = src := by simpa using hin.2.2.1
    subst hprocess
    exact .reused hsource hgrants (hreused.flags hflags) hin

omit [DecidableEq Pid] in
lemma wantedRights_unreserved : Unreserved (wantedRights env obj found req) := by
  unfold wantedRights duplicateWanted
  split
  · exact unreserved_masked _
  · exact unreserved_masked _

omit [DecidableEq Pid] in
lemma duplicateCheck_some (process : Pid) (access : AccessMask) :
    ∃ granted, duplicateCheck env obj (some process) access = .ok granted := by
  unfold duplicateCheck
  split
  · exact ⟨none, rfl⟩
  · exact ⟨_, rfl⟩

/-- There is a new handle when the checks grant some rights and there is room for it. -/
def Obtains (env : Env Obj) (s : State Pid Obj) (dst : Option Pid) (obj : Obj)
    (found : Option (Found Pid Obj)) (req : DupRequest) : Prop :=
  (AsksMore env obj found req →
    ∃ granted, duplicateCheck env obj dst (wantedRights env obj found req) = .ok (some granted)) ∧
    HasRoom env s dst

lemma DupResult.of_alloc (hs : s.Valid) {process : Pid} {granted : AccessMask}
    {attr : BitVec 32} (hlocal : req.options &&& duplicateMakeGlobal = 0)
    (hsource : Source env s src req.srcHandle obj found)
    (hgrants : DuplicateGrants env obj (some process) (srcRights env obj found)
      (wantedRights env obj found req) req.options granted) (hmask : Unreserved granted)
    (hnot : ¬InPlace env s src (some process) req) :
    ∃ s' handle, allocHandleEntry env s process obj granted attr = .ok (s', handle) ∧ s'.Valid ∧
      DupResult env s src (some process) req s' handle ∧
      (handle ≠ 0 ↔ HasRoom env s (some process)) := by
  obtain ⟨s', handle, halloc, hout, hroom⟩ := allocHandleEntry_room hs hmask
  refine ⟨s', handle, halloc, hout.valid, ?_, hroom⟩
  obtain ⟨rfl, hsame⟩ | hnew := hout.outcome
  · exact .failed hsame hnot
  · apply DupResult.new hsource hgrants _ hnot
    rw [if_pos hlocal]
    exact hnew

lemma duplicateEntry_local (hs : s.Valid) (process : Pid)
    (hlocal : req.options &&& duplicateMakeGlobal = 0)
    (hsource : Source env s src req.srcHandle obj found) :
    ∃ s' handle, duplicateEntry env s src req.srcHandle (some process) obj found
        (srcRights env obj found) (wantedRights env obj found req) req.attributes req.options =
          .ok (s', handle) ∧ s'.Valid ∧ DupResult env s src (some process) req s' handle ∧
      (¬InPlace env s src (some process) req →
        (handle ≠ 0 ↔ Obtains env s (some process) obj found req)) := by
  unfold duplicateEntry
  by_cases hmore : AsksMore env obj found req
  · have hnot := not_inPlace_of_asksMore (some process) hsource hmore
    have hmore' : wantedRights env obj found req &&& ~~~srcRights env obj found ≠ 0 := hmore
    rw [if_pos hmore']
    obtain ⟨checked, hcheck⟩ :=
      @duplicateCheck_some _ _ env obj process (wantedRights env obj found req)
    rw [hcheck]
    cases checked with
    | none =>
      refine ⟨s, 0, rfl, hs, .failed rfl hnot, fun _ => iff_of_false (not_not.mpr rfl) ?_⟩
      intro hobtains
      obtain ⟨granted, hgranted⟩ := hobtains.1 hmore
      rw [hcheck] at hgranted
      cases hgranted
    | some granted =>
      have hgrants : DuplicateGrants env obj (some process) (srcRights env obj found)
          (wantedRights env obj found req) req.options (uncheckedAccess env obj granted) := by
        unfold DuplicateGrants
        rw [if_neg hmore]
        exact ⟨granted, hcheck, by rw [if_pos hlocal]⟩
      dsimp only
      rw [if_neg (not_not.mpr hlocal)]
      obtain ⟨s', handle, halloc, hvalid, hresult, hroom⟩ :=
        @DupResult.of_alloc _ _ _ _ _ _ _ _ _ hs _ _ req.attributes hlocal hsource hgrants
          (unreserved_masked _) hnot
      refine ⟨s', handle, halloc, hvalid, hresult, fun _ => ?_⟩
      rw [hroom]
      exact ⟨fun h => ⟨fun _ => ⟨granted, hcheck⟩, h⟩, And.right⟩
  · have hless := not_not.mp hmore
    have hgrants : DuplicateGrants env obj (some process) (srcRights env obj found)
        (wantedRights env obj found req) req.options (wantedRights env obj found req) := by
      unfold DuplicateGrants
      rw [if_pos hless]
    have hobtains : Obtains env s (some process) obj found req ↔ HasRoom env s (some process) :=
      ⟨And.right, fun h => ⟨fun h' => absurd h' hmore, h⟩⟩
    have hnew : ¬InPlace env s src (some process) req → ∃ s' handle,
        allocHandleEntry env s process obj (wantedRights env obj found req) req.attributes =
          .ok (s', handle) ∧ s'.Valid ∧ DupResult env s src (some process) req s' handle ∧
        (¬InPlace env s src (some process) req →
          (handle ≠ 0 ↔ Obtains env s (some process) obj found req)) := by
      intro hnot
      obtain ⟨s', handle, halloc, hvalid, hresult, hroom⟩ :=
        @DupResult.of_alloc _ _ _ _ _ _ _ _ _ hs _ _ req.attributes hlocal hsource hgrants
          wantedRights_unreserved hnot
      exact ⟨s', handle, halloc, hvalid, hresult, fun _ => hroom.trans hobtains.symm⟩
    rw [if_neg (not_not.mpr hless), if_neg (not_not.mpr hlocal)]
    cases found with
    | none =>
      apply hnew
      rintro ⟨_, _, _, obj', found', hsource', _⟩
      cases (source_unique hsource hsource').2
    | some entry =>
      dsimp only
      split
      · next hreuse =>
        obtain ⟨hclose, hdst, hprotect⟩ := hreuse
        have hin : InPlace env s src (some process) req :=
          ⟨hlocal, hclose, hdst.symm, obj, entry, hsource, hmore, hprotect⟩
        have hget := (source_entry hs hsource).1
        rw [getHandle_eq hs] at hget
        injection hget with hget
        obtain ⟨slot, hslot, htable, hindex, hentry⟩ := slotOf_bind_eq_some hget
        obtain ⟨s', hwrite, hvalid, hupdate⟩ := writeAccess_spec hs htable hindex hentry
          (if req.attributes &&& objInherit ≠ 0 then
            wantedRights env obj (some entry) req ||| reservedInherit
          else wantedRights env obj (some entry) req)
        rw [hwrite]
        refine ⟨s', req.srcHandle, rfl, hvalid, ?_, fun hnot => absurd hin hnot⟩
        exact .reused hsource hgrants ⟨slot, entry.entry, _, hslot, hentry,
          .inherit _ req.attributes, hupdate⟩ hin
      · next hreuse =>
        apply hnew
        rintro ⟨_, hclose, hdst, obj', found', hsource', _, hprotect⟩
        obtain ⟨_, heq⟩ := source_unique hsource hsource'
        injection heq with heq
        subst heq
        exact hreuse ⟨hclose, hdst.symm, hprotect⟩

lemma duplicateHandle_source (hsource : Source env s src req.srcHandle obj found) :
    duplicateHandle env s src req.srcHandle dst req.access req.attributes req.options =
      match duplicateEntry env s src req.srcHandle dst obj found (srcRights env obj found)
        (wantedRights env obj found req) req.attributes req.options with
      | .error fault => .error fault
      | .ok (s, res) =>
        if res ≠ 0 ∧ req.options &&& duplicateSameAttributes ≠ 0 then
          match dst with
          | none => .error .aborted
          | some dst =>
            match setHandleFlags env s dst res (-1)
              ((sourceAccess env obj found &&& reservedAll) >>> 26) with
            | .error fault => .error fault
            | .ok (s, _) => .ok (s, res)
        else .ok (s, res) := by
  unfold duplicateHandle
  rw [hsource]
  rfl

lemma duplicateHandle_sourceless (hs : s.Valid)
    (hnone : ∀ obj found, ¬Source env s src req.srcHandle obj found) :
    duplicateHandle env s src req.srcHandle dst req.access req.attributes req.options =
        .ok (s, 0) ∧ ¬Closes s env src req.srcHandle := by
  obtain ⟨found, hget, hmissing | ⟨obj, hsource⟩⟩ :=
    @duplicateSource_found _ _ env s hs src req.srcHandle
  · refine ⟨?_, ?_⟩
    · unfold duplicateHandle
      rw [hmissing]
    rintro ⟨entry, hentry, _⟩
    unfold duplicateSource at hmissing
    rw [hentry] at hmissing
    cases hmagic : getMagicHandle env req.srcHandle with
    | none | some obj =>
      rw [hmagic] at hmissing
      cases hmissing
  · exact absurd hsource (hnone obj found)

lemma duplicateHandle_local (hs : s.Valid) (process : Pid)
    (hlocal : req.options &&& duplicateMakeGlobal = 0)
    (hsource : Source env s src req.srcHandle obj found) :
    ∃ s' handle, duplicateHandle env s src req.srcHandle (some process) req.access req.attributes
        req.options = .ok (s', handle) ∧ s'.Valid ∧
      DupResult env s src (some process) req s' handle ∧
      (¬InPlace env s src (some process) req →
        (handle ≠ 0 ↔ Obtains env s (some process) obj found req)) := by
  obtain ⟨s', handle, hentry, hvalid, hresult, hnew⟩ :=
    duplicateEntry_local hs process hlocal hsource
  rw [duplicateHandle_source hsource, hentry]
  dsimp only
  split
  · next hflags =>
    obtain ⟨s'', old, hset, hout⟩ := setHandleFlags_spec hvalid env process handle (-1)
      ((sourceAccess env obj found &&& reservedAll) >>> 26)
    rw [hset]
    exact ⟨s'', handle, rfl, hout.valid, hresult.flags hflags.1 hout, hnew⟩
  · exact ⟨s', handle, rfl, hvalid, hresult, hnew⟩
omit [DecidableEq Pid] in
lemma duplicateCheck_none (access : AccessMask) :
    duplicateCheck env obj (none : Option Pid) access =
      if env.hasCurrentToken = true ∧ env.checkObjectAccess .current obj access = none then .ok none
      else .error .aborted := by
  unfold duplicateCheck
  cases htoken : env.hasCurrentToken with
  | false => simp
  | true => cases env.checkObjectAccess .current obj access <;> simp

omit [DecidableEq Pid] in
lemma duplicateCheck_none_ne {access granted : AccessMask} :
    duplicateCheck env obj (none : Option Pid) access ≠ .ok (some granted) := by
  rw [duplicateCheck_none]
  split
  · exact nofun
  · exact nofun

omit [DecidableEq Pid] in
lemma not_inPlace_global (hglobal : req.options &&& duplicateMakeGlobal ≠ 0) :
    ¬InPlace env s src dst req := fun h => hglobal h.1

lemma duplicateFor_global (hs : s.Valid) (hglobal : req.options &&& duplicateMakeGlobal ≠ 0) :
    (NeedsNoDestination env s src req ∧ ∃ s' handle,
        duplicateFor env s src none req = .ok (s', handle) ∧ s'.Valid ∧
          DupResult env s src none req s' handle) ∨
      (¬NeedsNoDestination env s src req ∧
        duplicateFor env s src none req = .error .aborted) := by
  have hnot : ¬InPlace env s src none req := not_inPlace_global hglobal
  unfold duplicateFor
  rw [if_pos (.inl hglobal)]
  by_cases hany : ∃ obj found, Source env s src req.srcHandle obj found
  swap
  · have hnone : ∀ obj found, ¬Source env s src req.srcHandle obj found := by
      intro obj found h
      exact hany ⟨obj, found, h⟩
    left
    rw [(duplicateHandle_sourceless hs hnone).1]
    exact ⟨fun obj found h => absurd h (hnone obj found), s, 0, rfl, hs, .failed rfl hnot⟩
  obtain ⟨obj, found, hsource⟩ := hany
  rw [duplicateHandle_source hsource]
  unfold duplicateEntry
  by_cases hmore : AsksMore env obj found req
  · have hmore' : wantedRights env obj found req &&& ~~~srcRights env obj found ≠ 0 := hmore
    rw [if_pos hmore', duplicateCheck_none]
    by_cases hrefused : env.hasCurrentToken = true ∧
        env.checkObjectAccess .current obj (wantedRights env obj found req) = none
    · left
      rw [if_pos hrefused]
      refine ⟨?_, s, 0, ?_, hs, .failed rfl hnot⟩
      · intro obj' found' hsource'
        obtain ⟨rfl, rfl⟩ := source_unique hsource hsource'
        exact ⟨fun _ => hrefused, fun hless => absurd hmore hless⟩
      · exact if_neg fun h => h.1 rfl
    · right
      rw [if_neg hrefused]
      exact ⟨fun h => hrefused ((h obj found hsource).1 hmore), rfl⟩
  · have hless := not_not.mp hmore
    rw [if_neg (not_not.mpr hless), if_pos hglobal]
    obtain ⟨s', handle, halloc, hout, hroom⟩ :=
      @allocGlobal_room _ _ _ env s obj (wantedRights env obj found req) hs
    have hgrants : DuplicateGrants env obj (none : Option Pid) (srcRights env obj found)
        (wantedRights env obj found req) req.options (wantedRights env obj found req) := by
      unfold DuplicateGrants
      rw [if_pos hless]
    rw [halloc]
    dsimp only
    by_cases hflags : handle ≠ 0 ∧ req.options &&& duplicateSameAttributes ≠ 0
    · right
      rw [if_pos hflags]
      refine ⟨?_, rfl⟩
      intro h
      obtain hzero | hfull := (h obj found hsource).2 hmore
      · exact hflags.2 hzero
      · exact hfull (hroom.mp hflags.1)
    left
    rw [if_neg hflags]
    refine ⟨?_, s', handle, rfl, hout.valid, ?_⟩
    · intro obj' found' hsource'
      obtain ⟨rfl, rfl⟩ := source_unique hsource hsource'
      refine ⟨fun h => absurd h hmore, fun _ => ?_⟩
      by_cases hzero : req.options &&& duplicateSameAttributes = 0
      · exact .inl hzero
      · exact .inr fun hfull => hflags ⟨hroom.mpr hfull, hzero⟩
    obtain ⟨rfl, hsame⟩ | hnew := hout.outcome
    · exact .failed hsame hnot
    · apply DupResult.new hsource hgrants _ hnot
      rw [if_neg hglobal]
      exact hnew

def Answered (env : Env Obj) (s : State Pid Obj) (src : Pid) (dst : Option Pid)
    (req : DupRequest) : Prop :=
  ∃ s' handle, duplicateFor env s src dst req = .ok (s', handle) ∧ s'.Valid ∧
    DupResult env s src dst req s' handle ∧
    (req.options &&& duplicateMakeGlobal ≠ 0 → NeedsNoDestination env s src req) ∧
    ∀ obj found process, req.options &&& duplicateMakeGlobal = 0 → dst = some process →
      Source env s src req.srcHandle obj found → ¬InPlace env s src dst req →
      (handle ≠ 0 ↔ Obtains env s dst obj found req)

lemma duplicateFor_spec (hs : s.Valid)
    (hdst : req.options &&& duplicateMakeGlobal ≠ 0 → dst = none) :
    (req.options &&& duplicateMakeGlobal ≠ 0 ∧ ¬NeedsNoDestination env s src req ∧
        duplicateFor env s src dst req = .error .aborted) ∨
      Answered env s src dst req := by
  by_cases hlocal : req.options &&& duplicateMakeGlobal = 0
  · right
    have hfailed : DupResult env s src dst req s 0 → duplicateFor env s src dst req = .ok (s, 0) →
        (∀ obj found process, dst = some process → ¬Source env s src req.srcHandle obj found) →
        Answered env s src dst req := by
      intro hresult hdup hnone
      refine ⟨s, 0, hdup, hs, hresult, fun h => absurd hlocal h, ?_⟩
      intro obj found process _ hprocess hsource
      exact absurd hsource (hnone obj found process hprocess)
    cases dst with
    | none =>
      apply hfailed
      · apply DupResult.failed rfl
        rintro ⟨_, _, hnone, _⟩
        cases hnone
      · apply if_neg
        rintro (hglobal | hsome)
        · exact hglobal hlocal
        · cases hsome
      · intro obj found process hnone
        cases hnone
    | some process =>
      have hdup : duplicateFor env s src (some process) req =
          duplicateHandle env s src req.srcHandle (some process) req.access req.attributes
            req.options := if_pos (.inr rfl)
      by_cases hany : ∃ obj found, Source env s src req.srcHandle obj found
      · obtain ⟨obj, found, hsource⟩ := hany
        obtain ⟨s', handle, hok, hvalid, hresult, hnew⟩ :=
          duplicateHandle_local hs process hlocal hsource
        refine ⟨s', handle, hdup.trans hok, hvalid, hresult, fun h => absurd hlocal h, ?_⟩
        intro obj' found' process' _ hprocess hsource' hnot
        obtain ⟨rfl, rfl⟩ := source_unique hsource hsource'
        exact hnew hnot
      have hnone : ∀ obj found, ¬Source env s src req.srcHandle obj found := by
        intro obj found h
        exact hany ⟨obj, found, h⟩
      apply hfailed
      · apply DupResult.failed rfl
        rintro ⟨_, _, _, obj, found, hsource, _⟩
        exact hnone obj (some found) hsource
      · exact hdup.trans (duplicateHandle_sourceless hs hnone).1
      · exact fun obj found _ _ => hnone obj found
  · obtain rfl := hdst hlocal
    obtain ⟨hneeds, s', handle, hok, hvalid, hresult⟩ | ⟨hneeds, habort⟩ :=
      @duplicateFor_global _ _ _ env s src req hs hlocal
    · right
      refine ⟨s', handle, hok, hvalid, hresult, fun _ => hneeds, ?_⟩
      intro obj found process hzero
      exact absurd hzero hlocal
    · exact .inl ⟨hlocal, hneeds, habort⟩

variable {handle : Handle}

omit [DecidableEq Pid] in
lemma slotOf_zero (process : Pid) : slotOf process 0 = none := by
  rfl

omit [DecidableEq Pid] in
lemma Closes.slot (hs : s.Valid) {srcHandle : Handle} (h : Closes s env src srcHandle) :
    ∃ slot entry, slotOf src srcHandle = some slot ∧ s.lookup slot = some entry := by
  obtain ⟨found, hget, _⟩ := h
  rw [getHandle_eq hs] at hget
  injection hget with hget
  obtain ⟨slot, hslot, _, _, hentry⟩ := slotOf_bind_eq_some hget
  exact ⟨slot, found.entry, hslot, hentry⟩

section

variable (h : DupResult env s src dst req s' handle)

include h

lemma DupResult.source_slot (hs : s.Valid) (hnot : ¬InPlace env s src dst req) {slot : Slot Pid}
    (hslot : slotOf src req.srcHandle = some slot) : s'.lookup slot = s.lookup slot := by
  cases h with
  | failed hsame _ => rw [hsame]
  | new hsource _ halloc _ => exact halloc.ne_source hs hsource hslot
  | reused _ _ _ hin => exact absurd hin hnot

lemma DupResult.closes_iff (hs : s.Valid) (hs' : s'.Valid) (hnot : ¬InPlace env s src dst req) :
    Closes s' env src req.srcHandle ↔ Closes s env src req.srcHandle := by
  have hget : getHandle s' src req.srcHandle = getHandle s src req.srcHandle := by
    rw [getHandle_eq hs, getHandle_eq hs']
    cases hslot : slotOf src req.srcHandle with
    | none => rfl
    | some slot => rw [bind_some, bind_some, h.source_slot hs hnot hslot]
  unfold Closes
  rw [hget]

lemma DupResult.not_same (hs : s.Valid)
    (hnot : ¬InPlace env s src dst req) (hcloses : Closes s env src req.srcHandle) :
    ¬(dst = some src ∧ handle = req.srcHandle) := by
  obtain ⟨slot, entry, hslot, hentry⟩ := hcloses.slot hs
  rintro ⟨rfl, hsame⟩
  cases h with
  | failed _ _ =>
    rw [← hsame, slotOf_zero] at hslot
    cases hslot
  | new hsource _ halloc _ =>
    have href : (if req.options &&& duplicateMakeGlobal = 0 then some src else none) = none ∨
        (if req.options &&& duplicateMakeGlobal = 0 then some src else none) = some src := by
      split
      · exact .inr rfl
      · exact .inl rfl
    generalize (if req.options &&& duplicateMakeGlobal = 0 then some src else none) = ref
      at halloc href
    obtain ⟨i, stored, hhandle, hi, hnone, _⟩ := halloc
    have hnew := @slotOf_handleOf Pid (ref, i) hi src href
    rw [← hsame, hhandle, hnew] at hslot
    injection hslot with hslot
    rw [← hslot, hnone] at hentry
    cases hentry
  | reused _ _ _ hin => exact hnot hin

end

def ClosesSource (env : Env Obj) (s : State Pid Obj) (src : Pid) (dst : Option Pid)
    (req : DupRequest) (handle : Handle) : Prop :=
  req.options &&& duplicateCloseSource ≠ 0 ∧ Closes s env src req.srcHandle ∧
    ¬(dst = some src ∧ handle = req.srcHandle)

lemma closeSource_spec (hs : s.Valid) :
    (closeSource env src dst req (s, handle) = .error .outOfBounds ∧
        ClosesSource env s src dst req handle ∧ handleIsGlobal req.srcHandle = true) ∨
      ∃ s', closeSource env src dst req (s, handle) = .ok (s', handle) ∧ s'.Valid ∧
        ((¬ClosesSource env s src dst req handle ∧ s'.lookup = s.lookup) ∨
          (ClosesSource env s src dst req handle ∧ handleIsGlobal req.srcHandle = false ∧
            ∃ slot, slotOf src req.srcHandle = some slot ∧ (s.lookup slot).isSome ∧
              s'.lookup = update s.lookup slot none)) := by
  have hguard : (some src ≠ dst ∨ req.srcHandle ≠ handle) ↔
      ¬(dst = some src ∧ handle = req.srcHandle) := by
    rw [not_and_or]
    exact or_congr ne_comm ne_comm
  unfold closeSource
  simp only [hguard]
  by_cases hasked : req.options &&& duplicateCloseSource ≠ 0 ∧
      ¬(dst = some src ∧ handle = req.srcHandle)
  · rw [if_pos hasked]
    by_cases hcloses : Closes s env src req.srcHandle
    · have hsource : ClosesSource env s src dst req handle := ⟨hasked.1, hcloses, hasked.2⟩
      cases hglobal : handleIsGlobal req.srcHandle with
      | true =>
        rw [closeHandle_global hs hglobal hcloses]
        exact .inl ⟨rfl, hsource, rfl⟩
      | false =>
        obtain ⟨s', slot, hclose, hvalid, hslot, hopen, hupdate⟩ :=
          closeHandle_closes hs hglobal hcloses
        rw [hclose]
        exact .inr ⟨s', rfl, hvalid, .inr ⟨hsource, rfl, slot, hslot, hopen, hupdate⟩⟩
    · obtain ⟨status, hclose, _⟩ := closeHandle_refused hs hcloses
      rw [hclose]
      exact .inr ⟨s, rfl, hs, .inl ⟨fun h => hcloses h.2.1, rfl⟩⟩
  · rw [if_neg hasked]
    exact .inr ⟨s, rfl, hs, .inl ⟨fun h => hasked ⟨h.1, h.2.2⟩, rfl⟩⟩

section Access

variable {access access' granted : AccessMask}

omit [DecidableEq Pid] in
lemma Bounded.of_sameRights (h : Bounded env obj found dst req access)
    (hsame : SameRights access' access) : Bounded env obj found dst req access' := by
  obtain hzero | ⟨granted, hcheck, hrights⟩ := h
  · left
    rw [hsame]
    exact hzero
  · exact .inr ⟨granted, hcheck, hsame.trans hrights⟩

omit [DecidableEq Pid] in
lemma sameRights_masked (access : AccessMask) : SameRights (access &&& ~~~reservedAll) access := by
  unfold SameRights
  rw [BitVec.and_assoc, BitVec.and_self]

omit [DecidableEq Pid] in
lemma DuplicateGrants.bounded
    (h : DuplicateGrants env obj dst (srcRights env obj found) (wantedRights env obj found req)
      req.options granted)
    (hlocal : req.options &&& duplicateMakeGlobal ≠ 0 → dst = none)
    (hmaximum : ∀ checked, AsksMore env obj found req →
      duplicateCheck env obj dst (wantedRights env obj found req) = .ok (some checked) →
      checked &&& maximumAllowed ≠ 0 →
      Bounded env obj found dst req (env.mapObjAccess obj genericAll)) :
    Bounded env obj found dst req granted := by
  unfold DuplicateGrants at h
  split at h
  · next hless =>
    left
    rw [h, BitVec.and_assoc, BitVec.and_comm (~~~reservedAll), ← BitVec.and_assoc, hless]
    exact zero_and
  next hmore =>
  obtain ⟨checked, hcheck, hgranted⟩ := h
  by_cases hglobal : req.options &&& duplicateMakeGlobal = 0
  · rw [if_pos hglobal] at hgranted
    subst hgranted
    unfold uncheckedAccess
    by_cases hmax : checked &&& maximumAllowed ≠ 0
    · rw [if_pos hmax]
      exact (hmaximum checked hmore hcheck hmax).of_sameRights (sameRights_masked _)
    · rw [if_neg hmax]
      exact .inr ⟨checked, hcheck, sameRights_masked _⟩
  · rw [hlocal hglobal] at hcheck
    exact absurd hcheck duplicateCheck_none_ne

end Access

omit [DecidableEq Pid] in
lemma source_ptr (hs : s.Valid) {entry : Found Pid Obj}
    (h : Source env s src req.srcHandle obj (some entry)) : entry.entry.ptr = obj := by
  have hget := (source_entry hs h).1
  have hslot := hget
  rw [getHandle_eq hs] at hslot
  injection hslot with hslot
  obtain ⟨slot, hslot, _, _, hentry⟩ := slotOf_bind_eq_some hslot
  obtain ⟨table, _, hvalid, hlt, _⟩ := lookup_cell hs hentry
  have hmax : table.entries.length ≤ maxHandleEntries := hvalid.count_max
  unfold Source duplicateSource at h
  rw [hget] at h
  cases hmagic : getMagicHandle env req.srcHandle with
  | some magic =>
    have hfar := magic_slot hmagic hslot
    omega
  | none =>
    rw [hmagic] at h
    injection h with h
    injection h with h
    injection h

def MaximumBounded (env : Env Obj) (obj : Obj) (found : Option (Found Pid Obj))
    (dst : Option Pid) (req : DupRequest) : Prop :=
  ∀ checked, AsksMore env obj found req →
    duplicateCheck env obj dst (wantedRights env obj found req) = .ok (some checked) →
    checked &&& maximumAllowed ≠ 0 →
    Bounded env obj found dst req (env.mapObjAccess obj genericAll)

section

variable (h : DupResult env s src dst req s' handle)

include h

lemma DupResult.new_slot (hs : s.Valid)
    (hlocal : req.options &&& duplicateMakeGlobal ≠ 0 → dst = none)
    (hmaximum : ∀ obj found, Source env s src req.srcHandle obj found →
      MaximumBounded env obj found dst req) (hne : handle ≠ 0) :
    ∃ obj found slot stored, Source env s src req.srcHandle obj found ∧
      (∀ process, req.options &&& duplicateMakeGlobal ≠ 0 ∨ dst = some process →
        slotOf process handle = some slot) ∧
      s'.lookup slot = some ⟨obj, stored⟩ ∧ Bounded env obj found dst req stored ∧
      (¬InPlace env s src dst req → s.lookup slot = none) := by
  cases h with
  | failed _ _ => exact absurd rfl hne
  | @new _ obj found granted hsource hgrants halloc hnot =>
    obtain ⟨i, stored, hhandle, hi, hnone, hrights, hupdate⟩ := halloc
    have hbounded := (hgrants.bounded hlocal (hmaximum obj found hsource)).of_sameRights hrights
    refine ⟨obj, found, _, stored, hsource, ?_, ?_, hbounded, fun _ => hnone⟩
    · intro process hprocess
      rw [hhandle]
      apply slotOf_handleOf hi
      split
      · next hzero => exact .inr (hprocess.resolve_left (not_not.mpr hzero))
      · exact .inl rfl
    · rw [hupdate, update_self]
  | @reused obj found granted hsource hgrants hreused hin =>
    obtain ⟨slot, entry, stored, hslot, hentry, hrights, hupdate⟩ := hreused
    have hbounded := (hgrants.bounded hlocal (hmaximum obj found hsource)).of_sameRights hrights
    refine ⟨obj, found, slot, stored, hsource, ?_, ?_, hbounded, fun hnot => absurd hin hnot⟩
    · intro process hprocess
      have hsrc := hin.2.2.1.symm.trans (hprocess.resolve_left (not_not.mpr hin.1))
      injection hsrc with hsrc
      rw [← hsrc]
      exact hslot
    have hptr : entry.ptr = obj := by
      obtain ⟨_, _, _, obj', entry', hsource', _⟩ := hin
      obtain ⟨rfl, rfl⟩ := source_unique hsource hsource'
      have hget := (source_entry hs hsource).1
      rw [getHandle_eq hs, hslot, bind_some, hentry] at hget
      injection hget with hget
      injection hget with hget
      rw [← source_ptr hs hsource, ← hget]
    rw [hupdate, update_self, hptr]

lemma DupResult.keeps (hs : s.Valid) {slot : Slot Pid}
    (hslot : slotOf src req.srcHandle = some slot) (hopen : (s.lookup slot).isSome) :
    (s'.lookup slot).isSome := by
  cases h with
  | failed hsame _ =>
    rw [hsame]
    exact hopen
  | new hsource _ halloc _ =>
    rw [halloc.ne_source hs hsource hslot]
    exact hopen
  | reused _ _ hreused _ =>
    obtain ⟨slot', entry, stored, hslot', _, _, hupdate⟩ := hreused
    rw [hslot] at hslot'
    injection hslot' with hslot'
    rw [hupdate, hslot', update_self]
    rfl

lemma DupResult.same
    (hin : InPlace env s src dst req) : dst = some src ∧ handle = req.srcHandle := by
  refine ⟨hin.2.2.1, ?_⟩
  cases h with
  | failed _ hnot | new _ _ _ hnot => exact absurd hin hnot
  | reused => rfl

lemma DupResult.closesSource_iff (hs : s.Valid) (hs' : s'.Valid) :
    ClosesSource env s' src dst req handle ↔ ClosesSource env s src dst req handle := by
  by_cases hin : InPlace env s src dst req
  · have hsame := h.same hin
    exact iff_of_false (fun h => h.2.2 hsame) fun h => h.2.2 hsame
  · unfold ClosesSource
    rw [h.closes_iff hs hs' hin]

end

lemma DupResult.of_zero (h : DupResult env s src dst req s' 0) : s'.lookup = s.lookup := by
  generalize hzero : (0 : Handle) = handle at h
  cases h with
  | failed hsame _ => exact hsame
  | new _ _ halloc _ =>
    obtain ⟨i, _, hhandle, hi, _⟩ := halloc
    exact absurd (hhandle.symm.trans hzero.symm) (handleOf_ne_zero hi)
  | reused _ _ hreused _ =>
    obtain ⟨slot, _, _, hslot, _⟩ := hreused
    rw [← hzero, slotOf_zero] at hslot
    cases hslot

def duplicateAndClose (env : Env Obj) (shrinkOk : Bool) (s : State Pid Obj) (src : Pid)
    (dst : Option Pid) (req : DupRequest) : Except Fault (State Pid Obj × Handle) :=
  match duplicateFor env s src dst req with
  | .error fault => .error fault
  | .ok result => closeSource { env with reallocOk := shrinkOk } src dst req result

lemma closed_slots {s₁ : State Pid Obj} (h : DupResult env s src dst req s₁ handle) (hs : s.Valid)
    (hs₁ : s₁.Valid)
    (hend : (¬ClosesSource env s₁ src dst req handle ∧ s'.lookup = s₁.lookup) ∨
      (ClosesSource env s₁ src dst req handle ∧ handleIsGlobal req.srcHandle = false ∧
        ∃ slot, slotOf src req.srcHandle = some slot ∧ (s₁.lookup slot).isSome ∧
          s'.lookup = update s₁.lookup slot none)) :
    (Closed s s' src req.srcHandle ↔ ClosesSource env s src dst req handle) ∧
      ∀ slot, s'.lookup slot = s₁.lookup slot ∨
        (s'.lookup slot = none ∧ (s.lookup slot).isSome ∧ ¬InPlace env s src dst req) := by
  rw [h.closesSource_iff hs hs₁] at hend
  obtain ⟨hnot, hsame⟩ | ⟨hcloses, _, slot, hslot, _, hupdate⟩ := hend
  · refine ⟨iff_of_false ?_ hnot, fun slot => .inl (by rw [hsame])⟩
    rintro ⟨slot, hslot, hopen, hnone⟩
    have hkept := h.keeps hs hslot hopen
    rw [← hsame, hnone] at hkept
    cases hkept
  have hnot : ¬InPlace env s src dst req := fun hin => hcloses.2.2 (h.same hin)
  obtain ⟨slot', entry, hslot', hentry⟩ := hcloses.2.1.slot hs
  rw [hslot] at hslot'
  injection hslot' with hslot'
  subst hslot'
  have hopen : (s.lookup slot).isSome := by
    rw [hentry]
    rfl
  constructor
  · refine iff_of_true ⟨slot, hslot, hopen, ?_⟩ hcloses
    rw [hupdate, update_self]
  · intro other
    by_cases heq : other = slot
    · subst heq
      right
      refine ⟨?_, hopen, hnot⟩
      rw [hupdate, update_self]
    · left
      rw [hupdate, update_of_ne heq]

lemma Avoids.completes (avoids : Avoids env s src dst req) (hs : s.Valid) (shrinkOk : Bool)
    (hdst : req.options &&& duplicateMakeGlobal ≠ 0 → dst = none) :
    ∃ s' handle, duplicateAndClose env shrinkOk s src dst req = .ok (s', handle) ∧
      WithinBounds env s s' src dst req handle := by
  unfold duplicateAndClose
  obtain ⟨hglobal, hneeds, _⟩ | ⟨s₁, handle, hdup, hs₁, hresult, _, hnew⟩ :=
    @duplicateFor_spec _ _ _ env s src dst req hs hdst
  · exact absurd (avoids.global hglobal) hneeds
  rw [hdup]
  obtain ⟨_, hcloses, hglobal⟩ | ⟨s', hclose, hs', hend⟩ :=
    @closeSource_spec _ _ _ { env with reallocOk := shrinkOk } s₁ src dst req handle hs₁
  · exfalso
    have hsource : ClosesSource env s src dst req handle :=
      (hresult.closesSource_iff hs hs₁).mp hcloses
    exact hsource.2.2 (hresult.same (avoids.close hsource.1 hglobal hsource.2.1))
  obtain ⟨hclosed, hslots⟩ := closed_slots hresult hs hs₁ hend
  refine ⟨s', handle, hclose, ?_, ?_, hclosed⟩
  · intro hne
    have hmaximum : ∀ obj found, Source env s src req.srcHandle obj found →
        MaximumBounded env obj found dst req := by
      intro obj found hsource checked hmore hcheck hmax
      by_cases hlocal : req.options &&& duplicateMakeGlobal = 0
      · cases dst with
        | none => exact absurd hcheck duplicateCheck_none_ne
        | some process =>
          have hnot := not_inPlace_of_asksMore (some process) hsource hmore
          have hobtains := (hnew obj found process hlocal rfl hsource hnot).mp hne
          exact avoids.maximum hlocal obj found process checked hsource rfl hmore hcheck
            hobtains.2 hmax
      · rw [hdst hlocal] at hcheck
        exact absurd hcheck duplicateCheck_none_ne
    obtain ⟨obj, found, slot, stored, hsource, hhandle, hentry, hbounded, hfree⟩ :=
      hresult.new_slot hs hdst hmaximum hne
    refine ⟨obj, found, hsource, ?_⟩
    intro process hprocess
    have hkept : s'.lookup slot = some ⟨obj, stored⟩ := by
      obtain hsame | ⟨_, hopen, hnot⟩ := hslots slot
      · rw [hsame, hentry]
      · rw [hfree hnot] at hopen
        cases hopen
    refine ⟨⟨slot.1, slot.2, ⟨obj, stored⟩⟩, ?_, rfl, hbounded⟩
    rw [getHandle_eq hs', hhandle process hprocess, bind_some, hkept]
    rfl
  · rintro rfl slot hnone
    obtain hsame | ⟨hgone, _⟩ := hslots slot
    · rw [hsame, hresult.of_zero, hnone]
    · exact hgone
lemma avoids_of_completes {shrinkOk : Bool} (hs : s.Valid)
    (hdst : req.options &&& duplicateMakeGlobal ≠ 0 → dst = none)
    (hrun : duplicateAndClose env shrinkOk s src dst req = .ok (s', handle))
    (hbounds : WithinBounds env s s' src dst req handle) : Avoids env s src dst req := by
  unfold duplicateAndClose at hrun
  obtain ⟨_, _, habort⟩ | ⟨s₁, handle₁, hdup, hs₁, hresult, hneeds, hnew⟩ :=
    @duplicateFor_spec _ _ _ env s src dst req hs hdst
  · rw [habort] at hrun
    cases hrun
  rw [hdup] at hrun
  obtain ⟨hfault, _⟩ | ⟨s₂, hclose, hs₂, hend⟩ :=
    @closeSource_spec _ _ _ { env with reallocOk := shrinkOk } s₁ src dst req handle₁ hs₁
  · dsimp only at hrun
    rw [hfault] at hrun
    cases hrun
  dsimp only at hrun
  rw [hclose] at hrun
  injection hrun with hrun
  injection hrun with hstate hhandle
  subst hstate hhandle
  obtain ⟨_, hslots⟩ := closed_slots hresult hs hs₁ hend
  constructor
  · exact hneeds
  · intro hlocal obj found process granted hsource hprocess hmore hcheck hroom hmax
    have hnot := not_inPlace_of_asksMore dst hsource hmore
    have hne := (hnew obj found process hlocal hprocess hsource hnot).mpr
      ⟨fun _ => ⟨granted, hcheck⟩, hroom⟩
    obtain ⟨obj', found', hsource', hall⟩ := hbounds.designates hne
    obtain ⟨rfl, rfl⟩ := source_unique hsource hsource'
    obtain ⟨new, hget, _, hbounded⟩ := hall process (.inr hprocess)
    rw [getHandle_eq hs₂] at hget
    injection hget with hget
    obtain ⟨slot, hslot, _, _, hentry⟩ := slotOf_bind_eq_some hget
    cases hresult with
    | failed => exact absurd rfl hne
    | reused _ _ _ hin => exact absurd hin hnot
    | @new _ obj' found' granted' hsource' hgrants halloc _ =>
      obtain ⟨rfl, rfl⟩ := source_unique hsource hsource'
      obtain ⟨i, stored, hhandle, hi, hnone, hrights, hupdate⟩ := halloc
      rw [if_pos hlocal] at hupdate
      have hslot' := @slotOf_handleOf Pid (some process, i) hi process (.inr rfl)
      rw [if_pos hlocal, hprocess] at hhandle
      rw [hhandle, hslot'] at hslot
      injection hslot with hslot
      have hstored : new.entry.access = stored := by
        obtain hsame | ⟨hgone, _⟩ := hslots slot
        · rw [hsame, hupdate, ← hslot, hprocess, update_self] at hentry
          injection hentry with hentry
          rw [← hentry]
        · rw [hgone] at hentry
          cases hentry
      unfold DuplicateGrants at hgrants
      rw [if_neg hmore] at hgrants
      obtain ⟨checked, hcheck', hgranted⟩ := hgrants
      rw [hcheck] at hcheck'
      injection hcheck' with hcheck'
      injection hcheck' with hcheck'
      rw [if_pos hlocal, ← hcheck'] at hgranted
      have hall : SameRights (env.mapObjAccess obj genericAll) new.entry.access := by
        rw [hstored]
        unfold uncheckedAccess at hgranted
        rw [if_pos hmax] at hgranted
        rw [hgranted] at hrights
        exact (hrights.trans (sameRights_masked _)).symm
      exact hbounded.of_sameRights hall
  · intro hasked hglobal hcloses
    by_contra hnot
    have hsource : ClosesSource env s src dst req handle₁ :=
      ⟨hasked, hcloses, hresult.not_same hs hnot hcloses⟩
    have hsource₁ := (hresult.closesSource_iff hs hs₁).mpr hsource
    obtain ⟨hkept, _⟩ | ⟨_, hlocal, _⟩ := hend
    · exact hkept hsource₁
    · rw [hglobal] at hlocal
      cases hlocal

omit [DecidableEq Pid] in
lemma getProcessFromHandle_ok (hs : s.Valid) (processOf : Obj → Option Pid) (current : Pid)
    (process : Handle) (access : AccessMask) :
    ∃ pid, getProcessFromHandle env processOf s current process access = .ok pid := by
  unfold getProcessFromHandle getHandleObj
  cases getMagicHandle env process with
  | some obj => exact ⟨_, rfl⟩
  | none =>
    rw [getHandle_eq hs]
    cases (slotOf current process).bind fun slot =>
        (s.lookup slot).map fun entry => (⟨slot.1, slot.2, entry⟩ : Found Pid Obj) with
    | none => exact ⟨_, rfl⟩
    | some found =>
      dsimp only
      split
      · next heq =>
        split at heq
        · cases heq
        · split at heq
          · cases heq
          · cases heq
      · exact ⟨_, rfl⟩

lemma dupHandle_eq (hs : s.Valid) {shrinkOk : Bool} {processOf : Obj → Option Pid} {current : Pid}
    (hsrc : getProcessFromHandle env processOf s current req.srcProcess processDupHandle =
      .ok (some src)) :
    dupHandle env shrinkOk processOf s current req =
      duplicateAndClose env shrinkOk s src (destination env processOf s current req) req := by
  unfold dupHandle destination
  rw [hsrc]
  by_cases hglobal : req.options &&& duplicateMakeGlobal ≠ 0
  · rw [if_pos hglobal, if_pos hglobal]
    rfl
  rw [if_neg hglobal, if_neg hglobal]
  obtain ⟨dst, hdst⟩ :=
    @getProcessFromHandle_ok _ _ env s hs processOf current req.dstProcess processDupHandle
  rw [hdst]
  rfl

def selfEnv : Env Unit := { plainEnv with magic := fun _ => some () }

def selfRequest (srcHandle : Handle) (access : AccessMask) (options : BitVec 32) : DupRequest :=
  ⟨0xffffffff, srcHandle, 0xffffffff, access, 0, options⟩

def owned : List (Env Unit × Op Bool Unit) :=
  [(plainEnv, .newTable false), (plainEnv, .alloc false () 1 0)]

def dupFault (s : State Bool Unit) (req : DupRequest) : Option Fault :=
  faultOf (dupHandle selfEnv true (fun _ => some false) s false req)

lemma Safe.not_fault {shrinkOk : Bool} {processOf : Obj → Option Pid} {current : Pid}
    (h : Safe env shrinkOk processOf s current req) :
    faultOf (dupHandle env shrinkOk processOf s current req) = none := by
  unfold Safe at h
  split at h
  · exact h.elim
  · rw [h]
    rfl
  · obtain ⟨s', handle, hrun, _⟩ := h
    rw [hrun]
    rfl

example : (run step bare madeGlobal).map (fun s => dupFault s
    (selfRequest 0x544a4deb 2 duplicateCloseSource)) = some (some .outOfBounds) := by
  decide +kernel

end WineForge.Handles
