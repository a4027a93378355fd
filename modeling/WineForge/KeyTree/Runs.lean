import WineForge.KeyTree.Handlers

/-!
# Runs of registry requests

The server starts with the tree that `init_registry` builds. In a run whose loads and saves avoid the
two bad cases no request reads the name of a key without one, and each of the two cases stops the
server.
-/

namespace WineForge.KeyTree

open List WineForge.Library
open WineForge.Registry (WChar Name backslash)

variable {toLower : WChar → WChar} {debug : Bool} {c : Circumstances} {s s' : Server} {key : KeyId}

/-- A registry file is loaded into a key with a name and has no path with an empty element, and a
saved branch that was deleted is passed over. -/
def Good (debug : Bool) (s : Server) : Circumstances × Request → Prop
  | (c, .loadRegistry rootdir name _ sd file) =>
    c.privileged = true → (rootOf c s rootdir).isSome →
      (name = [] → (allocKey { s with allocs := c.allocs } sd).2 = none) ∧ FileFilled file
  | (_, .saveBranches opened _) => BranchesSaved debug s opened
  | _ => True

lemma step_spec (hinv : Inv s) (request : Circumstances × Request) (hgood : Good debug s request) :
    Avoids Unnamed (step toLower debug s request) Inv := by
  obtain ⟨c, request⟩ := request
  have hsame : SameTree s { s with allocs := c.allocs } :=
    ⟨fun _ => rfl, le_rfl, rfl, rfl, rfl⟩
  have hinv' := hinv.same hsame
  unfold step
  dsimp only
  generalize hs' : ({ s with allocs := c.allocs } : Server) = s' at hsame hinv' ⊢
  have hkept : ∀ s'', SameTree s' s'' → Inv s'' := fun _ h => hinv'.same h
  cases request with
  | createKey rootdir name attr sd access data =>
    exact createKeyRequest_spec hinv' rootdir name attr sd access data
  | openKey parent name attr access => exact openKeyRequest_spec hinv' parent name attr access
  | deleteKey hkey =>
    apply withKey_spec hinv'
    intro k hk
    apply Avoids.bind (deleteKey_spec hinv' (getHandleObj_held hinv' hk) false)
    intro r hr
    exact hr
  | enumKey hkey index infoClass =>
    apply withKey_spec hinv'
    intro k hk
    apply Avoids.bind (enumKey_spec hinv' (getHkeyObj_named hinv' hk) index infoClass)
    intro _ _
    exact hinv'
  | setKeyValue hkey name type data =>
    apply withKey_spec hinv'
    intro k hk
    exact (setValue_spec hinv' (getHkeyObj_named hinv' hk) name type data).mono hkept
  | getKeyValue hkey name =>
    apply withKey_spec hinv'
    intro k hk
    apply Avoids.bind (getValue_spec hinv' (getHkeyObj_named hinv' hk) name)
    intro _ _
    exact hinv'
  | enumKeyValue hkey index infoClass =>
    apply withKey_spec hinv'
    intro k hk
    apply Avoids.bind (enumValue_spec hinv' (getHkeyObj_named hinv' hk) index infoClass)
    intro _ _
    exact hinv'
  | deleteKeyValue hkey name =>
    apply withKey_spec hinv'
    intro k hk
    exact (deleteValue_spec hinv' (getHkeyObj_named hinv' hk) name).mono hkept
  | loadRegistry rootdir name attr sd file =>
    subst hs'
    exact loadRegistryRequest_spec hinv' rootdir name attr sd file hgood
  | unloadRegistry parent name attr => exact unloadRegistryRequest_spec hinv' parent name attr
  | saveRegistry hkey opened =>
    dsimp only
    split
    · exact hinv'
    apply withKey_spec hinv'
    intro k hk
    split
    · apply Avoids.bind (saveAllSubkeys_spec hinv' (getHkeyObj_named hinv' hk))
      intro _ _
      exact hinv'
    · exact hinv'
  | renameKey hkey name =>
    apply withKey_spec hinv'
    intro k hk
    exact (renameKey_spec hinv' (getHkeyObj_named hinv' hk) name).mono fun _ h => h.inv
  | closeHandle hkey =>
    subst hs'
    apply Kept.inv
    apply hinv'.withHandles
    intro e he
    exact hinv'.handles e (mem_of_mem_filter he)
  | duplicateHandle hkey =>
    apply withKey_spec hinv'
    intro k hk
    exact (allocHandle_kept hinv' (getHandleObj_held hinv' hk)).inv
  | saveBranches opened written =>
    subst hs'
    exact (periodicSave_spec hinv' hgood written).mono fun _ h => hinv'.same h.same

/-- The files of the start have paths without empty elements. -/
structure Start.Filled (start : Start) : Prop where
  systemReg : FileFilled start.systemReg
  userdefReg : FileFilled start.userdefReg
  userReg : FileFilled start.userReg

lemma emptyServer_inv (allocs : List Bool) : Inv (emptyServer allocs) := by
  have hblank : ∀ i, (emptyServer allocs).key i = Key.blank := fun _ => rfl
  constructor
  · intro i child hchild
    cases hchild
  · intro child name p hname
    cases hname
  · intro i
    exact nodup_nil
  · intro i node hnode
    cases hnode
  · intro i _
    rw [hblank]
  · intro e he
    cases he
  · intro i hi
    cases hi
  · intro r hr
    cases hr

lemma mustCreate_spec {result : Except Stop (Server × Option KeyId)}
    (h : Avoids Unnamed result fun r => Kept s r.1 ∧ ∀ k, r.2 = some k → Named r.1 k) :
    Avoids Unnamed (mustCreate result) fun r => Kept s r.1 ∧ Named r.1 r.2 := by
  cases result with
  | error stop => exact h
  | ok r =>
    obtain ⟨s₁, key?⟩ := r
    cases key? with
    | none => exact nofun
    | some k => exact ⟨h.1, h.2 k rfl⟩

lemma flagKey_spec (hinv : Inv s) (hnamed : Named s key) {name : Name}
    (hfilled : [] ∉ pathElements name) {flag : Flags → Flags}
    (hflag : ∀ flags, (flag flags).deleted = flags.deleted) :
    Avoids Unnamed (flagKey toLower c s key name flag)
      fun r => Kept s r.1 ∧ ∀ k, r.2 = some k → Named r.1 k := by
  apply Avoids.bind (createElements_spec hinv hnamed hfilled _)
  rintro ⟨s₁, key?⟩ ⟨hkept, hcreated⟩
  cases key? with
  | none => exact ⟨hkept, nofun⟩
  | some k =>
    have hsame : SameTree s₁ (s₁.modify k fun k => { k with flags := flag k.flags }) := by
      apply SameTree.modify
      unfold Key.shape
      rw [hflag]
    refine ⟨hkept.trans (hkept.inv.kept hsame), ?_⟩
    intro k' hk'
    cases hk'
    exact (hsame.named_iff k).mpr (hcreated k rfl)

lemma Inv.addBranch (hinv : Inv s) (hnamed : Named s key) :
    Kept s { s with branches := s.branches ++ [key] } := by
  refine ⟨⟨hinv.child, hinv.parent, hinv.nodup, hinv.wow, hinv.fresh, hinv.handles, ?_, hinv.root⟩,
    fun _ h => h⟩
  intro i hi
  obtain hi | hi := mem_append.mp hi
  · exact hinv.branches i hi
  · obtain rfl := mem_singleton.mp hi
    exact .inl hnamed

lemma loadInitRegistryFromFile_spec (hinv : Inv s) (hnamed : Named s key)
    {file : Option RegistryFile} (hfile : FileFilled file) :
    Avoids Unnamed (loadInitRegistryFromFile toLower c s file key) fun r => Kept s r.1 := by
  have hrest : ∀ (s₁ : Server) (notRegistry : Bool), Kept s s₁ →
      Avoids Unnamed (if notRegistry = true then (pure (s₁, true) : Except Stop (Server × Bool))
        else
          let s := s₁.modify key fun k => { k with isPermanent := true }
          pure ({ s with branches := s.branches ++ [key] }, file.isSome))
        fun r => Kept s r.1 := by
    intro s₁ notRegistry hkept
    split
    · exact hkept
    have hsame : SameTree s₁ (s₁.modify key fun k => { k with isPermanent := true }) :=
      SameTree.modify rfl
    have hkept₁ := hkept.trans (hkept.inv.kept hsame)
    exact hkept₁.trans (hkept₁.inv.addBranch (hkept₁.grows key hnamed))
  match file, hfile with
  | none, _ => exact hrest s false (Kept.refl hinv)
  | some none, _ => exact hrest s true (Kept.refl hinv)
  | some (some lines), hfile =>
    have hnone : ∀ k', (Loading.mk none c.now (some 0)).subkey = some k' → Named s k' := by
      intro k' hk'
      cases hk'
    apply Avoids.bind (loadKeys_spec hinv hnamed (hfile lines rfl) hnone)
    rintro ⟨s₁, notRegistry⟩ hkept
    exact hrest s₁ notRegistry hkept

lemma Inv.setRoot (hinv : Inv s) (hroot : Named s 0) : Inv { s with rootKey := some 0 } := by
  refine ⟨hinv.child, hinv.parent, hinv.nodup, hinv.wow, hinv.fresh, hinv.handles, hinv.branches, ?_⟩
  intro r hr
  cases hr
  exact ⟨rfl, hroot⟩

lemma currentControlSet_spec {c : Circumstances} {s : Server} {hklm : KeyId} {exists? : Bool}
    {rest : Server → Except Stop Server} (hinv : Inv s) (hnamed : Named s hklm)
    (hrest : ∀ s', Kept s s' → Avoids Unnamed (rest s') Inv) :
    Avoids Unnamed (if exists? then pure s >>= rest else do
      let (s', key) ← flagKey toLower c s hklm (ofString "System\\CurrentControlSet")
        fun flags => { flags with symlink := true }
      match key with
      | none => pure s' >>= rest
      | some key => setValue toLower debug c s' key symlinkStr regLink controlSet001Path >>= rest)
      Inv := by
  split
  · exact hrest s (Kept.refl hinv)
  refine Avoids.bind (flagKey_spec hinv hnamed (by decide) fun _ => rfl) ?_
  rintro ⟨s₁, key?⟩ ⟨hkept, hnamed⟩
  cases key? with
  | none => exact hrest s₁ hkept
  | some k =>
    apply Avoids.bind (setValue_spec hkept.inv (hnamed k rfl) _ _ _)
    intro s₂ hsame
    exact hrest s₂ (hkept.trans (hkept.inv.kept hsame))

lemma initRegistry_spec (start : Start) (hstart : start.Filled) :
    Avoids Unnamed (initRegistry toLower debug start) Inv := by
  unfold initRegistry
  dsimp only
  have hname : ofString "\\REGISTRY" ≠ [] := by decide
  refine Avoids.bind (createNamedObject_spec (emptyServer_inv _) _ hname nofun) ?_
  rintro ⟨s₁, created⟩ hcreates
  cases created with
  | failed => exact nofun
  | existing k => exact nofun
  | new root =>
    have hzero : root = 0 := hcreates.fresh root rfl
    subst hzero
    have hroot₁ : Named s₁ 0 := hcreates.named 0 (.inr rfl)
    have hinv₁ := hcreates.kept.inv.setRoot hroot₁
    refine Avoids.bind (mustCreate_spec (createElements_spec hinv₁ hroot₁ (by decide) _)) ?_
    rintro ⟨s₂, hklm⟩ ⟨hkept₂, hklm₂⟩
    apply Avoids.bind (loadInitRegistryFromFile_spec hkept₂.inv hklm₂ hstart.systemReg)
    rintro ⟨s₃, exists?⟩ hkept₃
    have hklm₃ := hkept₃.grows hklm hklm₂
    have hroot₃ := hkept₃.grows 0 (hkept₂.grows 0 hroot₁)
    refine currentControlSet_spec hkept₃.inv hklm₃ ?_
    intro s₄ hkept₄
    have hroot₄ := hkept₄.grows 0 hroot₃
    refine Avoids.bind (mustCreate_spec (createElements_spec hkept₄.inv hroot₄ (by decide) _)) ?_
    rintro ⟨s₅, default⟩ ⟨hkept₅, hdefault⟩
    apply Avoids.bind (loadInitRegistryFromFile_spec hkept₅.inv hdefault hstart.userdefReg)
    rintro ⟨s₆, _⟩ hkept₆
    have hroot₆ := hkept₆.grows 0 (hkept₅.grows 0 hroot₄)
    refine Avoids.bind (mustCreate_spec (createElements_spec hkept₆.inv hroot₆ (by decide) _)) ?_
    rintro ⟨s₇, hkcu⟩ ⟨hkept₇, hhkcu⟩
    apply Avoids.bind (loadInitRegistryFromFile_spec hkept₇.inv hhkcu hstart.userReg)
    rintro ⟨s₈, _⟩ hkept₈
    have hkept : Kept s₃ s₈ := (((hkept₄.trans hkept₅).trans hkept₆).trans hkept₇).trans hkept₈
    apply Avoids.bind (Q := Kept s₃)
    · apply Avoids.foldlM hkept
      intro s₉ machine _ hkept₉
      have hfilled : [] ∉ pathElements machine.classes := by
        cases machine with
        | i386 => decide
        | armnt => decide
      refine Avoids.bind
        (flagKey_spec hkept₉.inv (hkept₉.grows hklm hklm₃) hfilled fun _ => rfl) ?_
      rintro r ⟨hflagged, _⟩
      exact hkept₉.trans hflagged
    intro s₉ hkept₉
    refine Avoids.bind
      (flagKey_spec hkept₉.inv (hkept₉.grows hklm hklm₃) (by decide) fun _ => rfl) ?_
    rintro r ⟨hflagged, _⟩
    exact hflagged.inv

/-- A tree that `init_registry` builds. -/
def Started (toLower : WChar → WChar) (debug : Bool) (s : Server) : Prop :=
  ∃ start, initRegistry toLower debug start = .ok s

/-- A tree that `init_registry` builds from files without empty path elements. -/
def Initial (toLower : WChar → WChar) (debug : Bool) (s : Server) : Prop :=
  ∃ start : Start, start.Filled ∧ initRegistry toLower debug start = .ok s

/-- **No registry request walks through a key without a name**, neither at the start nor in a run,
if no registry file is loaded into a key without a name or has a path with an empty element, and no
branch that was deleted is saved. -/
theorem requests_meet_named_keys (toLower : WChar → WChar) (debug : Bool) :
    (∀ start : Start, start.Filled → initRegistry toLower debug start ≠ .error .nameless) ∧
      ∀ s, Reaches (stepOf (step toLower debug)) (Good debug) (Initial toLower debug) s →
        ∀ request, Good debug s request → step toLower debug s request ≠ .error .nameless := by
  constructor
  · intro start hstart
    exact (initRegistry_spec start hstart).ne_error rfl
  · intro s hs request hgood
    have hinit : ∀ s, Initial toLower debug s → Inv s := by
      rintro s ⟨start, hstart, hresult⟩
      have hspec := @initRegistry_spec toLower debug start hstart
      rw [hresult] at hspec
      exact hspec
    have havoids : Avoids Unnamed (step toLower debug s request) Inv :=
      hs.avoids hinit (fun _ i hinv hgood => step_spec hinv i hgood) request hgood
    exact havoids.ne_error rfl

def rootObjects (linked : Bool) : Objects where
  rootDirectory := 0
  isDirectory := fun id => id == 0
  lookupName := fun _ name _ _ =>
    match name with
    | some (some str) =>
      if linked && str.take 8 == ofString "REGISTRY" then
        if str.length = 8 then .rootKey none else .rootKey (some (str.drop 9))
      else .stop (some str)
    | some none => .stop none
    | none => .stop none
  wowshareBit := fun _ => false

def circumstances (linked : Bool) : Circumstances :=
  ⟨rootObjects linked, true, true, false, 1, [], some 4, 20⟩

def firstStart : Start := ⟨circumstances false, none, none, none, []⟩

def unnamedLoad : Circumstances × Request :=
  (circumstances true, .loadRegistry none [] ⟨false, false, false, false⟩ false none)

def deletedBranch : List (Circumstances × Request) :=
  [(circumstances true,
      .openKey none (ofString "\\REGISTRY\\User\\.Default") ⟨false, false, false, false⟩
        ⟨true, false⟩),
    (circumstances true, .deleteKey 4)]

def savedBranches : Circumstances × Request :=
  (circumstances true, .saveBranches (fun _ => true) (fun _ => true))

def isNameless : Except Stop Server → Bool
  | .error .nameless => true
  | _ => false

lemma eq_of_isNameless {r : Except Stop Server} (h : isNameless r = true) :
    r = .error .nameless := by
  unfold isNameless at h
  split at h
  · rfl
  · cases h

/-- A load into a key without a name stops the server, and so does the first save after a branch
that has changed was deleted. -/
theorem nameless_keys_met :
    (¬∀ toLower debug s, Reachable (stepOf (step toLower debug)) (Started toLower debug) s →
        ∀ request, step toLower debug s request ≠ .error .nameless) ∧
      (∃ s, Started id false s ∧ step id false s unnamedLoad = .error .nameless) ∧
      ∃ s, Reachable (stepOf (step id false)) (Started id false) s ∧
        step id false s savedBranches = .error .nameless := by
  have hstart : ∃ s, initRegistry id false firstStart = .ok s ∧
      isNameless (step id false s unnamedLoad) = true ∧
      ∃ s', run (stepOf (step id false)) s deletedBranch = some s' ∧
        isNameless (step id false s' savedBranches) = true := by
    have hcheck : (match initRegistry id false firstStart with
          | .ok s =>
            isNameless (step id false s unnamedLoad) &&
              (run (stepOf (step id false)) s deletedBranch).any fun s' =>
                isNameless (step id false s' savedBranches)
          | .error _ => false) = true := by
      decide +kernel
    cases hinit : initRegistry id false firstStart with
    | error stop =>
      rw [hinit] at hcheck
      cases hcheck
    | ok s =>
      rw [hinit] at hcheck
      obtain ⟨hload, hsave⟩ := Bool.and_eq_true_iff.mp hcheck
      obtain ⟨s', hs', hstop⟩ := (Option.any_eq_true ..).mp hsave
      exact ⟨s, rfl, hload, s', hs', hstop⟩
  obtain ⟨s, hs, hload, s', hrun, hsave⟩ := hstart
  have hstarted : Started id false s := ⟨firstStart, hs⟩
  refine ⟨?_, ⟨s, hstarted, eq_of_isNameless hload⟩,
    s', reachable_of_run (.start hstarted) _ hrun, eq_of_isNameless hsave⟩
  intro hclaim
  exact hclaim id false s (.start hstarted) unnamedLoad (eq_of_isNameless hload)

end WineForge.KeyTree
