import WineForge.KeyTree.Links

/-!
# Requests and keys without a name

Every request keeps the invariant of the tree, and reads the name of a key without one in two cases
only: a registry file is loaded into a key without a name or has a path with an empty element, or a
saved branch was deleted.
-/

namespace WineForge.KeyTree

open List Option WineForge.Library
open WineForge.Registry (WChar Name KeyValue backslash)

variable {toLower : WChar → WChar} {debug : Bool} {c : Circumstances} {s s' : Server}
  {key base : KeyId} {fuel : Nat}

lemma setValue_spec (hinv : Inv s) (hnamed : Named s key) (name : Name) (type : Nat)
    (data : List UInt8) :
    Avoids Unnamed (setValue toLower debug c s key name type data) (SameTree s) := by
  unfold setValue
  split
  · exact SameTree.refl s
  apply Avoids.bind (findValue_spec name)
  rintro ⟨found, index⟩ _
  dsimp only
  split
  · apply Avoids.bind (dumpOperation_spec hinv hnamed)
    intro _ _
    exact SameTree.refl s
  split
  · exact SameTree.refl s
  generalize hcopy : memAllocIf _ s = copied
  have hcopied : SameTree s copied.2 := hcopy ▸ SameTree.memAllocIf _ s
  split
  · exact hcopied
  generalize hinsert : (if found.isNone = true then insertValue copied.2 key name index
    else (copied.2, true)) = inserted
  have hinserted : SameTree s inserted.1 := by
    rw [← hinsert]
    split
    · exact hcopied.trans (insertValue_spec name index)
    · exact hcopied
  split
  · exact hinserted
  have hset : SameTree s (inserted.1.modify key fun k =>
      { k with
        values := k.values.modify index fun value => { value with type := type, data := data } }) :=
    hinserted.trans (SameTree.modify rfl)
  apply Avoids.bind (touchKey_spec (hinv.same hset) ((hset.named_iff key).mpr hnamed) _)
  intro s₁ htouched
  have hsame := hset.trans htouched
  apply Avoids.bind (dumpOperation_spec (hinv.same hsame) ((hsame.named_iff key).mpr hnamed))
  intro _ _
  exact hsame

lemma getValue_spec (hinv : Inv s) (hnamed : Named s key) (name : Name) :
    Avoids Unnamed (getValue toLower debug c s key name) fun _ => True := by
  unfold getValue
  split
  · exact trivial
  apply Avoids.bind (findValue_spec name)
  rintro ⟨found, index⟩ _
  dsimp only
  split
  · apply Avoids.bind (dumpOperation_spec hinv hnamed)
    intro _ _
    exact trivial
  · exact trivial

lemma enumValue_spec (hinv : Inv s) (hnamed : Named s key) (index : Int) (infoClass : Bool) :
    Avoids Unnamed (enumValue debug c s key index infoClass) fun _ => True := by
  unfold enumValue
  split
  · exact trivial
  split
  · exact trivial
  split
  · exact trivial
  · apply Avoids.bind (dumpOperation_spec hinv hnamed)
    intro _ _
    exact trivial

lemma deleteValue_spec (hinv : Inv s) (hnamed : Named s key) (name : Name) :
    Avoids Unnamed (deleteValue toLower debug c s key name) (SameTree s) := by
  unfold deleteValue
  split
  · exact SameTree.refl s
  apply Avoids.bind (findValue_spec name)
  rintro ⟨found, index⟩ _
  dsimp only
  split
  · exact SameTree.refl s
  apply Avoids.bind (dumpOperation_spec hinv hnamed)
  intro _ _
  have herased : SameTree s
      (s.modify key fun k => { k with values := k.values.eraseIdx index }) := SameTree.modify rfl
  apply Avoids.bind (touchKey_spec (hinv.same herased) ((herased.named_iff key).mpr hnamed) _)
  intro s₁ htouched
  generalize hshrink : memAllocIf _ s₁ = shrunk
  have hshrunk : SameTree s₁ shrunk.2 := hshrink ▸ SameTree.memAllocIf _ s₁
  exact ((herased.trans htouched).trans hshrunk).trans (SameTree.modify rfl)

lemma enumKey_spec (hinv : Inv s) (hnamed : Named s key) (index : Int)
    (infoClass : KeyInformation) :
    Avoids Unnamed (enumKey debug c s key index infoClass) fun _ => True := by
  unfold enumKey
  split
  · exact trivial
  generalize hchosen : (if index = -1 then some key else if index < 0 then none
    else (s.key key).subkeys[index.toNat]?) = key?
  have hkey : ∀ k, key? = some k → Named s k := by
    rintro k rfl
    split at hchosen
    · cases hchosen
      exact hnamed
    split at hchosen
    · cases hchosen
    · exact hinv.named_of_mem (mem_of_getElem? hchosen)
  cases key? with
  | none => exact trivial
  | some k =>
    have hk := hkey k rfl
    have hdump : Avoids Unnamed (do let _ ← dumpOperation debug c.fuel s k) fun _ => True := by
      apply Avoids.bind (dumpOperation_spec hinv hk)
      intro _ _
      exact trivial
    apply Avoids.bind (nameOf_spec hk)
    intro _ _
    cases infoClass with
    | other => exact trivial
    | name | basic | node => exact hdump
    | full | cached =>
      apply Avoids.bind (Q := fun _ => True)
      · apply Avoids.foldlM trivial
        intro _ j hj _
        apply Avoids.bind (nameOf_spec (hinv.named_of_mem hj))
        intro _ _
        exact trivial
      · intro _ _
        exact hdump

def Line.Filled : Line → Prop
  | .key (some path) _ => [] ∉ pathElements path
  | _ => True

lemma prefixLevel_spec (hinv : Inv s) (element : Name) {key? : Option KeyId}
    (hnamed : ∀ k, key? = some k → Named s k) (res : Nat) :
    Avoids Unnamed (prefixLevel toLower s element fuel key? res) fun _ => True := by
  induction fuel generalizing key? res with
  | zero => exact nofun
  | succ fuel ih =>
    unfold prefixLevel
    split
    · exact trivial
    cases key? with
    | none => exact nofun
    | some k =>
      have hk := hnamed k rfl
      apply Avoids.bind (nameOf_spec hk)
      intro name _
      split
      · exact trivial
      · apply Avoids.bind (getParent_spec hinv hk)
        intro parent hparent
        exact ih hparent _

lemma getPrefixLen_spec (hinv : Inv s) (hnamed : Named s key) (path : Option Name) :
    Avoids Unnamed (getPrefixLen toLower c s key path) fun _ => True := by
  unfold getPrefixLen
  split
  · exact trivial
  apply prefixLevel_spec hinv
  intro k hk
  cases hk
  exact hnamed

lemma tail_pathElements {ch : WChar} {path : Name} (hch : ch ≠ backslash) :
    (pathElements (ch :: path)).tail = (pathElements path).tail := by
  rw [pathElements, if_neg hch]
  cases pathElements path with
  | nil => rfl
  | cons element elements => rfl

lemma filled_skipPrefix {prefixLen : Nat} {path : Name}
    (hfilled : [] ∉ (pathElements path).tail) (hfirst : prefixLen = 0 → [] ∉ pathElements path)
    (hrest : (skipPrefix prefixLen path).2.headD 0 ≠ 0) :
    [] ∉ pathElements (skipPrefix prefixLen path).2 := by
  induction path generalizing prefixLen with
  | nil => exact absurd rfl hrest
  | cons ch path ih =>
    cases prefixLen with
    | zero => exact hfirst rfl
    | succ prefixLen =>
      unfold skipPrefix at hrest ⊢
      split at hrest
      · rename_i hzero
        exact absurd hzero hrest
      rename_i hzero
      rw [if_neg hzero]
      by_cases hch : ch = backslash
      · subst hch
        have hpath : [] ∉ pathElements path := hfilled
        exact ih (fun h => hpath (mem_of_mem_tail h)) (fun _ => hpath) hrest
      · rw [if_neg hch] at hrest ⊢
        rw [tail_pathElements hch] at hfilled
        exact ih hfilled nofun hrest

lemma loadKey_spec (hinv : Inv s) (hbase : Named s base) {path : Option Name} {modif : Option Int}
    (hfilled : (Line.key path modif).Filled) (prefixLen : Nat) :
    Avoids Unnamed (loadKey toLower c s base path prefixLen)
      fun r => Kept s r.1 ∧ ∀ k, r.2 = some k → Named r.1 k := by
  unfold loadKey
  cases path with
  | none => exact ⟨Kept.refl hinv, nofun⟩
  | some path =>
    have hpath : [] ∉ pathElements path := hfilled
    have hskip : (skipPrefix prefixLen path).2.headD 0 ≠ 0 →
        [] ∉ pathElements (skipPrefix prefixLen path).2 :=
      filled_skipPrefix (fun h => hpath (mem_of_mem_tail h)) fun _ => hpath
    dsimp only
    split
    · split
      · exact ⟨Kept.refl hinv, nofun⟩
      refine ⟨Kept.refl hinv, ?_⟩
      intro k hk
      cases hk
      exact hbase
    · rename_i hrest
      exact createElements_spec hinv hbase (hskip hrest) 0

lemma loadValue_spec (name : Option Name) (data : Option (Nat × List UInt8)) :
    Avoids Unnamed (loadValue toLower s key name data) (SameTree s) := by
  unfold loadValue
  cases name with
  | none => exact SameTree.refl s
  | some name =>
    dsimp only
    apply Avoids.bind (findValue_spec name)
    rintro ⟨found, index⟩ _
    generalize hinsert : (if found.isNone = true then insertValue s key name index
      else (s, true)) = inserted
    have hinserted : SameTree s inserted.1 := by
      rw [← hinsert]
      split
      · exact insertValue_spec name index
      · exact SameTree.refl s
    split
    · exact hinserted
    generalize hcopy : memAllocIf _ inserted.1 = copied
    have hcopied := hinserted.trans (hcopy ▸ SameTree.memAllocIf _ _)
    split
    · exact hcopied
    · exact hcopied.trans (SameTree.modify rfl)

lemma loadKeyOption_spec (hinv : Inv s) (hnamed : Named s key) (line : Line) :
    Avoids Unnamed (loadKeyOption c s key line) (SameTree s) := by
  unfold loadKeyOption
  split
  · exact updateKeyTime_spec hinv hnamed _
  · exact (SameTree.memAlloc s).trans (SameTree.modify rfl)
  · exact SameTree.modify rfl
  · exact SameTree.refl s

lemma finishSubkey_spec (hinv : Inv s) {loading : Loading}
    (hsubkey : ∀ k, loading.subkey = some k → Named s k) :
    Avoids Unnamed (finishSubkey c s loading) (SameTree s) := by
  unfold finishSubkey
  split
  · exact SameTree.refl s
  · rename_i k hk
    exact updateKeyTime_spec hinv (hsubkey k hk) _

lemma loadKeys_spec (hinv : Inv s) (hbase : Named s base) {lines : List Line}
    (hfilled : ∀ line ∈ lines, line.Filled) {loading : Loading}
    (hsubkey : ∀ k, loading.subkey = some k → Named s k) :
    Avoids Unnamed (loadKeys toLower c base lines s loading) fun r => Kept s r.1 := by
  induction lines generalizing s loading with
  | nil =>
    apply Avoids.bind (finishSubkey_spec hinv hsubkey)
    intro s₁ hsame
    exact hinv.kept hsame
  | cons line lines ih =>
    have hline := hfilled line (mem_cons_self ..)
    have hrest : ∀ line ∈ lines, line.Filled :=
      fun line hmem => hfilled line (mem_cons_of_mem _ hmem)
    have hgoOn : ∀ s₁ : Server, Kept s s₁ → ∀ loading : Loading,
        (∀ k, loading.subkey = some k → Named s₁ k) →
        Avoids Unnamed (loadKeys toLower c base lines s₁ loading) fun r => Kept s r.1 := by
      intro s₁ hkept loading hsubkey
      apply (ih hkept.inv (hkept.grows base hbase) hrest hsubkey).mono
      intro r hr
      exact hkept.trans hr
    have hsame : ∀ s₁, SameTree s s₁ →
        Avoids Unnamed (loadKeys toLower c base lines s₁ loading) fun r => Kept s r.1 :=
      fun s₁ h => hgoOn s₁ (hinv.kept h) loading fun k hk => (h.named_iff k).mpr (hsubkey k hk)
    have hoption : ∀ k, loading.subkey = some k →
        Avoids Unnamed
          (do
            let s ← loadKeyOption c s k line
            loadKeys toLower c base lines s loading)
          fun r => Kept s r.1 :=
      fun k hk => (loadKeyOption_spec hinv (hsubkey k hk) line).bind hsame
    cases line with
    | key path modif =>
      apply Avoids.bind (finishSubkey_spec hinv hsubkey)
      intro s₁ hfinished
      have hinv₁ := hinv.same hfinished
      have hbase₁ := (hfinished.named_iff base).mpr hbase
      have hload : ∀ prefixLen,
          Avoids Unnamed
            (loadKey toLower c s₁ base path prefixLen >>= fun r =>
              loadKeys toLower c base lines r.1 ⟨r.2, modif.getD c.now, some prefixLen⟩)
            fun r => Kept s r.1 := by
        intro prefixLen
        apply Avoids.bind (loadKey_spec hinv₁ hbase₁ hline prefixLen)
        rintro ⟨s₂, subkey⟩ ⟨hkept, hnamed⟩
        exact hgoOn s₂ ((hinv.kept hfinished).trans hkept) _ hnamed
      cases loading.prefixLen with
      | some prefixLen => exact hload prefixLen
      | none => exact (getPrefixLen_spec hinv₁ hbase₁ path).bind fun prefixLen _ => hload prefixLen
    | value name data =>
      unfold loadKeys
      cases hsub : loading.subkey with
      | none => exact hsame s (SameTree.refl s)
      | some k => exact (loadValue_spec name data).bind hsame
    | arch matching =>
      unfold loadKeys
      cases hsub : loading.subkey with
      | some k => exact hoption k hsub
      | none =>
        cases matching with
        | false => exact Kept.refl hinv
        | true => exact hsame s (SameTree.refl s)
    | time | keyClass | link | other =>
      unfold loadKeys
      cases hsub : loading.subkey with
      | none => exact hsame s (SameTree.refl s)
      | some k => exact hoption k hsub

lemma saveSubkeys_spec (hinv : Inv s) (hnamed : Named s key) (base : KeyId) :
    Avoids Unnamed (saveSubkeys c fuel s key base) fun _ => True := by
  induction fuel generalizing key with
  | zero => exact nofun
  | succ fuel ih =>
    have hsubkeys : ∀ own : List (List Name), Avoids Unnamed ((s.key key).subkeys.foldlM
          (fun saved subkey => do
            let below ← saveSubkeys c fuel s subkey base
            pure (saved ++ below))
          own)
        fun _ => True := by
      intro own
      apply Avoids.foldlM trivial
      intro saved child hchild _
      apply Avoids.bind (ih (hinv.named_of_mem hchild))
      intro _ _
      exact trivial
    unfold saveSubkeys
    dsimp only
    split
    · exact trivial
    split
    · split
      · apply Avoids.bind (dumpPath_spec hinv hnamed _)
        intro path _
        exact hsubkeys [path]
      · exact hsubkeys [[]]
    · exact hsubkeys []

lemma saveAllSubkeys_spec (hinv : Inv s) (hnamed : Named s key) :
    Avoids Unnamed (saveAllSubkeys c s key) fun _ => True := by
  apply Avoids.bind (dumpPath_spec hinv hnamed none)
  intro _ _
  apply Avoids.bind (saveSubkeys_spec hinv hnamed key)
  intro _ _
  exact trivial

def BranchesSaved (debug : Bool) (s : Server) (opened : KeyId → Bool) : Prop :=
  ∀ i ∈ s.branches, (s.key i).flags.deleted = true →
    if (s.key i).flags.dirty then opened i = false else debug = false

lemma saveBranch_spec (hinv : Inv s) (hnamed : Named s key) (opened written : KeyId → Bool) :
    Avoids Unnamed (saveBranch debug c opened written s key) (Cleaned s) := by
  unfold saveBranch
  split
  · apply Avoids.bind (dumpOperation_spec hinv hnamed)
    intro _ _
    exact Cleaned.refl s
  split
  · exact Cleaned.refl s
  apply Avoids.bind (dumpOperation_spec hinv hnamed)
  intro _ _
  apply Avoids.bind (saveAllSubkeys_spec hinv hnamed)
  intro _ _
  split
  · exact makeClean_spec hinv hnamed
  · exact Cleaned.refl s

lemma saveBranch_deleted (opened written : KeyId → Bool)
    (hsaved : if (s.key key).flags.dirty then opened key = false else debug = false) :
    saveBranch debug c opened written s key = .ok s := by
  unfold saveBranch
  cases hdirty : (s.key key).flags.dirty with
  | false =>
    rw [hdirty] at hsaved
    have hdebug : debug = false := hsaved
    subst hdebug
    rfl
  | true =>
    rw [hdirty] at hsaved
    have hopened : opened key = false := hsaved
    rw [hopened]
    rfl

lemma periodicSave_spec (hinv : Inv s) {opened : KeyId → Bool}
    (hsaved : BranchesSaved debug s opened) (written : KeyId → Bool) :
    Avoids Unnamed (periodicSave debug c opened written s) (Cleaned s) := by
  apply Avoids.foldlM (Cleaned.refl s)
  intro s₁ i hi hcleaned
  by_cases hnamed : Named s i
  · have hnamed₁ := (hcleaned.same.named_iff i).mpr hnamed
    exact (saveBranch_spec (hinv.same hcleaned.same) hnamed₁ opened written).mono
      fun _ h => hcleaned.trans h
  have hdeleted := (hinv.branches i hi).resolve_left hnamed
  have hflags := hsaved i hi hdeleted
  rw [← hcleaned.flags i hnamed] at hflags
  rw [saveBranch_deleted opened written hflags]
  exact hcleaned

lemma Inv.withHandles (hinv : Inv s) {handles : List (Nat × KeyId)}
    (hheld : ∀ e ∈ handles, Held s e.2) : Kept s { s with handles := handles } :=
  ⟨⟨hinv.child, hinv.parent, hinv.nodup, hinv.wow, hinv.fresh, hheld, hinv.branches, hinv.root⟩,
    fun _ h => h⟩

lemma allocHandle_kept (hinv : Inv s) (hheld : Held s key) : Kept s (allocHandle c s key) := by
  unfold allocHandle
  split
  · exact Kept.refl hinv
  split
  · apply hinv.withHandles
    intro e he
    obtain rfl | he := mem_cons.mp he
    · exact hheld
    · exact hinv.handles e he
  · exact Kept.refl hinv

lemma getHandleObj_held (hinv : Inv s) {hkey : Nat} (h : getHandleObj c s hkey = some key) :
    Held s key := by
  unfold getHandleObj at h
  split at h
  · obtain ⟨l₁, l₂, hl, _⟩ := lookup_eq_some_iff.mp h
    exact hinv.handles (hkey, key) (by rw [hl]; simp)
  · cases h

lemma getHkeyObj_named (hinv : Inv s) {hkey : Nat} (h : getHkeyObj c s hkey = some key) :
    Named s key := by
  obtain ⟨hkey, hopen⟩ := filter_eq_some_iff.mp h
  apply (getHandleObj_held hinv hkey).resolve_right
  simpa using hopen

variable {root : Option KeyId}

lemma rootOf_named (hinv : Inv s) {rootdir : Option Nat}
    (h : rootOf c s rootdir = some root) : ∀ k, root = some k → Named s k := by
  rintro k rfl
  unfold rootOf at h
  split at h
  · cases h
  · obtain ⟨k', hk', heq⟩ := map_eq_some_iff.mp h
    cases heq
    exact getHkeyObj_named hinv hk'

lemma withKey_spec {P : Server → Prop} {key? : Option KeyId} {f : KeyId → Except Stop Server}
    (hs : P s) (hf : ∀ k, key? = some k → Avoids Unnamed (f k) P) :
    Avoids Unnamed (withKey s key? f) P := by
  cases key? with
  | none => exact hs
  | some k => exact hf k rfl

lemma wow64Root_spec (hinv : Inv s) (hroot : ∀ k, root = some k → Named s k)
    (access : Access) (name : Name) :
    Avoids Unnamed (wow64Root toLower c s access name root)
      fun found => ∀ object, found = some object → NamedObj s object := by
  cases root with
  | none => exact nofun
  | some k =>
    apply Avoids.bind (getWow6432Parent_spec hinv (hroot k rfl) access name)
    intro found hfound object hobject
    cases hobject
    exact hfound

lemma createdKey_spec (debug : Bool) (c : Circumstances) {s₁ : Server} {created : Created}
    (parent : Option KeyId) (access : Access)
    (hcreates : Creates s (s₁, created)) :
    Avoids Unnamed (match created with
        | .failed => (pure s₁ : Except Stop Server)
        | .existing key =>
          pure (allocHandle c s₁
            (if (access.of c).wow64Key64 then key else grabWow6432node s₁ key))
        | .new key => do
          let s := allocHandle c s₁ key
          let s ←
            if parent.isSome then do
              match ← getParent s key with
              | none => .error .nullKey
              | some parent => touchKey c.fuel c.now s parent
            else pure s
          let _ ← dumpOperation debug c.fuel s key
          pure s) Inv := by
  have hinv₁ := hcreates.kept.inv
  cases created with
  | failed => exact hinv₁
  | existing k =>
    have hk : Named s₁ k := hcreates.named k (.inl rfl)
    apply (allocHandle_kept hinv₁ _).inv
    split
    · exact .inl hk
    · exact .inl (grabWow6432node_named hinv₁ hk)
  | new k =>
    have hk : Named s₁ k := hcreates.named k (.inr rfl)
    obtain ⟨hinv₂, hgrows⟩ := allocHandle_kept (c := c) hinv₁ (.inl hk)
    have hk₂ := hgrows k hk
    dsimp only
    split
    · apply Avoids.bind (getParent_spec hinv₂ hk₂)
      intro parent hparent
      cases parent with
      | none => rintro ⟨⟩
      | some p =>
        apply Avoids.bind (touchKey_spec hinv₂ (hparent p rfl) _)
        intro s₃ hsame
        have hinv₃ := hinv₂.same hsame
        apply Avoids.bind (dumpOperation_spec hinv₃ ((hsame.named_iff k).mpr hk₂))
        intro _ _
        exact hinv₃
    · apply Avoids.bind (dumpOperation_spec hinv₂ hk₂)
      intro _ _
      exact hinv₂

lemma createKeyRequest_spec (hinv : Inv s) (rootdir : Option Nat) (name : Name) (attr : Attributes)
    (sd : Bool) (access : Access) (data : KeyInitData) :
    Avoids Unnamed (createKeyRequest toLower debug c s rootdir name attr sd access data) Inv := by
  unfold createKeyRequest
  dsimp only
  generalize (if data.createLink = true then _ else _ : Attributes) = attr'
  cases hroot : rootOf c s rootdir with
  | none => exact hinv
  | some parent =>
    have hparent := rootOf_named hinv hroot
    apply Avoids.bind (wow64Root_spec hinv hparent _ name)
    intro root hroot
    split
    · rename_i hname
      exact (createNamedObject_spec hinv ⟨root, name, attr', sd, _⟩ hname hroot).bind
        fun r hr => createdKey_spec debug c parent access hr
    apply Avoids.bind (openNamedObject_spec hinv hroot name attr')
    intro found hfound
    cases found with
    | none => exact createdKey_spec debug c parent access (Creates.failed (Kept.refl hinv))
    | some k => exact createdKey_spec debug c parent access (Creates.existing hinv (hfound k rfl))

lemma openKeyRequest_spec (hinv : Inv s) (parent : Option Nat) (name : Name) (attr : Attributes)
    (access : Access) :
    Avoids Unnamed (openKeyRequest toLower debug c s parent name attr access) Inv := by
  unfold openKeyRequest
  cases hroot : rootOf c s parent with
  | none => exact hinv
  | some parent =>
    apply Avoids.bind (wow64Root_spec hinv (rootOf_named hinv hroot) _ name)
    intro root hroot
    apply Avoids.bind (openNamedObject_spec hinv hroot name _)
    intro found hfound
    cases found with
    | none => exact hinv
    | some k =>
      dsimp only
      generalize hchosen :
        (if (access.of c).wow64Key64 = true then k else grabWow6432node s k) = key
      have hkey : Named s key := by
        rw [← hchosen]
        split
        · exact hfound k rfl
        · exact grabWow6432node_named hinv (hfound k rfl)
      obtain ⟨hinv₁, hgrows⟩ := allocHandle_kept (c := c) hinv (.inl hkey)
      apply Avoids.bind (dumpOperation_spec hinv₁ (hgrows key hkey))
      intro _ _
      exact hinv₁

def FileFilled (file : Option RegistryFile) : Prop :=
  ∀ lines, file = some (some lines) → ∀ line ∈ lines, line.Filled

lemma rootObj_named (hroot : ∀ k, root = some k → Named s k) :
    ∀ object, root.map Obj.key = some object → NamedObj s object := by
  intro object hobject
  obtain ⟨k, hk, rfl⟩ := map_eq_some_iff.mp hobject
  exact hroot k hk

lemma loadRegistryRequest_spec (hinv : Inv s) (rootdir : Option Nat) (name : Name)
    (attr : Attributes) (sd : Bool) (file : Option RegistryFile)
    (hgood : c.privileged = true → (rootOf c s rootdir).isSome →
      (name = [] → (allocKey s sd).2 = none) ∧ FileFilled file) :
    Avoids Unnamed (loadRegistryRequest toLower c s rootdir name attr sd file) Inv := by
  unfold loadRegistryRequest
  split
  · exact hinv
  rename_i hprivileged
  cases hroot : rootOf c s rootdir with
  | none => exact hinv
  | some parent =>
    rw [hroot] at hgood
    obtain ⟨hname, hfile⟩ := hgood (by simpa using hprivileged) rfl
    have hcreates : Avoids Unnamed (createNamedObject toLower c s
          ⟨parent.map .key, name, attr, sd, ⟨false, false, [], c.now⟩⟩) (Creates s) := by
      by_cases hempty : name = []
      · obtain ⟨hsame, _⟩ := allocKey_spec s sd
        have hnone := hname hempty
        unfold createNamedObject createObjectWithName createObjectWithoutName
        rw [if_pos hempty]
        generalize allocKey s sd = allocated at hsame hnone ⊢
        obtain ⟨s₁, key?⟩ := allocated
        subst hnone
        exact Creates.failed (hinv.kept hsame)
      · exact createNamedObject_spec hinv ⟨parent.map .key, name, attr, sd, _⟩ hempty
          (rootObj_named (rootOf_named hinv hroot))
    apply Avoids.bind hcreates
    rintro ⟨s₁, created⟩ hcreated
    have hload : ∀ k lines, Named s₁ k → file = some (some lines) →
        Avoids Unnamed (loadKeys toLower c k lines s₁ ⟨none, c.now, none⟩ >>= fun r => pure r.1)
          Inv := by
      intro k lines hk hlines
      have hnone : ∀ k', (Loading.mk none c.now none).subkey = some k' → Named s₁ k' := by
        intro k' hk'
        cases hk'
      apply Avoids.bind (loadKeys_spec hcreated.kept.inv hk (hfile lines hlines) hnone)
      rintro r hr
      exact hr.inv
    dsimp only
    split
    · rename_i k lines
      exact hload k lines (hcreated.named k (.inl rfl)) rfl
    · rename_i k lines
      exact hload k lines (hcreated.named k (.inr rfl)) rfl
    · exact hcreated.kept.inv

lemma unloadRegistryRequest_spec (hinv : Inv s) (parent : Option Nat) (name : Name)
    (attr : Attributes) :
    Avoids Unnamed (unloadRegistryRequest toLower debug c s parent name attr) Inv := by
  unfold unloadRegistryRequest
  split
  · exact hinv
  cases hroot : rootOf c s parent with
  | none => exact hinv
  | some parent =>
    apply Avoids.bind (openNamedObject_spec hinv (rootObj_named (rootOf_named hinv hroot)) name attr)
    intro found hfound
    cases found with
    | none => exact hinv
    | some k =>
      dsimp only
      split
      · exact hinv
      · apply Avoids.bind (deleteKey_spec hinv (.inl (hfound k rfl)) true)
        intro r hr
        exact hr

end WineForge.KeyTree
