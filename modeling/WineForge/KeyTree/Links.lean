import WineForge.KeyTree.Walks

/-!
# Links that come and go

A key that is created is linked below a key with a name before it is used, a key that is renamed
stays where it is linked, and a key that is deleted is marked before it loses its name.
-/

namespace WineForge.KeyTree

open List WineForge.Library
open WineForge.Registry (WChar Name KeyValue)

variable {toLower : WChar → WChar} {debug : Bool} {c : Circumstances} {s s' s'' : Server}
  {i key parent : KeyId} {f : Key → Key} {fuel : Nat}

@[simp] lemma modify_key_self : (s.modify i f).key i = f (s.key i) :=
  if_pos rfl

@[simp] lemma modify_key_ne {j : KeyId} (h : j ≠ i) : (s.modify i f).key j = s.key j :=
  if_neg h

/-- A key that was not in use is linked below `parent`. -/
structure LinkedBelow (s s' : Server) (key parent : KeyId) : Prop where
  name : ∃ name, (s'.key key).name = some name ∧ name.parent = .key parent
  own : (s'.key key).shape.2 = ([], none, false)
  subkeys : ∃ index ≤ (s.key parent).subkeys.length,
    (s'.key parent).subkeys = (s.key parent).subkeys.insertIdx index key
  wow : (s'.key parent).wow6432node = (s.key parent).wow6432node ∨
    (s'.key parent).wow6432node = some key
  stays : (s'.key parent).name = (s.key parent).name ∧
    (s'.key parent).flags.deleted = (s.key parent).flags.deleted
  others : ∀ i, i ≠ key → i ≠ parent → (s'.key i).shape = (s.key i).shape
  next : s.next ≤ s'.next
  rootKey : s'.rootKey = s.rootKey
  handles : s'.handles = s.handles
  branches : s'.branches = s.branches

lemma LinkedBelow.name_eq (h : LinkedBelow s s' key parent) (hi : i ≠ key) :
    (s'.key i).name = (s.key i).name := by
  by_cases hp : i = parent
  · subst hp
    exact h.stays.1
  · exact congrArg Prod.fst (h.others i hi hp)

lemma LinkedBelow.own_subkeys (h : LinkedBelow s s' key parent) : (s'.key key).subkeys = [] :=
  congrArg Prod.fst h.own

variable {child : KeyId} {name : ObjectName}

lemma LinkedBelow.mem_subkeys (h : LinkedBelow s s' key parent) :
    child ∈ (s'.key parent).subkeys ↔ child = key ∨ child ∈ (s.key parent).subkeys := by
  obtain ⟨index, hindex, hsubkeys⟩ := h.subkeys
  rw [hsubkeys, mem_insertIdx hindex]

lemma LinkedBelow.subkeys_eq (h : LinkedBelow s s' key parent) (hi : i ≠ key) (hp : i ≠ parent) :
    (s'.key i).subkeys = (s.key i).subkeys :=
  congrArg (fun shape => shape.2.1) (h.others i hi hp)

lemma LinkedBelow.kept (h : LinkedBelow s s' key parent) (hinv : Inv s) (hparent : Named s parent)
    (hnew : (s.key key).name = none) (hlt : parent < key) (hnext : key < s.next) : Kept s s' := by
  have hunlinked : ∀ i, key ∉ (s.key i).subkeys := by
    intro i hmem
    obtain ⟨name, hname, _⟩ := hinv.child i key hmem
    rw [hnew] at hname
    cases hname
  have hgrows : Grows s s' := by
    rintro i ⟨name, hname⟩
    have hi : i ≠ key := by
      rintro rfl
      rw [hnew] at hname
      cases hname
    exact ⟨name, (h.name_eq hi).trans hname⟩
  have hheld : ∀ i, i ≠ key → Held s i → Held s' i := by
    intro i hi hheld
    rcases hheld with hnamed | hdeleted
    · exact .inl (hgrows i hnamed)
    right
    by_cases hp : i = parent
    · subst hp
      exact h.stays.2.trans hdeleted
    · exact (congrArg (fun shape => shape.2.2.2) (h.others i hi hp)).trans hdeleted
  refine ⟨?_, hgrows⟩
  constructor
  · intro i child hchild
    by_cases hi : i = key
    · subst hi
      rw [h.own_subkeys] at hchild
      cases hchild
    by_cases hp : i = parent
    · subst hp
      obtain rfl | hold := h.mem_subkeys.mp hchild
      · exact h.name
      · rw [h.name_eq (by rintro rfl; exact hunlinked _ hold)]
        exact hinv.child i child hold
    · rw [h.subkeys_eq hi hp] at hchild
      rw [h.name_eq (by rintro rfl; exact hunlinked _ hchild)]
      exact hinv.child i child hchild
  · intro child name p hname hp
    by_cases hchild : child = key
    · subst hchild
      obtain ⟨name', hname', hp'⟩ := h.name
      rw [hname'] at hname
      cases hname
      rw [hp'] at hp
      cases hp
      exact ⟨hgrows _ hparent, hlt, h.mem_subkeys.mpr (.inl rfl)⟩
    rw [h.name_eq hchild] at hname
    obtain ⟨hnamed, hless, hmem⟩ := hinv.parent child name p hname hp
    refine ⟨hgrows p hnamed, hless, ?_⟩
    by_cases hpp : p = parent
    · subst hpp
      exact h.mem_subkeys.mpr (.inr hmem)
    have hpk : p ≠ key := by
      rintro rfl
      obtain ⟨name', hname'⟩ := hnamed
      rw [hnew] at hname'
      cases hname'
    rw [h.subkeys_eq hpk hpp]
    exact hmem
  · intro i
    by_cases hi : i = key
    · subst hi
      rw [h.own_subkeys]
      exact nodup_nil
    by_cases hp : i = parent
    · subst hp
      obtain ⟨index, hindex, hsubkeys⟩ := h.subkeys
      rw [hsubkeys, (perm_insertIdx key _ hindex).nodup_iff]
      exact nodup_cons.mpr ⟨hunlinked i, hinv.nodup i⟩
    · rw [h.subkeys_eq hi hp]
      exact hinv.nodup i
  · intro i node hnode
    by_cases hi : i = key
    · subst hi
      have hnone : (s'.key i).wow6432node = none := congrArg (fun own => own.2.1) h.own
      rw [hnone] at hnode
      cases hnode
    by_cases hp : i = parent
    · subst hp
      rcases h.wow with hsame | hset
      · rw [hsame] at hnode
        exact h.mem_subkeys.mpr (.inr (hinv.wow i node hnode))
      · rw [hset] at hnode
        cases hnode
        exact h.mem_subkeys.mpr (.inl rfl)
    · have hwow := congrArg (fun shape => shape.2.2.1) (h.others i hi hp)
      rw [h.subkeys_eq hi hp]
      exact hinv.wow i node (hwow.symm.trans hnode)
  · intro i hi
    have hi := h.next.trans hi
    have hk : i ≠ key := (lt_of_lt_of_le hnext hi).ne'
    have hp : i ≠ parent := (lt_of_lt_of_le (hinv.lt_next hparent) hi).ne'
    rw [h.others i hk hp]
    exact hinv.fresh i hi
  · intro e he
    rw [h.handles] at he
    by_cases hk : e.2 = key
    · left
      rw [hk]
      obtain ⟨name, hname, _⟩ := h.name
      exact ⟨name, hname⟩
    · exact hheld _ hk (hinv.handles e he)
  · intro i hi
    rw [h.branches] at hi
    by_cases hk : i = key
    · left
      rw [hk]
      obtain ⟨name, hname, _⟩ := h.name
      exact ⟨name, hname⟩
    · exact hheld i hk (hinv.branches i hi)
  · intro r hr
    rw [h.rootKey] at hr
    obtain ⟨hzero, hnamed⟩ := hinv.root r hr
    exact ⟨hzero, hgrows r hnamed⟩

/-- A key without subkeys is unlinked from `parent`. -/
structure UnlinkedFrom (s s' : Server) (key parent : KeyId) : Prop where
  name : (s'.key key).name = none
  own : (s'.key key).subkeys = [] ∧ (s'.key key).wow6432node = none ∧
    (s'.key key).flags.deleted = (s.key key).flags.deleted
  subkeys : (s'.key parent).subkeys = (s.key parent).subkeys.erase key
  wow : ∀ node, (s'.key parent).wow6432node = some node →
    (s.key parent).wow6432node = some node ∧ node ≠ key
  stays : (s'.key parent).name = (s.key parent).name ∧
    (s'.key parent).flags.deleted = (s.key parent).flags.deleted
  others : ∀ i, i ≠ key → i ≠ parent → (s'.key i).shape = (s.key i).shape
  next : s.next ≤ s'.next
  rootKey : s'.rootKey = s.rootKey
  handles : s'.handles = s.handles
  branches : s'.branches = s.branches

section

variable (h : UnlinkedFrom s s' key parent)

include h

lemma UnlinkedFrom.name_eq (hi : i ≠ key) : (s'.key i).name = (s.key i).name := by
  by_cases hp : i = parent
  · subst hp
    exact h.stays.1
  · exact congrArg Prod.fst (h.others i hi hp)

lemma UnlinkedFrom.mem_subkeys (hinv : Inv s)
    (hi : i ≠ key) (hchild : child ∈ (s.key i).subkeys) (hne : child ≠ key) :
    child ∈ (s'.key i).subkeys := by
  by_cases hp : i = parent
  · subst hp
    rw [h.subkeys]
    exact (hinv.nodup i).mem_erase_iff.mpr ⟨hne, hchild⟩
  have hsame : (s'.key i).subkeys = (s.key i).subkeys :=
    congrArg (fun shape => shape.2.1) (h.others i hi hp)
  rw [hsame]
  exact hchild

lemma UnlinkedFrom.of_mem_subkeys (hinv : Inv s)
    (hparent : ∀ i, key ∈ (s.key i).subkeys → i = parent)
    (hchild : child ∈ (s'.key i).subkeys) :
    i ≠ key ∧ child ≠ key ∧ child ∈ (s.key i).subkeys := by
  have hi : i ≠ key := by
    rintro rfl
    rw [h.own.1] at hchild
    cases hchild
  by_cases hp : i = parent
  · subst hp
    rw [h.subkeys] at hchild
    obtain ⟨hne, hmem⟩ := (hinv.nodup i).mem_erase_iff.mp hchild
    exact ⟨hi, hne, hmem⟩
  have hsame : (s'.key i).subkeys = (s.key i).subkeys :=
    congrArg (fun shape => shape.2.1) (h.others i hi hp)
  rw [hsame] at hchild
  refine ⟨hi, ?_, hchild⟩
  rintro rfl
  exact hp (hparent i hchild)

lemma UnlinkedFrom.inv (hinv : Inv s)
    (hname : (s.key key).name = some name) (hp : name.parent = .key parent)
    (hempty : (s.key key).subkeys = [])
    (hheld : (s.key key).flags.deleted = true ∨
      (∀ e ∈ s.handles, e.2 ≠ key) ∧ key ∉ s.branches) : Inv s' := by
  obtain ⟨hparent, hlt, hmem⟩ := hinv.parent key name parent hname hp
  have hchildOf : ∀ i, key ∈ (s.key i).subkeys → i = parent := by
    intro i hi
    obtain ⟨name', hname', hp'⟩ := hinv.child i key hi
    rw [hname] at hname'
    cases hname'
    rw [hp] at hp'
    cases hp'
    rfl
  have hnamed : ∀ i, i ≠ key → Named s i → Named s' i := by
    rintro i hi ⟨name, hname⟩
    exact ⟨name, (h.name_eq hi).trans hname⟩
  have hkeeps : ∀ i, i ≠ key → Held s i → Held s' i := by
    intro i hi hheld
    rcases hheld with hold | hdeleted
    · exact .inl (hnamed i hi hold)
    right
    by_cases hpi : i = parent
    · subst hpi
      exact h.stays.2.trans hdeleted
    · exact (congrArg (fun shape => shape.2.2.2) (h.others i hi hpi)).trans hdeleted
  have hholds : ∀ i, Held s i → (i = key → (s.key key).flags.deleted = true) → Held s' i := by
    intro i hi hdeleted
    by_cases hk : i = key
    · subst hk
      exact .inr (h.own.2.2.trans (hdeleted rfl))
    · exact hkeeps i hk hi
  constructor
  · intro i child hchild
    obtain ⟨_, hne, hold⟩ := h.of_mem_subkeys hinv hchildOf hchild
    rw [h.name_eq hne]
    exact hinv.child i child hold
  · intro child name' p hname' hp'
    have hne : child ≠ key := by
      rintro rfl
      rw [h.name] at hname'
      cases hname'
    rw [h.name_eq hne] at hname'
    obtain ⟨hpn, hless, hold⟩ := hinv.parent child name' p hname' hp'
    have hpk : p ≠ key := by
      rintro rfl
      rw [hempty] at hold
      cases hold
    exact ⟨hnamed p hpk hpn, hless, h.mem_subkeys hinv hpk hold hne⟩
  · intro i
    by_cases hk : i = key
    · subst hk
      rw [h.own.1]
      exact nodup_nil
    by_cases hpi : i = parent
    · subst hpi
      rw [h.subkeys]
      exact (hinv.nodup i).erase key
    have hsame : (s'.key i).subkeys = (s.key i).subkeys :=
      congrArg (fun shape => shape.2.1) (h.others i hk hpi)
    rw [hsame]
    exact hinv.nodup i
  · intro i node hnode
    by_cases hk : i = key
    · subst hk
      rw [h.own.2.1] at hnode
      cases hnode
    by_cases hpi : i = parent
    · subst hpi
      obtain ⟨hold, hne⟩ := h.wow node hnode
      exact h.mem_subkeys hinv hk (hinv.wow i node hold) hne
    have hsame : (s'.key i).wow6432node = (s.key i).wow6432node :=
      congrArg (fun shape => shape.2.2.1) (h.others i hk hpi)
    have hold := hinv.wow i node (hsame.symm.trans hnode)
    refine h.mem_subkeys hinv hk hold ?_
    rintro rfl
    exact hpi (hchildOf i hold)
  · intro i hi
    have hi := h.next.trans hi
    have hk : i ≠ key := (lt_of_lt_of_le (hinv.lt_next ⟨name, hname⟩) hi).ne'
    have hpi : i ≠ parent := (lt_of_lt_of_le (hinv.lt_next hparent) hi).ne'
    rw [h.others i hk hpi]
    exact hinv.fresh i hi
  · intro e he
    rw [h.handles] at he
    apply hholds _ (hinv.handles e he)
    intro hk
    rcases hheld with hdeleted | ⟨hfree, _⟩
    · exact hdeleted
    · exact absurd hk (hfree e he)
  · intro i hi
    rw [h.branches] at hi
    apply hholds _ (hinv.branches i hi)
    rintro rfl
    rcases hheld with hdeleted | ⟨_, hfree⟩
    · exact hdeleted
    · exact absurd hi hfree
  · intro r hr
    rw [h.rootKey] at hr
    obtain ⟨rfl, hroot⟩ := hinv.root r hr
    exact ⟨rfl, hnamed 0 (Nat.ne_of_lt (Nat.lt_of_le_of_lt (Nat.zero_le _) hlt)) hroot⟩

end

lemma unlinkNamedObject_unlinks (hinv : Inv s)
    (hname : (s.key key).name = some name) (hp : name.parent = .key parent)
    (hempty : (s.key key).subkeys = []) :
    UnlinkedFrom s (unlinkNamedObject s key) key parent := by
  have hne : parent ≠ key := (hinv.parent key name parent hname hp).2.1.ne
  have hwow : (s.key key).wow6432node = none := by
    cases hnode : (s.key key).wow6432node with
    | none => rfl
    | some node =>
      have hmem := hinv.wow key node hnode
      rw [hempty] at hmem
      cases hmem
  obtain ⟨str, above⟩ := name
  subst hp
  unfold unlinkNamedObject keyUnlinkName
  rw [hname]
  dsimp only
  generalize hshrink : memAllocIf _ (s.modify key fun k => { k with name := none }) = r
  have hsame : SameTree (s.modify key fun k => { k with name := none }) r.2 :=
    hshrink ▸ SameTree.memAllocIf _ _
  constructor
  · rw [modify_key_ne hne.symm, hsame.name_eq, modify_key_self]
  · rw [modify_key_ne hne.symm, hsame.subkeys_eq, hsame.wow6432node_eq, hsame.deleted_eq,
      modify_key_self]
    exact ⟨hempty, hwow, rfl⟩
  · rw [modify_key_self, modify_key_ne hne]
  · intro node hnode
    rw [modify_key_self] at hnode
    rw [hsame.wow6432node_eq, modify_key_ne hne] at hnode
    split at hnode
    · cases hnode
    rename_i hother
    refine ⟨hnode, ?_⟩
    rintro rfl
    exact hother hnode
  · rw [modify_key_self]
    constructor
    · exact (hsame.name_eq parent).trans (by rw [modify_key_ne hne])
    · exact (hsame.deleted_eq parent).trans (by rw [modify_key_ne hne])
  · intro i hk hpi
    rw [modify_key_ne hpi, hsame.shape, modify_key_ne hk]
  · exact hsame.next
  · exact hsame.rootKey
  · exact hsame.handles
  · exact hsame.branches

lemma memAlloc_next (s : Server) : (memAlloc s).2.next = s.next := by
  unfold memAlloc
  split
  · rfl
  · rfl

lemma allocKey_spec (s : Server) (sd : Bool) : SameTree s (allocKey s sd).1 ∧
      ∀ k, (allocKey s sd).2 = some k → k = s.next ∧ k < (allocKey s sd).1.next := by
  have hfirst := SameTree.memAlloc s
  have hnext := memAlloc_next s
  unfold allocKey
  generalize memAlloc s = first at hfirst hnext ⊢
  obtain ⟨ok, s₁⟩ := first
  dsimp only at hfirst hnext ⊢
  split
  · exact ⟨hfirst, nofun⟩
  have htaken : SameTree s { s₁ with next := s₁.next + 1 } :=
    ⟨hfirst.shape, hfirst.next.trans (Nat.le_succ _), hfirst.rootKey, hfirst.handles,
      hfirst.branches⟩
  generalize hsecond : memAllocIf sd _ = second
  have hsame : SameTree { s₁ with next := s₁.next + 1 } second.2 :=
    hsecond ▸ SameTree.memAllocIf sd _
  split
  · exact ⟨htaken.trans hsame, nofun⟩
  refine ⟨htaken.trans hsame, ?_⟩
  intro k hk
  cases hk
  exact ⟨hnext, hsame.next⟩

lemma Inv.named_directory (hinv : Inv s) (str : Name) (hnew : (s.key key).name = none)
    (hnext : key < s.next) :
    Kept s (s.modify key fun k => { k with name := some ⟨str, .directory⟩ }) := by
  have hname : ∀ i, i ≠ key →
      (s.modify key fun k => { k with name := some ⟨str, .directory⟩ }).key i = s.key i :=
    fun i hi => modify_key_ne hi
  have hshape : ∀ i,
      ((s.modify key fun k => { k with name := some ⟨str, .directory⟩ }).key i).shape.2 =
        (s.key i).shape.2 := by
    intro i
    by_cases hi : i = key
    · subst hi
      rw [modify_key_self]
      rfl
    · rw [hname i hi]
  have hgrows : Grows s (s.modify key fun k => { k with name := some ⟨str, .directory⟩ }) := by
    rintro i ⟨name, hi⟩
    refine ⟨name, ?_⟩
    rw [hname i]
    · exact hi
    · rintro rfl
      rw [hnew] at hi
      cases hi
  have hsubkeys : ∀ i,
      ((s.modify key fun k => { k with name := some ⟨str, .directory⟩ }).key i).subkeys =
        (s.key i).subkeys := fun i => congrArg Prod.fst (hshape i)
  have hheld : ∀ i, Held s i →
      Held (s.modify key fun k => { k with name := some ⟨str, .directory⟩ }) i := by
    intro i hi
    rcases hi with hnamed | hdeleted
    · exact .inl (hgrows i hnamed)
    · exact .inr ((congrArg (fun shape => shape.2.2) (hshape i)).trans hdeleted)
  refine ⟨?_, hgrows⟩
  constructor
  · intro i child hchild
    rw [hsubkeys] at hchild
    obtain ⟨name, hchildName, hp⟩ := hinv.child i child hchild
    refine ⟨name, ?_, hp⟩
    rw [hname child]
    · exact hchildName
    · rintro rfl
      rw [hnew] at hchildName
      cases hchildName
  · intro child name p hchild hp
    have hne : child ≠ key := by
      rintro rfl
      rw [modify_key_self] at hchild
      cases hchild
      cases hp
    rw [hname child hne] at hchild
    obtain ⟨hnamed, hless, hmem⟩ := hinv.parent child name p hchild hp
    rw [hsubkeys]
    exact ⟨hgrows p hnamed, hless, hmem⟩
  · intro i
    rw [hsubkeys]
    exact hinv.nodup i
  · intro i node hnode
    rw [hsubkeys]
    have hwow := congrArg (fun shape => shape.2.1) (hshape i)
    exact hinv.wow i node (hwow.symm.trans hnode)
  · intro i hi
    have hk : i ≠ key := (lt_of_lt_of_le hnext hi).ne'
    rw [hname i hk]
    exact hinv.fresh i hi
  · exact fun e he => hheld _ (hinv.handles e he)
  · exact fun i hi => hheld i (hinv.branches i hi)
  · intro r hr
    obtain ⟨hzero, hnamed⟩ := hinv.root r hr
    exact ⟨hzero, hgrows r hnamed⟩

def Links (s : Server) (key : KeyId) (parent : Obj) (r : Server × Option ObjectName) : Prop :=
  (r.2 = none ∧ SameTree s r.1) ∨
    ∃ name, r.2 = some name ∧
      match parent with
      | .key p =>
        name.parent = .key p ∧
          LinkedBelow s (r.1.modify key fun k => { k with name := some name }) key p
      | .other _ => name.parent = .directory ∧ r.1 = s

lemma keyLinkName_spec (hinv : Inv s) {object : Obj} (hobject : NamedObj s object)
    (hnew : (s.key key).shape = Key.blank.shape) (name : Name) :
    Avoids Unnamed (keyLinkName toLower c s key name object) (Links s key object) := by
  unfold keyLinkName
  cases object with
  | other id =>
    dsimp only
    split
    · exact .inr ⟨_, rfl, rfl, rfl⟩
    · exact .inl ⟨rfl, SameTree.refl s⟩
  | key p =>
    have hne : p ≠ key := by
      rintro rfl
      obtain ⟨name, hname⟩ := hobject
      have hnone : (s.key p).name = none := congrArg Prod.fst hnew
      rw [hnone] at hname
      cases hname
    have hown : (s.key key).shape.2 = ([], none, false) := congrArg Prod.snd hnew
    dsimp only
    generalize hgrow : memAllocIf _ s = grown
    have hsame : SameTree s grown.2 := hgrow ▸ SameTree.memAllocIf _ s
    split
    · exact .inl ⟨rfl, hsame⟩
    rename_i nb _
    apply Avoids.bind (findSubkey_spec (hinv.same hsame) name)
    rintro ⟨found, index⟩ ⟨_, hindex⟩
    rw [hsame.subkeys_eq] at hindex
    dsimp only at hindex ⊢
    -- the state with the subkey, before and after the key becomes the node of its parent
    have hlinked : ∀ wow : Option KeyId → Option KeyId, (∀ old, wow old = old ∨ wow old = some key) →
        Links s key (.key p) (grown.2.modify p fun k =>
            { k with
              nbSubkeys := nb
              subkeys := k.subkeys.insertIdx index key
              wow6432node := wow k.wow6432node }, some ⟨name, .key p⟩) := by
      intro wow hwow
      right
      refine ⟨_, rfl, rfl, ?_⟩
      constructor
      · rw [modify_key_self]
        exact ⟨_, rfl, rfl⟩
      · rw [modify_key_self, modify_key_ne hne.symm]
        exact (congrArg Prod.snd (hsame.shape key)).trans hown
      · refine ⟨index, hindex, ?_⟩
        rw [modify_key_ne hne, modify_key_self]
        rw [hsame.subkeys_eq]
      · rw [modify_key_ne hne, modify_key_self]
        rw [hsame.wow6432node_eq]
        exact hwow _
      · rw [modify_key_ne hne, modify_key_self]
        exact ⟨hsame.name_eq p, hsame.deleted_eq p⟩
      · intro i hk hp
        rw [modify_key_ne hk, modify_key_ne hp, hsame.shape]
      · exact hsame.next
      · exact hsame.rootKey
      · exact hsame.handles
      · exact hsame.branches
    split
    · have hnamed : Named (grown.2.modify p fun k =>
          { k with nbSubkeys := nb, subkeys := k.subkeys.insertIdx index key }) p := by
        obtain ⟨name, hname⟩ := hobject
        refine ⟨name, ?_⟩
        rw [modify_key_self]
        exact (hsame.name_eq p).trans hname
      apply Avoids.bind (nameOf_spec hnamed)
      intro parentName _
      split
      · exact hlinked id fun _ => .inl rfl
      have hset := hlinked (fun _ => some key) fun _ => .inr rfl
      have htwice : ((grown.2.modify p fun k =>
          { k with nbSubkeys := nb, subkeys := k.subkeys.insertIdx index key }).modify p
            fun k => { k with wow6432node := some key }) =
          grown.2.modify p fun k =>
            { k with
              nbSubkeys := nb
              subkeys := k.subkeys.insertIdx index key
              wow6432node := some key } := by
        unfold Server.modify
        congr 1
        funext i
        by_cases hi : i = p
        · simp only [hi, if_true]
        · simp only [if_neg hi]
      rw [htwice]
      exact hset
    · exact hlinked id fun _ => .inl rfl
lemma keyInit_spec (hinv : Inv s) (hnamed : Named s key)
    (hown : (s.key key).shape.2 = ([], none, false)) (data : KeyInitData) :
    Avoids Unnamed (keyInit s key data) fun r => SameTree s r.1 := by
  apply Avoids.bind (getParent_spec hinv hnamed)
  intro parent _
  have hcleared : SameTree s
      (s.modify key fun k => { Key.blank with name := k.name, modif := data.modif }) :=
    SameTree.modify (Prod.ext rfl hown.symm)
  dsimp only
  generalize hcopy : memAllocIf _ (s.modify key _) = copied
  have hcopied := hcleared.trans (hcopy ▸ SameTree.memAllocIf _ _)
  obtain ⟨ok, s₁⟩ := copied
  have hflags : (s₁.key key).flags.deleted = false :=
    (hcopied.deleted_eq key).trans (congrArg (fun own => own.2.2) hown)
  split
  · exact hcopied
  generalize hset : s₁.modify key _ = s₂
  have hsame : SameTree s s₂ := by
    rw [← hset]
    apply hcopied.trans
    apply SameTree.modify
    unfold Key.shape
    rw [hflags]
    rfl
  split
  · apply hsame.trans
    dsimp only
    exact SameTree.modify rfl
  split
  · exact hsame
  · apply hsame.trans
    dsimp only
    exact SameTree.modify rfl

/-- What a request for a key returns. -/
structure Creates (s : Server) (r : Server × Created) : Prop where
  kept : Kept s r.1
  named : ∀ k, r.2 = .existing k ∨ r.2 = .new k → Named r.1 k
  fresh : ∀ k, r.2 = .new k → k = s.next

lemma Creates.failed (h : Kept s s') : Creates s (s', .failed) where
  kept := h
  named := by
    rintro k (h | h)
    · cases h
    · cases h
  fresh := nofun

lemma Creates.existing (hinv : Inv s) (hnamed : Named s key) : Creates s (s, .existing key) where
  kept := Kept.refl hinv
  named := by
    rintro k (h | h)
    · cases h
      exact hnamed
    · cases h
  fresh := nofun

lemma Creates.new (h : Kept s s') (hnamed : Named s' key) (hkey : key = s.next) :
    Creates s (s', .new key) where
  kept := h
  named := by
    rintro k (h | h)
    · cases h
    · cases h
      exact hnamed
  fresh := by
    rintro k h
    cases h
    exact hkey

lemma Creates.same {created : Created} (h : Creates s (s', created)) (hsame : SameTree s' s'') :
    Creates s (s'', created) where
  kept := h.kept.trans (h.kept.inv.kept hsame)
  named k hk := (hsame.named_iff k).mpr (h.named k hk)
  fresh := h.fresh

lemma initLinked_spec (hkept : Kept s s')
    (hname : (s'.key key).name = some name) (hown : (s'.key key).shape.2 = ([], none, false))
    (hkey : key = s.next)
    (hunlink : ∀ s'', SameTree s' s'' → Kept s (unlinkNamedObject s'' key)) (data : KeyInitData) :
    Avoids Unnamed (do
        let (s, ok) ← keyInit s' key data
        if ok then pure (s, .new key) else pure (unlinkNamedObject s key, .failed))
      (Creates s) := by
  apply Avoids.bind (keyInit_spec hkept.inv ⟨name, hname⟩ hown data)
  rintro ⟨s₁, ok⟩ hsame
  dsimp only at hsame ⊢
  split
  · have hnamed : Named s₁ key := (hsame.named_iff key).mpr ⟨name, hname⟩
    exact Creates.new (hkept.trans (hkept.inv.kept hsame)) hnamed hkey
  · exact Creates.failed (hunlink s₁ hsame)

section

variable (hinv : Inv s)

include hinv

lemma unlink_linked (h : LinkedBelow s s' key parent) (hkept : Kept s s')
    (hfree : ¬Held s key) (hsame : SameTree s' s'') :
    Kept s (unlinkNamedObject s'' key) := by
  have hinv'' := hkept.inv.same hsame
  obtain ⟨name, hname, hp⟩ := h.name
  have hname'' : (s''.key key).name = some name := (hsame.name_eq key).trans hname
  have hempty : (s''.key key).subkeys = [] := (hsame.subkeys_eq key).trans h.own_subkeys
  have hunlinks := unlinkNamedObject_unlinks hinv'' hname'' hp hempty
  constructor
  · apply hunlinks.inv hinv'' hname'' hp hempty
    right
    constructor
    · intro e he
      rw [hsame.handles, h.handles] at he
      rintro rfl
      exact hfree (hinv.handles e he)
    · intro hmem
      rw [hsame.branches, h.branches] at hmem
      exact hfree (hinv.branches key hmem)
  · rintro i ⟨name', hname'⟩
    have hi : i ≠ key := by
      rintro rfl
      exact hfree (.inl ⟨name', hname'⟩)
    refine ⟨name', ?_⟩
    rw [hunlinks.name_eq hi, hsame.name_eq, h.name_eq hi]
    exact hname'

lemma unlink_directory (hnew : (s.key key).name = none) (hp : name.parent = .directory)
    (hsame : SameTree (s.modify key fun k => { k with name := some name }) s'') :
    Kept s (unlinkNamedObject s'' key) := by
  have hname'' : (s''.key key).name = some name := by
    rw [hsame.name_eq, modify_key_self]
  obtain ⟨str, above⟩ := name
  subst hp
  apply hinv.kept
  unfold unlinkNamedObject keyUnlinkName
  rw [hname'']
  constructor
  · intro i
    by_cases hi : i = key
    · subst hi
      rw [modify_key_self]
      have hshape := hsame.shape i
      rw [modify_key_self] at hshape
      have hrest := congrArg Prod.snd hshape
      exact Prod.ext hnew.symm hrest
    · rw [modify_key_ne hi, hsame.shape, modify_key_ne hi]
  · exact hsame.next
  · exact hsame.rootKey
  · exact hsame.handles
  · exact hsame.branches

lemma createObjectWithName_spec (params : Params) (hname : params.name ≠ [])
    (hroot : ∀ object, params.root = some object → NamedObj s object) :
    Avoids Unnamed (createObjectWithName toLower c s params) (Creates s) := by
  unfold createObjectWithName
  rw [if_neg hname]
  apply Avoids.bind (lookupNamedObject_spec hinv hroot _ _)
  intro resolved hresolved
  cases resolved with
  | none => exact Creates.failed (Kept.refl hinv)
  | some found =>
    obtain ⟨object, left⟩ := found
    have hobject := hresolved object left rfl
    dsimp only
    split
    · cases object with
      | other id => exact Creates.failed (Kept.refl hinv)
      | key k =>
        dsimp only
        split
        · exact Creates.existing hinv hobject
        · exact Creates.failed (Kept.refl hinv)
    have hfirst := SameTree.memAlloc s
    have hnext := memAlloc_next s
    generalize memAlloc s = first at hfirst hnext ⊢
    obtain ⟨ok, s₁⟩ := first
    split
    · exact Creates.failed (hinv.kept hfirst)
    obtain ⟨hsecond, hnew⟩ := allocKey_spec s₁ params.sd
    generalize allocKey s₁ params.sd = second at hsecond hnew ⊢
    obtain ⟨s₂, key?⟩ := second
    have hsame := hfirst.trans hsecond
    cases key? with
    | none => exact Creates.failed (hinv.kept hsame)
    | some key =>
      obtain ⟨hkey, hlt⟩ := hnew key rfl
      rw [hnext] at hkey
      have hblank : (s.key key).shape = Key.blank.shape := hinv.fresh key hkey.ge
      have hblank₂ : (s₂.key key).shape = Key.blank.shape := (hsame.shape key).trans hblank
      have hfree : ¬Held s₂ key := by
        rintro (⟨name, hname⟩ | hdeleted)
        · cases hname.symm.trans (congrArg Prod.fst hblank₂)
        · cases hdeleted.symm.trans (congrArg (fun shape => shape.2.2.2) hblank₂)
      have hinv₂ := hinv.same hsame
      have hobject₂ : NamedObj s₂ object := by
        cases object with
        | other id => trivial
        | key p => exact (hsame.named_iff p).mpr hobject
      apply Avoids.bind (keyLinkName_spec hinv₂ hobject₂ hblank₂ _)
      rintro ⟨s₃, name?⟩ hlinks
      rcases hlinks with ⟨hnone, hsame₃⟩ | ⟨name, hsome, hlink⟩
      · subst hnone
        exact Creates.failed (hinv.kept (hsame.trans hsame₃))
      subst hsome
      cases object with
      | key p =>
        obtain ⟨hp, hbelow⟩ := hlink
        have hpk : p < key := hkey ▸ hinv.lt_next hobject
        have hkept := hbelow.kept hinv₂ hobject₂ (congrArg Prod.fst hblank₂) hpk hlt
        obtain ⟨name', hname', _⟩ := hbelow.name
        apply initLinked_spec ((hinv.kept hsame).trans hkept) hname' hbelow.own hkey
        intro s'' hsame''
        exact (hinv.kept hsame).trans (unlink_linked hinv₂ hbelow hkept hfree hsame'')
      | other id =>
        obtain ⟨hp, rfl⟩ := hlink
        have hnone : (s₃.key key).name = none := congrArg Prod.fst hblank₂
        obtain ⟨str, above⟩ := name
        subst hp
        have hkept := hinv₂.named_directory str hnone hlt
        have hown : ((s₃.modify key fun k =>
            { k with name := some ⟨str, .directory⟩ }).key key).shape.2 =
              ([], none, false) := by
          rw [modify_key_self]
          exact congrArg Prod.snd hblank₂
        have hself : ((s₃.modify key fun k =>
            { k with name := some ⟨str, .directory⟩ }).key key).name =
              some ⟨str, .directory⟩ := by
          rw [modify_key_self]
        apply initLinked_spec ((hinv.kept hsame).trans hkept) hself hown hkey
        intro s'' hsame''
        exact (hinv.kept hsame).trans (unlink_directory hinv₂ hnone rfl hsame'')

lemma createNamedObject_spec (params : Params) (hname : params.name ≠ [])
    (hroot : ∀ object, params.root = some object → NamedObj s object) :
    Avoids Unnamed (createNamedObject toLower c s params) (Creates s) := by
  apply Avoids.bind (createObjectWithName_spec hinv params hname hroot)
  rintro ⟨s₁, created⟩ hcreates
  cases created with
  | failed => exact hcreates
  | existing key | new key =>
    dsimp only
    split
    · exact hcreates.same (SameTree.modify rfl)
    · exact hcreates

lemma createElements_spec (hparent : Named s parent) {elements : List Name}
    (hfilled : [] ∉ elements) (modif : Int) :
    Avoids Unnamed (createElements toLower c modif elements s parent)
      fun r => Kept s r.1 ∧ ∀ k, r.2 = some k → Named r.1 k := by
  induction elements generalizing s parent with
  | nil =>
    refine ⟨Kept.refl hinv, ?_⟩
    intro k hk
    cases hk
    exact hparent
  | cons element elements ih =>
    obtain ⟨hne, hrest⟩ := not_or.mp (mt mem_cons.mpr hfilled)
    have hroot : ∀ object, some (Obj.key parent) = some object → NamedObj s object := by
      intro object h
      cases h
      exact hparent
    apply Avoids.bind (createNamedObject_spec hinv _ (Ne.symm hne) hroot)
    rintro ⟨s₁, created⟩ hcreates
    have hgoOn : ∀ k, Named s₁ k →
        Avoids Unnamed (createElements toLower c modif elements s₁ k)
          fun r => Kept s r.1 ∧ ∀ k, r.2 = some k → Named r.1 k := by
      intro k hk
      apply (ih hcreates.kept.inv hk hrest).mono
      rintro r ⟨hkept, hnamed⟩
      exact ⟨hcreates.kept.trans hkept, hnamed⟩
    cases created with
    | failed => exact ⟨hcreates.kept, nofun⟩
    | existing k => exact hgoOn k (hcreates.named k (.inl rfl))
    | new k => exact hgoOn k (hcreates.named k (.inr rfl))

lemma Inv.renamed (hname : (s.key key).name = some name)
    (hp : name.parent = .key parent) (str : Name) (move : List KeyId → List KeyId)
    (hperm : (move (s.key parent).subkeys).Perm (s.key parent).subkeys) :
    Kept s ((s.modify parent fun k => { k with subkeys := move k.subkeys }).modify key
      fun k => { k with name := some ⟨str, .key parent⟩ }) := by
  obtain ⟨hparent, hlt, hmem⟩ := hinv.parent key name parent hname hp
  have hne : parent ≠ key := hlt.ne
  generalize hs' : (s.modify parent fun k => { k with subkeys := move k.subkeys }).modify key
    (fun k => { k with name := some ⟨str, .key parent⟩ }) = s'
  have hother : ∀ i, i ≠ key → (s'.key i).name = (s.key i).name := by
    intro i hi
    rw [← hs', modify_key_ne hi]
    by_cases hpi : i = parent
    · rw [hpi, modify_key_self]
    · rw [modify_key_ne hpi]
  have hself : (s'.key key).name = some ⟨str, .key parent⟩ := by
    rw [← hs', modify_key_self]
  have hsubkeys : ∀ i, (s'.key i).subkeys.Perm (s.key i).subkeys := by
    intro i
    rw [← hs']
    by_cases hi : i = key
    · rw [hi, modify_key_self, modify_key_ne hne.symm]
    rw [modify_key_ne hi]
    by_cases hpi : i = parent
    · rw [hpi, modify_key_self]
      exact hperm
    · rw [modify_key_ne hpi]
  have hrest : ∀ i, (s'.key i).shape.2.2 = (s.key i).shape.2.2 := by
    intro i
    rw [← hs']
    by_cases hi : i = key
    · rw [hi, modify_key_self, modify_key_ne hne.symm]
      rfl
    rw [modify_key_ne hi]
    by_cases hpi : i = parent
    · rw [hpi, modify_key_self]
      rfl
    · rw [modify_key_ne hpi]
  have hgrows : Grows s s' := by
    rintro i ⟨old, hold⟩
    by_cases hi : i = key
    · exact ⟨_, hi ▸ hself⟩
    · exact ⟨old, (hother i hi).trans hold⟩
  have hheld : ∀ i, Held s i → Held s' i := by
    intro i hi
    rcases hi with hnamed | hdeleted
    · exact .inl (hgrows i hnamed)
    · exact .inr ((congrArg Prod.snd (hrest i)).trans hdeleted)
  refine ⟨?_, hgrows⟩
  constructor
  · intro i child hchild
    obtain ⟨old, hold, hpi⟩ := hinv.child i child ((hsubkeys i).mem_iff.mp hchild)
    by_cases hk : child = key
    · subst hk
      rw [hname] at hold
      cases hold
      rw [hp] at hpi
      exact ⟨_, hself, hpi⟩
    · exact ⟨old, (hother child hk).trans hold, hpi⟩
  · intro child old p hold hpi
    have hplace : ∃ old', (s.key child).name = some old' ∧ old'.parent = .key p := by
      by_cases hk : child = key
      · subst hk
        rw [hself] at hold
        cases hold
        exact ⟨name, hname, hp.trans hpi⟩
      · exact ⟨old, (hother child hk).symm.trans hold, hpi⟩
    obtain ⟨old', hold', hpi'⟩ := hplace
    obtain ⟨hnamed, hless, hchild⟩ := hinv.parent child old' p hold' hpi'
    exact ⟨hgrows p hnamed, hless, (hsubkeys p).mem_iff.mpr hchild⟩
  · intro i
    exact (hsubkeys i).nodup_iff.mpr (hinv.nodup i)
  · intro i node hnode
    have hwow := congrArg Prod.fst (hrest i)
    exact (hsubkeys i).mem_iff.mpr (hinv.wow i node (hwow.symm.trans hnode))
  · intro i hi
    have hi : s.next ≤ i := by
      rw [← hs'] at hi
      exact hi
    have hk : i ≠ key := (lt_of_lt_of_le (hinv.lt_next ⟨name, hname⟩) hi).ne'
    have hpi : i ≠ parent := (lt_of_lt_of_le (hinv.lt_next hparent) hi).ne'
    rw [← hs', modify_key_ne hk, modify_key_ne hpi]
    exact hinv.fresh i hi
  · intro e he
    rw [← hs'] at he
    exact hheld _ (hinv.handles e he)
  · intro i hi
    rw [← hs'] at hi
    exact hheld i (hinv.branches i hi)
  · intro r hr
    rw [← hs'] at hr
    obtain ⟨hzero, hnamed⟩ := hinv.root r hr
    exact ⟨hzero, hgrows r hnamed⟩

lemma renameKey_spec (hnamed : Named s key) (newName : Name) :
    Avoids Unnamed (renameKey toLower debug c s key newName) (Kept s) := by
  obtain ⟨name, hname⟩ := hnamed
  apply Avoids.bind (getParent_name_spec hname)
  intro parent hparent
  dsimp only
  split
  · exact Kept.refl hinv
  cases parent with
  | none => exact Kept.refl hinv
  | some p =>
    have hp := hparent p rfl
    apply Avoids.bind (findSubkey_spec hinv newName)
    rintro ⟨found, index⟩ ⟨_, hindex⟩
    split
    · exact Kept.refl hinv
    split
    · exact Kept.refl hinv
    have hsame := SameTree.memAlloc s
    generalize memAlloc s = copied at hsame ⊢
    obtain ⟨ok, s₁⟩ := copied
    have hkept₁ := hinv.kept hsame
    split
    · exact hkept₁
    have hname₁ : (s₁.key key).name = some name := (hsame.name_eq key).trans hname
    obtain ⟨_, _, hmem⟩ := hkept₁.inv.parent key name p hname₁ hp
    rw [← hsame.subkeys_eq] at hindex
    generalize hplace : (if _ < index then index - 1 else index) = place
    have hle : place ≤ ((s₁.key p).subkeys.erase key).length := by
      have hcur := findIdx_lt_length_of_exists (p := (· == key)) ⟨key, hmem, by simp⟩
      rw [length_erase_of_mem hmem, ← hplace]
      split
      · omega
      · omega
    have hperm : (((s₁.key p).subkeys.erase key).insertIdx place key).Perm (s₁.key p).subkeys :=
      (perm_insertIdx key _ hle).trans (perm_cons_erase hmem).symm
    have hrenamed := hkept₁.trans
      (hkept₁.inv.renamed hname₁ hp newName (fun l => (l.erase key).insertIdx place key) hperm)
    generalize (s₁.modify p _).modify key _ = s₂ at hrenamed ⊢
    have hnamed₂ : Named s₂ key := hrenamed.grows key ⟨name, hname⟩
    apply Avoids.bind (dumpOperation_spec hrenamed.inv hnamed₂)
    intro _ _
    apply (touchKey_spec hrenamed.inv hnamed₂ c.now).mono
    intro s₃ htouched
    exact hrenamed.trans (hrenamed.inv.kept htouched)

end

def KeepsBelow (bound : KeyId) (s s' : Server) : Prop :=
  ∀ i, i < bound → (s'.key i).name = (s.key i).name

lemma KeepsBelow.named {bound : KeyId} (h : KeepsBelow bound s s') (hi : i < bound) :
    Named s i → Named s' i := by
  rintro ⟨name, hname⟩
  exact ⟨name, (h i hi).trans hname⟩

lemma removeKey_spec (hinv : Inv s) (hname : (s.key key).name = some name)
    (hp : name.parent = .key parent) (hempty : (s.key key).subkeys = []) (now : Int) :
    Avoids Unnamed (touchKey fuel now (unlinkNamedObject
          (s.modify key fun k => { k with flags := { k.flags with deleted := true } }) key) parent)
      fun s' => Inv s' ∧ KeepsBelow key s s' := by
  generalize hs₁ : (s.modify key fun k => { k with flags := { k.flags with deleted := true } }) = s₁
  have hself : ∀ i, (s₁.key i).name = (s.key i).name ∧ (s₁.key i).subkeys = (s.key i).subkeys ∧
      (s₁.key i).wow6432node = (s.key i).wow6432node := by
    intro i
    rw [← hs₁]
    by_cases hi : i = key
    · rw [hi, modify_key_self]
      exact ⟨rfl, rfl, rfl⟩
    · rw [modify_key_ne hi]
      exact ⟨rfl, rfl, rfl⟩
  have hnamed : ∀ i, Named s₁ i ↔ Named s i := by
    intro i
    unfold Named
    rw [(hself i).1]
  have hheld : ∀ i, Held s i → Held s₁ i := by
    intro i hi
    rcases hi with hi | hdeleted
    · exact .inl ((hnamed i).mpr hi)
    right
    rw [← hs₁]
    by_cases hi : i = key
    · rw [hi, modify_key_self]
    · rw [modify_key_ne hi]
      exact hdeleted
  have hinv₁ : Inv s₁ := by
    constructor
    · intro i child hchild
      rw [(hself i).2.1] at hchild
      rw [(hself child).1]
      exact hinv.child i child hchild
    · intro child name p hchild hp
      rw [(hself child).1] at hchild
      rw [hnamed, (hself p).2.1]
      exact hinv.parent child name p hchild hp
    · intro i
      rw [(hself i).2.1]
      exact hinv.nodup i
    · intro i node hnode
      rw [(hself i).2.2] at hnode
      rw [(hself i).2.1]
      exact hinv.wow i node hnode
    · intro i hi
      have hi : s.next ≤ i := by
        rw [← hs₁] at hi
        exact hi
      have hk : i ≠ key := (lt_of_lt_of_le (hinv.lt_next ⟨name, hname⟩) hi).ne'
      rw [← hs₁, modify_key_ne hk]
      exact hinv.fresh i hi
    · intro e he
      rw [← hs₁] at he
      exact hheld _ (hinv.handles e he)
    · intro i hi
      rw [← hs₁] at hi
      exact hheld i (hinv.branches i hi)
    · intro r hr
      rw [← hs₁] at hr
      rw [hnamed]
      exact hinv.root r hr
  have hname₁ : (s₁.key key).name = some name := (hself key).1.trans hname
  have hempty₁ : (s₁.key key).subkeys = [] := (hself key).2.1.trans hempty
  have hdeleted : (s₁.key key).flags.deleted = true := by
    rw [← hs₁, modify_key_self]
  obtain ⟨hparent, hlt, _⟩ := hinv₁.parent key name parent hname₁ hp
  have hunlinks := unlinkNamedObject_unlinks hinv₁ hname₁ hp hempty₁
  have hinv₂ := hunlinks.inv hinv₁ hname₁ hp hempty₁ (.inl hdeleted)
  have hnamed₂ : Named (unlinkNamedObject s₁ key) parent := by
    obtain ⟨name', hname'⟩ := hparent
    exact ⟨name', (hunlinks.name_eq hlt.ne).trans hname'⟩
  apply (touchKey_spec hinv₂ hnamed₂ now).mono
  intro s₃ hsame
  refine ⟨hinv₂.same hsame, ?_⟩
  intro i hi
  rw [hsame.name_eq, hunlinks.name_eq (ne_of_lt hi), (hself i).1]

/-- What deleting a key and deleting its subkeys keep. -/
structure Deletes (debug : Bool) (c : Circumstances) (fuel : Nat) : Prop where
  deleteKey : ∀ (s : Server) key recurse, Inv s → Held s key →
    Avoids Unnamed (deleteKey debug c fuel s key recurse) fun r => Inv r.1 ∧ KeepsBelow key s r.1
  deleteSubkeys : ∀ (s : Server) key, Inv s → Named s key →
    Avoids Unnamed (deleteSubkeys debug c fuel s key)
      fun r => Inv r.1 ∧ KeepsBelow (key + 1) s r.1 ∧ (r.2 = true → (r.1.key key).subkeys = [])

lemma deletes (debug : Bool) (c : Circumstances) (fuel : Nat) : Deletes debug c fuel := by
  induction fuel with
  | zero =>
    constructor
    · intro s key recurse _ _
      exact nofun
    · intro s key _ _
      exact nofun
  | succ fuel ih =>
    constructor
    · intro s key recurse hinv hheld
      have hkeeps : Inv s ∧ KeepsBelow key s s := ⟨hinv, fun _ _ => rfl⟩
      unfold KeyTree.deleteKey
      split
      · exact hkeeps
      rename_i hdeleted
      obtain ⟨name, hname⟩ : Named s key := hheld.resolve_right hdeleted
      apply Avoids.bind (getParent_name_spec hname)
      intro parent hparent
      cases parent with
      | none => exact hkeeps
      | some p =>
        have hp := hparent p rfl
        dsimp only
        split
        · exact hkeeps
        -- the key keeps its name while its subkeys are deleted
        have hrest : ∀ s₁ : Server, Inv s₁ → KeepsBelow (key + 1) s s₁ → ∀ ok : Bool,
            (ok = true → (s₁.key key).subkeys = []) →
            Avoids Unnamed (if (!ok) = true then (pure (s₁, false) : Except Stop (Server × Bool))
              else do
                let _ ← dumpOperation debug c.fuel s₁ key
                let s ← touchKey c.fuel c.now
                  (unlinkNamedObject (s₁.modify key fun k =>
                    { k with flags := { k.flags with deleted := true } }) key) p
                pure (s, true))
              fun r => Inv r.1 ∧ KeepsBelow key s r.1 := by
          intro s₁ hinv₁ hkeeps₁ ok hempty
          have hname₁ : (s₁.key key).name = some name :=
            (hkeeps₁ key (Nat.lt_succ_self key)).trans hname
          have hbelow : KeepsBelow key s s₁ := fun i hi => hkeeps₁ i (Nat.lt_succ_of_lt hi)
          cases ok with
          | false => exact ⟨hinv₁, hbelow⟩
          | true =>
            apply Avoids.bind (dumpOperation_spec hinv₁ ⟨name, hname₁⟩)
            intro _ _
            apply Avoids.bind (removeKey_spec hinv₁ hname₁ hp (hempty rfl) c.now)
            rintro s₂ ⟨hinv₂, hkeeps₂⟩
            exact ⟨hinv₂, fun i hi => (hkeeps₂ i hi).trans (hbelow i hi)⟩
        cases recurse with
        | false =>
          exact hrest s hinv (fun _ _ => rfl) _ isEmpty_iff.mp
        | true =>
          apply Avoids.bind (ih.deleteSubkeys s key hinv ⟨name, hname⟩)
          rintro ⟨s₁, ok⟩ ⟨hinv₁, hkeeps₁, hempty⟩
          exact hrest s₁ hinv₁ hkeeps₁ ok hempty
    · intro s key hinv hnamed
      unfold KeyTree.deleteSubkeys
      cases hlast : (s.key key).subkeys.getLast? with
      | none =>
        refine ⟨hinv, fun _ _ => rfl, ?_⟩
        intro _
        exact getLast?_eq_none_iff.mp hlast
      | some child =>
        have hmem := mem_of_getLast? hlast
        obtain ⟨name, hname, hp⟩ := hinv.child key child hmem
        have hlt := (hinv.parent child name key hname hp).2.1
        apply Avoids.bind (ih.deleteKey s child true hinv (.inl ⟨name, hname⟩))
        rintro ⟨s₁, ok⟩ ⟨hinv₁, hkeeps₁⟩
        have hbelow : KeepsBelow (key + 1) s s₁ :=
          fun i hi => hkeeps₁ i (lt_of_lt_of_le hi hlt)
        cases ok with
        | false => exact ⟨hinv₁, hbelow, nofun⟩
        | true =>
          have hnamed₁ := hbelow.named (Nat.lt_succ_self key) hnamed
          apply (ih.deleteSubkeys s₁ key hinv₁ hnamed₁).mono
          rintro r ⟨hinv₂, hkeeps₂, hempty⟩
          exact ⟨hinv₂, fun i hi => (hkeeps₂ i hi).trans (hbelow i hi), hempty⟩

lemma deleteKey_spec (hinv : Inv s) (hheld : Held s key) (recurse : Bool) :
    Avoids Unnamed (deleteKey debug c fuel s key recurse) fun r => Inv r.1 :=
  ((deletes debug c fuel).deleteKey s key recurse hinv hheld).mono fun _ h => h.1

end WineForge.KeyTree
