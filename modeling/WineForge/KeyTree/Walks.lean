import WineForge.KeyTree.Named

/-!
# Lookups meet named keys only

A lookup that starts at a key with a name, or outside the registry, never reads the name of a key
that has none, and what it finds has a name if it is a key.
-/

namespace WineForge.KeyTree

open WineForge.Library
open WineForge.Registry (WChar Name KeyValue)

variable {toLower : WChar → WChar} {c : Circumstances} {s : Server} {key : KeyId} {fuel : Nat}
  {attr : Attributes} {resolve : Name → Attributes → Except Stop Resolved}

def NamedObj (s : Server) : Obj → Prop
  | .key key => Named s key
  | .other _ => True

def NamedResult (s : Server) (resolved : Resolved) : Prop :=
  ∀ object left, resolved = some (object, left) → NamedObj s object

def NamedMove (s : Server) (move : Move) : Prop :=
  ∀ object name, move = .next object name → NamedObj s object

lemma NamedMove.next {object : Obj} {name : Option Name} (h : NamedObj s object) :
    NamedMove s (.next object name) := by
  intro object' name' heq
  cases heq
  exact h

lemma followLink_spec (hinv : Inv s)
    (hresolve : ∀ target attr, Avoids Unnamed (resolve target attr) (NamedResult s))
    (name : Option Name) :
    Avoids Unnamed (followLink toLower c resolve s attr key name) (NamedMove s) := by
  unfold followLink
  split
  · exact nofun
  apply Avoids.bind (findValue_spec _)
  rintro ⟨value, index⟩ _
  dsimp only
  split
  · exact nofun
  rename_i target _
  apply Avoids.bind (hresolve target _)
  intro resolved hresolved
  cases resolved with
  | none => exact nofun
  | some found =>
    obtain ⟨object, left⟩ := found
    have hobject := hresolved object left rfl
    dsimp only
    split
    · exact nofun
    generalize (if isEmpty name = true then left else name) = name'
    split
    · cases object with
      | other id =>
        dsimp only
        split
        · exact nofun
        · exact NamedMove.next hobject
      | key found =>
        dsimp only
        split
        · apply Avoids.bind (getParent_spec hinv hobject)
          intro parent hparent
          cases parent with
          | none => exact nofun
          | some p => exact NamedMove.next (hparent p rfl)
        · exact NamedMove.next hobject
    · exact NamedMove.next hobject

lemma move_spec (hinv : Inv s) (str rest tmp : Name) {found parent : Option KeyId}
    (hfound : ∀ k, found = some k → Named s k) (hparent : ∀ k, parent = some k → Named s k) :
    Avoids Unnamed (match found, parent with
        | none, some parent => (pure (.next (.key parent) (some str)) : Except Stop Move)
        | none, none => if rest ≠ [] then pure .failed else pure (.stop (some tmp))
        | some found, _ =>
          if rest = [] then pure (.next (.key found) none)
          else
            let node :=
              match (s.key found).wow6432node with
              | some node =>
                if attr.keyWow64 && !Registry.isWow6432node toLower rest then node else found
              | none => found
            pure (.next (.key node) (some rest)))
      (NamedMove s) := by
  cases found with
  | none =>
    cases parent with
    | none =>
      dsimp only
      split
      · exact nofun
      · exact nofun
    | some p => exact NamedMove.next (hparent p rfl)
  | some k =>
    have hk := hfound k rfl
    dsimp only
    split
    · exact NamedMove.next hk
    apply NamedMove.next
    cases hwow : (s.key k).wow6432node with
    | none => exact hk
    | some node =>
      dsimp only
      split
      · exact hinv.named_of_mem (hinv.wow k node hwow)
      · exact hk

lemma keyLookupName_spec (hinv : Inv s)
    (hresolve : ∀ target attr, Avoids Unnamed (resolve target attr) (NamedResult s))
    (hkey : Named s key) (given : Bool) (name : Option Name) :
    Avoids Unnamed (keyLookupName toLower c resolve s attr key given name) (NamedMove s) := by
  unfold keyLookupName
  split
  · exact nofun
  split
  · exact nofun
  split
  · exact followLink_spec hinv hresolve name
  cases name with
  | none => exact nofun
  | some str =>
    dsimp only
    split
    · exact nofun
    apply Avoids.bind (findSubkey_spec hinv _)
    rintro ⟨found, index⟩ ⟨hfound, _⟩
    have hnamed : ∀ k, found = some k → Named s k := fun k hk =>
      hinv.named_of_mem (hfound k hk)
    split
    · apply Avoids.bind (getParent_spec hinv hkey)
      intro parent hparent
      split
      · exact nofun
      cases parent with
      | none => exact move_spec hinv str _ _ hnamed hparent
      | some p =>
        apply Avoids.bind (findSubkey_spec hinv _)
        rintro ⟨found', index'⟩ ⟨hfound', _⟩
        exact move_spec hinv str _ _ (fun k hk => hinv.named_of_mem (hfound' k hk)) hparent
    simp only [pure_bind]
    split
    · exact nofun
    · exact move_spec hinv str _ _ hnamed nofun

lemma lookupMove_spec (move : Move) {parent : Obj} (hparent : NamedObj s parent)
    {next : Obj → Option Name → Except Stop Resolved}
    (hnext : ∀ object name, NamedObj s object → Avoids Unnamed (next object name) (NamedResult s))
    (hmove : NamedMove s move) :
    Avoids Unnamed (match move with
        | .stop name => (pure (some (parent, name)) : Except Stop Resolved)
        | .failed => pure none
        | .next object name => next object name) (NamedResult s) := by
  cases move with
  | stop name =>
    intro object left heq
    cases heq
    exact hparent
  | failed => rintro _ _ ⟨⟩
  | next object name => exact hnext object name (hmove object name rfl)

lemma lookupLoop_spec (hinv : Inv s)
    (hresolve : ∀ target attr, Avoids Unnamed (resolve target attr) (NamedResult s))
    (root : Obj) (given : Bool) {parent : Obj} (hparent : NamedObj s parent) (name : Option Name) :
    Avoids Unnamed (lookupLoop toLower c resolve s attr root given fuel parent name)
      (NamedResult s) := by
  induction fuel generalizing parent name with
  | zero => rintro ⟨⟩
  | succ fuel ih =>
    have hmove := fun move => lookupMove_spec move hparent
      fun object name (h : NamedObj s object) => ih h name
    unfold lookupLoop
    cases parent with
    | key key => exact (keyLookupName_spec hinv hresolve hparent given name).bind hmove
    | other id =>
      dsimp only
      split
      · exact hmove (.stop _) (by rintro _ _ ⟨⟩)
      · exact hmove .failed (by rintro _ _ ⟨⟩)
      · exact hmove (.next (.other _) _) (NamedMove.next trivial)
      · split
        · exact hmove .failed (by rintro _ _ ⟨⟩)
        · rename_i found hroot
          exact hmove (.next (.key found) _) (NamedMove.next (hinv.root found hroot).2)
      apply Avoids.bind (hresolve _ _)
      intro resolved hresolved
      cases resolved with
      | none => exact hmove .failed (by rintro _ _ ⟨⟩)
      | some found =>
        obtain ⟨object, left⟩ := found
        dsimp only
        split
        · exact hmove (.next object _) (NamedMove.next (hresolved object left rfl))
        · exact hmove .failed (by rintro _ _ ⟨⟩)

lemma lookupNamedObject_spec (hinv : Inv s) {root : Option Obj}
    (hroot : ∀ object, root = some object → NamedObj s object) (name : Name) (attr : Attributes) :
    Avoids Unnamed (lookupNamedObject toLower c s root name attr) (NamedResult s) := by
  have hlevel : ∀ level root name attr, (∀ object, root = some object → NamedObj s object) →
      Avoids Unnamed (lookupAt toLower c s level root name attr) (NamedResult s) := by
    intro level
    induction level with
    | zero =>
      intro root name attr _
      exact nofun
    | succ level ih =>
      intro root name attr hroot
      have hresolve := fun target attr => ih none target attr nofun
      cases root with
      | some object =>
        unfold lookupAt
        dsimp only
        split
        · exact nofun
        · exact lookupLoop_spec hinv hresolve object _ (hroot object rfl) _
      | none =>
        cases name with
        | nil => exact nofun
        | cons first name =>
          unfold lookupAt
          dsimp only
          split
          · exact nofun
          · have hdirectory : NamedObj s (.other c.objects.rootDirectory) := trivial
            exact lookupLoop_spec hinv hresolve _ _ hdirectory _
  exact hlevel 33 root name attr hroot

lemma openNamedObject_spec (hinv : Inv s) {root : Option Obj}
    (hroot : ∀ object, root = some object → NamedObj s object) (name : Name) (attr : Attributes) :
    Avoids Unnamed (openNamedObject toLower c s root name attr)
      fun found => ∀ k, found = some k → Named s k := by
  unfold openNamedObject
  split
  · exact nofun
  apply Avoids.bind (lookupNamedObject_spec hinv hroot name attr)
  intro resolved hresolved
  split
  · rename_i k left
    split
    · intro k' hk'
      cases hk'
      exact hresolved (.key k) left rfl
    · exact nofun
  · exact nofun

lemma grabWow6432node_named (hinv : Inv s) (hkey : Named s key) :
    Named s (grabWow6432node s key) := by
  unfold grabWow6432node
  cases hwow : (s.key key).wow6432node with
  | none => exact hkey
  | some node =>
    dsimp only
    split
    · exact hkey
    · exact hinv.named_of_mem (hinv.wow key node hwow)

lemma getWow6432node_spec (hinv : Inv s) (hkey : Named s key) :
    Avoids Unnamed (getWow6432node toLower fuel s key)
      fun node => ∀ k, node = some k → Named s k := by
  induction fuel generalizing key with
  | zero => exact nofun
  | succ fuel ih =>
    have hself : ∀ k, some key = some k → Named s k := by
      intro k hk
      cases hk
      exact hkey
    unfold getWow6432node
    cases hwow : (s.key key).wow6432node with
    | some node =>
      intro k hk
      cases hk
      exact hinv.named_of_mem (hinv.wow key _ hwow)
    | none =>
      apply Avoids.bind (getParent_spec hinv hkey)
      intro parent hparent
      cases parent with
      | none => exact hself
      | some p =>
        dsimp only
        split
        · exact hself
        apply Avoids.bind (ih (hparent p rfl))
        intro node hnode
        cases node with
        | none => exact hself
        | some n =>
          apply Avoids.bind (nameOf_spec hkey)
          intro name _
          apply Avoids.bind (findSubkey_spec hinv _)
          rintro ⟨found, index⟩ ⟨hfound, _⟩
          intro k hk
          exact hinv.named_of_mem (hfound k hk)

lemma getWow6432Parent_spec (hinv : Inv s) (hkey : Named s key) (access : Access) (name : Name) :
    Avoids Unnamed (getWow6432Parent toLower c s key access name) (Named s) := by
  unfold getWow6432Parent
  split
  · exact hkey
  apply Avoids.bind (getWow6432node_spec hinv hkey)
  intro node hnode
  cases node with
  | none => exact hkey
  | some n =>
    dsimp only
    split
    · exact hnode n rfl
    · exact hkey

end WineForge.KeyTree
