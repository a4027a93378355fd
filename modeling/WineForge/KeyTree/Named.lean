import Mathlib.Data.List.Nodup
import WineForge.KeyTree.Requests

/-!
# Keys and their names

What every request keeps: linked keys have a name, point to the parent that links them and are
younger than it, and a key that is held open without a name is marked as deleted. Reading the tree
from a key that has a name then never meets a key without one.
-/

namespace WineForge.KeyTree

open WineForge.Library
open WineForge.Registry (WChar Name KeyValue compareName)

variable {toLower : WChar → WChar} {debug : Bool} {c : Circumstances} {s s' s'' : Server}
  {i key : KeyId} {f : Key → Key} {fuel : Nat}

def Unnamed (stop : Stop) : Prop := stop = .nameless

def Named (s : Server) (i : KeyId) : Prop := ∃ name, (s.key i).name = some name

def Held (s : Server) (i : KeyId) : Prop := Named s i ∨ (s.key i).flags.deleted = true

def Grows (s s' : Server) : Prop := ∀ i, Named s i → Named s' i

lemma Grows.refl (s : Server) : Grows s s := fun _ h => h

lemma Grows.trans (h : Grows s s') (h' : Grows s' s'') : Grows s s'' :=
  fun i hi => h' i (h i hi)

/-! ### Changes that leave the tree as it is -/

def Key.shape (k : Key) : Option ObjectName × List KeyId × Option KeyId × Bool :=
  (k.name, k.subkeys, k.wow6432node, k.flags.deleted)

structure SameTree (s s' : Server) : Prop where
  shape : ∀ i, (s'.key i).shape = (s.key i).shape
  next : s.next ≤ s'.next
  rootKey : s'.rootKey = s.rootKey
  handles : s'.handles = s.handles
  branches : s'.branches = s.branches

namespace SameTree

lemma refl (s : Server) : SameTree s s :=
  ⟨fun _ => rfl, le_rfl, rfl, rfl, rfl⟩

lemma trans (h : SameTree s s') (h' : SameTree s' s'') : SameTree s s'' where
  shape i := (h'.shape i).trans (h.shape i)
  next := h.next.trans h'.next
  rootKey := h'.rootKey.trans h.rootKey
  handles := h'.handles.trans h.handles
  branches := h'.branches.trans h.branches

lemma modify (hf : (f (s.key i)).shape = (s.key i).shape) : SameTree s (s.modify i f) := by
  constructor
  · intro j
    unfold Server.modify
    by_cases hj : j = i
    · subst hj
      simp only [if_true]
      exact hf
    · simp only [if_neg hj]
  · exact le_rfl
  all_goals rfl

lemma memAlloc (s : Server) : SameTree s (memAlloc s).2 := by
  unfold KeyTree.memAlloc
  split
  · exact refl s
  · exact ⟨fun _ => rfl, le_rfl, rfl, rfl, rfl⟩

lemma memAllocIf (needed : Bool) (s : Server) : SameTree s (memAllocIf needed s).2 := by
  unfold KeyTree.memAllocIf
  split
  · exact memAlloc s
  · exact refl s

variable (h : SameTree s s')
include h

lemma name_eq (i : KeyId) : (s'.key i).name = (s.key i).name :=
  congrArg Prod.fst (h.shape i)

lemma subkeys_eq (i : KeyId) : (s'.key i).subkeys = (s.key i).subkeys :=
  congrArg (fun shape => shape.2.1) (h.shape i)

lemma wow6432node_eq (i : KeyId) : (s'.key i).wow6432node = (s.key i).wow6432node :=
  congrArg (fun shape => shape.2.2.1) (h.shape i)

lemma deleted_eq (i : KeyId) : (s'.key i).flags.deleted = (s.key i).flags.deleted :=
  congrArg (fun shape => shape.2.2.2) (h.shape i)

lemma named_iff (i : KeyId) : Named s' i ↔ Named s i := by
  unfold Named
  rw [h.name_eq i]

lemma grows : Grows s s' := fun i => (h.named_iff i).mpr

lemma held_iff (i : KeyId) : Held s' i ↔ Held s i := by
  unfold Held
  rw [h.named_iff i, h.deleted_eq i]

end SameTree

structure Inv (s : Server) : Prop where
  child : ∀ i, ∀ c ∈ (s.key i).subkeys, ∃ name, (s.key c).name = some name ∧ name.parent = .key i
  parent : ∀ c name p, (s.key c).name = some name → name.parent = .key p →
    Named s p ∧ p < c ∧ c ∈ (s.key p).subkeys
  nodup : ∀ i, (s.key i).subkeys.Nodup
  wow : ∀ i c, (s.key i).wow6432node = some c → c ∈ (s.key i).subkeys
  fresh : ∀ i, s.next ≤ i → (s.key i).shape = Key.blank.shape
  handles : ∀ e ∈ s.handles, Held s e.2
  branches : ∀ i ∈ s.branches, Held s i
  root : ∀ r, s.rootKey = some r → r = 0 ∧ Named s r

lemma Inv.same (hinv : Inv s) (h : SameTree s s') : Inv s' where
  child i c hc := by
    rw [h.subkeys_eq] at hc
    rw [h.name_eq]
    exact hinv.child i c hc
  parent c name p hname hp := by
    rw [h.name_eq] at hname
    rw [h.named_iff, h.subkeys_eq]
    exact hinv.parent c name p hname hp
  nodup i := by
    rw [h.subkeys_eq]
    exact hinv.nodup i
  wow i c hc := by
    rw [h.wow6432node_eq] at hc
    rw [h.subkeys_eq]
    exact hinv.wow i c hc
  fresh i hi := by
    rw [h.shape]
    exact hinv.fresh i (h.next.trans hi)
  handles e he := by
    rw [h.handles] at he
    rw [h.held_iff]
    exact hinv.handles e he
  branches i hi := by
    rw [h.branches] at hi
    rw [h.held_iff]
    exact hinv.branches i hi
  root r hr := by
    rw [h.rootKey] at hr
    rw [h.named_iff]
    exact hinv.root r hr

lemma Inv.named_of_mem (hinv : Inv s) {child : KeyId} (h : child ∈ (s.key i).subkeys) :
    Named s child := by
  obtain ⟨name, hname, _⟩ := hinv.child i child h
  exact ⟨name, hname⟩

lemma Inv.lt_next (hinv : Inv s) (h : Named s i) : i < s.next := by
  by_contra hle
  obtain ⟨name, hname⟩ := h
  have hblank := congrArg Prod.fst (hinv.fresh i (Nat.le_of_not_lt hle))
  have hnone : (s.key i).name = none := hblank
  rw [hnone] at hname
  cases hname

/-- What a request keeps unless it deletes keys. -/
structure Kept (s s' : Server) : Prop where
  inv : Inv s'
  grows : Grows s s'

lemma Kept.refl (hinv : Inv s) : Kept s s := ⟨hinv, Grows.refl s⟩

lemma Kept.trans (h : Kept s s') (h' : Kept s' s'') : Kept s s'' :=
  ⟨h'.inv, h.grows.trans h'.grows⟩

lemma Inv.kept (hinv : Inv s) (h : SameTree s s') : Kept s s' := ⟨hinv.same h, h.grows⟩

lemma nameOf_spec (hnamed : Named s key) :
    Avoids Unnamed (s.nameOf key) fun name => (s.key key).name = some name := by
  obtain ⟨name, hname⟩ := hnamed
  unfold Server.nameOf
  rw [hname]
  exact rfl

lemma getParent_name_spec {name : ObjectName} (hname : (s.key key).name = some name) :
    Avoids Unnamed (getParent s key) fun parent => ∀ p, parent = some p → name.parent = .key p := by
  apply Avoids.bind (nameOf_spec ⟨name, hname⟩)
  intro name' hname'
  rw [hname] at hname'
  cases hname'
  split
  · rename_i parent hparent
    apply Avoids.pure
    intro p hp
    cases hp
    exact hparent
  · apply Avoids.pure
    intro p hp
    cases hp

lemma getParent_spec (hinv : Inv s) (hnamed : Named s key) :
    Avoids Unnamed (getParent s key) fun parent => ∀ p, parent = some p → Named s p := by
  obtain ⟨name, hname⟩ := hnamed
  apply (getParent_name_spec hname).mono
  intro parent hparent p hp
  exact (hinv.parent key name p hname (hparent p hp)).1

lemma dumpPath_spec (hinv : Inv s) (hnamed : Named s key) (base : Option KeyId) :
    Avoids Unnamed (dumpPath fuel s key base) fun _ => True := by
  induction fuel generalizing key with
  | zero => exact nofun
  | succ fuel ih =>
    apply Avoids.bind (getParent_spec hinv hnamed)
    intro parent hparent
    have hname : ∀ above : List Name,
        Avoids Unnamed (do let name ← s.nameOf key; pure (above ++ [name.name])) fun _ => True := by
      intro above
      apply Avoids.bind (nameOf_spec hnamed)
      intro name _
      exact trivial
    cases parent with
    | none => exact hname []
    | some p =>
      dsimp only
      split
      · exact hname []
      · apply Avoids.bind (ih (hparent p rfl))
        intro above _
        exact hname above

lemma dumpOperation_spec (hinv : Inv s) (hnamed : Named s key) :
    Avoids Unnamed (dumpOperation debug fuel s key) fun _ => True := by
  unfold dumpOperation
  split
  · exact dumpPath_spec hinv hnamed none
  · exact trivial

lemma search_spec {α : Type} {compare : α → Except Stop Int} {a : List α} {turns min stop : Nat}
    (hcompare : ∀ x ∈ a, Avoids Unnamed (compare x) fun _ => True) (hmin : min ≤ stop)
    (hstop : stop ≤ a.length) :
    Avoids Unnamed (search compare a turns min stop) fun r =>
      (∀ x, r.1 = some x → x ∈ a) ∧ r.2 ≤ a.length := by
  induction turns generalizing min stop with
  | zero => exact ⟨nofun, hmin.trans hstop⟩
  | succ turns ih =>
    unfold search
    by_cases hlt : min < stop
    · rw [if_pos hlt]
      dsimp only
      generalize hi : (min + (stop - 1)) / 2 = i
      cases hget : a[i]? with
      | none => exact ⟨nofun, hmin.trans hstop⟩
      | some x =>
        have hmem : x ∈ a := List.mem_of_getElem? hget
        apply Avoids.bind (hcompare x hmem)
        intro res _
        split
        · constructor
          · intro y hy
            cases hy
            exact hmem
          · omega
        · split
          · exact ih (by omega) (by omega)
          · exact ih (by omega) hstop
    · rw [if_neg hlt]
      exact ⟨nofun, hmin.trans hstop⟩

lemma findSubkey_spec (hinv : Inv s) (name : Name) :
    Avoids Unnamed (findSubkey toLower s key name) fun r =>
      (∀ child, r.1 = some child → child ∈ (s.key key).subkeys) ∧
        r.2 ≤ (s.key key).subkeys.length := by
  apply search_spec
  · intro child hchild
    apply Avoids.bind (nameOf_spec (hinv.named_of_mem hchild))
    intro stored _
    exact trivial
  · exact Nat.zero_le _
  · exact le_rfl

lemma findValue_spec (name : Name) :
    Avoids Unnamed (findValue toLower s key name) fun _ => True := by
  apply Avoids.mono (search_spec _ (Nat.zero_le _) le_rfl)
  · intro _ _
    exact trivial
  · intro value _
    exact trivial

lemma makeDirty_spec (hinv : Inv s) (hnamed : Named s key) :
    Avoids Unnamed (makeDirty fuel s key) (SameTree s) := by
  induction fuel generalizing s key with
  | zero => exact nofun
  | succ fuel ih =>
    unfold makeDirty
    dsimp only
    split
    · exact SameTree.refl s
    have hsame : SameTree s
        (s.modify key fun k => { k with flags := { k.flags with dirty := true } }) :=
      SameTree.modify rfl
    have hinv' := hinv.same hsame
    apply Avoids.bind (getParent_spec hinv' ((hsame.named_iff key).mpr hnamed))
    intro parent hparent
    cases parent with
    | none => exact hsame
    | some p => exact (ih hinv' (hparent p rfl)).mono fun _ h => hsame.trans h

lemma notifyParents_spec (hinv : Inv s) (hnamed : Named s key) :
    Avoids Unnamed (notifyParents fuel s key) fun _ => True := by
  induction fuel generalizing key with
  | zero => exact nofun
  | succ fuel ih =>
    apply Avoids.bind (getParent_spec hinv hnamed)
    intro parent hparent
    cases parent with
    | none => exact trivial
    | some p => exact ih (hparent p rfl)

lemma touchKey_spec (hinv : Inv s) (hnamed : Named s key) (now : Int) :
    Avoids Unnamed (touchKey fuel now s key) (SameTree s) := by
  have hsame : SameTree s (s.modify key fun k => { k with modif := now }) :=
    SameTree.modify rfl
  apply Avoids.bind (makeDirty_spec (hinv.same hsame) ((hsame.named_iff key).mpr hnamed))
  intro s₁ hdirty
  have hsame₁ := hsame.trans hdirty
  apply Avoids.bind (notifyParents_spec (hinv.same hsame₁) ((hsame₁.named_iff key).mpr hnamed))
  intro _ _
  exact hsame₁

lemma updateKeyTime_spec (hinv : Inv s) (hnamed : Named s key) (modif : Int) :
    Avoids Unnamed (updateKeyTime fuel s key modif) (SameTree s) := by
  induction fuel generalizing s key with
  | zero => exact nofun
  | succ fuel ih =>
    unfold updateKeyTime
    split
    · exact SameTree.refl s
    have hsame : SameTree s (s.modify key fun k => { k with modif := modif }) :=
      SameTree.modify rfl
    have hinv' := hinv.same hsame
    apply Avoids.bind (getParent_spec hinv' ((hsame.named_iff key).mpr hnamed))
    intro parent hparent
    cases parent with
    | none => exact hsame
    | some p => exact (ih hinv' (hparent p rfl)).mono fun _ h => hsame.trans h

/-- The flags of keys without a name, which no key links, are not cleared. -/
structure Cleaned (s s' : Server) : Prop where
  same : SameTree s s'
  flags : ∀ i, ¬Named s i → (s'.key i).flags = (s.key i).flags

lemma Cleaned.refl (s : Server) : Cleaned s s := ⟨SameTree.refl s, fun _ _ => rfl⟩

lemma Cleaned.trans (h : Cleaned s s') (h' : Cleaned s' s'') : Cleaned s s'' where
  same := h.same.trans h'.same
  flags i hi := (h'.flags i (mt (h.same.named_iff i).mp hi)).trans (h.flags i hi)

lemma makeClean_spec (hinv : Inv s) (hnamed : Named s key) :
    Avoids Unnamed (makeClean fuel s key) (Cleaned s) := by
  induction fuel generalizing s key with
  | zero => exact nofun
  | succ fuel ih =>
    unfold makeClean
    dsimp only
    split
    · exact Cleaned.refl s
    have hclean : Cleaned s
        (s.modify key fun k => { k with flags := { k.flags with dirty := false } }) := by
      refine ⟨SameTree.modify rfl, ?_⟩
      intro i hi
      have hne : i ≠ key := by
        rintro rfl
        exact hi hnamed
      exact congrArg Key.flags (if_neg hne)
    apply Avoids.foldlM hclean
    intro s₁ child hchild hs₁
    have hchild₁ : Named s₁ child := by
      rw [hclean.same.subkeys_eq] at hchild
      exact (hs₁.same.named_iff child).mpr (hinv.named_of_mem hchild)
    exact (ih (hinv.same hs₁.same) hchild₁).mono fun _ h => hs₁.trans h

lemma insertValue_spec (name : Name) (index : Nat) :
    SameTree s (insertValue s key name index).1 := by
  unfold insertValue
  split
  · exact SameTree.refl s
  dsimp only
  generalize hgrow : memAllocIf _ s = grown
  have hsame : SameTree s grown.2 := hgrow ▸ SameTree.memAllocIf _ s
  split
  · exact hsame
  rename_i nb _
  have hgrown := hsame.trans (SameTree.modify (i := key) (f := fun k => { k with nbValues := nb })
    rfl)
  generalize hcopy : memAllocIf _ (grown.2.modify key _) = copied
  have hcopied := hgrown.trans (hcopy ▸ SameTree.memAllocIf _ _)
  split
  · exact hcopied
  · dsimp only
    exact hcopied.trans (SameTree.modify rfl)

end WineForge.KeyTree
