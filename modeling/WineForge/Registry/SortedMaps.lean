import Mathlib.Data.List.Lex
import Mathlib.Data.List.Nodup
import Mathlib.Data.List.Perm.Basic
import WineForge.Registry.State

/-!
# Subkeys and values as sorted maps

The comparison of two names is the order of their folded characters, with a prefix before any longer
name. The binary search therefore sees an ascending array, and each request keeps it ascending.
-/

namespace WineForge.Registry

open Function List Option WineForge.Library

variable (toLower : WChar → WChar)

def foldName (name : Name) : List Nat := name.map fun c => (toLower c).toNat

variable {toLower}

section Order

variable {a b : WChar} {str1 str2 : Name}

lemma memicmpStrW_cons (len : Nat) : memicmpStrW toLower (a :: str1) (b :: str2) (len + 1) =
    if ((toLower a).toNat : Int) - (toLower b).toNat ≠ 0 then
      ((toLower a).toNat : Int) - (toLower b).toNat
    else memicmpStrW toLower str1 str2 len := rfl

lemma compareName_cons : compareName toLower (a :: str1) (b :: str2) =
    if (toLower a).toNat = (toLower b).toNat then compareName toLower str1 str2
    else ((toLower a).toNat : Int) - (toLower b).toNat := by
  have hmin : min (a :: str1).length (b :: str2).length = min str1.length str2.length + 1 := by
    simp
  unfold compareName
  simp only [hmin, memicmpStrW_cons]
  by_cases heq : (toLower a).toNat = (toLower b).toNat
  · have hzero : ((toLower a).toNat : Int) - (toLower b).toNat = 0 := by omega
    have hlen : (2 * (a :: str1).length : Int) - 2 * (b :: str2).length =
        2 * str1.length - 2 * str2.length := by
      simp
      omega
    rw [if_pos heq, if_neg (not_not.mpr hzero), hlen]
  · have hne : ((toLower a).toNat : Int) - (toLower b).toNat ≠ 0 := by omega
    rw [if_neg heq, if_pos hne, if_neg hne]

lemma compareName_spec (stored name : Name) :
    (compareName toLower stored name < 0 ↔ foldName toLower stored < foldName toLower name) ∧
      (compareName toLower stored name = 0 ↔ foldName toLower stored = foldName toLower name) := by
  induction stored generalizing name with
  | nil =>
    cases name with
    | nil => simp [compareName, memicmpStrW, foldName]
    | cons b str2 =>
      simp [compareName, memicmpStrW, foldName]
      omega
  | cons a str1 ih =>
    cases name with
    | nil =>
      simp [compareName, memicmpStrW, foldName]
      omega
    | cons b str2 =>
      obtain ⟨hlt, heq⟩ := ih str2
      rw [compareName_cons]
      unfold foldName at *
      rw [map_cons, map_cons, cons_lt_cons_iff, List.cons.injEq]
      by_cases hab : (toLower a).toNat = (toLower b).toNat
      · rw [if_pos hab, hlt, heq]
        simp [hab]
      · omega

end Order

abbrev FoldedName := List Nat

def Subkey.key (toLower : WChar → WChar) (subkey : Subkey) : FoldedName :=
  foldName toLower subkey.name

def KeyValue.key (toLower : WChar → WChar) (value : KeyValue) : FoldedName :=
  foldName toLower value.name

/-- The entries in use fit into the allocated array, which is empty or not too small to grow. -/
structure Fits (minSize nb used : Nat) : Prop where
  used_le : used ≤ nb
  nb_eq : nb = 0 ∨ minSize ≤ nb

lemma grow_fits {minSize nb nb' used : Nat} {ok : Bool} (h : Fits minSize nb used)
    (hmin : 2 ≤ minSize) (hgrow : grow minSize nb ok = some nb') :
    Fits minSize nb' (used + 1) := by
  have hle := h.used_le
  have hnb := h.nb_eq
  unfold grow at hgrow
  split at hgrow
  · cases hgrow
  split at hgrow
  · cases hgrow
    constructor <;> omega
  · cases hgrow
    constructor <;> omega

lemma shrink_fits {minSize nb used : Nat} {ok : Bool} (h : Fits minSize nb (used + 1)) :
    Fits minSize (shrink minSize nb used ok) used := by
  have hle := h.used_le
  have hnb := h.nb_eq
  unfold shrink
  split
  · split
    · constructor <;> omega
    · constructor <;> omega
  · constructor <;> omega

variable (toLower) in
structure KeyInv (key : Key) : Prop where
  subkeysAscend : Ascending (Subkey.key toLower) key.subkeys
  valuesAscend : Ascending (KeyValue.key toLower) key.values
  subkeysFit : Fits minSubkeys key.nbSubkeys key.subkeys.length
  valuesFit : Fits minValues key.nbValues key.values.length
  ids : (key.subkeys.map Subkey.id).Nodup
  fresh : ∀ subkey ∈ key.subkeys, subkey.id < key.nextId

variable {key parent parent' : Key} {name : Name} {id i index : Nat} {subkey : Subkey}
  {alloc : Alloc}

lemma keyInv_new (name : Name) : KeyInv toLower (Key.new name) := by
  constructor
  · exact ascending_nil
  · exact ascending_nil
  · exact ⟨le_rfl, .inl rfl⟩
  · exact ⟨le_rfl, .inl rfl⟩
  · exact nodup_nil
  · intro subkey h
    cases h

lemma findSubkey_spec (h : Ascending (Subkey.key toLower) key.subkeys) (name : Name) :
    (∃ subkey i, findSubkey toLower key name = (some subkey, i) ∧ key.subkeys[i]? = some subkey ∧
        subkey.key toLower = foldName toLower name) ∨
      ∃ i, findSubkey toLower key name = (none, i) ∧
        InsertionPoint (Subkey.key toLower) key.subkeys (foldName toLower name) i := by
  apply bisect_spec h
  intro subkey
  exact compareName_spec subkey.name name

lemma findValue_spec (h : Ascending (KeyValue.key toLower) key.values) (name : Name) :
    (∃ value i, findValue toLower key name = (some value, i) ∧ key.values[i]? = some value ∧
        value.key toLower = foldName toLower name) ∨
      ∃ i, findValue toLower key name = (none, i) ∧
        InsertionPoint (KeyValue.key toLower) key.values (foldName toLower name) i := by
  apply bisect_spec h
  intro value
  exact compareName_spec value.name name

lemma subkeyIndex_eq_some (h : (parent.subkeys.map Subkey.id).Nodup) :
    subkeyIndex parent id = some i ↔ ∃ subkey, parent.subkeys[i]? = some subkey ∧ subkey.id = id := by
  unfold subkeyIndex
  rw [findIdx?_eq_some_iff_getElem]
  constructor
  · rintro ⟨hlt, hid, _⟩
    exact ⟨parent.subkeys[i], getElem?_eq_getElem hlt, by simpa using hid⟩
  · rintro ⟨subkey, hget, rfl⟩
    obtain ⟨hlt, heq⟩ := List.getElem?_eq_some_iff.mp hget
    refine ⟨hlt, by simp [heq], fun j hj => ?_⟩
    have hji : j < (parent.subkeys.map Subkey.id).length := by
      rw [length_map]
      omega
    have hii : i < (parent.subkeys.map Subkey.id).length := by simpa using hlt
    have hne := List.pairwise_iff_getElem.mp h j i hji hii hj
    rw [getElem_map, getElem_map, heq] at hne
    simpa using hne

lemma subkeyIndex_eq_none :
    subkeyIndex parent id = none ↔ ∀ subkey ∈ parent.subkeys, subkey.id ≠ id := by
  unfold subkeyIndex
  simp

lemma keyLinkName_spec (inv : KeyInv toLower parent)
    (hpoint : InsertionPoint (Subkey.key toLower) parent.subkeys (subkey.key toLower) index)
    (hfind : findSubkey toLower parent subkey.name = (none, index))
    (h : keyLinkName toLower parent subkey alloc = some parent') :
    ∃ nb, parent' = { parent with
        subkeys := parent.subkeys.insertIdx index subkey
        nbSubkeys := nb
        wow6432node :=
          if isWow6432node toLower subkey.name && !isWow6432node toLower parent.name then
            some subkey.id
          else parent.wow6432node } ∧
      Fits minSubkeys nb (parent.subkeys.length + 1) := by
  have hle := inv.subkeysFit.used_le
  unfold keyLinkName at h
  by_cases hfull : parent.subkeys.length = parent.nbSubkeys
  · simp only [if_pos hfull, growSubkeys, Option.map_map, Option.map_eq_some_iff] at h
    obtain ⟨nb, hgrow, rfl⟩ := h
    refine ⟨nb, ?_, grow_fits inv.subkeysFit (by decide) hgrow⟩
    have hfind' : findSubkey toLower { parent with nbSubkeys := nb } subkey.name = (none, index) :=
      hfind
    simp only [Function.comp, hfind', set_shiftUp subkey hpoint.le_length]
  simp only [if_neg hfull, Option.map_some, Option.some_inj] at h
  subst h
  refine ⟨parent.nbSubkeys, ?_, ?_⟩
  · simp only [hfind, set_shiftUp subkey hpoint.le_length]
  · have hnb := inv.subkeysFit.nb_eq
    constructor <;> omega

lemma keyUnlinkName_spec (hindex : subkeyIndex parent id = some i)
    (hlt : i < parent.subkeys.length) (alloc : Alloc) :
    ∃ wow, keyUnlinkName parent id alloc = { parent with
      subkeys := parent.subkeys.eraseIdx i
      wow6432node := wow
      nbSubkeys := shrink minSubkeys parent.nbSubkeys (parent.subkeys.eraseIdx i).length
        alloc.shrink } := by
  unfold keyUnlinkName
  rw [hindex]
  simp only [dropLast_shiftDown hlt]
  exact ⟨_, rfl⟩

abbrev SubkeyMap := FoldedName → Option Subkey
abbrev ValueMap := FoldedName → Option KeyValue

variable (toLower) in
def subkeyMap (key : Key) : SubkeyMap := entryAt (Subkey.key toLower) key.subkeys

variable (toLower) in
def valueMap (key : Key) : ValueMap := entryAt (KeyValue.key toLower) key.values

/-- The map without the subkey `id`. -/
def without (m : SubkeyMap) (id : Nat) : SubkeyMap := fun k =>
  (m k).filter fun subkey => subkey.id != id

/-- A request keeps both arrays. -/
structure Unchanged (key key' : Key) : Prop where
  subkeys : key'.subkeys = key.subkeys
  values : key'.values = key.values

lemma id_inj (h : (key.subkeys.map Subkey.id).Nodup) {x y : Subkey} (hx : x ∈ key.subkeys)
    (hy : y ∈ key.subkeys) (heq : x.id = y.id) : x = y :=
  inj_on_of_nodup_map h hx hy heq

lemma subkeyMap_eraseIdx (inv : KeyInv toLower key) (hget : key.subkeys[i]? = some subkey) :
    entryAt (Subkey.key toLower) (key.subkeys.eraseIdx i) =
      without (subkeyMap toLower key) subkey.id := by
  have hmem := mem_of_getElem? hget
  rw [entryAt_eraseIdx inv.subkeysAscend hget]
  funext k
  unfold without subkeyMap
  by_cases hk : k = subkey.key toLower
  · subst hk
    have hat : entryAt (Subkey.key toLower) key.subkeys (subkey.key toLower) = some subkey :=
      (entryAt_eq_some inv.subkeysAscend).mpr ⟨hmem, rfl⟩
    rw [update_self, hat, filter_some, if_neg (by simp)]
  rw [update_of_ne hk]
  cases hat : entryAt (Subkey.key toLower) key.subkeys k with
  | none => rfl
  | some other =>
    obtain ⟨hother, hkey⟩ := (entryAt_eq_some inv.subkeysAscend).mp hat
    have hne : other.id ≠ subkey.id := by
      intro heq
      rw [id_inj inv.ids hother hmem heq] at hkey
      exact hk hkey.symm
    rw [filter_some, if_pos (by simpa using hne)]

lemma without_of_absent (h : Ascending (Subkey.key toLower) key.subkeys)
    (hid : ∀ subkey ∈ key.subkeys, subkey.id ≠ id) :
    without (subkeyMap toLower key) id = subkeyMap toLower key := by
  funext k
  unfold without subkeyMap
  cases hat : entryAt (Subkey.key toLower) key.subkeys k with
  | none => rfl
  | some subkey =>
    have hne := hid subkey ((entryAt_eq_some h).mp hat).1
    rw [filter_some, if_pos (by simpa using hne)]

lemma KeyInv.insert (inv : KeyInv toLower key)
    (hpoint : InsertionPoint (Subkey.key toLower) key.subkeys (subkey.key toLower) index)
    (hid : subkey.id = key.nextId) {nb : Nat}
    (hfits : Fits minSubkeys nb (key.subkeys.length + 1)) (wow : Option Nat) :
    KeyInv toLower { key with
      subkeys := key.subkeys.insertIdx index subkey
      nbSubkeys := nb
      wow6432node := wow
      nextId := key.nextId + 1 } := by
  have hperm : (key.subkeys.insertIdx index subkey).Perm (subkey :: key.subkeys) :=
    perm_insertIdx subkey key.subkeys hpoint.le_length
  constructor
  · exact inv.subkeysAscend.insertIdx hpoint
  · exact inv.valuesAscend
  · rw [length_insertIdx_of_le_length hpoint.le_length]
    exact hfits
  · exact inv.valuesFit
  · rw [(hperm.map Subkey.id).nodup_iff, map_cons, nodup_cons]
    refine ⟨?_, inv.ids⟩
    intro hmem
    obtain ⟨other, hother, heq⟩ := mem_map.mp hmem
    have hlt := inv.fresh other hother
    omega
  · intro other hother
    rw [hperm.mem_iff, mem_cons] at hother
    obtain rfl | hother := hother
    · exact Nat.lt_succ_of_le (Nat.le_of_eq hid)
    · exact Nat.lt_succ_of_lt (inv.fresh other hother)

lemma KeyInv.erase (inv : KeyInv toLower key) (hi : i < key.subkeys.length) {wow : Option Nat}
    (ok : Bool) :
    KeyInv toLower { key with
      subkeys := key.subkeys.eraseIdx i
      wow6432node := wow
      nbSubkeys := shrink minSubkeys key.nbSubkeys (key.subkeys.eraseIdx i).length ok } := by
  have hsub : (key.subkeys.eraseIdx i).Sublist key.subkeys := eraseIdx_sublist _ i
  have hlen : (key.subkeys.eraseIdx i).length + 1 = key.subkeys.length := by
    rw [length_eraseIdx, if_pos hi]
    omega
  constructor
  · exact inv.subkeysAscend.eraseIdx
  · exact inv.valuesAscend
  · apply shrink_fits
    rw [hlen]
    exact inv.subkeysFit
  · exact inv.valuesFit
  · exact inv.ids.sublist (hsub.map Subkey.id)
  · intro subkey hmem
    exact inv.fresh subkey (hsub.subset hmem)

lemma keyUnlinkName_effect (inv : KeyInv toLower key) (id : Nat) (alloc : Alloc) :
    KeyInv toLower (keyUnlinkName key id alloc) ∧
      subkeyMap toLower (keyUnlinkName key id alloc) = without (subkeyMap toLower key) id ∧
      (keyUnlinkName key id alloc).values = key.values := by
  cases hindex : subkeyIndex key id with
  | none =>
    have habsent := subkeyIndex_eq_none.mp hindex
    have hsame : keyUnlinkName key id alloc = key := by
      unfold keyUnlinkName
      rw [hindex]
    rw [hsame]
    exact ⟨inv, (without_of_absent inv.subkeysAscend habsent).symm, rfl⟩
  | some i =>
    obtain ⟨subkey, hget, rfl⟩ := (subkeyIndex_eq_some inv.ids).mp hindex
    have hi := (List.getElem?_eq_some_iff.mp hget).1
    obtain ⟨wow, heq⟩ := keyUnlinkName_spec hindex hi alloc
    rw [heq]
    exact ⟨inv.erase hi alloc.shrink, subkeyMap_eraseIdx inv hget, rfl⟩

lemma unlink_new (hkey : KeyInv toLower parent)
    (hsubkeys : parent.subkeys = key.subkeys.insertIdx index subkey)
    (hindex : index ≤ key.subkeys.length) (alloc : Alloc) :
    KeyInv toLower (keyUnlinkName parent subkey.id alloc) ∧
      (keyUnlinkName parent subkey.id alloc).subkeys = key.subkeys ∧
      (keyUnlinkName parent subkey.id alloc).values = parent.values := by
  have hget : parent.subkeys[index]? = some subkey := by
    rw [hsubkeys, getElem?_insertIdx_self, if_pos hindex]
  have hi := (List.getElem?_eq_some_iff.mp hget).1
  have hat := (subkeyIndex_eq_some hkey.ids).mpr ⟨subkey, hget, rfl⟩
  obtain ⟨wow, heq⟩ := keyUnlinkName_spec hat hi alloc
  refine ⟨(keyUnlinkName_effect hkey subkey.id alloc).1, ?_, by rw [heq]⟩
  rw [heq]
  simp only [hsubkeys, eraseIdx_insertIdx_self]

lemma createSubkey_effect (inv : KeyInv toLower key) (name : Name) (init : Init) (alloc : Alloc) :
    KeyInv toLower (createSubkey toLower key name init alloc).1 ∧
      (createSubkey toLower key name init alloc).1.values = key.values ∧
      ((∃ id, (createSubkey toLower key name init alloc).2 = (.success, some id) ∧
          subkeyMap toLower (createSubkey toLower key name init alloc).1 =
            update (subkeyMap toLower key) (foldName toLower name) (some ⟨id, name⟩)) ∨
        (createSubkey toLower key name init alloc).2.1 ≠ .success ∧
          (createSubkey toLower key name init alloc).1.subkeys = key.subkeys) := by
  unfold createSubkey
  by_cases hlong : maxNameLen < name.length
  · rw [if_pos hlong]
    exact ⟨inv, rfl, .inr ⟨nofun, rfl⟩⟩
  rw [if_neg hlong]
  obtain ⟨subkey, i, hfind, _⟩ | ⟨index, hfind, hpoint⟩ := findSubkey_spec inv.subkeysAscend name
  · rw [hfind]
    exact ⟨inv, rfl, .inr ⟨nofun, rfl⟩⟩
  rw [hfind]
  dsimp only
  by_cases halloc : (!alloc.name || !alloc.object) = true
  · rw [if_pos halloc]
    exact ⟨inv, rfl, .inr ⟨nofun, rfl⟩⟩
  rw [if_neg halloc]
  cases hlink : keyLinkName toLower key ⟨key.nextId, name⟩ alloc with
  | none => exact ⟨inv, rfl, .inr ⟨nofun, rfl⟩⟩
  | some parent =>
    have hpoint' : InsertionPoint (Subkey.key toLower) key.subkeys
        (Subkey.key toLower ⟨key.nextId, name⟩) index := hpoint
    obtain ⟨nb, rfl, hfits⟩ := keyLinkName_spec inv hpoint' hfind hlink
    have hnew := inv.insert hpoint' rfl hfits <|
      if isWow6432node toLower name && !isWow6432node toLower key.name then some key.nextId
      else key.wow6432node
    cases init with
    | ok =>
      refine ⟨hnew, rfl, .inl ⟨key.nextId, rfl, ?_⟩⟩
      exact entryAt_insertIdx inv.subkeysAscend hpoint'
    | noMemory | childMustBeVolatile =>
      obtain ⟨hinv, hsubkeys, hvalues⟩ := unlink_new hnew rfl hpoint.le_length alloc
      exact ⟨hinv, hvalues, .inr ⟨nofun, hsubkeys⟩⟩

lemma KeyInv.move (inv : KeyInv toLower key) (hget : key.subkeys[i]? = some subkey) {newName : Name}
    (hpoint : InsertionPoint (Subkey.key toLower) key.subkeys (foldName toLower newName) index) :
    KeyInv toLower { key with
        subkeys := (key.subkeys.eraseIdx i).insertIdx (if i < index then index - 1 else index)
          ⟨subkey.id, newName⟩ } ∧
      entryAt (Subkey.key toLower) ((key.subkeys.eraseIdx i).insertIdx
          (if i < index then index - 1 else index) ⟨subkey.id, newName⟩) =
        update (without (subkeyMap toLower key) subkey.id) (foldName toLower newName)
          (some ⟨subkey.id, newName⟩) := by
  have hi := (List.getElem?_eq_some_iff.mp hget).1
  have hrest : InsertionPoint (Subkey.key toLower) (key.subkeys.eraseIdx i)
      (Subkey.key toLower ⟨subkey.id, newName⟩) (if i < index then index - 1 else index) :=
    hpoint.eraseIdx hi
  have hperm := perm_insertIdx (⟨subkey.id, newName⟩ : Subkey) (key.subkeys.eraseIdx i)
    hrest.le_length
  have hids : ((⟨subkey.id, newName⟩ :: key.subkeys.eraseIdx i).map Subkey.id).Perm
      (key.subkeys.map Subkey.id) := by
    have hback : (subkey :: key.subkeys.eraseIdx i).Perm key.subkeys := by
      rw [← (List.getElem?_eq_some_iff.mp hget).2]
      exact getElem_cons_eraseIdx_perm hi
    exact hback.map Subkey.id
  refine ⟨⟨inv.subkeysAscend.eraseIdx.insertIdx hrest, inv.valuesAscend, ?_, inv.valuesFit, ?_,
    ?_⟩, ?_⟩
  · have hlen := hids.length_eq
    rw [length_map, length_map, length_cons] at hlen
    rw [length_insertIdx_of_le_length hrest.le_length, hlen]
    exact inv.subkeysFit
  · rw [(hperm.map Subkey.id).nodup_iff, hids.nodup_iff]
    exact inv.ids
  · intro other hother
    have hmem : other.id ∈ key.subkeys.map Subkey.id :=
      hids.subset ((hperm.map Subkey.id).subset (mem_map_of_mem hother))
    obtain ⟨old, hold, heq⟩ := List.mem_map.mp hmem
    rw [← heq]
    exact inv.fresh old hold
  · rw [← subkeyMap_eraseIdx inv hget]
    exact entryAt_insertIdx inv.subkeysAscend.eraseIdx hrest

lemma renameKey_effect (inv : KeyInv toLower key) (id : Nat) (newName : Name) (alloc : Alloc) :
    KeyInv toLower (renameKey toLower key id newName alloc).1 ∧
      (renameKey toLower key id newName alloc).1.values = key.values ∧
      ((renameKey toLower key id newName alloc).2 = .success ∧
          subkeyMap toLower (renameKey toLower key id newName alloc).1 =
            update (without (subkeyMap toLower key) id) (foldName toLower newName)
              (some ⟨id, newName⟩) ∨
        (renameKey toLower key id newName alloc).2 ≠ .success ∧
          (renameKey toLower key id newName alloc).1.subkeys = key.subkeys) := by
  unfold renameKey
  by_cases hpath : getPathElement newName = 0 ∨ getPathElement newName ≠ newName.length ∨
      maxNameLen < getPathElement newName
  · rw [if_pos hpath]
    exact ⟨inv, rfl, .inr ⟨nofun, rfl⟩⟩
  rw [if_neg hpath]
  cases hindex : subkeyIndex key id with
  | none => exact ⟨inv, rfl, .inr ⟨nofun, rfl⟩⟩
  | some cur =>
    obtain ⟨subkey, hget, rfl⟩ := (subkeyIndex_eq_some inv.ids).mp hindex
    have hcur := (List.getElem?_eq_some_iff.mp hget).1
    obtain ⟨other, i, hfind, _⟩ | ⟨index, hfind, hpoint⟩ :=
      findSubkey_spec inv.subkeysAscend newName
    · rw [hfind]
      exact ⟨inv, rfl, .inr ⟨nofun, rfl⟩⟩
    rw [hfind]
    dsimp only
    split
    · exact ⟨inv, rfl, .inr ⟨nofun, rfl⟩⟩
    split
    · exact ⟨inv, rfl, .inr ⟨nofun, rfl⟩⟩
    have hle := hpoint.le_length
    have hmoved : (if cur < index then
          (shiftDown key.subkeys cur (index - 1 - cur)).set (index - 1) ⟨subkey.id, newName⟩
        else (shiftUp key.subkeys index cur).set index ⟨subkey.id, newName⟩) =
        (key.subkeys.eraseIdx cur).insertIdx (if cur < index then index - 1 else index)
          ⟨subkey.id, newName⟩ := by
      by_cases hlt : cur < index
      · rw [if_pos hlt, if_pos hlt]
        exact set_shiftDown (by omega) (by omega)
      · rw [if_neg hlt, if_neg hlt]
        exact set_shiftUp_move hcur (by omega)
    rw [hmoved]
    obtain ⟨hinv, hmap⟩ := inv.move hget hpoint
    exact ⟨hinv, rfl, .inl ⟨rfl, hmap⟩⟩

lemma insertValue_effect (inv : KeyInv toLower key) {value : KeyValue} (hname : value.name = name)
    (hpoint : InsertionPoint (KeyValue.key toLower) key.values (foldName toLower name) index)
    (alloc : Alloc) :
    KeyInv toLower (insertValue key name index value alloc).1 ∧
      (insertValue key name index value alloc).1.subkeys = key.subkeys ∧
      ((insertValue key name index value alloc).2 = .success ∧
          valueMap toLower (insertValue key name index value alloc).1 =
            update (valueMap toLower key) (foldName toLower name) (some value) ∨
        (insertValue key name index value alloc).2 ≠ .success ∧
          (insertValue key name index value alloc).1.values = key.values) := by
  subst hname
  have hle := inv.valuesFit.used_le
  have hnb := inv.valuesFit.nb_eq
  have hgrown : ∀ grown, (if key.values.length = key.nbValues then growValues key alloc.grow
        else some key) = some grown →
      ∃ nb, grown = { key with nbValues := nb } ∧ Fits minValues nb (key.values.length + 1) := by
    intro grown h
    split at h
    · obtain ⟨nb, hgrow, rfl⟩ := map_eq_some_iff.mp h
      exact ⟨nb, rfl, grow_fits inv.valuesFit (by decide) hgrow⟩
    · cases h
      exact ⟨key.nbValues, rfl, by constructor <;> omega⟩
  unfold insertValue
  split
  · exact ⟨inv, rfl, .inr ⟨nofun, rfl⟩⟩
  dsimp only
  split
  · exact ⟨inv, rfl, .inr ⟨nofun, rfl⟩⟩
  next grown hsome =>
    obtain ⟨nb, rfl, hfits⟩ := hgrown grown hsome
    have hfits' : Fits minValues nb key.values.length := by
      obtain ⟨hused, heq⟩ := hfits
      exact ⟨by omega, heq⟩
    split
    · refine ⟨⟨inv.subkeysAscend, inv.valuesAscend, inv.subkeysFit, hfits', inv.ids, inv.fresh⟩,
        rfl, .inr ⟨nofun, rfl⟩⟩
    have hpoint' : InsertionPoint (KeyValue.key toLower) key.values (value.key toLower) index :=
      hpoint
    rw [set_shiftUp value hpoint.le_length]
    refine ⟨⟨inv.subkeysAscend, inv.valuesAscend.insertIdx hpoint', inv.subkeysFit, ?_, inv.ids,
      inv.fresh⟩, rfl, .inl ⟨rfl, entryAt_insertIdx inv.valuesAscend hpoint'⟩⟩
    rw [length_insertIdx_of_le_length hpoint.le_length]
    exact hfits

/-- The value that a request to set `name` leaves: the stored name is kept. -/
def ValueMap.setTo (toLower : WChar → WChar) (m : ValueMap) (name : Name) (type : Nat)
    (data : List UInt8) : ValueMap :=
  update m (foldName toLower name)
    (some ⟨((m (foldName toLower name)).map KeyValue.name).getD name, type, data⟩)

lemma setValue_effect (inv : KeyInv toLower key) (name : Name) (type : Nat) (data : List UInt8)
    (alloc : Alloc) :
    KeyInv toLower (setValue toLower key name type data alloc).1 ∧
      (setValue toLower key name type data alloc).1.subkeys = key.subkeys ∧
      ((setValue toLower key name type data alloc).2 = .success ∧
          valueMap toLower (setValue toLower key name type data alloc).1 =
            (valueMap toLower key).setTo toLower name type data ∨
        (setValue toLower key name type data alloc).2 ≠ .success ∧
          (setValue toLower key name type data alloc).1.values = key.values) := by
  unfold setValue
  split
  · exact ⟨inv, rfl, .inr ⟨nofun, rfl⟩⟩
  obtain ⟨value, i, hfind, hget, hkey⟩ | ⟨index, hfind, hpoint⟩ :=
    findValue_spec inv.valuesAscend name
  · have hat : valueMap toLower key (foldName toLower name) = some value :=
      (entryAt_eq_some inv.valuesAscend).mpr ⟨mem_of_getElem? hget, hkey⟩
    have hnew : KeyValue.key toLower ⟨value.name, type, data⟩ = value.key toLower := rfl
    have hset : (valueMap toLower key).setTo toLower name type data =
        update (valueMap toLower key) (KeyValue.key toLower ⟨value.name, type, data⟩)
          (some ⟨value.name, type, data⟩) := by
      rw [ValueMap.setTo, hat, hnew, hkey]
      rfl
    simp only [hfind, any_some]
    split
    next hsame =>
      -- the value already has this type and these data
      rw [Bool.and_eq_true, Bool.and_eq_true, beq_iff_eq, beq_iff_eq] at hsame
      obtain ⟨⟨rfl, rfl⟩, _⟩ := hsame
      refine ⟨inv, rfl, .inl ⟨rfl, ?_⟩⟩
      rw [hset, hnew, hkey]
      exact Function.eq_update_self_iff.mpr hat
    · split
      · exact ⟨inv, rfl, .inr ⟨nofun, rfl⟩⟩
      split
      · exact ⟨inv, rfl, .inr ⟨nofun, rfl⟩⟩
      refine ⟨⟨inv.subkeysAscend, inv.valuesAscend.set hget hnew, inv.subkeysFit, ?_, inv.ids,
        inv.fresh⟩, rfl, .inl ⟨rfl, ?_⟩⟩
      · rw [length_set]
        exact inv.valuesFit
      · rw [hset]
        exact entryAt_set inv.valuesAscend hget hnew
  · have hat : valueMap toLower key (foldName toLower name) = none := hpoint.entryAt_eq_none
    have hset : (valueMap toLower key).setTo toLower name type data =
        update (valueMap toLower key) (foldName toLower name) (some ⟨name, type, data⟩) := by
      rw [ValueMap.setTo, hat]
      rfl
    simp only [hfind, any_none, Bool.false_eq_true, if_false]
    rw [hset]
    split
    · exact ⟨inv, rfl, .inr ⟨nofun, rfl⟩⟩
    split
    · exact ⟨inv, rfl, .inr ⟨nofun, rfl⟩⟩
    · have hname : (⟨name, type, data⟩ : KeyValue).name = name := rfl
      exact insertValue_effect inv hname hpoint alloc

lemma deleteValue_effect (inv : KeyInv toLower key) (name : Name) (alloc : Alloc) :
    KeyInv toLower (deleteValue toLower key name alloc).1 ∧
      (deleteValue toLower key name alloc).1.subkeys = key.subkeys ∧
      ((deleteValue toLower key name alloc).2 = .success ∧
          valueMap toLower (deleteValue toLower key name alloc).1 =
            update (valueMap toLower key) (foldName toLower name) none ∨
        (deleteValue toLower key name alloc).2 ≠ .success ∧
          (deleteValue toLower key name alloc).1.values = key.values) := by
  unfold deleteValue
  split
  · exact ⟨inv, rfl, .inr ⟨nofun, rfl⟩⟩
  obtain ⟨value, i, hfind, hget, hkey⟩ | ⟨index, hfind, _⟩ :=
    findValue_spec inv.valuesAscend name
  · have hi := (List.getElem?_eq_some_iff.mp hget).1
    rw [hfind]
    dsimp only
    rw [dropLast_shiftDown hi]
    refine ⟨⟨inv.subkeysAscend, inv.valuesAscend.eraseIdx, inv.subkeysFit, ?_, inv.ids, inv.fresh⟩,
      rfl, .inl ⟨rfl, ?_⟩⟩
    · apply shrink_fits
      have hlen : (key.values.eraseIdx i).length + 1 = key.values.length := by
        rw [length_eraseIdx, if_pos hi]
        omega
      rw [hlen]
      exact inv.valuesFit
    · rw [← hkey]
      exact entryAt_eraseIdx inv.valuesAscend hget
  · rw [hfind]
    exact ⟨inv, rfl, .inr ⟨nofun, rfl⟩⟩

/-- What the requests so far have added and removed, by folded name. -/
structure Tracked where
  key : Key
  subkeys : SubkeyMap
  values : ValueMap

variable (toLower) in
def recordSubkey (m : SubkeyMap) (op : Op) (reply : Status × Option Nat) : SubkeyMap :=
  if reply.1 ≠ .success then m
  else
    match op, reply.2 with
    | .create name _ _, some id => update m (foldName toLower name) (some ⟨id, name⟩)
    | .unlink id _, _ => without m id
    | .rename id newName _, _ =>
      update (without m id) (foldName toLower newName) (some ⟨id, newName⟩)
    | _, _ => m

variable (toLower) in
def recordValue (m : ValueMap) (op : Op) (reply : Status × Option Nat) : ValueMap :=
  if reply.1 ≠ .success then m
  else
    match op with
    | .set name type data _ => m.setTo toLower name type data
    | .delete name _ => update m (foldName toLower name) none
    | _ => m

variable (toLower) in
def Tracked.step (t : Tracked) (op : Op) : Tracked :=
  let (key, reply) := Registry.step toLower t.key op
  ⟨key, recordSubkey toLower t.subkeys op reply, recordValue toLower t.values op reply⟩

def Tracked.new (name : Name) : Tracked := ⟨Key.new name, fun _ => none, fun _ => none⟩

variable {reply : Status × Option Nat}

lemma recordSubkey_failed {m : SubkeyMap} {op : Op}
    (hfail : reply.1 ≠ .success) : recordSubkey toLower m op reply = m := if_pos hfail

lemma recordValue_failed {m : ValueMap} {op : Op}
    (hfail : reply.1 ≠ .success) : recordValue toLower m op reply = m := if_pos hfail

lemma reply_eq_success {status : Status} (h : status = .success)
    (hreply : reply = (status, none)) : reply = (.success, none) := by
  rw [hreply, h]

variable (toLower) in
/-- A step keeps the key in order, and the maps follow it. -/
def Records (key : Key) (op : Op) : Prop :=
  KeyInv toLower (step toLower key op).1 ∧
    subkeyMap toLower (step toLower key op).1 =
      recordSubkey toLower (subkeyMap toLower key) op (step toLower key op).2 ∧
    valueMap toLower (step toLower key op).1 =
      recordValue toLower (valueMap toLower key) op (step toLower key op).2 ∧
    ((step toLower key op).2.1 ≠ .success → Unchanged key (step toLower key op).1)

lemma step_effect (inv : KeyInv toLower key) (op : Op) : Records toLower key op := by
  have hsubkeyMap : ∀ {key' : Key}, key'.subkeys = key.subkeys →
      subkeyMap toLower key' = subkeyMap toLower key := by
    intro key' h
    rw [subkeyMap, h, subkeyMap]
  have hvalueMap : ∀ {key' : Key}, key'.values = key.values →
      valueMap toLower key' = valueMap toLower key := by
    intro key' h
    rw [valueMap, h, valueMap]
  have hfailed : (step toLower key op).2.1 ≠ .success → KeyInv toLower (step toLower key op).1 →
      Unchanged key (step toLower key op).1 →
      Records toLower key op := by
    intro hfail hinv hsame
    refine ⟨hinv, ?_, ?_, fun _ => hsame⟩
    · rw [recordSubkey_failed hfail, hsubkeyMap hsame.1]
    · rw [recordValue_failed hfail, hvalueMap hsame.2]
  unfold Records
  cases op with
  | create name init alloc =>
    obtain ⟨hinv, hvalues, ⟨id, hreply, hmap⟩ | ⟨hfail, hsame⟩⟩ :=
      createSubkey_effect inv name init alloc
    · have hreply' : (step toLower key (.create name init alloc)).2 = (.success, some id) := hreply
      rw [hreply']
      exact ⟨hinv, hmap, hvalueMap hvalues, fun hne => absurd rfl hne⟩
    · exact hfailed hfail hinv ⟨hsame, hvalues⟩
  | unlink id alloc =>
    obtain ⟨hinv, hmap, hvalues⟩ := keyUnlinkName_effect inv id alloc
    exact ⟨hinv, hmap, hvalueMap hvalues, fun hne => absurd rfl hne⟩
  | rename id newName alloc =>
    obtain ⟨hinv, hvalues, ⟨hsuccess, hmap⟩ | ⟨hfail, hsame⟩⟩ :=
      renameKey_effect inv id newName alloc
    · have hreply : (step toLower key (.rename id newName alloc)).2 = (.success, none) :=
        reply_eq_success hsuccess rfl
      rw [hreply]
      exact ⟨hinv, hmap, hvalueMap hvalues, fun hne => absurd rfl hne⟩
    · exact hfailed hfail hinv ⟨hsame, hvalues⟩
  | set name type data alloc =>
    obtain ⟨hinv, hsubkeys, ⟨hsuccess, hmap⟩ | ⟨hfail, hsame⟩⟩ :=
      setValue_effect inv name type data alloc
    · have hreply : (step toLower key (.set name type data alloc)).2 = (.success, none) :=
        reply_eq_success hsuccess rfl
      rw [hreply]
      exact ⟨hinv, hsubkeyMap hsubkeys, hmap, fun hne => absurd rfl hne⟩
    · exact hfailed hfail hinv ⟨hsubkeys, hsame⟩
  | delete name alloc =>
    obtain ⟨hinv, hsubkeys, ⟨hsuccess, hmap⟩ | ⟨hfail, hsame⟩⟩ :=
      deleteValue_effect inv name alloc
    · have hreply : (step toLower key (.delete name alloc)).2 = (.success, none) :=
        reply_eq_success hsuccess rfl
      rw [hreply]
      exact ⟨hinv, hsubkeyMap hsubkeys, hmap, fun hne => absurd rfl hne⟩
    · exact hfailed hfail hinv ⟨hsubkeys, hsame⟩
  | flag symlink predef =>
    refine ⟨?_, rfl, rfl, fun hne => absurd rfl hne⟩
    exact ⟨inv.subkeysAscend, inv.valuesAscend, inv.subkeysFit, inv.valuesFit, inv.ids, inv.fresh⟩

/-- What is known of a key after every request: the arrays ascend, fit and hold what was added and
not removed since. -/
structure Faithful (toLower : WChar → WChar) (t : Tracked) : Prop where
  subkeysAscend : Ascending (Subkey.key toLower) t.key.subkeys
  valuesAscend : Ascending (KeyValue.key toLower) t.key.values
  subkeysFit : t.key.subkeys.length ≤ t.key.nbSubkeys
  valuesFit : t.key.values.length ≤ t.key.nbValues
  /-- a lookup finds what was added under the name, at its index -/
  findSubkey : ∀ name, (findSubkey toLower t.key name).1 = t.subkeys (foldName toLower name)
  subkeyIndex : ∀ name subkey, (Registry.findSubkey toLower t.key name).1 = some subkey →
    t.key.subkeys[(Registry.findSubkey toLower t.key name).2]? = some subkey
  findValue : ∀ name, (findValue toLower t.key name).1 = t.values (foldName toLower name)
  valueIndex : ∀ name value, (Registry.findValue toLower t.key name).1 = some value →
    t.key.values[(Registry.findValue toLower t.key name).2]? = some value
  /-- an enumeration meets each entry at one index, and nothing else -/
  enumKey : t.key.predef = false → ∀ subkey, (t.subkeys (subkey.key toLower) = some subkey ↔
      ∃ i, enumKey t.key i = .ok subkey ∧ ∀ j, Registry.enumKey t.key j = .ok subkey → j = i)
  enumValue : t.key.predef = false → ∀ value, (t.values (value.key toLower) = some value ↔
      ∃ i, enumValue t.key i = .ok value ∧ ∀ j, Registry.enumValue t.key j = .ok value → j = i)
  /-- a request that fails, for lack of memory or for another reason, changes no entry -/
  failed : ∀ op, (step toLower t.key op).2.1 ≠ .success →
    Unchanged t.key (step toLower t.key op).1

lemma enumKey_eq_ok (hpredef : key.predef = false) :
    enumKey key i = .ok subkey ↔ key.subkeys[i]? = some subkey := by
  unfold enumKey
  rw [hpredef]
  cases key.subkeys[i]? <;> simp

lemma enumValue_eq_ok {value : KeyValue} (hpredef : key.predef = false) :
    enumValue key i = .ok value ↔ key.values[i]? = some value := by
  unfold enumValue
  rw [hpredef]
  cases key.values[i]? <;> simp
lemma enumKey_iff (inv : KeyInv toLower key) (hpredef : key.predef = false) (subkey : Subkey) :
    subkeyMap toLower key (subkey.key toLower) = some subkey ↔
      ∃ i, enumKey key i = .ok subkey ∧ ∀ j, enumKey key j = .ok subkey → j = i := by
  unfold subkeyMap
  rw [entryAt_eq_some inv.subkeysAscend]
  constructor
  · rintro ⟨hmem, _⟩
    obtain ⟨i, hi⟩ := mem_iff_getElem?.mp hmem
    refine ⟨i, (enumKey_eq_ok hpredef).mpr hi, ?_⟩
    intro j hj
    exact inv.subkeysAscend.index_inj ((enumKey_eq_ok hpredef).mp hj) hi
  · rintro ⟨i, hi, _⟩
    exact ⟨mem_of_getElem? ((enumKey_eq_ok hpredef).mp hi), rfl⟩

lemma enumValue_iff (inv : KeyInv toLower key) (hpredef : key.predef = false) (value : KeyValue) :
    valueMap toLower key (value.key toLower) = some value ↔
      ∃ i, enumValue key i = .ok value ∧ ∀ j, enumValue key j = .ok value → j = i := by
  unfold valueMap
  rw [entryAt_eq_some inv.valuesAscend]
  constructor
  · rintro ⟨hmem, _⟩
    obtain ⟨i, hi⟩ := mem_iff_getElem?.mp hmem
    refine ⟨i, (enumValue_eq_ok hpredef).mpr hi, ?_⟩
    intro j hj
    exact inv.valuesAscend.index_inj ((enumValue_eq_ok hpredef).mp hj) hi
  · rintro ⟨i, hi, _⟩
    exact ⟨mem_of_getElem? ((enumValue_eq_ok hpredef).mp hi), rfl⟩

variable (toLower) in
/-- The key is in order and holds what was tracked. -/
structure TrackedInv (t : Tracked) : Prop where
  key : KeyInv toLower t.key
  subkeys : subkeyMap toLower t.key = t.subkeys
  values : valueMap toLower t.key = t.values

lemma trackedInv_new (name : Name) : TrackedInv toLower (Tracked.new name) :=
  ⟨keyInv_new name, rfl, rfl⟩

lemma TrackedInv.step {t : Tracked} (inv : TrackedInv toLower t) (op : Op) :
    TrackedInv toLower (t.step toLower op) := by
  obtain ⟨hkey, hsubkeys, hvalues, _⟩ := step_effect inv.key op
  rw [inv.subkeys] at hsubkeys
  rw [inv.values] at hvalues
  exact ⟨hkey, hsubkeys, hvalues⟩

lemma TrackedInv.run (ops : List Op) : ∀ {t : Tracked}, TrackedInv toLower t →
      TrackedInv toLower (ops.foldl (Tracked.step toLower) t) := by
  induction ops with
  | nil => exact id
  | cons op ops ih =>
    intro t inv
    exact ih (inv.step op)

lemma TrackedInv.faithful {t : Tracked} (inv : TrackedInv toLower t) : Faithful toLower t := by
  have hkey := inv.key
  constructor
  · exact hkey.subkeysAscend
  · exact hkey.valuesAscend
  · exact hkey.subkeysFit.used_le
  · exact hkey.valuesFit.used_le
  · intro name
    rw [← inv.subkeys]
    obtain ⟨subkey, i, hfind, hget, heq⟩ | ⟨i, hfind, hpoint⟩ :=
      findSubkey_spec hkey.subkeysAscend name
    · rw [hfind]
      exact ((entryAt_eq_some hkey.subkeysAscend).mpr ⟨mem_of_getElem? hget, heq⟩).symm
    · rw [hfind]
      exact hpoint.entryAt_eq_none.symm
  · intro name subkey h
    obtain ⟨other, i, hfind, hget, _⟩ | ⟨i, hfind, _⟩ := findSubkey_spec hkey.subkeysAscend name
    · rw [hfind] at h ⊢
      rw [← h]
      exact hget
    · rw [hfind] at h
      cases h
  · intro name
    rw [← inv.values]
    obtain ⟨value, i, hfind, hget, heq⟩ | ⟨i, hfind, hpoint⟩ :=
      findValue_spec hkey.valuesAscend name
    · rw [hfind]
      exact ((entryAt_eq_some hkey.valuesAscend).mpr ⟨mem_of_getElem? hget, heq⟩).symm
    · rw [hfind]
      exact hpoint.entryAt_eq_none.symm
  · intro name value h
    obtain ⟨other, i, hfind, hget, _⟩ | ⟨i, hfind, _⟩ := findValue_spec hkey.valuesAscend name
    · rw [hfind] at h ⊢
      rw [← h]
      exact hget
    · rw [hfind] at h
      cases h
  · intro hpredef subkey
    rw [← inv.subkeys]
    exact enumKey_iff hkey hpredef subkey
  · intro hpredef value
    rw [← inv.values]
    exact enumValue_iff hkey hpredef value
  · intro op
    exact (step_effect hkey op).2.2.2

end WineForge.Registry
