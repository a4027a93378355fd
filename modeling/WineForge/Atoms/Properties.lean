import Mathlib.Algebra.Order.BigOperators.Group.List
import WineForge.Library.Transition

/-!
# Window properties and global atoms

A property that was set by its name holds a reference to the atom. The atom table is seen through its
counts: an atom has an entry as long as its count is not zero.
-/

namespace WineForge.Atoms

open Function Library List Option

inductive PropertyType
  | free
  | string
  | atom
  deriving DecidableEq, Repr

structure Property where
  type : PropertyType
  atom : ℕ
  data : ℤ
  deriving DecidableEq, Repr

/-- The part of `struct window` for the properties; `prop_inuse` is the length of the list. -/
structure Window where
  properties : List Property
  alloc : ℕ
  deriving DecidableEq, Repr

structure State where
  /-- A destroyed window leaves nothing behind. -/
  windows : List (Option Window)
  /-- The reference counts of the string atoms. -/
  count : ℕ → ℕ
  /-- The successful calls of `grab_atom` for properties, less the calls of `release_atom`. -/
  balance : ℕ → ℤ
  /-- The counts that the requests for atoms alone give. -/
  explicit : ℕ → ℕ

def minStrAtom : ℕ := 0xc000

/-- What `add_atom` does to the count of the atom that it returns. -/
def addAtom (s : State) (a : ℕ) : State :=
  if minStrAtom ≤ a then
    { s with
      count := update s.count a (s.count a + 1)
      explicit := update s.explicit a (s.explicit a + 1) }
  else s

/-- `delete_atom`, or the `release_atom` of a caller of `add_atom`. -/
def deleteAtom (s : State) (a : ℕ) : State :=
  if minStrAtom ≤ a then
    { s with
      count := update s.count a (s.count a - 1)
      explicit := update s.explicit a (s.explicit a - 1) }
  else s

/-- `grab_atom` for a property of this type. -/
def grabProperty (s : State) (p : Property) : Option State :=
  let s' := { s with balance := update s.balance p.atom (s.balance p.atom + 1) }
  if p.type ≠ .string then some s
  else if minStrAtom ≤ p.atom then
    if s.count p.atom = 0 then none
    else some { s' with count := update s.count p.atom (s.count p.atom + 1) }
  else if p.atom = 0 then none
  else some s'

/-- `release_atom` for a property of this type. -/
def releaseProperty (s : State) (p : Property) : State :=
  let s' := { s with balance := update s.balance p.atom (s.balance p.atom - 1) }
  if p.type ≠ .string then s
  else if minStrAtom ≤ p.atom then
    { s' with count := update s.count p.atom (s.count p.atom - 1) }
  else s'

def findProperty (w : Window) (a : ℕ) : Option ℕ :=
  w.properties.findIdx? fun p => p.type ≠ .free ∧ p.atom = a

def lastFree (ps : List Property) : Option ℕ :=
  (List.range ps.length).reverse.find? fun k => (ps[k]?).any fun p => p.type = .free

def place (w : Window) (p : Property) (grown : Bool) : Option Window :=
  match lastFree w.properties with
  | some k => some { w with properties := w.properties.set k p }
  | none =>
    let w' := { w with properties := w.properties ++ [p] }
    if w.properties.length < w.alloc then some w'
    else if grown then some { w' with alloc := w.alloc + 16 }
    else none

def setWindow (s : State) (i : ℕ) (w : Option Window) : State :=
  { s with windows := s.windows.set i w }

def setProperty (s : State) (i : ℕ) (w : Window) (p : Property) (grown : Bool) : State :=
  match findProperty w p.atom with
  | some k => setWindow s i (some { w with properties := w.properties.set k p })
  | none =>
    match grabProperty s p with
    | none => s
    | some s =>
      match place w p grown with
      | some w => setWindow s i (some w)
      | none => releaseProperty s p

def removeProperty (s : State) (i : ℕ) (w : Window) (a : ℕ) : State :=
  match findProperty w a with
  | none => s
  | some k =>
    match w.properties[k]? with
    | none => s
    | some p =>
      setWindow (releaseProperty s p) i
        (some { w with properties := w.properties.set k { p with type := .free } })

def destroyProperties (s : State) (i : ℕ) (w : Window) : State :=
  setWindow (w.properties.foldl releaseProperty s) i none

def getWindow (s : State) (i : ℕ) : Option Window := (s.windows[i]?).join

/-- The requests; a name comes with the atom that `add_atom` or `find_atom` returns for it. -/
inductive Op
  | createWindow
  | setByName (i a : ℕ) (data : ℤ) (grown : Bool)
  | setByAtom (i a : ℕ) (data : ℤ) (grown : Bool)
  | remove (i a : ℕ)
  | destroyWindow (i : ℕ)
  | addAtom (a : ℕ)
  | deleteAtom (a : ℕ)

def step (s : State) : Op → Option State
  | .createWindow => some { s with windows := s.windows ++ [some ⟨[], 0⟩] }
  | .setByName i a data grown =>
    (getWindow s i).map fun w =>
      if a = 0 then s
      else deleteAtom (setProperty (addAtom s a) i w ⟨.string, a, data⟩ grown) a
  | .setByAtom i a data grown =>
    (getWindow s i).map fun w => setProperty s i w ⟨.atom, a, data⟩ grown
  | .remove i a => (getWindow s i).map fun w => if a = 0 then s else removeProperty s i w a
  | .destroyWindow i => (getWindow s i).map fun w => destroyProperties s i w
  | .addAtom a => some (addAtom s a)
  | .deleteAtom a => some (deleteAtom s a)

def indicator (a : ℕ) (p : Property) : ℤ := if p.type = .string ∧ p.atom = a then 1 else 0

def stringsIn (a : ℕ) (w : Window) : ℤ := (w.properties.map (indicator a)).sum

/-- The live properties of an atom that have the type `PROP_TYPE_STRING`. -/
def stringProps (s : State) (a : ℕ) : ℤ := (s.windows.map fun w => w.elim 0 (stringsIn a)).sum

def Start (s : State) : Prop := s.windows = [] ∧ (∀ a, s.balance a = 0) ∧ s.count = s.explicit

def HasType (s : State) (i a : ℕ) (type : PropertyType) : Prop :=
  ∀ w k p, getWindow s i = some w → findProperty w a = some k → w.properties[k]? = some p →
    p.type = type

def KeepsType (s : State) : Op → Prop
  | .setByName i a _ _ => HasType s i a .string
  | .setByAtom i a _ _ => HasType s i a .atom
  | _ => True

def Deletes (s : State) : Op → Prop
  | .deleteAtom a => s.count a ≠ 0 → 0 < s.explicit a
  | _ => True

lemma sum_map_set {α : Type} (f : α → ℤ) {l : List α} {k : ℕ} {b : α} (h : l[k]? = some b) (a : α) :
    ((l.set k a).map f).sum = (l.map f).sum - f b + f a := by
  obtain ⟨hk, rfl⟩ := List.getElem?_eq_some_iff.mp h
  rw [map_set, sum_set', dif_pos (by simpa using hk), getElem_map]
  omega

lemma indicator_nonneg (a : ℕ) (p : Property) : 0 ≤ indicator a p := by
  unfold indicator
  split <;> decide

lemma le_sum {α : Type} {f : α → ℤ} (h : ∀ x, 0 ≤ f x) {l : List α} {x : α} (hx : x ∈ l) :
    f x ≤ (l.map f).sum := by
  apply single_le_sum
  · intro y hy
    obtain ⟨x, _, rfl⟩ := mem_map.mp hy
    exact h x
  · exact mem_map_of_mem hx

lemma sum_nonneg {α : Type} {f : α → ℤ} (h : ∀ x, 0 ≤ f x) (l : List α) : 0 ≤ (l.map f).sum := by
  apply List.sum_nonneg
  intro y hy
  obtain ⟨x, _, rfl⟩ := List.mem_map.mp hy
  exact h x

lemma stringsOf_nonneg (a : ℕ) (w : Option Window) : 0 ≤ w.elim 0 (stringsIn a) := by
  cases w with
  | none => exact Int.le_refl 0
  | some w => exact sum_nonneg (indicator_nonneg a) w.properties

lemma stringProps_nonneg (s : State) (a : ℕ) : 0 ≤ stringProps s a :=
  sum_nonneg (stringsOf_nonneg a) s.windows

lemma stringsIn_set {w : Window} {k : ℕ} {q : Property} (h : w.properties[k]? = some q) (a : ℕ)
    (p : Property) : stringsIn a { w with properties := w.properties.set k p } =
      stringsIn a w - indicator a q + indicator a p :=
  sum_map_set (indicator a) h p

lemma lastFree_free {ps : List Property} {k : ℕ} (h : lastFree ps = some k) :
    ∃ q, ps[k]? = some q ∧ q.type = .free := by
  have hfree := find?_some h
  cases hq : ps[k]? with
  | none => simp [hq] at hfree
  | some q =>
    rw [hq] at hfree
    exact ⟨q, rfl, of_decide_eq_true hfree⟩

lemma stringsIn_place {w w' : Window} {p : Property} {grown : Bool} (h : place w p grown = some w')
    (a : ℕ) : stringsIn a w' = stringsIn a w + indicator a p := by
  have happend : ∀ alloc, stringsIn a ⟨w.properties ++ [p], alloc⟩ =
      stringsIn a w + indicator a p := by
    intro alloc
    simp [stringsIn]
  unfold place at h
  split at h
  · rename_i k hk
    obtain rfl := some.inj h
    obtain ⟨q, hq, hfree⟩ := lastFree_free hk
    have hzero : indicator a q = 0 := if_neg (by simp [hfree])
    rw [stringsIn_set hq, hzero, Int.sub_zero]
  split at h
  · exact some.inj h ▸ happend w.alloc
  · split at h
    · exact some.inj h ▸ happend (w.alloc + 16)
    · nomatch h

/-- Grabs and releases for properties add `d` to the balance, and to the counts unless some count
would have to be negative. -/
structure Moved (s s' : State) (d : ℕ → ℤ) : Prop where
  windows : s'.windows = s.windows
  explicit : s'.explicit = s.explicit
  balance : ∀ a, s'.balance a = s.balance a + d a
  count : (∀ a, minStrAtom ≤ a → 0 ≤ s.count a + d a) →
    ∀ a, minStrAtom ≤ a → (s'.count a : ℤ) = s.count a + d a

lemma Moved.refl (s : State) : Moved s s 0 :=
  ⟨rfl, rfl, fun _ => (Int.add_zero _).symm, fun _ _ _ => (Int.add_zero _).symm⟩

lemma Moved.trans {s s' s'' : State} {d d' : ℕ → ℤ} (h : Moved s s' d) (h' : Moved s' s'' d')
    (hsign : ∀ a, 0 ≤ d a ∨ d' a ≤ 0) : Moved s s'' (d + d') := by
  refine ⟨h'.windows.trans h.windows, h'.explicit.trans h.explicit, fun a => ?_, fun hall => ?_⟩
  · rw [h'.balance, h.balance, Pi.add_apply, Int.add_assoc]
  simp only [Pi.add_apply] at hall ⊢
  have hfirst := h.count fun a ha => by
    have htotal := hall a ha
    obtain hd | hd := hsign a <;> omega
  have hsecond := h'.count fun a ha => by
    rw [hfirst a ha, Int.add_assoc]
    exact hall a ha
  intro a ha
  rw [hsecond a ha, hfirst a ha, Int.add_assoc]

lemma indicator_string {p : Property} (h : p.type = .string) (a : ℕ) :
    indicator a p = if a = p.atom then 1 else 0 := by
  simp [indicator, h, eq_comm]

lemma indicator_other {p : Property} (h : p.type ≠ .string) (a : ℕ) : indicator a p = 0 :=
  if_neg fun hp => h hp.1

lemma grabProperty_moved {s s' : State} {p : Property} (h : grabProperty s p = some s') :
    Moved s s' fun a => indicator a p := by
  unfold grabProperty at h
  split at h
  · rename_i htype
    rw [funext (indicator_other htype), ← some.inj h]
    exact Moved.refl s
  rename_i htype
  rw [funext (indicator_string (not_not.mp htype))]
  split at h
  · split at h
    · nomatch h
    · obtain rfl := some.inj h
      refine ⟨rfl, rfl, fun a => ?_, fun _ a _ => ?_⟩ <;> grind [update_apply]
  split at h
  · nomatch h
  · obtain rfl := some.inj h
    refine ⟨rfl, rfl, fun a => ?_, fun _ a _ => ?_⟩ <;> grind [update_apply]

lemma releaseProperty_moved (s : State) (p : Property) :
    Moved s (releaseProperty s p) fun a => -indicator a p := by
  unfold releaseProperty
  split
  · rename_i htype
    simp only [indicator_other htype]
    exact Moved.refl s
  rename_i htype
  simp only [indicator_string (not_not.mp htype)]
  split
  · refine ⟨rfl, rfl, fun a => ?_, fun hall a ha => ?_⟩
    · by_cases ha : a = p.atom <;> grind [update_apply]
    · grind [update_apply]
  · refine ⟨rfl, rfl, fun a => ?_, fun _ a _ => ?_⟩ <;> by_cases ha : a = p.atom <;>
      grind [update_apply]

lemma releaseAll_moved (s : State) (ps : List Property) :
    Moved s (ps.foldl releaseProperty s) fun a => -(ps.map (indicator a)).sum := by
  induction ps generalizing s with
  | nil => exact Moved.refl s
  | cons p ps ih =>
    have h := (releaseProperty_moved s p).trans (ih (releaseProperty s p)) fun a =>
      .inr (Int.neg_nonpos_of_nonneg (sum_nonneg (indicator_nonneg a) ps))
    have hsum : (fun a => -((p :: ps).map (indicator a)).sum) =
        (fun a => -indicator a p) + fun a => -(ps.map (indicator a)).sum := by
      funext a
      simp only [map_cons, sum_cons, Pi.add_apply]
      omega
    rw [hsum]
    exact h

def Balanced (s : State) : Prop := ∀ a, s.balance a = stringProps s a

def Counted (s : State) : Prop :=
  ∀ a, minStrAtom ≤ a → (s.count a : ℤ) = s.explicit a + stringProps s a

def Keeps (s s' : State) : Prop := (Balanced s → Balanced s') ∧ (Counted s → Counted s')

/-- The references move as the properties of a window do. -/
lemma Moved.keeps {s s' : State} {d : ℕ → ℤ} (h : Moved s s' d) {i : ℕ} {w : Window} {w' : Option Window}
    (hw : s.windows[i]? = some (some w))
    (hd : ∀ a, w'.elim 0 (stringsIn a) = stringsIn a w + d a) : Keeps s (setWindow s' i w') := by
  have hprops : ∀ a, stringProps (setWindow s' i w') a = stringProps s a + d a := by
    intro a
    unfold stringProps setWindow
    rw [h.windows, sum_map_set (fun w => w.elim 0 (stringsIn a)) hw, hd, elim_some]
    omega
  constructor
  · intro hbalanced a
    rw [hprops, ← hbalanced a]
    exact h.balance a
  · intro hcounted a ha
    have hcount := h.count (fun a ha => by
      have hnonneg := stringProps_nonneg (setWindow s' i w') a
      rw [hprops] at hnonneg
      rw [hcounted a ha]
      omega) a ha
    have hexplicit : (setWindow s' i w').explicit = s.explicit := h.explicit
    rw [hprops, hexplicit]
    exact hcount.trans (by rw [hcounted a ha, Int.add_assoc])

variable {s : State}

lemma getWindow_some {i : ℕ} {w : Window} (h : getWindow s i = some w) :
    s.windows[i]? = some (some w) :=
  join_eq_some_iff.mp h

lemma set_self {i : ℕ} {w : Window} (hw : s.windows[i]? = some (some w)) :
    setWindow s i (some w) = s := by
  obtain ⟨hi, hget⟩ := List.getElem?_eq_some_iff.mp hw
  unfold setWindow
  rw [← hget, set_getElem_self]

lemma setProperty_keeps {i : ℕ} {w : Window} (hw : s.windows[i]? = some (some w))
    {p : Property} (htype : ∀ k q, findProperty w p.atom = some k → w.properties[k]? = some q →
      q.type = p.type) (grown : Bool) :
    Keeps s (setProperty s i w p grown) ∧ (setProperty s i w p grown).explicit = s.explicit := by
  unfold setProperty
  split
  · rename_i k hk
    obtain ⟨hlt, hfound, _⟩ := findIdx?_eq_some_iff_getElem.mp hk
    have hq := getElem?_eq_getElem hlt
    have hatom := (of_decide_eq_true hfound).2
    have hsame : ∀ a, indicator a w.properties[k] = indicator a p := by
      intro a
      unfold indicator
      rw [htype k _ hk hq, hatom]
    refine ⟨(Moved.refl s).keeps hw fun a => ?_, rfl⟩
    rw [elim_some, stringsIn_set hq, hsame]
    simp
  · split
    · exact ⟨⟨id, id⟩, rfl⟩
    rename_i s' hgrab
    have hmoved := grabProperty_moved hgrab
    split
    · rename_i w' hplace
      exact ⟨hmoved.keeps hw (stringsIn_place hplace), hmoved.explicit⟩
    have hback := hmoved.trans (releaseProperty_moved s' p) fun a =>
      .inl (indicator_nonneg a p)
    have hw' : (releaseProperty s' p).windows[i]? = some (some w) := hback.windows ▸ hw
    refine ⟨?_, hback.explicit⟩
    rw [← set_self hw']
    exact hback.keeps hw fun a => by simp

lemma removeProperty_keeps {i : ℕ} {w : Window} (hw : s.windows[i]? = some (some w)) (a : ℕ) :
    Keeps s (removeProperty s i w a) := by
  unfold removeProperty
  split
  · exact ⟨id, id⟩
  split
  · exact ⟨id, id⟩
  rename_i p hp
  apply (releaseProperty_moved s p).keeps hw
  intro b
  have hzero : indicator b { p with type := .free } = 0 := if_neg (by simp)
  rw [elim_some, stringsIn_set hp, hzero]
  omega

lemma destroyProperties_keeps {i : ℕ} {w : Window} (hw : s.windows[i]? = some (some w)) :
    Keeps s (destroyProperties s i w) := by
  apply (releaseAll_moved s w.properties).keeps hw
  intro a
  change 0 = stringsIn a w + -stringsIn a w
  omega

lemma addAtom_keeps (s : State) (a : ℕ) : Keeps s (addAtom s a) := by
  unfold addAtom
  split
  · refine ⟨id, fun h b hb => ?_⟩
    have hcount := h b hb
    change _ = _ + stringProps s b
    by_cases hba : b = a
    · subst hba
      simp only [update_self]
      omega
    · simpa [hba] using hcount
  · exact ⟨id, id⟩

lemma deleteAtom_balanced (h : Balanced s) (a : ℕ) : Balanced (deleteAtom s a) := by
  unfold deleteAtom
  split
  · exact h
  · exact h

lemma deleteAtom_counted {a : ℕ} (hs : Counted s)
    (h : s.count a ≠ 0 → 0 < s.explicit a) : Counted (deleteAtom s a) := by
  unfold deleteAtom
  split
  · intro b hb
    have hcount := hs b hb
    change _ = _ + stringProps s b
    by_cases hba : b = a
    · subst hba
      have hnonneg := stringProps_nonneg s b
      simp only [update_self]
      omega
    · simpa [hba] using hcount
  · exact hs

lemma step_keeps {s s' : State} {op : Op} (htype : KeepsType s op) (hstep : step s op = some s') :
    (Balanced s → Balanced s') ∧ (Deletes s op → Counted s → Counted s') := by
  have hkeeps : ∀ {s'}, Keeps s s' →
      (Balanced s → Balanced s') ∧ (Deletes s op → Counted s → Counted s') :=
    fun h => ⟨h.1, fun _ => h.2⟩
  cases op with
  | createWindow =>
    obtain rfl := some.inj hstep
    have hprops : ∀ a, stringProps { s with windows := s.windows ++ [some ⟨[], 0⟩] } a =
        stringProps s a := by
      intro a
      simp [stringProps, stringsIn]
    exact hkeeps ⟨fun h a => (hprops a).symm ▸ h a, fun h a ha => (hprops a).symm ▸ h a ha⟩
  | setByName i a data grown =>
    obtain ⟨w, hw, rfl⟩ := map_eq_some_iff.mp hstep
    split
    · exact hkeeps ⟨id, id⟩
    have hadded := addAtom_keeps s a
    have hsame : (addAtom s a).windows = s.windows := by
      unfold addAtom
      split <;> rfl
    obtain ⟨hset, hexplicit⟩ := @setProperty_keeps (addAtom s a) i w
      (hsame ▸ getWindow_some hw) ⟨.string, a, data⟩ (fun k q hk hq => htype w k q hw hk hq) grown
    refine hkeeps ⟨fun h => deleteAtom_balanced (hset.1 (hadded.1 h)) a, fun h => ?_⟩
    by_cases hle : minStrAtom ≤ a
    · have hpos : 0 < (addAtom s a).explicit a := by simp [addAtom, hle]
      exact deleteAtom_counted (hset.2 (hadded.2 h)) fun _ => by rwa [hexplicit]
    · have hnone : ∀ s, deleteAtom s a = s := fun s => if_neg hle
      rw [hnone]
      exact hset.2 (hadded.2 h)
  | setByAtom i a data grown =>
    obtain ⟨w, hw, rfl⟩ := map_eq_some_iff.mp hstep
    exact hkeeps (setProperty_keeps (getWindow_some hw)
      (fun k q hk hq => htype w k q hw hk hq) grown).1
  | remove i a =>
    obtain ⟨w, hw, rfl⟩ := map_eq_some_iff.mp hstep
    split
    · exact hkeeps ⟨id, id⟩
    · exact hkeeps (removeProperty_keeps (getWindow_some hw) a)
  | destroyWindow i =>
    obtain ⟨w, hw, rfl⟩ := map_eq_some_iff.mp hstep
    exact hkeeps (destroyProperties_keeps (getWindow_some hw))
  | addAtom a => exact some.inj hstep ▸ hkeeps (addAtom_keeps s a)
  | deleteAtom a =>
    obtain rfl := some.inj hstep
    exact ⟨fun h => deleteAtom_balanced h a, fun hdel h => deleteAtom_counted h hdel⟩

lemma start_props (h : Start s) (a : ℕ) : stringProps s a = 0 := by
  unfold stringProps
  rw [h.1]
  rfl

/-- While no property changes its type, the references of the properties are balanced. If no atom is
deleted too often either, the counts are those of the requests and of the properties together. -/
theorem property_atoms_balanced (s : State) :
    (Reaches step KeepsType Start s → ∀ a, s.balance a = stringProps s a) ∧
    (Reaches step (fun s op => KeepsType s op ∧ Deletes s op) Start s →
      ((∀ w ∈ s.windows, w = none) → ∀ a, minStrAtom ≤ a → s.count a = s.explicit a) ∧
      ∀ w, some w ∈ s.windows → ∀ p ∈ w.properties, p.type = .string → minStrAtom ≤ p.atom →
        0 < s.count p.atom) := by
  constructor
  · intro h
    apply h.invariant
    · intro s hs a
      rw [start_props hs, hs.2.1]
    · exact fun s op s' hs htype hstep => (step_keeps htype hstep).1 hs
  · intro h
    have hcounted : Counted s := by
      apply h.invariant
      · intro s hs a _
        rw [start_props hs, hs.2.2, Int.add_zero]
      · exact fun s op s' hs hop hstep => (step_keeps hop.1 hstep).2 hop.2 hs
    constructor
    · intro hgone a ha
      have hzero : stringProps s a = 0 := by
        apply sum_eq_zero
        intro x hx
        obtain ⟨w, hw, rfl⟩ := mem_map.mp hx
        rw [hgone w hw]
        rfl
      have hcount := hcounted a ha
      omega
    · intro w hw p hp htype ha
      have hone : indicator p.atom p = 1 := if_pos ⟨htype, rfl⟩
      have hin : indicator p.atom p ≤ stringsIn p.atom w := le_sum (indicator_nonneg p.atom) hp
      have hall : stringsIn p.atom w ≤ stringProps s p.atom := le_sum (stringsOf_nonneg p.atom) hw
      have hcount := hcounted p.atom ha
      omega

def noWindows : State := ⟨[], fun _ => 0, fun _ => 0, fun _ => 0⟩

/-- A property is set twice by its name, and the window goes. -/
theorem property_atoms_balanced_visit :
    ∃ s, run step noWindows [.createWindow, .setByName 0 0xc001 7 true,
      .setByName 0 0xc001 8 true, .destroyWindow 0] = some s ∧ s.count 0xc001 = s.explicit 0xc001 ∧
      s.balance 0xc001 = stringProps s 0xc001 := by
  have hfirst : Reaches step (fun s op => KeepsType s op ∧ Deletes s op) Start noWindows :=
    .start ⟨rfl, fun _ => rfl, rfl⟩
  have hlast := hfirst.run [.createWindow, .setByName 0 0xc001 7 true, .setByName 0 0xc001 8 true,
    .destroyWindow 0] ⟨⟨trivial, trivial⟩, ⟨nofun, trivial⟩, ⟨?_, trivial⟩, ⟨trivial, trivial⟩,
      trivial⟩ rfl
  · refine ⟨_, rfl, (property_atoms_balanced _).2 hlast |>.1 ?_ _ (by decide), ?_⟩
    · exact fun w hw => mem_singleton.mp hw
    · exact (property_atoms_balanced _).1 (hlast.mono fun _ _ h => h.1) _
  · rintro w k p hw hk hp
    cases hw
    cases hk
    cases hp
    rfl

/-- A property with a name is replaced by one without, and the atom stays when the window goes. -/
theorem property_type_changes :
    ¬∀ s, Reachable step Start s → ∀ a, s.balance a = stringProps s a := by
  intro h
  have hstart : Reachable step Start noWindows := .start ⟨rfl, fun _ => rfl, rfl⟩
  have hbalance := h _ (reachable_of_run hstart [.createWindow, .setByName 0 0xc001 7 true,
    .setByAtom 0 0xc001 8 true, .destroyWindow 0] rfl) 0xc001
  exact absurd hbalance (by decide)

end WineForge.Atoms
