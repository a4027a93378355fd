import Mathlib.Data.List.InsertIdx
import Mathlib.Algebra.Order.Ring.Int

/-!
# Sorted arrays as maps

An array whose entries ascend strictly by a key is a finite map. A binary search finds the entry with
a key or the index where it belongs, and the loops that shift entries by one make room there or close
the gap of an entry that was removed.
-/

namespace WineForge.Library

open Function List

variable {α κ : Type} [LinearOrder κ]

/-- `for (i = n; i > index; i--) a[i] = a[i - 1]` -/
def shiftUp (a : List α) (index : Nat) : Nat → List α
  | 0 => a
  | i + 1 =>
    if index < i + 1 then
      match a[i]? with
      | none => a
      | some x => shiftUp (a.set (i + 1) x) index i
    else a

/-- `for (; n > 0; n--, i++) a[i] = a[i + 1]` -/
def shiftDown (a : List α) (i : Nat) : Nat → List α
  | 0 => a
  | n + 1 =>
    match a[i + 1]? with
    | none => a
    | some x => shiftDown (a.set i x) (i + 1) n

variable {a xs : List α} {x y : α} {i j n index cur : Nat}

lemma getElem?_shiftUp (hn : n < a.length) :
    (shiftUp a index n)[j]? = if index < j ∧ j ≤ n then a[j - 1]? else a[j]? := by
  induction n generalizing a with
  | zero =>
    have hnot : ¬(index < j ∧ j ≤ 0) := by omega
    rw [shiftUp, if_neg hnot]
  | succ n ih =>
    unfold shiftUp
    by_cases hlt : index < n + 1
    · rw [if_pos hlt]
      have hget : a[n]? = some a[n] := getElem?_eq_getElem (by omega)
      simp only [hget]
      rw [ih (by rw [length_set]; omega), getElem?_set, getElem?_set]
      grind
    · rw [if_neg hlt, if_neg (by omega)]

lemma length_shiftUp : (shiftUp a index n).length = a.length := by
  induction n generalizing a with
  | zero => rfl
  | succ n ih =>
    unfold shiftUp
    split
    · split
      · rfl
      · rw [ih, length_set]
    · rfl

lemma getElem?_shiftDown (hn : i + n < a.length) :
    (shiftDown a i n)[j]? = if i ≤ j ∧ j < i + n then a[j + 1]? else a[j]? := by
  induction n generalizing a i with
  | zero =>
    have hnot : ¬(i ≤ j ∧ j < i + 0) := by omega
    rw [shiftDown, if_neg hnot]
  | succ n ih =>
    have hget : a[i + 1]? = some a[i + 1] := getElem?_eq_getElem (by omega)
    unfold shiftDown
    simp only [hget]
    rw [ih (by rw [length_set]; omega), getElem?_set, getElem?_set]
    grind

lemma length_shiftDown : (shiftDown a i n).length = a.length := by
  induction n generalizing a i with
  | zero => rfl
  | succ n ih =>
    unfold shiftDown
    split
    · rfl
    · rw [ih, length_set]

lemma set_shiftUp (slot : α) (hindex : index ≤ xs.length) :
    (shiftUp (xs ++ [slot]) index xs.length).set index x = xs.insertIdx index x := by
  apply ext_getElem?
  intro j
  rw [getElem?_set, getElem?_insertIdx, length_shiftUp, length_append,
    length_singleton, getElem?_shiftUp (by simp)]
  grind

lemma dropLast_shiftDown (hcur : cur < xs.length) :
    (shiftDown xs cur (xs.length - 1 - cur)).dropLast = xs.eraseIdx cur := by
  apply ext_getElem?
  intro j
  rw [getElem?_dropLast, length_shiftDown, getElem?_eraseIdx]
  rw [getElem?_shiftDown (by omega)]
  grind

lemma set_shiftDown (hcur : cur ≤ index) (hindex : index < xs.length) :
    (shiftDown xs cur (index - cur)).set index x = (xs.eraseIdx cur).insertIdx index x := by
  apply ext_getElem?
  intro j
  rw [getElem?_set, getElem?_insertIdx, length_shiftDown, getElem?_shiftDown (by omega),
    getElem?_eraseIdx, getElem?_eraseIdx, length_eraseIdx]
  grind

lemma set_shiftUp_move (hcur : cur < xs.length) (hindex : index ≤ cur) :
    (shiftUp xs index cur).set index x = (xs.eraseIdx cur).insertIdx index x := by
  apply ext_getElem?
  intro j
  rw [getElem?_set, getElem?_insertIdx, length_shiftUp, getElem?_shiftUp hcur,
    getElem?_eraseIdx, getElem?_eraseIdx, length_eraseIdx]
  grind

/-- `while (min <= max)` with `stop` for `max + 1`: the entry whose comparison is zero, and its
index, or the index where it would have to be inserted. -/
def bisect (res : α → Int) (a : List α) (min stop : Nat) : Option α × Nat :=
  if min < stop then
    let i := (min + (stop - 1)) / 2
    match a[i]? with
    | none => (none, min)
    | some x =>
      if res x = 0 then (some x, i)
      else if 0 < res x then bisect res a min i
      else bisect res a (i + 1) stop
  else (none, min)
termination_by stop - min

variable {key : α → κ} {k : κ} {res : α → Int}

def Ascending (key : α → κ) (a : List α) : Prop :=
  ∀ (i j : Nat) (x y : α), i < j → a[i]? = some x → a[j]? = some y → key x < key y

/-- The keys before `index` are smaller than `k`, and those from `index` on are larger. -/
structure InsertionPoint (key : α → κ) (a : List α) (k : κ) (index : Nat) : Prop where
  le_length : index ≤ a.length
  below : ∀ (j : Nat) y, j < index → a[j]? = some y → key y < k
  above : ∀ (j : Nat) y, index ≤ j → a[j]? = some y → k < key y

/-- A binary search for `k` ends at the entry with this key, or where it belongs. -/
lemma bisect_spec (hsorted : Ascending key a)
    (hres : ∀ x, (res x < 0 ↔ key x < k) ∧ (res x = 0 ↔ key x = k)) :
    (∃ x i, bisect res a 0 a.length = (some x, i) ∧ a[i]? = some x ∧ key x = k) ∨
      ∃ i, bisect res a 0 a.length = (none, i) ∧ InsertionPoint key a k i := by
  have hloop : ∀ min stop : Nat, min ≤ stop → stop ≤ a.length →
      (∀ j y, j < min → a[j]? = some y → key y < k) →
      (∀ j y, stop ≤ j → a[j]? = some y → k < key y) →
      (∃ x i, bisect res a min stop = (some x, i) ∧ a[i]? = some x ∧ key x = k) ∨
        ∃ i, bisect res a min stop = (none, i) ∧ InsertionPoint key a k i := by
    intro min stop
    fun_induction bisect res a min stop with
    | case1 min stop hlt i hnone =>
      intro _ hstop _ _
      rw [List.getElem?_eq_none_iff] at hnone
      omega
    | case2 min stop hlt i x hget hzero =>
      intro _ _ _ _
      exact .inl ⟨x, i, rfl, hget, (hres x).2.mp hzero⟩
    | case3 min stop hlt i x hget hne hpos ih =>
      intro _ hstop hbelow habove
      apply ih (by omega) (by omega) hbelow
      intro j y hj hy
      have hx : k < key x := by
        apply lt_of_le_of_ne
        · by_contra hlt'
          have hneg := (hres x).1.mpr (lt_of_not_ge hlt')
          omega
        · intro heq
          exact hne ((hres x).2.mpr heq.symm)
      obtain hlt' | rfl := Nat.lt_or_eq_of_le hj
      · exact hx.trans (hsorted i j x y hlt' hget hy)
      · rw [hget] at hy
        cases hy
        exact hx
    | case4 min stop hlt i x hget hne hpos ih =>
      intro _ hstop hbelow habove
      apply ih (by omega) hstop _ habove
      intro j y hj hy
      have hx : key x < k := by
        apply (hres x).1.mp
        omega
      obtain hlt' | rfl := Nat.lt_or_eq_of_le (Nat.le_of_lt_succ hj)
      · exact (hsorted j i y x hlt' hy hget).trans hx
      · rw [hget] at hy
        cases hy
        exact hx
    | case5 min stop hge =>
      intro hle hstop hbelow habove
      have heq : min = stop := by omega
      subst heq
      exact .inr ⟨min, rfl, hstop, hbelow, habove⟩
  apply hloop 0 a.length (Nat.zero_le _) le_rfl
  · intro j y hj
    omega
  · intro j y hj hy
    rw [getElem?_eq_none hj] at hy
    cases hy

/-- The entry with key `k`. -/
def entryAt (key : α → κ) (a : List α) (k : κ) : Option α := a.find? fun x => key x = k

lemma Ascending.key_inj (h : Ascending key a) (hx : x ∈ a) (hy : y ∈ a) (heq : key x = key y) :
    x = y := by
  obtain ⟨i, hi⟩ := mem_iff_getElem?.mp hx
  obtain ⟨j, hj⟩ := mem_iff_getElem?.mp hy
  obtain hlt | rfl | hlt := lt_trichotomy i j
  · exact absurd heq (ne_of_lt (h i j x y hlt hi hj))
  · rw [hi] at hj
    cases hj
    rfl
  · exact absurd heq (ne_of_gt (h j i y x hlt hj hi))

lemma Ascending.index_inj (h : Ascending key a) (hi : a[i]? = some x) (hj : a[j]? = some x) :
    i = j := by
  obtain hlt | heq | hlt := lt_trichotomy i j
  · exact absurd rfl (ne_of_lt (h i j x x hlt hi hj))
  · exact heq
  · exact absurd rfl (ne_of_lt (h j i x x hlt hj hi))

lemma entryAt_eq_some (h : Ascending key a) : entryAt key a k = some x ↔ x ∈ a ∧ key x = k := by
  constructor
  · intro hfind
    have hkey := find?_some hfind
    exact ⟨mem_of_find?_eq_some hfind, by simpa using hkey⟩
  · rintro ⟨hx, rfl⟩
    cases hfind : entryAt key a (key x) with
    | none =>
      have hnone := find?_eq_none.mp hfind x hx
      simp at hnone
    | some y =>
      have hkey := find?_some hfind
      rw [h.key_inj (mem_of_find?_eq_some hfind) hx (by simpa using hkey)]

lemma entryAt_eq_none : entryAt key a k = none ↔ ∀ x ∈ a, key x ≠ k := by
  simp [entryAt]

lemma InsertionPoint.entryAt_eq_none (h : InsertionPoint key a k i) : entryAt key a k = none := by
  rw [WineForge.Library.entryAt_eq_none]
  intro x hx heq
  obtain ⟨j, hj⟩ := mem_iff_getElem?.mp hx
  by_cases hlt : j < i
  · exact absurd heq (ne_of_lt (h.below j x hlt hj))
  · exact absurd heq (ne_of_gt (h.above j x (by omega) hj))

lemma ascending_nil : Ascending key [] := by
  intro i j x y _ hx
  cases hx

lemma Ascending.insertIdx (h : Ascending key a) (hpoint : InsertionPoint key a (key x) index) :
    Ascending key (a.insertIdx index x) := by
  have hlen := hpoint.le_length
  intro i j y z hij hy hz
  rw [getElem?_insertIdx] at hy hz
  obtain hi | rfl | hi := lt_trichotomy i index
  · rw [if_pos hi] at hy
    obtain hj | rfl | hj := lt_trichotomy j index
    · rw [if_pos hj] at hz
      exact h i j y z hij hy hz
    · rw [if_neg (lt_irrefl j), if_pos rfl, if_pos hlen] at hz
      cases hz
      exact hpoint.below i y hi hy
    · rw [if_neg (by omega), if_neg (by omega)] at hz
      exact h i (j - 1) y z (by omega) hy hz
  · rw [if_neg (lt_irrefl i), if_pos rfl, if_pos hlen] at hy
    rw [if_neg (by omega), if_neg (by omega)] at hz
    cases hy
    exact hpoint.above (j - 1) z (by omega) hz
  · rw [if_neg (by omega), if_neg (by omega)] at hy hz
    exact h (i - 1) (j - 1) y z (by omega) hy hz

lemma Ascending.eraseIdx (h : Ascending key a) : Ascending key (a.eraseIdx cur) := by
  intro i j y z hij hy hz
  rw [getElem?_eraseIdx] at hy hz
  by_cases hi : i < cur
  · rw [if_pos hi] at hy
    by_cases hj : j < cur
    · rw [if_pos hj] at hz
      exact h i j y z hij hy hz
    · rw [if_neg hj] at hz
      exact h i (j + 1) y z (by omega) hy hz
  · rw [if_neg hi] at hy
    rw [if_neg (by omega)] at hz
    exact h (i + 1) (j + 1) y z (by omega) hy hz

lemma InsertionPoint.eraseIdx (h : InsertionPoint key a k index) (hcur : cur < a.length) :
    InsertionPoint key (a.eraseIdx cur) k (if cur < index then index - 1 else index) := by
  have hlen := h.le_length
  constructor
  · rw [length_eraseIdx, if_pos hcur]
    split <;> omega
  · intro j y hj hy
    rw [getElem?_eraseIdx] at hy
    split at hj <;> split at hy
    · exact h.below j y (by omega) hy
    · exact h.below (j + 1) y (by omega) hy
    · exact h.below j y (by omega) hy
    · exact h.below (j + 1) y (by omega) hy
  · intro j y hj hy
    rw [getElem?_eraseIdx] at hy
    split at hj <;> split at hy
    · exact h.above j y (by omega) hy
    · exact h.above (j + 1) y (by omega) hy
    · exact h.above j y (by omega) hy
    · exact h.above (j + 1) y (by omega) hy

lemma Ascending.set (h : Ascending key a) (hget : a[i]? = some y) (hkey : key x = key y) :
    Ascending key (a.set i x) := by
  have hsame : ∀ (j : Nat) z, (a.set i x)[j]? = some z → ∃ w, a[j]? = some w ∧ key z = key w := by
    intro j z hz
    rw [getElem?_set] at hz
    by_cases hij : i = j
    · subst hij
      have hlt : i < a.length := (List.getElem?_eq_some_iff.mp hget).1
      rw [if_pos rfl, if_pos hlt] at hz
      cases hz
      exact ⟨y, hget, hkey⟩
    · rw [if_neg hij] at hz
      exact ⟨z, hz, rfl⟩
  intro j l z w hjl hz hw
  obtain ⟨z', hz', hzkey⟩ := hsame j z hz
  obtain ⟨w', hw', hwkey⟩ := hsame l w hw
  rw [hzkey, hwkey]
  exact h j l z' w' hjl hz' hw'

/-! What the operations do to the map. -/

lemma entryAt_insertIdx [DecidableEq κ] (h : Ascending key a)
    (hpoint : InsertionPoint key a (key x) index) :
    entryAt key (a.insertIdx index x) = update (entryAt key a) (key x) (some x) := by
  funext k
  apply Option.ext
  intro y
  rw [entryAt_eq_some (h.insertIdx hpoint), mem_insertIdx hpoint.le_length]
  by_cases hk : k = key x
  · subst hk
    rw [update_self, Option.some_inj]
    constructor
    · rintro ⟨rfl | hy, hkey⟩
      · rfl
      · have hnone := entryAt_eq_none.mp hpoint.entryAt_eq_none
        exact absurd hkey (hnone y hy)
    · rintro rfl
      exact ⟨.inl rfl, rfl⟩
  rw [update_of_ne hk, entryAt_eq_some h]
  constructor
  · rintro ⟨rfl | hy, hkey⟩
    · exact absurd hkey.symm hk
    · exact ⟨hy, hkey⟩
  · rintro ⟨hy, hkey⟩
    exact ⟨.inr hy, hkey⟩

lemma entryAt_eraseIdx [DecidableEq κ] (h : Ascending key a) (hget : a[cur]? = some x) :
    entryAt key (a.eraseIdx cur) = update (entryAt key a) (key x) none := by
  funext k
  apply Option.ext
  intro y
  rw [entryAt_eq_some h.eraseIdx, mem_eraseIdx_iff_getElem?]
  by_cases hk : k = key x
  · subst hk
    rw [update_self]
    constructor
    · rintro ⟨⟨j, hne, hy⟩, hkey⟩
      have heq := h.key_inj (mem_of_getElem? hy) (mem_of_getElem? hget) hkey
      subst heq
      obtain hlt | hlt := lt_or_gt_of_ne hne
      · exact absurd rfl (ne_of_lt (h j cur y y hlt hy hget))
      · exact absurd rfl (ne_of_lt (h cur j y y hlt hget hy))
    · intro hy
      cases hy
  · rw [update_of_ne hk, entryAt_eq_some h]
    constructor
    · rintro ⟨⟨j, _, hy⟩, hkey⟩
      exact ⟨mem_of_getElem? hy, hkey⟩
    · rintro ⟨hy, rfl⟩
      obtain ⟨j, hj⟩ := mem_iff_getElem?.mp hy
      refine ⟨⟨j, ?_, hj⟩, rfl⟩
      rintro rfl
      rw [hget] at hj
      cases hj
      exact hk rfl

lemma entryAt_set [DecidableEq κ] (h : Ascending key a) (hget : a[i]? = some y)
    (hkey : key x = key y) :
    entryAt key (a.set i x) = update (entryAt key a) (key x) (some x) := by
  have hlt : i < a.length := (List.getElem?_eq_some_iff.mp hget).1
  funext k
  apply Option.ext
  intro z
  rw [entryAt_eq_some (h.set hget hkey)]
  by_cases hk : k = key x
  · subst hk
    rw [update_self, Option.some_inj]
    have hx : x ∈ a.set i x := by
      apply mem_of_getElem?
      rw [getElem?_set_self hlt]
    constructor
    · rintro ⟨hz, hzkey⟩
      exact ((h.set hget hkey).key_inj hx hz hzkey.symm)
    · rintro rfl
      exact ⟨hx, rfl⟩
  rw [update_of_ne hk, entryAt_eq_some h]
  constructor
  · rintro ⟨hz, rfl⟩
    obtain hz | rfl := mem_or_eq_of_mem_set hz
    · exact ⟨hz, rfl⟩
    · exact absurd rfl hk
  · rintro ⟨hz, rfl⟩
    obtain ⟨j, hj⟩ := mem_iff_getElem?.mp hz
    have hne : i ≠ j := by
      rintro rfl
      rw [hget] at hj
      cases hj
      exact hk hkey.symm
    refine ⟨?_, rfl⟩
    apply mem_of_getElem?
    rw [getElem?_set_ne hne, hj]

end WineForge.Library
