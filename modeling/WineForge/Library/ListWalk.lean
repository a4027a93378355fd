import Mathlib.Data.List.Nodup
import Mathlib.Data.Prod.Lex
import Mathlib.Order.WellFounded
import Mathlib.Algebra.Order.Ring.Int

/-!
# A walk along a list that loses nodes

`nodesFrom m l` is the part of a list from the node `m` on. A list that loses nodes other than `m`
keeps that part up to the lost nodes. The rules for iterated step functions at the end are those of
a loop as a whole.
-/

namespace WineForge.Library

open List Option

variable {α σ τ : Type*}

section Nodes

variable [DecidableEq α] {m x : α} {l : List α}

/-- The node `m` of a list and those behind it. -/
def nodesFrom (m : α) (l : List α) : List α :=
  l.dropWhile fun x => decide (x ≠ m)

variable {behind : List α}

lemma nodesFrom_append {before : List α} (h : m ∉ before) :
    nodesFrom m (before ++ m :: behind) = m :: behind := by
  have hpassed : ∀ x ∈ before, decide (x ≠ m) = true := by
    intro x hx
    exact decide_eq_true fun heq => h (heq ▸ hx)
  rw [nodesFrom, dropWhile_append_of_pos hpassed, dropWhile_cons_of_neg (by simp)]

lemma nodesFrom_of_mem (h : m ∈ l) : nodesFrom m l = m :: (nodesFrom m l).tail := by
  obtain ⟨before, behind, hl, hfresh⟩ := eq_append_cons_of_mem h
  rw [hl, nodesFrom_append hfresh, tail_cons]

lemma nodesFrom_suffix (m : α) (l : List α) : nodesFrom m l <:+ l :=
  dropWhile_suffix _

lemma mem_of_mem_nodesFrom (h : x ∈ nodesFrom m l) : x ∈ l :=
  (nodesFrom_suffix m l).subset h

lemma nodesFrom_of_suffix (hnodup : l.Nodup) (h : m :: behind <:+ l) :
    nodesFrom m l = m :: behind := by
  obtain ⟨before, hl⟩ := h
  rw [← hl] at hnodup ⊢
  refine nodesFrom_append fun hm => ?_
  exact (nodup_append.mp hnodup).2.2 m hm m (mem_cons_self ..) rfl

lemma nodesFrom_tail (hnodup : l.Nodup)
    (h : (nodesFrom m l).tail = x :: behind) : nodesFrom x l = x :: behind :=
  nodesFrom_of_suffix hnodup (h ▸ (tail_suffix _).trans (nodesFrom_suffix m l))

lemma nodesFrom_filter (keep : α → Bool) (hm : keep m = true) (l : List α) :
    nodesFrom m (l.filter keep) = (nodesFrom m l).filter keep := by
  induction l with
  | nil => rfl
  | cons x l ih =>
    by_cases hx : x = m
    · rw [hx, filter_cons_of_pos hm, nodesFrom, nodesFrom,
        dropWhile_cons_of_neg (by simp), dropWhile_cons_of_neg (by simp),
        filter_cons_of_pos hm]
    have hskip : nodesFrom m (x :: l) = nodesFrom m l :=
      dropWhile_cons_of_pos (by simpa using hx)
    rw [hskip, ← ih]
    by_cases hkeep : keep x = true
    · rw [filter_cons_of_pos hkeep]
      exact dropWhile_cons_of_pos (by simpa using hx)
    · rw [filter_cons_of_neg hkeep]

lemma tail_nodesFrom_filter (keep : α → Bool) (hkeep : keep m = true) (hm : m ∈ l) :
    (nodesFrom m (l.filter keep)).tail = (nodesFrom m l).tail.filter keep := by
  rw [nodesFrom_filter keep hkeep, nodesFrom_of_mem hm, filter_cons_of_pos hkeep,
    tail_cons, tail_cons]

lemma nodesFrom_eq_nil (h : m ∉ l) : nodesFrom m l = [] := by
  have hpassed : ∀ x ∈ l, decide (x ≠ m) = true :=
    fun x hx => decide_eq_true fun heq => h (heq ▸ hx)
  have hall : (l ++ []).dropWhile _ = [] := dropWhile_append_of_pos hpassed
  rw [append_nil] at hall
  exact hall

lemma length_nodesFrom_filter_le (keep : α → Bool) (m : α) (l : List α) :
    (nodesFrom m (l.filter keep)).length ≤ (nodesFrom m l).length := by
  by_cases hkeep : keep m = true
  · rw [nodesFrom_filter keep hkeep]
    exact length_filter_le _ _
  · have hlost : m ∉ l.filter keep := fun hm => hkeep (mem_filter.mp hm).2
    rw [nodesFrom_eq_nil hlost]
    exact Nat.zero_le _

end Nodes

section Loops

variable {step : σ → σ} {I : σ → Prop}

lemma iterate_invariant (hstep : ∀ s, I s → I (step s)) {s : σ} (hs : I s) (n : ℕ) :
    I (step^[n] s) := by
  induction n with
  | zero => exact hs
  | succ n ih =>
    rw [Function.iterate_succ_apply']
    exact hstep _ ih

lemma lex_lt {a a' b b' c c' : ℕ} (h : a < a' ∨ a = a' ∧ (b < b' ∨ b = b' ∧ c < c')) :
    toLex (a, toLex (b, c)) < toLex (a', toLex (b', c')) := by
  rw [Prod.Lex.toLex_lt_toLex]
  refine h.imp id fun h => ⟨h.1, ?_⟩
  rw [Prod.Lex.toLex_lt_toLex]
  exact h.2

/-- A loop with a decreasing measure comes to its end. -/
theorem iterate_reaches {r : τ → τ → Prop} (hwf : WellFounded r) (measure : σ → τ)
    {final : σ → Prop} (hstep : ∀ s, I s → I (step s))
    (hdecrease : ∀ s, I s → ¬ final s → r (measure (step s)) (measure s)) {s : σ} (hs : I s) :
    ∃ n, final (step^[n] s) := by
  have hfrom : ∀ a s, measure s = a → I s → ∃ n, final (step^[n] s) := by
    intro a
    induction a using hwf.induction with
    | h a ih =>
      intro s hmeasure hI
      by_cases hfinal : final s
      · exact ⟨0, hfinal⟩
      have hless := hdecrease s hI hfinal
      rw [hmeasure] at hless
      obtain ⟨n, hn⟩ := ih _ hless (step s) rfl (hstep s hI)
      exact ⟨n + 1, hn⟩
  exact hfrom _ s rfl hs

end Loops

/-!
## A walk that moves entries to the end

The walk takes the first entry of a list in each turn. It drops an entry that is idle and moves one
that is busy to the end. It has chosen its next entry before, so it ends with the turn in which
there is a single entry.
-/

variable {α : Type*}

/-- The entries that the walk takes, nothing where it has not ended after `fuel` tests. -/
def rotateWalk (busy : α → Bool) : ℕ → List α → Option (List α)
  | 0, _ => none
  | _ + 1, [] => some []
  | fuel + 1, [x] => if fuel = 0 then none else some [x]
  | fuel + 1, x :: y :: ys =>
    (rotateWalk busy fuel (if busy x then y :: ys ++ [x] else y :: ys)).map (x :: ·)

variable {busy : α → Bool} {xs : List α}

lemma rotateWalk_idle (h : ∀ x ∈ xs.dropLast, busy x = false) :
    rotateWalk busy (xs.length + 1) xs = some xs := by
  induction xs with
  | nil => rfl
  | cons x xs ih =>
    cases xs with
    | nil => rfl
    | cons y ys =>
      have hx : busy x = false := h x mem_cons_self
      have hys : rotateWalk busy ((y :: ys).length + 1) (y :: ys) = some (y :: ys) :=
        ih fun z hz => h z (mem_cons_of_mem x hz)
      rw [length_cons, rotateWalk, hx, if_neg Bool.false_ne_true, hys]
      rfl

lemma rotateWalk_front {fuel : ℕ} {taken : List α}
    (h : rotateWalk busy fuel xs = some taken) : xs <+: taken := by
  induction fuel generalizing xs taken with
  | zero => exact absurd h (by simp [rotateWalk])
  | succ fuel ih =>
    match xs with
    | [] => exact nil_prefix
    | [x] =>
      rw [rotateWalk] at h
      split at h
      · simp at h
      · exact (some.inj h) ▸ prefix_refl _
    | x :: y :: ys =>
      rw [rotateWalk, map_eq_some_iff] at h
      obtain ⟨taken, hrest, rfl⟩ := h
      have hfront := ih hrest
      apply (prefix_cons_inj x).mpr
      split at hfront
      · exact (prefix_append (y :: ys) [x]).trans hfront
      · exact hfront

lemma idle_of_rotateWalk {fuel : ℕ}
    (h : rotateWalk busy fuel xs = some xs) : ∀ x ∈ xs.dropLast, busy x = false := by
  induction xs generalizing fuel with
  | nil => exact fun x hx => absurd hx (by simp)
  | cons x xs ih =>
    cases xs with
    | nil => exact fun z hz => absurd hz (by simp)
    | cons y ys =>
      cases fuel with
      | zero => exact absurd h (by simp [rotateWalk])
      | succ fuel =>
        rw [rotateWalk, map_eq_some_iff] at h
        obtain ⟨taken, hrest, heq⟩ := h
        obtain rfl := (cons_eq_cons.mp heq).2
        cases hx : busy x with
        | true =>
          rw [hx, if_pos rfl] at hrest
          -- the walk would come to `x` a second time
          have hlength := (rotateWalk_front hrest).length_le
          rw [length_append, length_singleton] at hlength
          omega
        | false =>
          rw [hx, if_neg Bool.false_ne_true] at hrest
          intro z hz
          cases mem_cons.mp hz with
          | inl heq => exact heq ▸ hx
          | inr hmem => exact ih hrest z hmem

theorem rotateWalk_once :
    (∃ fuel, rotateWalk busy fuel xs = some xs) ↔ ∀ x ∈ xs.dropLast, busy x = false :=
  ⟨fun ⟨_, h⟩ => idle_of_rotateWalk h, fun h => ⟨_, rotateWalk_idle h⟩⟩

/-- With two busy entries the walk does not end. -/
theorem rotateWalk_busy (busy : α → Bool) {x y : α} (hxy : x ≠ y) (hx : busy x = true)
    (hy : busy y = true) (fuel : ℕ) (hxmem : x ∈ xs) (hymem : y ∈ xs) :
    rotateWalk busy fuel xs = none := by
  induction fuel generalizing xs with
  | zero => rfl
  | succ fuel ih =>
    match xs with
    | [] => simp at hxmem
    | [z] =>
      rw [mem_singleton] at hxmem hymem
      exact absurd (hxmem.trans hymem.symm) hxy
    | z :: w :: ws =>
      rw [rotateWalk, map_eq_none_iff]
      cases hz : busy z with
      | true =>
        rw [if_pos rfl]
        apply ih
        · exact (perm_append_singleton z (w :: ws)).mem_iff.mpr hxmem
        · exact (perm_append_singleton z (w :: ws)).mem_iff.mpr hymem
      | false =>
        have hne : ∀ u, busy u = true → u ≠ z := by
          rintro u hu rfl
          exact Bool.false_ne_true (hz.symm.trans hu)
        rw [if_neg Bool.false_ne_true]
        exact ih ((mem_cons.mp hxmem).resolve_left (hne x hx))
          ((mem_cons.mp hymem).resolve_left (hne y hy))

end WineForge.Library
