import Mathlib.Tactic.Linarith
import Mathlib.Order.Preorder.Finite

/-!
# Recursive locks with an unbounded history

The reference behaviour of a recursive lock: who owns it, and how often. `replay` runs a
history of successful operations, newest first, and fails on a history that no recursive lock
allows; `holds` counts in the history alone what a thread still has to release.
-/

namespace WineForge.Library

open Option

/-- A recursive lock. `owned t depth` is owned by `t` with `depth + 1` acquisitions
outstanding, so that an owner without acquisitions cannot be written down. -/
inductive RecursiveLock (ι : Type*)
  | free
  | abandoned
  | owned (t : ι) (depth : ℕ)
  deriving DecidableEq, Repr

/-- The events of a history. -/
inductive LockEvent (ι : Type*)
  | acquired (t : ι)
  | released (t : ι)
  | exited (t : ι)
  deriving DecidableEq, Repr

variable {ι : Type*} [DecidableEq ι]

namespace RecursiveLock

/-- The effect of an event; `none` if the lock does not allow it. -/
def next (l : RecursiveLock ι) : LockEvent ι → Option (RecursiveLock ι)
  | .acquired t =>
    match l with
    | .free | .abandoned => some (.owned t 0)
    | .owned u depth => if t = u then some (.owned t (depth + 1)) else none
  | .released t =>
    match l with
    | .free | .abandoned => none
    | .owned u 0 => if t = u then some .free else none
    | .owned u (depth + 1) => if t = u then some (.owned t depth) else none
  | .exited t =>
    match l with
    | .free => some .free
    | .abandoned => some .abandoned
    | .owned u depth => if t = u then some .abandoned else some (.owned u depth)

def replay : List (LockEvent ι) → Option (RecursiveLock ι)
  | [] => some .free
  | e :: es => (replay es).bind fun l => l.next e

/-- The acquisitions that `t` has outstanding. -/
def count (l : RecursiveLock ι) (t : ι) : Int :=
  match l with
  | .free | .abandoned => 0
  | .owned u depth => if t = u then depth + 1 else 0

lemma count_pos_iff {l : RecursiveLock ι} {t : ι} :
    0 < l.count t ↔ ∃ depth, l = .owned t depth := by
  cases l with
  | free | abandoned => simp [count]
  | owned u depth =>
    by_cases htu : t = u
    · subst htu
      simp only [count, if_true, owned.injEq, true_and, exists_eq', iff_true]
      omega
    · simp [count, htu, Ne.symm htu]

/-- At most one thread has acquisitions outstanding. -/
theorem count_pos_unique {l : RecursiveLock ι} {t u : ι} (ht : 0 < l.count t)
    (hu : 0 < l.count u) : t = u := by
  obtain ⟨d, rfl⟩ := count_pos_iff.mp ht
  obtain ⟨e, he⟩ := count_pos_iff.mp hu
  injection he

end RecursiveLock

/-- How an event changes the number of acquisitions that `t` has outstanding. -/
def LockEvent.apply (e : LockEvent ι) (t : ι) (n : Int) : Int :=
  match e with
  | .acquired u => if t = u then n + 1 else n
  | .released u => if t = u then n - 1 else n
  | .exited u => if t = u then 0 else n

/-- Acquisitions minus releases of `t` since it last left the system. -/
def holds : List (LockEvent ι) → ι → Int
  | [], _ => 0
  | e :: es, t => e.apply t (holds es t)

lemma RecursiveLock.count_next {l m : RecursiveLock ι} {e : LockEvent ι} (h : l.next e = some m)
    (t : ι) : m.count t = e.apply t (l.count t) := by
  cases e with
  | acquired u =>
    cases l with
    | free | abandoned =>
      cases h
      simp only [LockEvent.apply, count]
      split <;> simp
    | owned v d =>
      simp only [next, ite_none_right_eq_some, some.injEq] at h
      obtain ⟨rfl, rfl⟩ := h
      simp only [LockEvent.apply, count]
      split <;> simp
  | released u =>
    cases l with
    | free | abandoned => cases h
    | owned v d =>
      cases d with
      | zero | succ d =>
        simp only [next, ite_none_right_eq_some, some.injEq] at h
        obtain ⟨rfl, rfl⟩ := h
        simp only [LockEvent.apply, count]
        split <;> simp
  | exited u =>
    cases l with
    | free | abandoned =>
      cases h
      simp [LockEvent.apply, count]
    | owned v d =>
      by_cases huv : u = v
      · subst huv
        simp only [next, if_true, some.injEq] at h
        subst h
        simp only [LockEvent.apply, count]
        split <;> rfl
      simp only [next, huv, if_false, some.injEq] at h
      subst h
      simp only [LockEvent.apply, count]
      by_cases htu : t = u
      · simp [htu, huv]
      · simp [htu]

/-- The count of a replayed lock is what the history says. -/
theorem holds_eq_count {es : List (LockEvent ι)} {l : RecursiveLock ι}
    (h : RecursiveLock.replay es = some l) (t : ι) : holds es t = l.count t := by
  induction es generalizing l with
  | nil =>
    simp only [RecursiveLock.replay, some.injEq] at h
    subst h
    rfl
  | cons e es ih =>
    obtain ⟨m, hm, hl⟩ := bind_eq_some_iff.mp h
    rw [holds, ih hm, RecursiveLock.count_next hl]

/-!
## Deadlock freedom from a lock order

Threads that hold resources and want one more. If every thread only wants resources above
those it holds, no finite set of threads waits for itself.
-/

section LockOrder

variable {ι κ : Type*}

/-- A set of threads each of which wants a resource held by another one of the set. -/
def Deadlocked (wants holds : ι → κ → Prop) (S : Set ι) : Prop :=
  S.Nonempty ∧ ∀ t ∈ S, ∃ k, wants t k ∧ ∃ u ∈ S, u ≠ t ∧ holds u k

def Ordered [LT κ] (wants holds : ι → κ → Prop) : Prop :=
  ∀ t h w, holds t h → wants t w → h < w

theorem not_deadlocked_of_ordered [LinearOrder κ] {wants holds : ι → κ → Prop} {S : Set ι}
    (hordered : Ordered wants holds)
    (hfinite : S.Finite) : ¬ Deadlocked wants holds S := by
  rintro ⟨⟨t₀, ht₀⟩, hwait⟩
  obtain ⟨k₀, _⟩ := hwait t₀ ht₀
  have : Nonempty κ := ⟨k₀⟩
  choose! wanted hwants holder hmem _ hholds using hwait
  -- The thread of the set with the largest wanted resource waits for a thread that wants more.
  obtain ⟨t, ht, hmax⟩ := hfinite.exists_maximalFor wanted S ⟨t₀, ht₀⟩
  have hlt : wanted t < wanted (holder t) :=
    hordered (holder t) _ _ (hholds t ht) (hwants _ (hmem t ht))
  exact absurd (hmax (hmem t ht) hlt.le) (not_le.mpr hlt)

end LockOrder

end WineForge.Library
