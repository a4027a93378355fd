import Mathlib.Data.Nat.Find
import Mathlib.Algebra.Order.Ring.Int

/-!
# Runs of a sequence of bits

A run is a maximal range of set positions. `FirstRun bit a stop p e` is the first one of `[a, stop)`
and `Runs bit stop a runs` lists all of them. Both exist and are determined by the bits.
-/

namespace WineForge.Library

variable {bit : Nat → Bool} {a b c stop size p e : Nat}

def NoneSet (bit : Nat → Bool) (a b : Nat) : Prop := ∀ i, a ≤ i → i < b → bit i = false

def AllSet (bit : Nat → Bool) (a b : Nat) : Prop := ∀ i, a ≤ i → i < b → bit i = true

lemma NoneSet.append (h : NoneSet bit a b) (h' : NoneSet bit b c) : NoneSet bit a c := by
  intro i hle hlt
  by_cases hi : i < b
  · exact h i hle hi
  · exact h' i (by omega) hlt

lemma NoneSet.mono (h : NoneSet bit a b) (hstart : a ≤ p) (hstop : e ≤ b) : NoneSet bit p e := by
  intro i hle hlt
  exact h i (by omega) (by omega)

lemma AllSet.append (h : AllSet bit a b) (h' : AllSet bit b c) : AllSet bit a c := by
  intro i hle hlt
  by_cases hi : i < b
  · exact h i hle hi
  · exact h' i (by omega) hlt

lemma AllSet.mono (h : AllSet bit a b) (hstart : a ≤ p) (hstop : e ≤ b) : AllSet bit p e := by
  intro i hle hlt
  exact h i (by omega) (by omega)

/-- The first maximal range of set positions in `[a, stop)` is `[p, e)`. -/
structure FirstRun (bit : Nat → Bool) (a stop p e : Nat) : Prop where
  start_le : a ≤ p
  nonempty : p < e
  stop_le : e ≤ stop
  before : NoneSet bit a p
  inside : AllSet bit p e
  ends : e = stop ∨ bit e = false

lemma FirstRun.not_noneSet (h : FirstRun bit a stop p e) (hp : p < b) : ¬NoneSet bit a b := by
  intro hnone
  have hset := h.inside p le_rfl h.nonempty
  rw [hnone p h.start_le hp] at hset
  cases hset

lemma FirstRun.unique {p' e' : Nat} (h : FirstRun bit a stop p e)
    (h' : FirstRun bit a stop p' e') : p = p' ∧ e = e' := by
  have hp : p = p' := by
    apply le_antisymm
    · by_contra hlt
      exact h'.not_noneSet (by omega) h.before
    · by_contra hlt
      exact h.not_noneSet (by omega) h'.before
  subst hp
  refine ⟨rfl, ?_⟩
  by_contra hne
  obtain hlt | hlt := lt_or_gt_of_ne hne
  · obtain rfl | hclear := h.ends
    · have hle := h'.stop_le
      omega
    · have hset := h'.inside e (by have hpos := h.nonempty; omega) hlt
      rw [hclear] at hset
      cases hset
  obtain rfl | hclear := h'.ends
  · have hle := h.stop_le
    omega
  · have hset := h.inside e' (by have hpos := h'.nonempty; omega) hlt
    rw [hclear] at hset
    cases hset

lemma exists_run_end (hp : AllSet bit p b) (hb : p < b) (hstop : b ≤ stop) :
    ∃ e, b ≤ e ∧ e ≤ stop ∧ AllSet bit p e ∧ (e = stop ∨ bit e = false) := by
  induction hgap : stop - b generalizing b with
  | zero => exact ⟨b, le_rfl, hstop, hp, .inl (by omega)⟩
  | succ gap ih =>
    cases hbit : bit b with
    | false => exact ⟨b, le_rfl, hstop, hp, .inr hbit⟩
    | true =>
      have hnext : AllSet bit p (b + 1) := by
        intro i hle hlt
        obtain rfl | hi := Nat.eq_or_lt_of_le (Nat.le_of_lt_succ hlt)
        · exact hbit
        · exact hp i hle hi
      obtain ⟨e, hbe, hes, hall, hend⟩ := ih hnext (by omega) (by omega) (by omega)
      exact ⟨e, by omega, hes, hall, hend⟩

lemma FirstRun.clip (h : FirstRun bit a stop p e) (hsize : size ≤ stop) (hp : p < size) :
    FirstRun bit a size p (min e size) := by
  have hpos := h.nonempty
  constructor
  · exact h.start_le
  · omega
  · omega
  · exact h.before
  · exact h.inside.mono le_rfl (by omega)
  · by_cases hes : size ≤ e
    · left
      omega
    right
    have hmin : min e size = e := by omega
    rw [hmin]
    exact h.ends.resolve_left (by omega)

/-- The runs of `[a, stop)` from left to right, each with its start and its end. -/
def Runs (bit : Nat → Bool) (stop : Nat) : Nat → List (Nat × Nat) → Prop
  | a, [] => NoneSet bit a stop
  | a, run :: runs => FirstRun bit a stop run.1 run.2 ∧ Runs bit stop run.2 runs

end WineForge.Library
