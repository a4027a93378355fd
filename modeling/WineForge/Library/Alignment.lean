import Mathlib.Data.Nat.Bitwise
import Mathlib.Algebra.Order.Ring.Int

/-!
# Alignment

The multiples of an alignment next to a number, and the masks of 64-bit words that compute them.
-/

namespace WineForge.Library

/-- The last multiple of `a` up to `n`. -/
def alignDown (a n : Nat) : Nat := n / a * a

/-- The first multiple of `a` from `n` on. -/
def alignUp (a n : Nat) : Nat := (n + (a - 1)) / a * a

variable {a m n : Nat}

lemma dvd_alignDown : a ∣ alignDown a n := Nat.dvd_mul_left a _

lemma dvd_alignUp : a ∣ alignUp a n := Nat.dvd_mul_left a _

lemma alignDown_le : alignDown a n ≤ n := Nat.div_mul_le_self n a

lemma le_alignDown (ha : 0 < a) (hm : a ∣ m) (h : m ≤ n) : m ≤ alignDown a n := by
  obtain ⟨k, rfl⟩ := hm
  rw [alignDown, mul_comm a k]
  apply Nat.mul_le_mul_right
  rw [Nat.le_div_iff_mul_le ha, Nat.mul_comm]
  exact h

lemma lt_alignDown_add (ha : 0 < a) : n < alignDown a n + a := by
  have hmod := Nat.mod_lt n ha
  have hdiv := Nat.div_add_mod n a
  rw [alignDown, Nat.mul_comm]
  omega

lemma le_alignUp (ha : 0 < a) : n ≤ alignUp a n := by
  have hlt := lt_alignDown_add (n := n + (a - 1)) ha
  change n ≤ alignDown a (n + (a - 1))
  omega

lemma alignUp_le (ha : 0 < a) (hm : a ∣ m) (h : n ≤ m) : alignUp a n ≤ m := by
  obtain ⟨k, rfl⟩ := hm
  rw [alignUp, mul_comm a k]
  apply Nat.mul_le_mul_right
  rw [Nat.div_le_iff_le_mul_add_pred ha]
  omega

lemma and_mask {x k : Nat} (hx : x < 2 ^ 64) (hk : k ≤ 64) :
    x &&& (2 ^ 64 - 1 - (2 ^ k - 1)) = alignDown (2 ^ k) x := by
  have hone := Nat.one_le_two_pow (n := k)
  have hmask : 2 ^ 64 - 1 - (2 ^ k - 1) = (2 ^ (64 - k) - 1) <<< k := by
    rw [Nat.shiftLeft_eq, Nat.sub_mul, ← Nat.pow_add, Nat.sub_add_cancel hk]
    omega
  have halign : alignDown (2 ^ k) x = (x >>> k) <<< k := by
    rw [Nat.shiftLeft_eq, Nat.shiftRight_eq_div_pow, alignDown]
  rw [hmask, halign]
  apply Nat.eq_of_testBit_eq
  intro i
  by_cases hi : k ≤ i
  · have hik : k + (i - k) = i := by omega
    by_cases hlast : i < 64
    · have hlow : i - k < 64 - k := by omega
      simp [hi, hik, hlow]
    · have hbit : x.testBit i = false :=
        Nat.testBit_lt_two_pow (hx.trans_le (Nat.pow_le_pow_right (by decide) (by omega)))
      simp [hik, hbit]
  · simp [hi]

end WineForge.Library
