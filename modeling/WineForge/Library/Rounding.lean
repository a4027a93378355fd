import Mathlib.Data.Rat.Floor

/-!
# Rounding to the nearest integer

A rational number is rounded to the nearest integer, and one that is half-way between two integers
away from zero. Rounding is odd and monotone.
-/

namespace WineForge.Library

def roundAway (q : ℚ) : ℤ := if 0 ≤ q then ⌊q + 1 / 2⌋ else -⌊-q + 1 / 2⌋

variable {q r : ℚ}

lemma roundAway_of_nonneg (h : 0 ≤ q) : roundAway q = ⌊q + 1 / 2⌋ := if_pos h

lemma roundAway_of_neg (h : q < 0) : roundAway q = -⌊-q + 1 / 2⌋ := if_neg (not_le.mpr h)

lemma roundAway_nonneg (h : 0 ≤ q) : 0 ≤ roundAway q := by
  rw [roundAway_of_nonneg h, Int.floor_nonneg]
  linarith

lemma roundAway_neg (q : ℚ) : roundAway (-q) = -roundAway q := by
  obtain hlt | heq | hgt := lt_trichotomy q 0
  · rw [roundAway_of_neg hlt, roundAway_of_nonneg (by linarith), neg_neg]
  · have hzero : roundAway 0 = 0 := by
      rw [roundAway_of_nonneg (le_refl 0), zero_add, Int.floor_eq_iff]
      norm_num
    rw [heq, neg_zero, hzero, neg_zero]
  · rw [roundAway_of_neg (by linarith), roundAway_of_nonneg hgt.le, neg_neg]

lemma roundAway_mono (h : q ≤ r) : roundAway q ≤ roundAway r := by
  obtain hq | hq := le_or_gt 0 q
  · rw [roundAway_of_nonneg hq, roundAway_of_nonneg (hq.trans h)]
    apply Int.floor_le_floor
    linarith
  obtain hr | hr := le_or_gt 0 r
  · have hneg := roundAway_nonneg (show 0 ≤ -q by linarith)
    have hpos := roundAway_nonneg hr
    rw [roundAway_neg] at hneg
    omega
  · rw [roundAway_of_neg hq, roundAway_of_neg hr, neg_le_neg_iff]
    apply Int.floor_le_floor
    linarith

lemma roundAway_intCast (n : ℤ) : roundAway n = n := by
  have hfloor : ∀ m : ℤ, ⌊(m : ℚ) + 1 / 2⌋ = m := by
    intro m
    rw [Int.floor_eq_iff]
    constructor
    · linarith
    · linarith
  obtain hn | hn := le_or_gt 0 (n : ℚ)
  · rw [roundAway_of_nonneg hn, hfloor]
  · rw [roundAway_of_neg hn, ← Int.cast_neg, hfloor, neg_neg]

lemma roundAway_div {n d : ℤ} (hn : 0 ≤ n) (hd : 0 < d) :
    roundAway ((n : ℚ) / d) = (n + d / 2) / d := by
  have hdq : (0 : ℚ) < d := by exact_mod_cast hd
  have hnq : (0 : ℚ) ≤ n := by exact_mod_cast hn
  have hlow : (n + d / 2) / d * d ≤ n + d / 2 := Int.ediv_mul_le _ hd.ne'
  have hhigh : n + d / 2 < ((n + d / 2) / d + 1) * d := Int.lt_ediv_add_one_mul_self _ hd
  rw [roundAway_of_nonneg (div_nonneg hnq hdq.le), Int.floor_eq_iff]
  generalize (n + d / 2) / d = z at hlow hhigh
  have hlow2 : 2 * (z * d) ≤ 2 * n + d := by omega
  have hhigh2 : 2 * n + d < 2 * ((z + 1) * d) := by omega
  have hlowq : 2 * ((z : ℚ) * d) ≤ 2 * n + d := by exact_mod_cast hlow2
  have hhighq : 2 * (n : ℚ) + d < 2 * (((z : ℚ) + 1) * d) := by exact_mod_cast hhigh2
  have hsum : (n : ℚ) / d + 1 / 2 = (2 * n + d) / (2 * d) := by
    rw [div_add_div _ _ hdq.ne' two_ne_zero]
    ring
  rw [hsum]
  constructor
  · rw [le_div_iff₀ (by linarith)]
    linarith
  · rw [div_lt_iff₀ (by linarith)]
    linarith

end WineForge.Library
