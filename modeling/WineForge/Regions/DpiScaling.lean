import WineForge.Library.Rounding
import WineForge.Regions.Transforms

/-!
# Scaling coordinates between resolutions

`scale_dpi` multiplies by one integer and divides by another, half of which it adds before. The
operands are unsigned, so the quotient of a negative coordinate is that of a large number. It is
right only if nothing is divided, or if both quotients are zero.
-/

namespace WineForge.Regions

open Library

/-- `map_dpi_rect` in a window of a monitor with the given resolution. -/
def mapDpiRect (monitorDpi : Ratio) (rect : Rect) (dpiFrom dpiTo : Ratio) : Rect :=
  let dpiFrom := if dpiFrom.num = 0 then monitorDpi else dpiFrom
  let dpiTo := if dpiTo.num = 0 then monitorDpi else dpiTo
  if dpiFrom.num = dpiTo.num then rect else scaleDpiRect rect dpiFrom dpiTo

variable {dpiFrom dpiTo : Ratio}

/-- A ratio between two resolutions, neither of which is zero. -/
structure PositiveRatio (dpiFrom dpiTo : Ratio) : Prop where
  fromNum : dpiFrom.num ≠ 0
  fromDen : dpiFrom.den ≠ 0
  toNum : dpiTo.num ≠ 0
  toDen : dpiTo.den ≠ 0

/-- The product with the numerator is an `int`. -/
def Representable (dpiFrom dpiTo : Ratio) (val : Int) : Prop :=
  InInt32 (val * scaleNum dpiFrom dpiTo)

instance (dpiFrom dpiTo : Ratio) (val : Int) : Decidable (Representable dpiFrom dpiTo val) :=
  inferInstanceAs (Decidable (InInt32 _))

def scaledExactly (dpiFrom dpiTo : Ratio) (val : Int) : ℚ :=
  ((val * scaleNum dpiFrom dpiTo : Int) : ℚ) / scaleDen dpiFrom dpiTo

/-- Nothing is divided, or the magnitude and its complement are both less than the divisor. -/
def NegativeFits (dpiFrom dpiTo : Ratio) (val : Int) : Prop :=
  scaleDen dpiFrom dpiTo = 1 ∨
    -(val * scaleNum dpiFrom dpiTo) + scaleDen dpiFrom dpiTo / 2 < scaleDen dpiFrom dpiTo ∧
      4294967296 - (-(val * scaleNum dpiFrom dpiTo) + scaleDen dpiFrom dpiTo / 2) <
        scaleDen dpiFrom dpiTo

instance (dpiFrom dpiTo : Ratio) (val : Int) : Decidable (NegativeFits dpiFrom dpiTo val) :=
  inferInstanceAs (Decidable (_ ∨ _))

lemma scaleNum_eq (dpiFrom dpiTo : Ratio) :
    scaleNum dpiFrom dpiTo = (dpiTo.num.toNat * dpiFrom.den.toNat : ℕ) := by
  have h₁ := dpiTo.num.isLt
  have h₂ := dpiFrom.den.isLt
  have hlt : dpiTo.num.toNat * dpiFrom.den.toNat < 4294967296 :=
    (Nat.mul_lt_mul'' h₁ h₂).trans_le (by decide)
  rw [scaleNum, toUint32, ← Nat.cast_mul]
  omega

lemma scaleDen_eq (dpiFrom dpiTo : Ratio) :
    scaleDen dpiFrom dpiTo = (dpiFrom.num.toNat * dpiTo.den.toNat : ℕ) := by
  have h₁ := dpiFrom.num.isLt
  have h₂ := dpiTo.den.isLt
  have hlt : dpiFrom.num.toNat * dpiTo.den.toNat < 4294967296 :=
    (Nat.mul_lt_mul'' h₁ h₂).trans_le (by decide)
  rw [scaleDen, toUint32, ← Nat.cast_mul]
  omega

lemma toNat_pos {x : BitVec 16} (h : x ≠ 0) : 0 < x.toNat := by
  rw [pos_iff_ne_zero]
  intro hzero
  exact h (BitVec.eq_of_toNat_eq hzero)

lemma PositiveRatio.num_pos (h : PositiveRatio dpiFrom dpiTo) : 0 < scaleNum dpiFrom dpiTo := by
  rw [scaleNum_eq]
  exact_mod_cast mul_pos (toNat_pos h.toNum) (toNat_pos h.fromDen)

lemma PositiveRatio.den_pos (h : PositiveRatio dpiFrom dpiTo) : 0 < scaleDen dpiFrom dpiTo := by
  rw [scaleDen_eq]
  exact_mod_cast mul_pos (toNat_pos h.fromNum) (toNat_pos h.toDen)

lemma scaleDen_lt (dpiFrom dpiTo : Ratio) : scaleDen dpiFrom dpiTo < 4294967296 :=
  Int.emod_lt_of_pos _ (by decide)

variable {val : Int}

lemma toInt32_ediv {a d : Int} (ha : 0 ≤ a) (hlt : a < 4294967296) (hd : 2 ≤ d) :
    toInt32 (a / d) = a / d := by
  apply toInt32_of_inInt32
  have hnonneg : 0 ≤ a / d := Int.ediv_nonneg ha (by omega)
  have hhalf : a / d < 2147483648 := Int.ediv_lt_of_lt_mul (by omega) (by omega)
  constructor
  · omega
  · omega

lemma scaleDpi_of_nonneg (hpos : PositiveRatio dpiFrom dpiTo)
    (hval : Representable dpiFrom dpiTo val) (hsign : 0 ≤ val) :
    scaleDpi val dpiFrom dpiTo = roundAway (scaledExactly dpiFrom dpiTo val) := by
  have hden := hpos.den_pos
  have hdenlt := scaleDen_lt dpiFrom dpiTo
  have hprod : 0 ≤ val * scaleNum dpiFrom dpiTo := Int.mul_nonneg hsign hpos.num_pos.le
  have hlt := hval.2
  rw [scaledExactly, roundAway_div hprod hden, scaleDpi]
  rw [if_pos hsign]
  generalize val * scaleNum dpiFrom dpiTo = p at hprod hlt
  generalize scaleDen dpiFrom dpiTo = d at hden hdenlt
  have hsum : toUint32 (p + d / 2) = p + d / 2 := Int.emod_eq_of_lt (by omega) (by omega)
  rw [hsum]
  obtain hone | htwo : d = 1 ∨ 2 ≤ d := by omega
  · subst hone
    have heq : (p + 1 / 2) / 1 = p := by omega
    rw [heq]
    exact toInt32_of_inInt32 ⟨by omega, hlt⟩
  · exact toInt32_ediv (by omega) (by omega) htwo

lemma roundAway_of_negative (hpos : PositiveRatio dpiFrom dpiTo) (hsign : val < 0) :
    roundAway (scaledExactly dpiFrom dpiTo val) =
      -((-(val * scaleNum dpiFrom dpiTo) + scaleDen dpiFrom dpiTo / 2) /
        scaleDen dpiFrom dpiTo) := by
  have hprod : 0 ≤ -(val * scaleNum dpiFrom dpiTo) := by
    rw [← Int.neg_mul]
    exact Int.mul_nonneg (by omega) hpos.num_pos.le
  have hquot : scaledExactly dpiFrom dpiTo val =
      -(((-(val * scaleNum dpiFrom dpiTo) : Int) : ℚ) / scaleDen dpiFrom dpiTo) := by
    rw [scaledExactly, Int.cast_neg, neg_div, neg_neg]
  rw [hquot, roundAway_neg, roundAway_div hprod hpos.den_pos]

lemma scaleDpi_of_negative (hpos : PositiveRatio dpiFrom dpiTo)
    (hval : Representable dpiFrom dpiTo val) (hsign : val < 0) :
    scaleDpi val dpiFrom dpiTo = roundAway (scaledExactly dpiFrom dpiTo val) ↔
      NegativeFits dpiFrom dpiTo val := by
  have hden := hpos.den_pos
  have hdenlt := scaleDen_lt dpiFrom dpiTo
  have hprod : val * scaleNum dpiFrom dpiTo < 0 := Int.mul_neg_of_neg_of_pos hsign hpos.num_pos
  have hlow := hval.1
  rw [roundAway_of_negative hpos hsign, scaleDpi]
  rw [if_neg (not_le.mpr hsign), NegativeFits]
  generalize val * scaleNum dpiFrom dpiTo = p at hprod hlow
  generalize scaleDen dpiFrom dpiTo = d at hden hdenlt
  -- the unsigned difference is the complement of the magnitude
  have hdiff : toUint32 (p - d / 2) = 4294967296 - (-p + d / 2) := by
    rw [toUint32]
    omega
  rw [hdiff]
  obtain hone | htwo : d = 1 ∨ 2 ≤ d := by omega
  · subst hone
    apply iff_of_true ?_ (.inl rfl)
    rw [toInt32]
    omega
  have hne : d ≠ 1 := by omega
  rw [toInt32_ediv (by omega) (by omega) htwo]
  generalize hA : -p + d / 2 = A
  have hA0 : 0 ≤ A := by omega
  have hC0 : 0 ≤ 4294967296 - A := by omega
  have hquotA : 0 ≤ A / d := Int.ediv_nonneg hA0 hden.le
  have hquotC : 0 ≤ (4294967296 - A) / d := Int.ediv_nonneg hC0 hden.le
  have hzero : ∀ a, 0 ≤ a → (a / d = 0 ↔ a < d) := by
    intro a ha
    refine ⟨fun hquot => ?_, Int.ediv_eq_zero_of_lt ha⟩
    have hlt := Int.lt_ediv_add_one_mul_self a hden
    rw [hquot] at hlt
    omega
  constructor
  · intro heq
    exact .inr ⟨(hzero A hA0).mp (by omega), (hzero _ hC0).mp (by omega)⟩
  · rintro (hbad | ⟨h₁, h₂⟩)
    · exact absurd hbad hne
    · rw [(hzero A hA0).mpr h₁, (hzero _ hC0).mpr h₂, neg_zero]

def RectRepresentable (dpiFrom dpiTo : Ratio) (rect : Rect) : Prop :=
  Representable dpiFrom dpiTo rect.left ∧ Representable dpiFrom dpiTo rect.top ∧
    Representable dpiFrom dpiTo rect.right ∧ Representable dpiFrom dpiTo rect.bottom

/-- Scaling by the ratio is rounding to the nearest integer, for all coordinates. -/
structure DpiExact (dpiFrom dpiTo : Ratio) : Prop where
  nearest : ∀ val, Representable dpiFrom dpiTo val →
    scaleDpi val dpiFrom dpiTo = roundAway (scaledExactly dpiFrom dpiTo val)
  odd : ∀ val, Representable dpiFrom dpiTo val → Representable dpiFrom dpiTo (-val) →
    scaleDpi (-val) dpiFrom dpiTo = -scaleDpi val dpiFrom dpiTo
  monotone : ∀ val val', Representable dpiFrom dpiTo val → Representable dpiFrom dpiTo val' →
    val ≤ val' → scaleDpi val dpiFrom dpiTo ≤ scaleDpi val' dpiFrom dpiTo
  rect : ∀ r, RectRepresentable dpiFrom dpiTo r →
    (r.left ≤ r.right →
      (scaleDpiRect r dpiFrom dpiTo).left ≤ (scaleDpiRect r dpiFrom dpiTo).right) ∧
    (r.top ≤ r.bottom →
      (scaleDpiRect r dpiFrom dpiTo).top ≤ (scaleDpiRect r dpiFrom dpiTo).bottom)
  same : scaleNum dpiFrom dpiTo = scaleDen dpiFrom dpiTo → ∀ monitorDpi r,
    RectRepresentable dpiFrom dpiTo r → mapDpiRect monitorDpi r dpiFrom dpiTo = r

lemma scaledExactly_neg (dpiFrom dpiTo : Ratio) (val : Int) :
    scaledExactly dpiFrom dpiTo (-val) = -scaledExactly dpiFrom dpiTo val := by
  rw [scaledExactly, scaledExactly, Int.neg_mul, Int.cast_neg, neg_div]

lemma scaledExactly_mono (hpos : PositiveRatio dpiFrom dpiTo) {val' : Int} (hle : val ≤ val') :
    scaledExactly dpiFrom dpiTo val ≤ scaledExactly dpiFrom dpiTo val' := by
  have hden : (0 : ℚ) < scaleDen dpiFrom dpiTo := by exact_mod_cast hpos.den_pos
  have hprod := Int.mul_le_mul_of_nonneg_right hle hpos.num_pos.le
  apply div_le_div_of_nonneg_right ?_ hden.le
  exact_mod_cast hprod

lemma scaledExactly_same (hpos : PositiveRatio dpiFrom dpiTo)
    (heq : scaleNum dpiFrom dpiTo = scaleDen dpiFrom dpiTo) (val : Int) :
    scaledExactly dpiFrom dpiTo val = val := by
  have hden : (scaleDen dpiFrom dpiTo : ℚ) ≠ 0 := by exact_mod_cast hpos.den_pos.ne'
  rw [scaledExactly, heq, Int.cast_mul, mul_div_assoc, div_self hden, mul_one]

lemma dpiExact_of_nearest (hpos : PositiveRatio dpiFrom dpiTo)
    (hnearest : ∀ val, Representable dpiFrom dpiTo val →
      scaleDpi val dpiFrom dpiTo = roundAway (scaledExactly dpiFrom dpiTo val)) :
    DpiExact dpiFrom dpiTo := by
  have hmono : ∀ val val', Representable dpiFrom dpiTo val → Representable dpiFrom dpiTo val' →
      val ≤ val' → scaleDpi val dpiFrom dpiTo ≤ scaleDpi val' dpiFrom dpiTo := by
    intro val val' hval hval' hle
    rw [hnearest val hval, hnearest val' hval']
    exact roundAway_mono (scaledExactly_mono hpos hle)
  refine ⟨hnearest, ?_, hmono, ?_, ?_⟩
  · intro val hval hneg
    rw [hnearest val hval, hnearest (-val) hneg, scaledExactly_neg, roundAway_neg]
  · rintro r ⟨hleft, htop, hright, hbottom⟩
    exact ⟨hmono _ _ hleft hright, hmono _ _ htop hbottom⟩
  rintro heq monitorDpi r ⟨hleft, htop, hright, hbottom⟩
  have hsame : ∀ val, Representable dpiFrom dpiTo val → scaleDpi val dpiFrom dpiTo = val := by
    intro val hval
    rw [hnearest val hval, scaledExactly_same hpos heq, roundAway_intCast]
  rw [mapDpiRect, if_neg hpos.fromNum, if_neg hpos.toNum]
  split
  · rfl
  · rw [scaleDpiRect, hsame _ hleft, hsame _ htop, hsame _ hright, hsame _ hbottom]

/-- A coordinate is scaled rightly if and only if it is not negative or meets the condition; a ratio
scales all of its coordinates rightly if and only if the negative ones meet it. Equal resolutions
change nothing. -/
theorem scale_dpi_exact (hpos : PositiveRatio dpiFrom dpiTo) :
    (∀ val, Representable dpiFrom dpiTo val →
      (scaleDpi val dpiFrom dpiTo = roundAway (scaledExactly dpiFrom dpiTo val) ↔
        0 ≤ val ∨ NegativeFits dpiFrom dpiTo val)) ∧
    (DpiExact dpiFrom dpiTo ↔
      ∀ val, Representable dpiFrom dpiTo val → val < 0 → NegativeFits dpiFrom dpiTo val) ∧
    ∀ monitorDpi rect, mapDpiRect monitorDpi rect dpiFrom dpiFrom = rect := by
  have hone : ∀ val, Representable dpiFrom dpiTo val →
      (scaleDpi val dpiFrom dpiTo = roundAway (scaledExactly dpiFrom dpiTo val) ↔
        0 ≤ val ∨ NegativeFits dpiFrom dpiTo val) := by
    intro val hval
    obtain hsign | hsign := Int.lt_or_le val 0
    · rw [scaleDpi_of_negative hpos hval hsign]
      exact (or_iff_right (not_le.mpr hsign)).symm
    · exact iff_of_true (scaleDpi_of_nonneg hpos hval hsign) (.inl hsign)
  refine ⟨hone, ⟨fun h val hval hsign => ?_, fun h => ?_⟩, fun monitorDpi rect => ?_⟩
  · exact ((hone val hval).mp (h.nearest val hval)).resolve_left (not_le.mpr hsign)
  · apply dpiExact_of_nearest hpos
    intro val hval
    apply (hone val hval).mpr
    obtain hsign | hsign := Int.lt_or_le val 0
    · exact .inr (h val hval hsign)
    · exact .inl hsign
  · rw [mapDpiRect, if_pos rfl]

/-- From 96 to 144 dots per inch. -/
theorem scale_dpi_exact_144 : (∀ val, Representable ⟨96, 1⟩ ⟨144, 1⟩ val →
      (scaleDpi val ⟨96, 1⟩ ⟨144, 1⟩ = roundAway (scaledExactly ⟨96, 1⟩ ⟨144, 1⟩ val) ↔
        0 ≤ val ∨ NegativeFits ⟨96, 1⟩ ⟨144, 1⟩ val)) ∧
    (DpiExact ⟨96, 1⟩ ⟨144, 1⟩ ↔
      ∀ val, Representable ⟨96, 1⟩ ⟨144, 1⟩ val → val < 0 →
        NegativeFits ⟨96, 1⟩ ⟨144, 1⟩ val) ∧
    ∀ monitorDpi rect, mapDpiRect monitorDpi rect ⟨96, 1⟩ ⟨96, 1⟩ = rect :=
  scale_dpi_exact ⟨by decide, by decide, by decide, by decide⟩

/-- A window left of the primary monitor goes to the far right: `-100` becomes `44739092`. -/
theorem negative_coordinate_lost :
    scaleDpi (-100) ⟨96, 1⟩ ⟨144, 1⟩ = 44739092 ∧ ¬DpiExact ⟨96, 1⟩ ⟨144, 1⟩ := by
  refine ⟨by decide, fun h => ?_⟩
  have hle := h.monotone (-100) 0 (by decide) (by decide) (by decide)
  revert hle
  decide

end WineForge.Regions
