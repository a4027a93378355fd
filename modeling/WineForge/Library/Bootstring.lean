import Mathlib.Algebra.Order.Ring.Int

/-!
# Bootstring

The variable-length integers of the Bootstring encoding and the states of its decoder, in
unbounded numbers. A digit that is not one is `none`.
-/

namespace WineForge.Library

/-- The parameters of a Bootstring encoding. -/
structure Bootstring where
  base : ℕ
  tmin : ℕ
  tmax : ℕ
  skew : ℕ
  damp : ℕ
  tmin_le : tmin ≤ tmax
  tmax_lt : tmax < base
  tmin_lt : tmin + 1 < base

namespace Bootstring

variable (P : Bootstring)

/-- The threshold of the digit at `k`, which counts in steps of the base. -/
def threshold (bias k : ℕ) : ℕ :=
  if k ≤ bias then P.tmin else if k ≥ bias + P.tmax then P.tmax else k - bias

/-- What the weight grows by behind the digit at `k`. -/
def factor (bias k : ℕ) : ℕ :=
  P.base - P.threshold bias k

def value (bias : ℕ) : ℕ → List ℕ → ℕ
  | _, [] => 0
  | k, d :: ds => d + P.factor bias k * value bias (k + P.base) ds

/-- The weight of the digit that follows `m` digits. -/
def weight (bias : ℕ) : ℕ → ℕ → ℕ
  | _, 0 => 1
  | k, m + 1 => P.factor bias k * weight bias (k + P.base) m

/-- The digits of the next integer, and what is behind it if the integer is complete. -/
def readInteger (bias : ℕ) : ℕ → List (Option ℕ) → List ℕ × Option (List (Option ℕ))
  | _, [] => ([], none)
  | _, none :: _ => ([], none)
  | k, some d :: ds =>
    if d < P.threshold bias k then ([d], some ds)
    else
      let r := readInteger bias (k + P.base) ds
      (d :: r.1, r.2)

def adaptLoop (delta k : ℕ) : ℕ × ℕ :=
  if _h : delta > (P.base - P.tmin) * P.tmax / 2 then
    adaptLoop (delta / (P.base - P.tmin)) (k + P.base)
  else (delta, k)
termination_by delta
decreasing_by
  have hbase := P.tmin_lt
  exact Nat.div_lt_self (Nat.lt_of_le_of_lt (Nat.zero_le _) _h) (by omega)

def adapt (delta count : ℕ) (first : Bool) : ℕ :=
  let delta := delta / (if first then P.damp else 2)
  let r := P.adaptLoop (delta + delta / count) 0
  r.2 + (P.base - P.tmin + 1) * r.1 / (r.1 + P.skew)

/-- The decoder between two integers: the code point, the bias, the position and the number of code
points so far. -/
structure Decoder where
  n : ℕ
  bias : ℕ
  pos : ℕ
  count : ℕ

def Decoder.target (d : Decoder) (digits : List ℕ) : ℕ :=
  d.pos + P.value d.bias P.base digits

def Decoder.codePoint (d : Decoder) (digits : List ℕ) : ℕ :=
  d.n + d.target P digits / (d.count + 1)

def Decoder.insert (d : Decoder) (digits : List ℕ) : Decoder where
  n := d.codePoint P digits
  bias := P.adapt (d.target P digits - d.pos) (d.count + 1) (d.pos == 0)
  pos := d.target P digits % (d.count + 1) + 1
  count := d.count + 1

/-- The states that a decoder comes to by complete integers, as long as it has room. -/
inductive Decodes (room : ℕ) :
    Decoder → List (Option ℕ) → Decoder → List (Option ℕ) → Prop
  | refl (d : Decoder) (ds : List (Option ℕ)) : Decodes room d ds d ds
  | step {d d' : Decoder} {ds rest ds' : List (Option ℕ)} {digits : List ℕ} :
      d.count < room → P.readInteger d.bias P.base ds = (digits, some rest) →
      Decodes room (d.insert P digits) rest d' ds' → Decodes room d ds d' ds'

/-- The numbers behind the next integer stay below a limit: the position, the weight of the last
digit that has one, and the code point. -/
structure Decoder.Fits (limit : ℕ) (d : Decoder) (ds : List (Option ℕ)) : Prop where
  target : d.target P (P.readInteger d.bias P.base ds).1 < limit
  weight : P.weight d.bias P.base ((P.readInteger d.bias P.base ds).1.length -
    if (P.readInteger d.bias P.base ds).2.isSome then 1 else 0) < limit
  codePoint : (P.readInteger d.bias P.base ds).2.isSome = true →
    d.codePoint P (P.readInteger d.bias P.base ds).1 < limit

/-- All numbers of a decoder stay below the limit, and the last code point is none behind `last` if
all integers are complete. -/
def Decoder.Safe (room limit last : ℕ) (d : Decoder) (ds : List (Option ℕ)) : Prop :=
  ∀ d' rest, Decodes P room d ds d' rest →
    (rest ≠ [] → d'.Fits P limit rest) ∧ (rest = [] → d'.n ≤ last)

variable {P}

lemma threshold_le (bias k : ℕ) : P.threshold bias k ≤ P.tmax := by
  unfold threshold
  split
  · exact P.tmin_le
  split
  · exact le_refl _
  · omega

lemma factor_pos (bias k : ℕ) : 0 < P.factor bias k :=
  Nat.sub_pos_of_lt (Nat.lt_of_le_of_lt (threshold_le bias k) P.tmax_lt)

lemma weight_pos (bias k m : ℕ) : 0 < P.weight bias k m := by
  induction m generalizing k with
  | zero => exact Nat.one_pos
  | succ m ih => exact Nat.mul_pos (factor_pos bias k) (ih _)

lemma readInteger_ne_nil {bias k : ℕ} {ds rest : List (Option ℕ)} {digits : List ℕ}
    (h : P.readInteger bias k ds = (digits, some rest)) : digits ≠ [] := by
  cases ds with
  | nil => nomatch h
  | cons d ds =>
    cases d with
    | none => nomatch h
    | some d =>
      rw [readInteger] at h
      split at h
      · cases h
        exact List.cons_ne_nil _ _
      · rw [← (Prod.mk.inj h).1]
        exact List.cons_ne_nil _ _

variable {room limit last : ℕ} {d : Decoder} {ds : List (Option ℕ)}

lemma Decoder.safe_nil : d.Safe P room limit last [] ↔ d.n ≤ last := by
  constructor
  · intro h
    exact (h d [] (.refl d [])).2 rfl
  · intro h d' rest hdecodes
    cases hdecodes with
    | refl => exact ⟨fun hne => absurd rfl hne, fun _ => h⟩
    | step _ hread _ => nomatch hread

lemma Decoder.safe_iff (hds : ds ≠ []) : d.Safe P room limit last ds ↔
    d.Fits P limit ds ∧ ∀ digits rest, d.count < room →
      P.readInteger d.bias P.base ds = (digits, some rest) →
      (d.insert P digits).Safe P room limit last rest := by
  constructor
  · intro h
    refine ⟨(h d ds (.refl d ds)).1 hds, fun digits rest hroom hread d' ds' hdecodes => ?_⟩
    exact h d' ds' (.step hroom hread hdecodes)
  · rintro ⟨hfits, hnext⟩ d' rest hdecodes
    cases hdecodes with
    | refl => exact ⟨fun _ => hfits, fun h => absurd h hds⟩
    | step hroom hread hdecodes => exact hnext _ _ hroom hread d' rest hdecodes

end Bootstring

end WineForge.Library
