import WineForge.Library.Transition

/-!
# Computations that may stop

A computation that can stop for a reason is an `Except`. `Avoids bad x Q` says that `x` does not stop
for a bad reason, and that what it returns has the property `Q`; it may still stop for other reasons.
The rules follow the computation from its end to its start.
-/

namespace WineForge.Library

universe u

variable {ε : Type*} {α β σ : Type u} {ι : Type*} {bad : ε → Prop}

def Avoids (bad : ε → Prop) : Except ε α → (α → Prop) → Prop
  | .ok a, Q => Q a
  | .error e, _ => ¬bad e

namespace Avoids

variable {x : Except ε α} {f : α → Except ε β} {Q R : α → Prop} {P : β → Prop}

lemma pure {a : α} (h : Q a) : Avoids bad (Pure.pure a : Except ε α) Q :=
  h

lemma mono (hx : Avoids bad x Q) (h : ∀ a, Q a → R a) : Avoids bad x R := by
  cases x with
  | ok a => exact h a hx
  | error e => exact hx

lemma bind (hx : Avoids bad x Q) (hf : ∀ a, Q a → Avoids bad (f a) P) : Avoids bad (x >>= f) P := by
  cases x with
  | ok a => exact hf a hx
  | error e => exact hx

lemma ne_error {e : ε} (hx : Avoids bad x Q) (he : bad e) : x ≠ .error e := by
  rintro rfl
  exact hx he

lemma foldlM {body : σ → ι → Except ε σ} {I : σ → Prop} {l : List ι} {s : σ} (hs : I s)
    (hbody : ∀ s i, i ∈ l → I s → Avoids bad (body s i) I) :
    Avoids bad (l.foldlM body s) I := by
  induction l generalizing s with
  | nil => exact hs
  | cons i l ih =>
    rw [List.foldlM_cons]
    apply bind (hbody s i (List.mem_cons_self ..) hs)
    intro s hs
    exact ih hs fun s j hj => hbody s j (List.mem_cons_of_mem i hj)

end Avoids

def stepOf (step : σ → ι → Except ε σ) (s : σ) (i : ι) : Option σ :=
  (step s i).toOption

/-- The invariant rule: where no step that keeps the side condition stops for a bad reason or breaks
the invariant, no run comes to such a step. -/
theorem Reaches.avoids {step : σ → ι → Except ε σ} {good : σ → ι → Prop} {init I : σ → Prop}
    (hinit : ∀ s, init s → I s) (hstep : ∀ s i, I s → good s i → Avoids bad (step s i) I) {s : σ}
    (h : Reaches (stepOf step) good init s) (i : ι) (hi : good s i) : Avoids bad (step s i) I := by
  apply hstep s i _ hi
  apply h.invariant hinit
  intro s j s' hs hj hnext
  have hkeeps := hstep s j hs hj
  unfold stepOf at hnext
  cases hresult : step s j with
  | error e =>
    rw [hresult] at hnext
    cases hnext
  | ok t =>
    rw [hresult] at hnext hkeeps
    cases hnext
    exact hkeeps

end WineForge.Library
