import Mathlib.Data.List.Forall2
import Mathlib.Algebra.Order.Ring.Int

/-!
# Arguments of a process

The launcher policy looks for arguments on the command line. The loop passes a pair of characters
before it compares them, and takes two strings at their ends for equal.
-/

namespace WineForge.Launcher

open List

/-- A string up to its null character. -/
abbrev WideString := {s : List UInt16 // 0 ∉ s}

abbrev AsciiString := {s : List UInt8 // 0 ∉ s}

def lowerWide (left : UInt16) : UInt16 :=
  if 65 ≤ left ∧ left ≤ 90 then left + 32 else left

def lowerAscii (right : UInt8) : UInt8 :=
  if 65 ≤ right ∧ right ≤ 90 then right + 32 else right

/-- The characters are the same up to case. -/
def SameChar (left : UInt16) (right : UInt8) : Prop :=
  (lowerWide left).toNat = (lowerAscii right).toNat

instance : DecidableRel SameChar := fun _ _ => inferInstanceAs (Decidable (_ = _))

/-- Where the cursors stop. -/
def compareLoop : List UInt16 → List UInt8 → List UInt16 × List UInt8
  | left :: wide, right :: ascii =>
    if SameChar left right then compareLoop wide ascii else (wide, ascii)
  | wide, ascii => (wide, ascii)

/-- `main_wargv` behind the program name, if it is set. -/
def arguments (mainWargv : Option (List WideString)) : List WideString :=
  (mainWargv.getD []).tail

def wargvHasAsciiArgumentCi (mainWargv : Option (List WideString)) (argument : AsciiString) :
    Bool :=
  (arguments mainWargv).any fun wide => compareLoop wide.1 argument.1 == ([], [])

def Same (argument : AsciiString) (wide : WideString) : Prop :=
  Forall₂ SameChar wide.1 argument.1

/-- The strings are of the same length and differ at most in their last characters. -/
def SameButLast (argument : AsciiString) (wide : WideString) : Prop :=
  wide.1.length = argument.1.length ∧ Forall₂ SameChar wide.1.dropLast argument.1.dropLast

lemma compareLoop_eq_nil (wide : List UInt16) (ascii : List UInt8) :
    compareLoop wide ascii = ([], []) ↔
      wide.length = ascii.length ∧ Forall₂ SameChar wide.dropLast ascii.dropLast := by
  induction wide generalizing ascii with
  | nil =>
    cases ascii with
    | nil => simp [compareLoop]
    | cons right ascii => simp [compareLoop]
  | cons left wide ih =>
    cases ascii with
    | nil => simp [compareLoop]
    | cons right ascii =>
      have hcons : (left :: wide).length = (right :: ascii).length ↔
          wide.length = ascii.length := Nat.succ_inj
      rw [compareLoop, hcons]
      obtain rfl | ⟨l, w, rfl⟩ := eq_nil_or_concat wide
      · obtain rfl | ⟨r, a, rfl⟩ := eq_nil_or_concat ascii
        · simp [compareLoop]
        split
        · rw [ih]
          simp
        · simp
      by_cases hascii : ascii = []
      · split
        · rw [ih]
          simp [hascii]
        · simp [hascii]
      rw [dropLast_cons_of_ne_nil hascii, dropLast_cons_of_ne_nil (by simp), forall₂_cons]
      split
      · rename_i hsame
        rw [ih]
        simp [hsame]
      · rename_i hdiffer
        simp [hdiffer]

lemma wargvHasAsciiArgumentCi_iff (mainWargv : Option (List WideString))
    (argument : AsciiString) : wargvHasAsciiArgumentCi mainWargv argument = true ↔
      ∃ wide ∈ arguments mainWargv, SameButLast argument wide := by
  simp only [wargvHasAsciiArgumentCi, any_eq_true, beq_iff_eq, compareLoop_eq_nil, SameButLast]

lemma Same.butLast {argument : AsciiString} {wide : WideString} (h : Same argument wide) :
    SameButLast argument wide := by
  refine ⟨h.length_eq, ?_⟩
  rw [dropLast_eq_take, dropLast_eq_take, h.length_eq]
  exact forall₂_take _ h

/-- The answer is right exactly if no argument differs from the string in its last character only,
or another argument equals it. -/
theorem arguments_found (mainWargv : Option (List WideString)) (argument : AsciiString) :
    (wargvHasAsciiArgumentCi mainWargv argument = true ↔
      ∃ wide ∈ arguments mainWargv, Same argument wide) ↔
    ((∃ wide ∈ arguments mainWargv, SameButLast argument wide ∧ ¬Same argument wide) →
      ∃ wide ∈ arguments mainWargv, Same argument wide) := by
  rw [wargvHasAsciiArgumentCi_iff]
  constructor
  · rintro h ⟨wide, hmem, hbut, -⟩
    exact h.mp ⟨wide, hmem, hbut⟩
  · refine fun h => ⟨fun ⟨wide, hmem, hbut⟩ => ?_, fun ⟨wide, hmem, hsame⟩ => ?_⟩
    · by_cases hsame : Same argument wide
      · exact ⟨wide, hmem, hsame⟩
      · exact h ⟨wide, hmem, hbut, hsame⟩
    · exact ⟨wide, hmem, hsame.butLast⟩

/-- `--disable-gpu` is found among the arguments when only `--disable-gpv` is there. -/
theorem argument_mistaken :
    ∃ (mainWargv : Option (List WideString)) (argument : AsciiString),
      wargvHasAsciiArgumentCi mainWargv argument = true ∧
        ¬∃ wide ∈ arguments mainWargv, Same argument wide := by
  refine ⟨some [⟨[0x61], by decide⟩, ⟨"--disable-gpv".toList.map fun c => c.toNat.toUInt16,
    by decide⟩], ⟨"--disable-gpu".toList.map fun c => c.toNat.toUInt8, by decide⟩, by decide, ?_⟩
  simp only [arguments, Same]
  decide

end WineForge.Launcher
