import WineForge.Patches.State

/-!
# Patches are applied as a whole

The first loop finds a range that has all the fragments in it, so the second loop does not fault
once the range is writable. Fragments that do not meet keep what was written to the others.
-/

namespace WineForge.Patches

open Library List Option

variable {bits : Nat} {image : Image bits} {mem mem' : ByteMemory} {base : Nat}

lemma memcmp_eq_true {a : Nat} {bytes : List UInt8} {size : Nat} (h : bytes.length = size) :
    memcmp mem a bytes size = true ↔ mem.Holds a bytes := by
  unfold memcmp
  rw [beq_iff_eq, ← h]
  exact ByteMemory.fetch_eq_iff

def Apart (f g : Fragment) : Prop := ∀ a, ¬(f.Covers 0 a ∧ g.Covers 0 a)

def InRange (image : Image bits) (f : Fragment) : Prop :=
  f.rva.toNat + f.size ≤ image.size

def AllBefore (base : Nat) (fragments : List Fragment) (mem : ByteMemory) : Prop :=
  ∀ f ∈ fragments, mem.Holds (f.start base) f.before

def AllAfter (base : Nat) (fragments : List Fragment) (mem : ByteMemory) : Prop :=
  ∀ f ∈ fragments, mem.Holds (f.start base) f.after

def SameOutside (base : Nat) (fragments : List Fragment) (mem mem' : ByteMemory) : Prop :=
  ∀ a, (∀ f ∈ fragments, ¬f.Covers base a) → mem' a = mem a

lemma outOfRange_eq_false {f : Fragment} : outOfRange image f = false ↔ InRange image f := by
  unfold outOfRange InRange
  rw [Bool.or_eq_false_iff, decide_eq_false_iff_not, decide_eq_false_iff_not]
  omega

/-- What the first loop finds out if no fragment is out of range. -/
structure Finds (image : Image bits) (mem : ByteMemory) (fragments : List Fragment)
    (c c' : Checked) : Prop where
  inRange : ∀ f ∈ fragments, InRange image f
  before : c'.allBefore = true ↔ c.allBefore = true ∧ AllBefore image.base fragments mem
  after : c'.allAfter = true ↔ c.allAfter = true ∧ AllAfter image.base fragments mem
  first_le : c'.first ≤ c.first
  le_last : c.last ≤ c'.last
  last_le : c'.last ≤ max c.last image.size
  within : ∀ f ∈ fragments, c'.first ≤ f.rva.toNat ∧ f.rva.toNat + f.size ≤ c'.last

variable {fragments : List Fragment}

lemma checkFragments_some {c c' : Checked}
    (h : checkFragments image mem fragments c = some c') : Finds image mem fragments c c' := by
  induction fragments generalizing c with
  | nil =>
    obtain rfl := some.inj h
    exact ⟨by simp, by simp [AllBefore], by simp [AllAfter], le_rfl, le_rfl, le_max_left _ _,
      by simp⟩
  | cons f fs ih =>
    unfold checkFragments at h
    split at h
    · cases h
    rename_i hrange
    have hrange : InRange image f := outOfRange_eq_false.mp (Bool.eq_false_iff.mpr hrange)
    have hfs := ih h
    have hmod : (f.rva.toNat + f.size) % 2 ^ bits = f.rva.toNat + f.size := by
      apply Nat.mod_eq_of_lt
      unfold InRange at hrange
      omega
    have hfirst : (checkFragment image mem c f).first ≤ c.first ∧
        (checkFragment image mem c f).first ≤ f.rva.toNat := by
      unfold checkFragment
      dsimp only
      split <;> omega
    have hlast : c.last ≤ (checkFragment image mem c f).last ∧
        f.rva.toNat + f.size ≤ (checkFragment image mem c f).last ∧
        (checkFragment image mem c f).last ≤ max c.last image.size := by
      unfold checkFragment
      dsimp only
      unfold InRange at hrange
      split <;> omega
    constructor
    · intro g hg
      obtain rfl | hg := List.mem_cons.mp hg
      · exact hrange
      · exact hfs.inRange g hg
    · have hmemcmp : memcmp mem (f.start image.base) f.before f.size = true ↔ _ :=
        memcmp_eq_true rfl
      rw [hfs.before]
      unfold checkFragment AllBefore
      rw [Bool.and_eq_true, hmemcmp, forall_mem_cons, and_assoc]
    · have hmemcmp : memcmp mem (f.start image.base) f.after f.size = true ↔ _ :=
        memcmp_eq_true f.same_size
      rw [hfs.after]
      unfold checkFragment AllAfter
      rw [Bool.and_eq_true, hmemcmp, forall_mem_cons, and_assoc]
    · exact hfs.first_le.trans hfirst.1
    · exact hlast.1.trans hfs.le_last
    · exact hfs.last_le.trans (max_le hlast.2.2 (le_max_right _ _))
    · intro g hg
      obtain rfl | hg := List.mem_cons.mp hg
      · exact ⟨hfs.first_le.trans hfirst.2, hlast.2.1.trans hfs.le_last⟩
      · exact hfs.within g hg

lemma checkFragments_none {c : Checked} (h : ∀ f ∈ fragments, InRange image f) :
    ∃ c', checkFragments image mem fragments c = some c' := by
  induction fragments generalizing c with
  | nil => exact ⟨c, rfl⟩
  | cons f fs ih =>
    rw [forall_mem_cons] at h
    obtain ⟨c', hc'⟩ := @ih (checkFragment image mem c f) h.2
    refine ⟨c', ?_⟩
    unfold checkFragments
    rw [outOfRange_eq_false.mpr h.1]
    exact hc'

lemma writeFragments_spec {start size : Nat} (hapart : fragments.Pairwise Apart)
    (hwithin : ∀ f ∈ fragments, start ≤ f.start base ∧ f.start base + f.size ≤ start + size) :
    ∃ mem', writeFragments base start size fragments mem = some mem' ∧
      AllAfter base fragments mem' ∧ SameOutside base fragments mem mem' := by
  induction fragments generalizing mem with
  | nil => exact ⟨mem, rfl, by simp [AllAfter], fun a _ => rfl⟩
  | cons f fs ih =>
    rw [pairwise_cons] at hapart
    rw [forall_mem_cons] at hwithin
    have hsize : f.after.length = f.size := f.same_size
    obtain ⟨mem', hwrite, hafter, hsame⟩ :=
      @ih (mem.store (f.start base) f.after) hapart.2 hwithin.2
    refine ⟨mem', ?_, ?_, ?_⟩
    · unfold writeFragments memcpy
      rw [if_pos (by rw [hsize]; exact hwithin.1)]
      exact hwrite
    · unfold AllAfter
      rw [forall_mem_cons]
      refine ⟨?_, hafter⟩
      apply ByteMemory.Agree.holds _ (ByteMemory.holds_store mem (f.start base) f.after)
      intro i hle hlt
      apply hsame
      intro g hg hcovers
      -- `f` covers the byte, so no other fragment does
      apply hapart.1 g hg (i - base)
      unfold Fragment.Covers Fragment.start at *
      omega
    · intro a ha
      rw [forall_mem_cons] at ha
      rw [hsame a ha.2]
      apply ByteMemory.store_of_outside
      have hf := ha.1
      unfold Fragment.Covers at hf
      omega

/-- What a run does that does not fault. -/
structure Patched (image : Image bits) (fragments : List Fragment) (mem mem' : ByteMemory) :
    Prop where
  all_or_nothing : mem' = mem ∨
    AllBefore image.base fragments mem ∧ AllAfter image.base fragments mem'
  outside : SameOutside image.base fragments mem mem'

lemma Patched.refl : Patched image fragments mem mem :=
  ⟨.inl rfl, fun _ _ => rfl⟩

def Granted (image : Image bits) (fragments : List Fragment) (mem : ByteMemory) : Prop :=
  ∀ c, checkFragments image mem fragments ⟨true, true, 2 ^ bits - 1, 0⟩ = some c →
    image.protect (image.base + c.first) ((2 ^ bits + c.last - c.first) % 2 ^ bits) = true

lemma patchFragments_spec (hapart : fragments.Pairwise Apart) :
    ∃ ok mem', patchFragments image fragments mem = some (ok, mem') ∧
      Patched image fragments mem mem' ∧
      (ok = true ↔ (∀ f ∈ fragments, InRange image f) ∧ AllAfter image.base fragments mem') ∧
      ((∀ f ∈ fragments, InRange image f) → AllBefore image.base fragments mem →
        Granted image fragments mem → ok = true) ∧
      (mem' ≠ mem → (∀ f ∈ fragments, InRange image f) ∧
        ¬AllAfter image.base fragments mem ∧ Granted image fragments mem) := by
  unfold patchFragments
  cases hcheck : checkFragments image mem fragments ⟨true, true, 2 ^ bits - 1, 0⟩ with
  | none =>
    have hnot : ¬∀ f ∈ fragments, InRange image f := by
      intro hall
      obtain ⟨c', hc'⟩ := @checkFragments_none bits image mem fragments
        ⟨true, true, 2 ^ bits - 1, 0⟩ hall
      rw [hc'] at hcheck
      cases hcheck
    exact ⟨false, mem, rfl, Patched.refl, by simp [hnot], fun h => absurd h hnot,
      fun h => absurd rfl h⟩
  | some c =>
    have hfinds := checkFragments_some hcheck
    have hgranted : Granted image fragments mem ↔ image.protect (image.base + c.first)
        ((2 ^ bits + c.last - c.first) % 2 ^ bits) = true := by
      unfold Granted
      rw [hcheck]
      constructor
      · exact fun h => h c rfl
      · intro h c' hc'
        obtain rfl := some.inj hc'
        exact h
    have hafter : c.allAfter = true ↔ AllAfter image.base fragments mem := by
      simpa using hfinds.after
    have hbefore : c.allBefore = true ↔ AllBefore image.base fragments mem := by
      simpa using hfinds.before
    dsimp only
    by_cases hall : c.allAfter = true
    · rw [if_pos hall]
      refine ⟨true, mem, rfl, Patched.refl, ?_, fun _ _ _ => rfl, fun h => absurd rfl h⟩
      exact iff_of_true rfl ⟨hfinds.inRange, hafter.mp hall⟩
    have hnotafter : ¬AllAfter image.base fragments mem := fun h => hall (hafter.mpr h)
    rw [if_neg hall]
    by_cases hold : c.allBefore = true
    · rw [if_neg (by simp [hold])]
      by_cases hprotect : image.protect (image.base + c.first)
          ((2 ^ bits + c.last - c.first) % 2 ^ bits) = true
      · rw [if_neg (by simp [hprotect])]
        have hsize : (2 ^ bits + c.last - c.first) % 2 ^ bits = c.last - c.first := by
          obtain ⟨f, hf⟩ : ∃ f, f ∈ fragments := by
            by_contra hnone
            exact hnotafter fun f hf => absurd ⟨f, hf⟩ hnone
          have hwithin := hfinds.within f hf
          have hlast := hfinds.last_le
          have hsplit : 2 ^ bits + c.last - c.first = c.last - c.first + 2 ^ bits := by omega
          rw [hsplit, Nat.add_mod_right, Nat.mod_eq_of_lt (by simp at hlast; omega)]
        obtain ⟨mem', hwrite, hafter', hsame⟩ :=
          @writeFragments_spec mem image.base fragments (image.base + c.first) (c.last - c.first)
            hapart (by
              intro f hf
              have hwithin := hfinds.within f hf
              unfold Fragment.start
              omega)
        refine ⟨true, mem', ?_, ⟨Or.inr ⟨hbefore.mp hold, hafter'⟩, hsame⟩, ?_, fun _ _ _ => rfl,
          fun _ => ⟨hfinds.inRange, hnotafter, hgranted.mpr hprotect⟩⟩
        · rw [hsize, hwrite]
          rfl
        · exact iff_of_true rfl ⟨hfinds.inRange, hafter'⟩
      · rw [if_pos (by simp [hprotect])]
        refine ⟨false, mem, rfl, Patched.refl, by simp [hnotafter], ?_, fun h => absurd rfl h⟩
        intro _ _ h
        exact absurd (hgranted.mp h) hprotect
    · rw [if_pos (by simp [hold])]
      refine ⟨false, mem, rfl, Patched.refl, by simp [hnotafter], ?_, fun h => absurd rfl h⟩
      intro _ h
      exact absurd (hbefore.mpr h) hold

def GrantedLess (image : Image bits) (protect : Nat → Nat → Bool) : Prop :=
  ∀ a n, protect a n = true → image.protect a n = true

lemma checkFragments_protect (protect : Nat → Nat → Bool) (fragments : List Fragment)
    (c : Checked) :
    checkFragments { image with protect } mem fragments c =
      checkFragments image mem fragments c := by
  induction fragments generalizing c with
  | nil => rfl
  | cons f fs ih =>
    unfold checkFragments
    rw [ih]
    rfl

lemma patchFragments_twice {protect : Nat → Nat → Bool} {ok : Bool}
    (hapart : fragments.Pairwise Apart) (hless : GrantedLess image protect)
    (h : patchFragments image fragments mem = some (ok, mem')) :
    ∃ ok', patchFragments { image with protect } fragments mem' = some (ok', mem') := by
  obtain ⟨ok₁, mem₁, hfirst, hpatched, hok, hdone, _⟩ :=
    @patchFragments_spec bits image mem fragments hapart
  obtain ⟨rfl, rfl⟩ := Prod.mk.inj (some.inj (h.symm.trans hfirst))
  obtain ⟨ok₂, mem₂, hsecond, hpatched₂, hok₂, _, hchange⟩ :=
    @patchFragments_spec bits { image with protect } mem' fragments hapart
  by_cases heq : mem₂ = mem'
  · subst heq
    exact ⟨ok₂, hsecond⟩
  exfalso
  obtain ⟨hrange, hnotafter, hgranted'⟩ := hchange heq
  have hbefore := (hpatched₂.all_or_nothing.resolve_left heq).1
  have hgranted : Granted image fragments mem' := by
    intro c hc
    rw [← checkFragments_protect protect] at hc
    exact hless _ _ (hgranted' c hc)
  apply hnotafter
  obtain hsame | ⟨_, hafter⟩ := hpatched.all_or_nothing
  · subst hsame
    exact (hok.mp (hdone hrange hbefore hgranted)).2
  · exact hafter

end WineForge.Patches
