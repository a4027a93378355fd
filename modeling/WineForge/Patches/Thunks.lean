import WineForge.Patches.AllOrNothing

/-!
# Rewritten thunks

A thunk keeps its 64-bit target while it is rewritten in place, and a rewritten thunk is no longer
in the old format.
-/

namespace WineForge.Patches

open Library List

variable {bits : Nat} {image : Image bits} {mem mem' : ByteMemory} {table entry n : Nat}

/-- `mov rax, target` and `jmp rax`, up to the end of the entry. -/
def newThunk (target : Nat) : List UInt8 :=
  [0x48, 0xb8] ++ ByteMemory.leBytes 8 target ++ [0xff, 0xe0, 0x90, 0x90, 0x90, 0x90]

def oldTarget (mem : ByteMemory) (entry : Nat) : Nat := mem.readLE (entry + 8) 8

lemma length_newThunk (target : Nat) : (newThunk target).length = thunkSize := by
  simp [newThunk, thunkSize]

lemma isOldThunk_iff : isOldThunk mem entry = true ↔ mem.Holds entry oldPrefix :=
  memcmp_eq_true rfl

lemma rewriteThunk_eq :
    rewriteThunk mem entry = mem.store entry (newThunk (oldTarget mem entry)) := by
  unfold rewriteThunk newThunk oldTarget
  dsimp only
  have hnext : ∀ {m : ByteMemory} {xs ys : List UInt8} (k : Nat), k = xs.length →
      (m.store entry xs).store (entry + k) ys = m.store entry (xs ++ ys) :=
    fun k hk => ByteMemory.store_store (by rw [hk])
  rw [hnext 1 rfl, hnext 2 rfl, hnext 10 (by simp), hnext 11 (by simp), hnext 12 (by simp)]
  simp

lemma jumpTarget_old (h : mem.Holds entry oldPrefix) :
    jumpTarget mem entry = some (oldTarget mem entry) := by
  obtain ⟨h0, h1, h2, h3, h4, h5, _⟩ := h
  unfold jumpTarget oldTarget
  rw [if_pos ⟨h0, h1⟩]
  have hdisp : mem.readLE (entry + 2) 4 = 2 := by
    simp only [ByteMemory.readLE]
    rw [h2, h3, h4, h5]
    rfl
  have haddr : ((entry + 6 : Int) + (BitVec.ofNat 32 2).toInt).toNat = entry + 8 := by
    have htwo : (BitVec.ofNat 32 2).toInt = 2 := by decide
    omega
  rw [hdisp]
  dsimp only
  rw [haddr]

lemma jumpTarget_new {target : Nat} (h : mem.Holds entry (newThunk target))
    (htarget : target < 2 ^ 64) : jumpTarget mem entry = some target := by
  unfold newThunk at h
  rw [ByteMemory.holds_append, ByteMemory.holds_append] at h
  obtain ⟨⟨⟨h0, h1, _⟩, htarget'⟩, hend⟩ := h
  obtain ⟨h10, h11, _⟩ := hend
  unfold jumpTarget
  rw [if_neg (by rw [h0]; exact fun h => absurd h.1 (by decide)), if_pos ⟨h0, h1, h10, h11⟩]
  exact congrArg some (htarget'.readLE htarget)

lemma oldTarget_lt : oldTarget mem entry < 2 ^ 64 :=
  ByteMemory.readLE_lt 8

/-- What the rewriting of the first `n` entries of a table leaves. -/
structure Rewritten (table n : Nat) (mem mem' : ByteMemory) : Prop where
  rewritten : ∀ i < n, mem.Holds (entryAt table i) oldPrefix →
    mem'.Holds (entryAt table i) (newThunk (oldTarget mem (entryAt table i)))
  outside : ∀ a, (∀ i < n, mem.Holds (entryAt table i) oldPrefix →
    ¬(entryAt table i ≤ a ∧ a < entryAt table i + thunkSize)) → mem' a = mem a

lemma Rewritten.agree {i : Nat} (h : Rewritten table n mem mem')
    (hi : n ≤ i ∨ ¬mem.Holds (entryAt table i) oldPrefix) :
    ByteMemory.Agree mem mem' (entryAt table i) thunkSize := by
  intro a hle hlt
  apply h.outside
  intro j hj hold hin
  have heq : j = i := by
    unfold entryAt thunkSize at *
    omega
  subst heq
  obtain hn | hnot := hi
  · omega
  · exact hnot hold

lemma rewriteThunks_spec (table n : Nat) (mem : ByteMemory) :
    Rewritten table n mem (rewriteThunks table n mem) := by
  induction n with
  | zero => exact ⟨by simp, fun _ _ => rfl⟩
  | succ n ih =>
    have hagree := ih.agree (.inl le_rfl)
    have hsame : isOldThunk (rewriteThunks table n mem) (entryAt table n) =
        isOldThunk mem (entryAt table n) := by
      unfold isOldThunk memcmp
      rw [(hagree.mono le_rfl (Nat.add_le_add_left (by decide) _)).fetch]
    have htarget : oldTarget (rewriteThunks table n mem) (entryAt table n) =
        oldTarget mem (entryAt table n) := by
      apply ByteMemory.Agree.readLE
      apply hagree.mono
      · omega
      · unfold thunkSize
        omega
    unfold rewriteThunks
    dsimp only
    rw [hsame]
    by_cases hold : isOldThunk mem (entryAt table n) = true
    · rw [if_pos hold, rewriteThunk_eq, htarget]
      constructor
      · intro i hi hi'
        obtain hlt | rfl := Nat.lt_succ_iff_lt_or_eq.mp hi
        · apply (ih.rewritten i hlt hi').store
          rw [length_newThunk]
          unfold entryAt thunkSize
          omega
        · exact ByteMemory.holds_store _ _ _
      · intro a ha
        have hn := ha n (Nat.lt_succ_self n) (isOldThunk_iff.mp hold)
        rw [ByteMemory.store_of_outside (by rw [length_newThunk]; omega)]
        exact ih.outside a fun i hi => ha i (Nat.lt_succ_of_lt hi)
    · rw [if_neg hold]
      constructor
      · intro i hi hi'
        obtain hlt | rfl := Nat.lt_succ_iff_lt_or_eq.mp hi
        · exact ih.rewritten i hlt hi'
        · exact absurd (isOldThunk_iff.mpr hi') hold
      · exact fun a ha => ih.outside a fun i hi => ha i (Nat.lt_succ_of_lt hi)

lemma Rewritten.not_old {i : Nat} (h : Rewritten table n mem mem') (hi : i < n) :
    ¬mem'.Holds (entryAt table i) oldPrefix := by
  intro hold
  by_cases hmem : mem.Holds (entryAt table i) oldPrefix
  · have hnew := (h.rewritten i hi hmem).1
    rw [hold.1] at hnew
    exact absurd hnew (by decide)
  apply hmem
  apply ByteMemory.Agree.holds _ hold
  intro a hle hlt
  exact (h.agree (.inr hmem) a hle (hlt.trans_le (Nat.add_le_add_left (by decide) _))).symm

lemma countThunks_old_eq_zero :
    (countThunks mem table n).old = 0 ↔ ∀ i < n, ¬mem.Holds (entryAt table i) oldPrefix := by
  induction n with
  | zero => simp [countThunks]
  | succ n ih =>
    have hlast : ∀ i < n + 1, i < n ∨ i = n := fun i hi => Nat.lt_succ_iff_lt_or_eq.mp hi
    unfold countThunks countThunk
    by_cases hold : isOldThunk mem (entryAt table n) = true
    · have hnot : ¬∀ i < n + 1, ¬mem.Holds (entryAt table i) oldPrefix :=
        fun h => h n (Nat.lt_succ_self n) (isOldThunk_iff.mp hold)
      rw [if_pos hold]
      exact iff_of_false (Nat.succ_ne_zero _) hnot
    have hsplit : (∀ i < n + 1, ¬mem.Holds (entryAt table i) oldPrefix) ↔
        ∀ i < n, ¬mem.Holds (entryAt table i) oldPrefix := by
      constructor
      · exact fun h i hi => h i (Nat.lt_succ_of_lt hi)
      · intro h i hi
        obtain hlt | rfl := hlast i hi
        · exact h i hlt
        · exact fun h => hold (isOldThunk_iff.mpr h)
    rw [if_neg hold, hsplit, ← ih]
    split <;> rfl

/-- What `patch_steam_dxgi_thunk_table` does to the memory of an image. -/
structure ThunksPatched (image : Image bits) (mem mem' : ByteMemory) : Prop where
  rewritten : tableRva + thunkCount * thunkSize ≤ image.size →
    image.protect (image.base + tableRva) (thunkCount * thunkSize) = true →
    ∀ i < thunkCount, ∀ entry, entry = entryAt (image.base + tableRva) i →
      mem.Holds entry oldPrefix → mem'.Holds entry (newThunk (oldTarget mem entry)) ∧
        jumpTarget mem entry = some (oldTarget mem entry) ∧
        jumpTarget mem' entry = jumpTarget mem entry
  outside : ∀ a, (∀ i < thunkCount, mem.Holds (entryAt (image.base + tableRva) i) oldPrefix →
    ¬(entryAt (image.base + tableRva) i ≤ a ∧ a < entryAt (image.base + tableRva) i + thunkSize)) →
    mem' a = mem a

lemma patchThunkTable_cases (image : Image bits) (mem : ByteMemory) :
    (¬tableRva + thunkCount * thunkSize ≤ image.size ∨
      (∀ i < thunkCount, ¬mem.Holds (entryAt (image.base + tableRva) i) oldPrefix) ∨
      ¬image.protect (image.base + tableRva) (thunkCount * thunkSize) = true) ∧
        (patchSteamDxgiThunkTable image mem).2 = mem ∨
    tableRva + thunkCount * thunkSize ≤ image.size ∧
      image.protect (image.base + tableRva) (thunkCount * thunkSize) = true ∧
      Rewritten (image.base + tableRva) thunkCount mem (patchSteamDxgiThunkTable image mem).2 := by
  unfold patchSteamDxgiThunkTable
  by_cases hrange : tableRva + thunkCount * thunkSize ≤ image.size
  · have hin : ¬(decide (↑image.size < tableRva) ||
        decide (↑image.size - tableRva < thunkCount * thunkSize)) = true := by
      rw [Bool.or_eq_true, decide_eq_true_eq, decide_eq_true_eq]
      omega
    rw [if_neg hin]
    by_cases hcount : (countThunks mem (image.base + tableRva) thunkCount).old = 0
    · rw [if_pos (beq_iff_eq.mpr hcount)]
      exact .inl ⟨.inr (.inl (countThunks_old_eq_zero.mp hcount)), rfl⟩
    rw [if_neg (by rw [beq_iff_eq]; exact hcount)]
    by_cases hprotect : image.protect (image.base + tableRva) (thunkCount * thunkSize) = true
    · rw [if_neg (by simp [hprotect])]
      have hspec := rewriteThunks_spec (image.base + tableRva) thunkCount mem
      refine .inr ⟨hrange, hprotect, ?_⟩
      dsimp only
      exact hspec
    · rw [if_pos (by simp [hprotect])]
      exact .inl ⟨.inr (.inr hprotect), rfl⟩
  · have hout : (decide (↑image.size < tableRva) ||
        decide (↑image.size - tableRva < thunkCount * thunkSize)) = true := by
      rw [Bool.or_eq_true, decide_eq_true_eq, decide_eq_true_eq]
      omega
    rw [if_pos hout]
    exact .inl ⟨.inl hrange, rfl⟩

lemma patchThunkTable_spec (image : Image bits) (mem : ByteMemory) :
    ThunksPatched image mem (patchSteamDxgiThunkTable image mem).2 := by
  obtain ⟨hwhy, hsame⟩ | ⟨_, _, hrewritten⟩ := patchThunkTable_cases image mem
  · rw [hsame]
    constructor
    · rintro hrange hprotect i hi _ rfl hold
      obtain hnot | hnot | hnot := hwhy
      · exact absurd hrange hnot
      · exact absurd hold (hnot i hi)
      · exact absurd hprotect hnot
    · exact fun _ _ => rfl
  constructor
  · rintro _ _ i hi _ rfl hold
    have hnew := hrewritten.rewritten i hi hold
    refine ⟨hnew, jumpTarget_old hold, ?_⟩
    rw [jumpTarget_old hold]
    exact jumpTarget_new hnew oldTarget_lt
  · exact hrewritten.outside

lemma patchThunkTable_twice {protect : Nat → Nat → Bool} (mem : ByteMemory)
    (hless : GrantedLess image protect) :
    (patchSteamDxgiThunkTable { image with protect }
      (patchSteamDxgiThunkTable image mem).2).2 = (patchSteamDxgiThunkTable image mem).2 := by
  obtain ⟨_, hsecond⟩ | ⟨hrange, hprotect, hsecond⟩ := patchThunkTable_cases { image with protect }
    (patchSteamDxgiThunkTable image mem).2
  · exact hsecond
  have hnot : ∀ i < thunkCount, ¬(patchSteamDxgiThunkTable image mem).2.Holds
      (entryAt (image.base + tableRva) i) oldPrefix := by
    intro i hi hold
    obtain ⟨hwhy, hsame⟩ | ⟨_, _, hfirst⟩ := patchThunkTable_cases image mem
    · rw [hsame] at hold
      obtain hnot | hnot | hnot := hwhy
      · exact hnot hrange
      · exact hnot i hi hold
      · exact hnot (hless _ _ hprotect)
    · exact hfirst.not_old hi hold
  funext a
  apply hsecond.outside
  intro i hi hold
  exact absurd hold (hnot i hi)

lemma steamDxgiGeneratorFragments_apart : steamDxgiGeneratorFragments.Pairwise Apart := by
  have hordered : steamDxgiGeneratorFragments.Pairwise
      fun f g => f.rva.toNat + f.size ≤ g.rva.toNat := by
    decide
  apply hordered.imp
  intro f g hle a ha
  unfold Fragment.Covers Fragment.start at ha
  omega

lemma oneByte_length : ([1] : List UInt8).length = ([2] : List UInt8).length :=
  rfl

def oneByteSet : PatchSet where
  pathSuffix := none
  machine := 0x8664
  imageSize := 0
  timestamp := 0
  builtin := false
  shouldApply := none
  fragments := [⟨3, [1], [2], oneByte_length⟩]
  customApply := false
  matched := false

def pageImage (granted : Bool) : Image 64 := ⟨0, 0x1000, fun _ _ => granted⟩

end WineForge.Patches
