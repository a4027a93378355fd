import WineForge.Library.FreeList
import WineForge.Library.Transition
import WineForge.UserHandles.State

/-!
# What a user handle resolves to

The free entries are a list of unused entries, the generation of an entry counts its allocations,
and an entry in use holds the pointer that was allocated with it.
-/

namespace WineForge.UserHandles

open Function Library List Option

variable {O : Type} {s : Tables O}

lemma maxUserHandles_eq : maxUserHandles = 32744 := rfl

def handleIndex (handle : UserHandle) : Nat :=
  (handle.toNat % 65536 + 4294967296 - firstUserHandle) % 4294967296 / 2

def handleGeneration (handle : UserHandle) : Nat := handle.toNat / 65536

/-- A handle matches an entry of the given generation: it is a 16-bit handle, or a full one. -/
def Matches (handle : UserHandle) (generation : Nat) : Prop :=
  handleGeneration handle = 0 ∨ handleGeneration handle = 0xffff ∨
    handleGeneration handle = generation

variable {handle : UserHandle}

lemma handleToEntry_eq_some {i : Nat} : handleToEntry s handle = some i ↔
      i = handleIndex handle ∧ i < s.nbHandles ∧ (s.entries i).type ≠ 0 ∧
        Matches handle (s.entries i).generation := by
  change (if handleIndex handle ≥ s.nbHandles then none
    else if (s.entries (handleIndex handle)).type = 0 then none
    else if handleGeneration handle = 0 ∨ handleGeneration handle = 0xffff then
      some (handleIndex handle)
    else if handleGeneration handle = (s.entries (handleIndex handle)).generation then
      some (handleIndex handle) else none) = some i ↔ _
  constructor
  · intro h
    split at h
    · simp at h
    rename_i hlt
    split at h
    · simp at h
    rename_i htype
    split at h
    · rename_i hshort
      rw [← some.inj h]
      exact ⟨rfl, Nat.lt_of_not_le hlt, htype, hshort.imp id .inl⟩
    split at h
    · rename_i hgen
      rw [← some.inj h]
      exact ⟨rfl, Nat.lt_of_not_le hlt, htype, .inr (.inr hgen)⟩
    · simp at h
  · rintro ⟨rfl, hlt, htype, hmatch⟩
    rw [if_neg (Nat.not_le_of_lt hlt), if_neg htype]
    split
    · rfl
    rename_i hfull
    rw [if_pos]
    exact (hmatch.resolve_left fun h => hfull (.inl h)).resolve_left fun h =>
      hfull (.inr h)

variable {i generation : Nat}

lemma toNat_entryToHandle (hi : i < maxUserHandles) (hg : generation < 65536) :
    (entryToHandle i generation).toNat = i * 2 + firstUserHandle + generation * 65536 := by
  rw [maxUserHandles_eq] at hi
  unfold entryToHandle firstUserHandle
  rw [BitVec.toNat_ofNat]
  omega

lemma handleIndex_entryToHandle (hi : i < maxUserHandles)
    (hg : generation < 65536) : handleIndex (entryToHandle i generation) = i := by
  unfold handleIndex
  rw [toNat_entryToHandle hi hg]
  rw [maxUserHandles_eq] at hi
  unfold firstUserHandle
  omega

lemma handleGeneration_entryToHandle (hi : i < maxUserHandles)
    (hg : generation < 65536) : handleGeneration (entryToHandle i generation) = generation := by
  unfold handleGeneration
  rw [toNat_entryToHandle hi hg]
  rw [maxUserHandles_eq] at hi
  unfold firstUserHandle
  omega

/-- The generation of an entry that was allocated `n` times. -/
def generationOf (n : Nat) : Nat := (n - 1) % 65534 + 1

lemma generationOf_bounds (n : Nat) : 1 ≤ generationOf n ∧ generationOf n < 0xffff := by
  unfold generationOf
  omega

lemma nextGeneration_generationOf {n : Nat} (hn : 1 ≤ n) :
    nextGeneration (generationOf n) = generationOf (n + 1) := by
  unfold nextGeneration generationOf
  dsimp only
  split
  · omega
  · omega

lemma generationOf_inj {m n : Nat} (hm : 1 ≤ m) (hle : m ≤ n) (hlt : n < m + 65534)
    (h : generationOf m = generationOf n) : m = n := by
  unfold generationOf at h
  omega

structure Valid (s : Tables O) : Prop where
  free : ∃ cells, Threaded noEntry (fun i => (s.entries i).offset) s.freelist cells ∧
    cells.Nodup ∧ ∀ i ∈ cells, i < s.nbHandles ∧ (s.entries i).type = 0
  bound : s.nbHandles ≤ maxUserHandles
  counted : ∀ i < s.nbHandles,
    1 ≤ s.allocated i ∧ (s.entries i).generation = generationOf (s.allocated i)
  unused : ∀ i, s.nbHandles ≤ i → s.allocated i = 0

lemma maxUserHandles_lt_noEntry : maxUserHandles < noEntry := by decide

lemma Valid.generation_lt (h : Valid s) {i : Nat} (hi : i < s.nbHandles) :
    (s.entries i).generation < 65536 := by
  rw [(h.counted i hi).2]
  have := (generationOf_bounds (s.allocated i)).2
  omega

lemma Valid.allocGeneration_eq (h : Valid s) :
    allocGeneration s = generationOf (s.allocated (allocIndex s) + 1) := by
  unfold allocGeneration allocIndex
  split
  · rename_i hfree
    obtain ⟨cells, hthread, _, hcells⟩ := h.free
    obtain ⟨rest, rfl, _⟩ := hthread.pop hfree
    obtain ⟨hone, hgen⟩ := h.counted _ (hcells s.freelist mem_cons_self).1
    rw [hgen, nextGeneration_generationOf hone]
  · rw [h.unused _ (Nat.le_refl _)]
    rfl

lemma allocUserEntry_valid {offset pid type : Nat} (h : Valid s)
    (hroom : allocIndex s < maxUserHandles) : Valid (allocUserEntry s offset pid type) := by
  have hgen := h.allocGeneration_eq
  by_cases hfree : s.freelist ≠ noEntry
  · obtain ⟨cells, hthread, hnodup, hcells⟩ := h.free
    obtain ⟨rest, rfl, hrest⟩ := hthread.pop hfree
    obtain ⟨hnew, hnodup⟩ := nodup_cons.mp hnodup
    have hindex : allocIndex s = s.freelist := if_pos hfree
    have hlt := (hcells s.freelist mem_cons_self).1
    have hne : ∀ i ∈ rest, i ≠ s.freelist := by
      rintro i hi rfl
      exact hnew hi
    unfold allocUserEntry
    rw [hgen, hindex, if_pos hfree, if_pos hfree]
    refine ⟨⟨rest, ?_, hnodup, ?_⟩, h.bound, ?_, ?_⟩
    · apply hrest.congr
      intro i hi
      dsimp only
      rw [update_of_ne (hne i hi)]
    · intro i hi
      dsimp only
      rw [update_of_ne (hne i hi)]
      exact hcells i (mem_cons_of_mem _ hi)
    · intro i hi
      dsimp only
      by_cases heq : i = s.freelist
      · rw [heq, update_self, update_self]
        exact ⟨Nat.le_add_left _ _, rfl⟩
      · rw [update_of_ne heq, update_of_ne heq]
        exact h.counted i hi
    intro i hi
    dsimp only at hi ⊢
    have heq : i ≠ s.freelist := by omega
    rw [update_of_ne heq]
    exact h.unused i hi
  · obtain ⟨cells, hthread, _, _⟩ := h.free
    have hnil : s.freelist = noEntry := not_not.mp hfree
    have hindex : allocIndex s = s.nbHandles := if_neg hfree
    rw [hindex] at hroom
    unfold allocUserEntry
    rw [hgen, hindex, if_neg hfree, if_neg hfree]
    refine ⟨⟨[], hnil, nodup_nil, by simp⟩, hroom, ?_, ?_⟩
    · intro i hi
      dsimp only at hi ⊢
      by_cases heq : i = s.nbHandles
      · rw [heq, update_self, update_self]
        exact ⟨Nat.le_add_left _ _, rfl⟩
      · rw [update_of_ne heq, update_of_ne heq]
        exact h.counted i (by omega)
    intro i hi
    dsimp only at hi ⊢
    rw [update_of_ne (by omega)]
    exact h.unused i (by omega)

lemma freeUserEntry_valid {i : Nat} (h : Valid s) (hi : i < s.nbHandles)
    (htype : (s.entries i).type ≠ 0) : Valid (freeUserEntry s i) := by
  obtain ⟨cells, hthread, hnodup, hcells⟩ := h.free
  have hnew : i ∉ cells := fun hmem => htype (hcells i hmem).2
  have hne : i ≠ noEntry := by
    have hmax := maxUserHandles_lt_noEntry
    have hbound := h.bound
    omega
  unfold freeUserEntry
  refine ⟨⟨i :: cells, ?_, nodup_cons.mpr ⟨hnew, hnodup⟩, ?_⟩, h.bound, ?_, h.unused⟩
  · apply (hthread.push hnew hne).congr
    intro j _
    dsimp only
    by_cases heq : j = i
    · rw [heq, update_self, update_self]
    · rw [update_of_ne heq, update_of_ne heq]
  · intro j hj
    dsimp only
    by_cases heq : j = i
    · rw [heq, update_self]
      exact ⟨hi, rfl⟩
    · rw [update_of_ne heq]
      exact hcells j ((mem_cons.mp hj).resolve_left heq)
  intro j hj
  dsimp only
  by_cases heq : j = i
  · rw [heq, update_self]
    exact h.counted i hi
  · rw [update_of_ne heq]
    exact h.counted j hj

/-- An entry in use holds a live object with its handle and its type, or belongs to a client and is
of another type than `asked`. -/
def Holds (asked : Nat) (s : Tables O) (i : Nat) : Prop :=
  (s.serverObjects i = some .client ∧ (s.entries i).type ≠ asked) ∨
    ∃ o, s.serverObjects i = some (.object o) ∧
      s.objects o = some (entryToHandle i (s.entries i).generation, (s.entries i).type)

structure TablesInv (asked : Nat) (s : Tables O) : Prop extends Valid s where
  holds : ∀ i < s.nbHandles, (s.entries i).type ≠ 0 → Holds asked s i

variable {asked : Nat}

lemma TablesInv.freeEntry {i : Nat} (h : TablesInv asked s) (hi : i < s.nbHandles)
    (htype : (s.entries i).type ≠ 0) : TablesInv asked (freeUserEntry s i) := by
  refine ⟨freeUserEntry_valid h.toValid hi htype, fun j hj hused => ?_⟩
  have heq : j ≠ i := by
    rintro rfl
    simp [freeUserEntry] at hused
  have hentry : (freeUserEntry s i).entries j = s.entries j := update_of_ne heq _ _
  unfold Holds
  rw [hentry] at hused ⊢
  exact h.holds j hj hused

lemma freeRequest_inv (h : TablesInv asked s) (handle : UserHandle) (type : Nat) :
    TablesInv asked (freeRequest s handle type) := by
  unfold freeRequest
  cases hentry : handleToEntry s handle with
  | none => exact h
  | some i =>
    obtain ⟨_, hlt, hused, _⟩ := handleToEntry_eq_some.mp hentry
    dsimp only
    split
    · exact h.freeEntry hlt hused
    · exact h

lemma freeProcessEntries_inv {pid n i : Nat} (h : TablesInv asked s) (hle : i + n ≤ s.nbHandles) :
    TablesInv asked (freeProcessEntries pid n i s) := by
  induction n generalizing i s with
  | zero => exact h
  | succ n ih =>
    rw [freeProcessEntries]
    split
    · rename_i hclient
      apply ih
      · apply h.freeEntry (by omega)
        intro hzero
        rw [hzero] at hclient
        exact absurd hclient.1 (by decide)
      · change i + 1 + n ≤ s.nbHandles
        omega
    · exact ih h (by omega)

lemma allocUserHandle_spec {ptr : Pointer O} {offset pid type : Nat} (h : Valid s)
    (hroom : allocIndex s < maxUserHandles) :
    let s' := (allocUserHandle s ptr offset pid type).1
    Valid s' ∧ s'.objects = s.objects ∧ s'.serverObjects (allocIndex s) = some ptr ∧
      (s'.entries (allocIndex s)).type = type ∧
      (allocUserHandle s ptr offset pid type).2 =
        entryToHandle (allocIndex s) (s'.entries (allocIndex s)).generation ∧
      ∀ i < s'.nbHandles, i ≠ allocIndex s → i < s.nbHandles ∧ s'.entries i = s.entries i ∧
        s'.serverObjects i = s.serverObjects i := by
  have hvalid := @allocUserEntry_valid O s offset pid type h hroom
  refine ⟨⟨hvalid.1, hvalid.2, hvalid.3, hvalid.4⟩, rfl, update_self _ _ _, ?_, rfl, ?_⟩
  · unfold allocUserHandle allocUserEntry
    dsimp only
    rw [update_self]
  intro i hi hne
  refine ⟨?_, update_of_ne hne _ _, update_of_ne hne _ _⟩
  unfold allocUserHandle allocUserEntry at hi
  unfold allocIndex at hne
  dsimp only at hi
  split at hi
  · exact hi
  · rename_i hnil
    rw [if_neg hnil] at hne
    omega

lemma create_inv [DecidableEq O] {o : O} {offset pid type : Nat} (h : TablesInv asked s) (hnew : s.objects o = none)
    (hroom : allocIndex s < maxUserHandles) :
    let result := allocUserHandle s (.object o) offset pid type
    TablesInv asked { result.1 with
      objects := update result.1.objects o (some (result.2, type)) } := by
  obtain ⟨hvalid, hobjects, hptr, htype, hhandle, hothers⟩ :=
    @allocUserHandle_spec O s (.object o) offset pid type h.toValid hroom
  refine ⟨⟨hvalid.1, hvalid.2, hvalid.3, hvalid.4⟩, fun i hi hused => ?_⟩
  by_cases heq : i = allocIndex s
  · subst heq
    refine .inr ⟨o, hptr, ?_⟩
    dsimp only
    rw [update_self, hhandle, htype]
  obtain ⟨hlt, hentry, hserver⟩ := hothers i hi heq
  rw [hentry] at hused
  unfold Holds
  dsimp only
  rw [hentry, hserver, hobjects]
  obtain hclient | ⟨o', hptr', hobject⟩ := h.holds i hlt hused
  · exact .inl hclient
  refine .inr ⟨o', hptr', ?_⟩
  have hne : o' ≠ o := by
    rintro rfl
    rw [hnew] at hobject
    simp at hobject
  rw [update_of_ne hne]
  exact hobject

lemma allocRequest_inv {pid type : Nat} (h : TablesInv asked s) (hclient : type ≠ asked)
    (hroom : allocIndex s < maxUserHandles) : TablesInv asked (allocRequest s pid type).1 := by
  obtain ⟨hvalid, hobjects, hptr, htype, _, hothers⟩ :=
    @allocUserHandle_spec O s .client 0 pid type h.toValid hroom
  refine ⟨hvalid, fun i hi hused => ?_⟩
  by_cases heq : i = allocIndex s
  · subst heq
    refine .inl ⟨hptr, ?_⟩
    change ((allocUserHandle s .client 0 pid type).1.entries (allocIndex s)).type ≠ asked
    rw [htype]
    exact hclient
  obtain ⟨hlt, hentry, hserver⟩ := hothers i hi heq
  unfold Holds allocRequest
  rw [allocRequest, hentry] at hused
  rw [hentry, hserver, hobjects]
  exact h.holds i hlt hused

lemma TablesInv.handle_resolves {o : O} {type i : Nat} (h : TablesInv asked s)
    (hi : i < s.nbHandles) (hused : (s.entries i).type ≠ 0)
    (ho : s.objects o = some (entryToHandle i (s.entries i).generation, (s.entries i).type))
    (hhandle : s.objects o = some (handle, type)) : handleToEntry s handle = some i := by
  rw [ho] at hhandle
  obtain ⟨rfl, _⟩ := Prod.mk.inj (some.inj hhandle)
  have hmax := Nat.lt_of_lt_of_le hi h.bound
  have hgen := h.generation_lt hi
  apply handleToEntry_eq_some.mpr
  refine ⟨(handleIndex_entryToHandle hmax hgen).symm, hi, hused, .inr (.inr ?_)⟩
  exact handleGeneration_entryToHandle hmax hgen

lemma destroy_inv [DecidableEq O] {o : O} {type : Nat} (h : TablesInv asked s)
    (ho : s.objects o = some (handle, type)) :
    TablesInv asked { freeUserHandle s handle with objects := update s.objects o none } := by
  -- an entry that is still in use does not hold the object
  have hkeep : ∀ i < s.nbHandles, (s.entries i).type ≠ 0 → handleToEntry s handle ≠ some i →
      ∀ o', s.objects o' = some (entryToHandle i (s.entries i).generation, (s.entries i).type) →
        update s.objects o none o' = s.objects o' := by
    intro i hi hused hother o' ho'
    apply update_of_ne
    rintro rfl
    exact hother (h.handle_resolves hi hused ho' ho)
  unfold freeUserHandle
  cases hentry : handleToEntry s handle with
  | none =>
    refine ⟨⟨h.free, h.bound, h.counted, h.unused⟩, fun i hi hused => ?_⟩
    obtain hclient | ⟨o', hptr, ho'⟩ := h.holds i hi hused
    · exact .inl hclient
    · refine .inr ⟨o', hptr, ?_⟩
      exact (hkeep i hi hused (by simp [hentry]) o' ho').trans ho'
  | some j =>
    obtain ⟨_, hlt, htype, _⟩ := handleToEntry_eq_some.mp hentry
    have hvalid := freeUserEntry_valid h.toValid hlt htype
    refine ⟨⟨hvalid.free, hvalid.bound, hvalid.counted, hvalid.unused⟩, fun i hi hused => ?_⟩
    have hne : i ≠ j := by
      rintro rfl
      simp [freeUserEntry] at hused
    unfold Holds
    simp only [freeUserEntry, update_of_ne hne] at hused ⊢
    obtain hclient | ⟨o', hptr, ho'⟩ := h.holds i hi hused
    · exact .inl hclient
    refine .inr ⟨o', hptr, ?_⟩
    have hother : handleToEntry s handle ≠ some i := by
      rw [hentry]
      exact fun heq => hne (some.inj heq).symm
    exact (hkeep i hi hused hother o' ho').trans ho'

end WineForge.UserHandles
