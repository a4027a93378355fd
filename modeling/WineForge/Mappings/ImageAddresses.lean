import WineForge.Library.Apart
import WineForge.Library.Transition
import Mathlib.Data.Nat.Bitwise

/-!
# Addresses of image mappings

`assign_map_address` and `free_map_addr` of `mapping.c`. A free range is taken from at its upper
end and stays in the list when nothing is left of it.
-/

namespace WineForge.Mappings

open Library List

def granularityMask : Nat := 0xffff

/-- An entry of `struct addr_range`, or the range of a file descriptor. -/
structure AddrBlock where
  base : Nat
  size : Nat
  deriving DecidableEq

def AddrBlock.stop (b : AddrBlock) : Nat := b.base + b.size

/-- `struct addr_range`: `size` is the size of the array, and its `count` the length of the list. -/
structure AddrRange where
  size : Nat
  free : List AddrBlock

/-- What `assign_map_address` reads of a mapping. The size of an image has 32 bits. -/
structure Mapping (F : Type) where
  fd : F
  imageBase : Nat
  imageIsDll : Bool
  size : Nat
  size_lt : size < 2 ^ 32

def roundSize (size mask : Nat) : Nat := (size + mask) / (mask + 1) * (mask + 1)

/-- The loop of `assign_map_address`: the free ranges that are left, and the address. -/
def takeTop (size : Nat) : List AddrBlock → Option (List AddrBlock × Nat)
  | [] => none
  | b :: rest =>
    if b.size < size then (takeTop size rest).map fun p => (b :: p.1, p.2)
    else some (⟨b.base, b.size - size⟩ :: rest, b.base + (b.size - size))

/-- The loop of `free_map_addr`, and whether it leaves room to be made for a new range. -/
def putBack (base size : Nat) : List AddrBlock → List AddrBlock × Bool
  | [] => ([⟨base, size⟩], true)
  | b :: rest =>
    if base + size < b.base then (b :: (putBack base size rest).1, (putBack base size rest).2)
    else if b.base + b.size < base then (⟨base, size⟩ :: b :: rest, true)
    else if b.base = base + size then
      match rest with
      | below :: rest' =>
        if below.base + below.size = base then
          (⟨below.base, below.size + (size + b.size)⟩ :: rest', false)
        else (⟨base, b.size + size⟩ :: below :: rest', false)
      | [] => ([⟨base, b.size + size⟩], false)
    else (⟨b.base, b.size + size⟩ :: rest, false)

def MakesRoom (range : AddrRange) (base size : Nat) : Prop :=
  (putBack base size range.free).2 = true ∧ range.free.length = range.size

instance (range : AddrRange) (base size : Nat) : Decidable (MakesRoom range base size) :=
  inferInstanceAs (Decidable (_ ∧ _))

/-- `free_map_addr` in the list that the base selects; `enlarged` tells whether the array can be
reallocated. -/
def freeIn (range : AddrRange) (base size : Nat) (enlarged : Bool) : AddrRange :=
  if MakesRoom range base size then
    if enlarged then ⟨max 256 (range.size * 2), (putBack base size range.free).1⟩ else range
  else { range with free := (putBack base size range.free).1 }

/-- `ranges32` and `ranges64`, the file descriptors that have a mapping address, and the ranges
that were freed without being recorded. -/
structure Addresses (F : Type) where
  ranges32 : AddrRange
  ranges64 : AddrRange
  mapped : List (F × AddrBlock)
  lost : List AddrBlock

variable {F : Type} [DecidableEq F]

def Addresses.rangesOf (s : Addresses F) (base : Nat) : AddrRange :=
  if base >>> 32 ≠ 0 then s.ranges64 else s.ranges32

def Addresses.setRanges (s : Addresses F) (base : Nat) (range : AddrRange) : Addresses F :=
  if base >>> 32 ≠ 0 then { s with ranges64 := range } else { s with ranges32 := range }

def getFdMapAddress (s : Addresses F) (fd : F) : Nat :=
  match s.mapped.lookup fd with
  | some b => b.base
  | none => 0

def neededSize (mapping : Mapping F) : Nat :=
  roundSize mapping.size granularityMask + (granularityMask + 1)

def assignMapAddress (s : Addresses F) (mapping : Mapping F) : Addresses F × Nat :=
  if ¬mapping.imageIsDll then (s, 0)
  else if getFdMapAddress s mapping.fd ≠ 0 then (s, getFdMapAddress s mapping.fd)
  else
    match takeTop (neededSize mapping) (s.rangesOf mapping.imageBase).free with
    | some (free, ret) =>
      let s' := s.setRanges mapping.imageBase { s.rangesOf mapping.imageBase with free }
      ({ s' with mapped := (mapping.fd, ⟨ret, neededSize mapping⟩) :: s.mapped }, ret)
    | none => (s, 0)

def freeMapAddr (s : Addresses F) (base size : Nat) (enlarged : Bool) : Addresses F :=
  let s' := s.setRanges base (freeIn (s.rangesOf base) base size enlarged)
  if MakesRoom (s.rangesOf base) base size ∧ enlarged = false then
    { s' with lost := ⟨base, size⟩ :: s.lost }
  else s'

def fdDestroy (s : Addresses F) (fd : F) (enlarged : Bool) : Addresses F :=
  match s.mapped.lookup fd with
  | some b =>
    { freeMapAddr s b.base b.size enlarged with
      mapped := s.mapped.filter fun p => p.1 ≠ fd }
  | none => s

inductive AddressOp (F : Type)
  | assign (mapping : Mapping F)
  | destroy (fd : F) (enlarged : Bool)

def addressStep (s : Addresses F) : AddressOp F → Option (Addresses F)
  | .assign mapping => some (assignMapAddress s mapping).1
  | .destroy fd enlarged => some (fdDestroy s fd enlarged)

def initMemory (enlarged32 enlarged64 : Bool) : Addresses F :=
  freeMapAddr (freeMapAddr ⟨⟨0, []⟩, ⟨0, []⟩, [], []⟩ 0x60000000 0x1c000000 enlarged32)
    0x600000000000 0x100000000000 enlarged64

/-!
## Free and taken ranges of a region

What the two list operations do: a range is cut from the upper end of a free one, and a range is
put back with its neighbours merged into it. Both keep the region divided into free and taken
ranges.
-/

def Beside (b b' : AddrBlock) : Prop := b.stop ≤ b'.base ∨ b'.stop ≤ b.base

lemma Beside.symm {b b' : AddrBlock} (h : Beside b b') : Beside b' b := Or.symm h

abbrev addresses (blocks : List AddrBlock) : Set Nat :=
  covered AddrBlock.base AddrBlock.stop blocks

/-- The free ranges are sorted downwards with gaps between them, and together with the taken ones
they cover the region without overlaps. -/
structure Divided (lo hi : Nat) (free taken : List AddrBlock) : Prop where
  sorted : free.Pairwise fun b below => below.stop < b.base
  beside : ∀ b ∈ free, ∀ t ∈ taken, Beside b t
  disjoint : taken.Pairwise Beside
  nonempty : ∀ t ∈ taken, 0 < t.size
  covers : ∀ p, (lo ≤ p ∧ p < hi) ↔ p ∈ addresses free ∨ p ∈ addresses taken

variable {lo hi base size : Nat} {free free' taken taken' : List AddrBlock} {b t : AddrBlock}

lemma Divided.perm (h : Divided lo hi free taken) (hperm : taken.Perm taken') :
    Divided lo hi free taken' where
  sorted := h.sorted
  beside b hb t ht := h.beside b hb t (hperm.mem_iff.mpr ht)
  disjoint := (hperm.pairwise_iff fun hbeside => hbeside.symm).mp h.disjoint
  nonempty t ht := h.nonempty t (hperm.mem_iff.mpr ht)
  covers p := by
    have hsame : addresses taken = addresses taken' := covered_perm hperm
    rw [← hsame]
    exact h.covers p

lemma Divided.inside (h : Divided lo hi free taken) (ht : t ∈ taken) :
    lo ≤ t.base ∧ t.stop ≤ hi := by
  have hpos := h.nonempty t ht
  have hin : ∀ p, t.base ≤ p → p < t.stop → lo ≤ p ∧ p < hi :=
    fun p hle hlt => (h.covers p).mpr (.inr ⟨t, ht, hle, hlt⟩)
  have hfirst := hin t.base (le_refl _) (by unfold AddrBlock.stop; omega)
  have hlast := hin (t.stop - 1) (by unfold AddrBlock.stop; omega) (by unfold AddrBlock.stop; omega)
  omega

lemma takeTop_eq_some {ret : Nat} (h : takeTop size free = some (free', ret)) :
    ∃ before b after, free = before ++ b :: after ∧ size ≤ b.size ∧
      free' = before ++ ⟨b.base, b.size - size⟩ :: after ∧ ret = b.base + (b.size - size) := by
  induction free generalizing free' with
  | nil => exact absurd h (by simp [takeTop])
  | cons b rest ih =>
    rw [takeTop] at h
    split at h
    · obtain ⟨⟨rest', ret'⟩, hrest, heq⟩ := Option.map_eq_some_iff.mp h
      obtain ⟨rfl, rfl⟩ := Prod.mk.inj heq
      obtain ⟨before, b', after, rfl, hsize, rfl, hret⟩ := ih hrest
      exact ⟨b :: before, b', after, rfl, hsize, rfl, hret⟩
    · rename_i hsize
      obtain ⟨rfl, rfl⟩ := Prod.mk.inj (Option.some.inj h)
      exact ⟨[], b, rest, rfl, Nat.le_of_not_lt hsize, rfl, rfl⟩

lemma takeTop_eq_none (h : takeTop size free = none) : ∀ b ∈ free, b.size < size := by
  induction free with
  | nil => simp
  | cons b rest ih =>
    rw [takeTop] at h
    split at h
    · rename_i hsize
      exact forall_mem_cons.mpr ⟨hsize, ih (Option.map_eq_none_iff.mp h)⟩
    · simp at h

lemma Divided.cut {before after : List AddrBlock}
    (h : Divided lo hi (before ++ b :: after) taken) (hpos : 0 < size) (hsize : size ≤ b.size) :
    Divided lo hi (before ++ ⟨b.base, b.size - size⟩ :: after)
      (⟨b.base + (b.size - size), size⟩ :: taken) := by
  obtain ⟨hbefore, htail, hacross⟩ := pairwise_append.mp h.sorted
  obtain ⟨hbelow, hafter⟩ := pairwise_cons.mp htail
  have hb : b ∈ before ++ b :: after := mem_append_right before mem_cons_self
  have hstop : b.base + (b.size - size) + size = b.stop := by
    unfold AddrBlock.stop
    omega
  refine ⟨?_, ?_, ?_, ?_, ?_⟩
  · refine pairwise_append.mpr ⟨hbefore, pairwise_cons.mpr ⟨hbelow, hafter⟩, ?_⟩
    intro above habove b' hb'
    obtain rfl | hb' := mem_cons.mp hb'
    · have hlt := hacross above habove b mem_cons_self
      unfold AddrBlock.stop at *
      dsimp only
      omega
    · exact hacross above habove b' (mem_cons_of_mem b hb')
  · intro b' hb' t ht
    have hold : b' = ⟨b.base, b.size - size⟩ ∨ b' ∈ before ∨ b' ∈ after := by
      simpa [or_left_comm] using hb'
    obtain rfl | ht := mem_cons.mp ht
    · obtain rfl | hb' | hb' := hold
      · exact .inl (le_refl _)
      · refine .inr ?_
        have hlt := hacross b' hb' b mem_cons_self
        change b.base + (b.size - size) + size ≤ b'.base
        omega
      refine .inl ?_
      have hlt := hbelow b' hb'
      change b'.stop ≤ b.base + (b.size - size)
      omega
    obtain rfl | hb' | hb' := hold
    · obtain hle | hle := h.beside b hb t ht
      · refine .inl (le_trans ?_ hle)
        unfold AddrBlock.stop
        dsimp only
        omega
      · exact .inr hle
    · exact h.beside b' (mem_append_left _ hb') t ht
    · exact h.beside b' (mem_append_right _ (mem_cons_of_mem b hb')) t ht
  · refine pairwise_cons.mpr ⟨?_, h.disjoint⟩
    intro t ht
    obtain hle | hle := h.beside b hb t ht
    · refine .inl ?_
      change b.base + (b.size - size) + size ≤ t.base
      omega
    · refine .inr ?_
      change t.stop ≤ b.base + (b.size - size)
      omega
  · exact forall_mem_cons.mpr ⟨hpos, h.nonempty⟩
  · intro p
    rw [h.covers p]
    simp only [mem_covered_append, mem_covered_cons]
    have hsplit : (b.base ≤ p ∧ p < b.stop) ↔
        (b.base ≤ p ∧ p < b.base + (b.size - size)) ∨
          (b.base + (b.size - size) ≤ p ∧ p < b.base + (b.size - size) + size) := by
      omega
    rw [hsplit]
    tauto

/-- A stretch of the free ranges and a range that is put back become one range. -/
structure Joined (base size : Nat) (free free' : List AddrBlock)
    (before mid after : List AddrBlock) (m : AddrBlock) : Prop where
  old : free = before ++ mid ++ after
  new : free' = before ++ m :: after
  above : ∀ b ∈ before, m.stop < b.base
  below : ∀ b ∈ after, b.stop < m.base
  joins : ∀ p, (m.base ≤ p ∧ p < m.stop) ↔
    (base ≤ p ∧ p < base + size) ∨ p ∈ addresses mid

lemma Joined.cons {rest rest' before mid after : List AddrBlock} {m : AddrBlock}
    (h : Joined base size rest rest' before mid after m) (hpos : 0 < size)
    (hbelow : ∀ r ∈ rest, r.stop < b.base) (hb : base + size < b.base) :
    Joined base size (b :: rest) (b :: rest') (b :: before) mid after m := by
  obtain ⟨hold, hnew, habove, hafter, hjoins⟩ := h
  refine ⟨?_, ?_, forall_mem_cons.mpr ⟨?_, habove⟩, hafter, hjoins⟩
  · rw [hold]
    rfl
  · rw [hnew]
    rfl
  have hfirst := (hjoins base).mpr (.inl ⟨le_refl _, by omega⟩)
  obtain hlast | ⟨r, hr, hlo, hhi⟩ := (hjoins (m.stop - 1)).mp (by omega)
  · omega
  · have hlt := hbelow r (by rw [hold]; simp [hr])
    omega

/-- What `free_map_addr` does with the free ranges. -/
lemma putBack_joined (hpos : 0 < size) (hsorted : free.Pairwise fun b below => below.stop < b.base)
    (hbeside : ∀ b ∈ free, Beside b ⟨base, size⟩) :
    ∃ before mid after m, Joined base size free (putBack base size free).1 before mid after m := by
  induction free with
  | nil =>
    refine ⟨[], [], [], ⟨base, size⟩, rfl, rfl, by simp, by simp, ?_⟩
    intro p
    simp [AddrBlock.stop]
  | cons b rest ih =>
    obtain ⟨hbelow, hrest⟩ := pairwise_cons.mp hsorted
    obtain ⟨hb, hbrest⟩ := forall_mem_cons.mp hbeside
    by_cases hhigh : base + size < b.base
    · obtain ⟨before, mid, after, m, hjoined⟩ := ih hrest hbrest
      rw [putBack.eq_def]
      dsimp only
      rw [if_pos hhigh]
      exact ⟨_, _, _, _, hjoined.cons hpos hbelow hhigh⟩
    by_cases hlow : b.base + b.size < base
    · rw [putBack.eq_def]
      dsimp only
      rw [if_neg hhigh, if_pos hlow]
      refine ⟨[], [], b :: rest, ⟨base, size⟩, rfl, rfl, by simp, ?_, ?_⟩
      · refine forall_mem_cons.mpr ⟨hlow, fun r hr => ?_⟩
        have hlt := hbelow r hr
        dsimp only
        omega
      · intro p
        simp [AddrBlock.stop]
    by_cases hends : b.base = base + size
    · rw [putBack.eq_def]
      dsimp only
      rw [if_neg hhigh, if_neg hlow, if_pos hends]
      cases rest with
      | nil =>
        refine ⟨[], [b], [], ⟨base, b.size + size⟩, rfl, rfl, by simp, by simp, ?_⟩
        intro p
        rw [mem_covered_cons, covered_nil]
        unfold AddrBlock.stop
        simp only [Set.mem_empty_iff_false, or_false]
        omega
      | cons below rest' =>
        have hbelowlt := hbelow below mem_cons_self
        have hbelowle : below.base ≤ below.stop := Nat.le_add_right _ _
        obtain ⟨hrest', _⟩ := pairwise_cons.mp hrest
        dsimp only
        by_cases hmeets : below.base + below.size = base
        · rw [if_pos hmeets]
          refine ⟨[], [b, below], rest', ⟨below.base, below.size + (size + b.size)⟩, rfl, rfl,
            by simp, hrest', ?_⟩
          intro p
          rw [mem_covered_cons, mem_covered_cons, covered_nil]
          unfold AddrBlock.stop
          simp only [Set.mem_empty_iff_false, or_false]
          omega
        rw [if_neg hmeets]
        have hbesidebelow := hbrest below mem_cons_self
        change below.stop ≤ base ∨ base + size ≤ below.base at hbesidebelow
        have hmeets : below.stop ≠ base := hmeets
        refine ⟨[], [b], below :: rest', ⟨base, b.size + size⟩, rfl, rfl, by simp, ?_, ?_⟩
        · refine forall_mem_cons.mpr ⟨?_, fun r hr => ?_⟩
          · dsimp only
            omega
          · have hlt := hrest' r hr
            dsimp only
            omega
        intro p
        rw [mem_covered_cons, covered_nil]
        unfold AddrBlock.stop
        simp only [Set.mem_empty_iff_false, or_false]
        omega
    · rw [putBack.eq_def]
      dsimp only
      rw [if_neg hhigh, if_neg hlow, if_neg hends]
      change b.stop ≤ base ∨ base + size ≤ b.base at hb
      refine ⟨[], [b], rest, ⟨b.base, b.size + size⟩, rfl, rfl, by simp, hbelow, ?_⟩
      intro p
      rw [mem_covered_cons, covered_nil]
      unfold AddrBlock.stop at *
      simp only [Set.mem_empty_iff_false, or_false]
      omega

lemma Divided.putBack (h : Divided lo hi free (⟨base, size⟩ :: taken)) :
    Divided lo hi (putBack base size free).1 taken := by
  obtain ⟨hpos, hnonempty⟩ := forall_mem_cons.mp h.nonempty
  have hpos : 0 < size := hpos
  obtain ⟨hbesideblock, hdisjoint⟩ := pairwise_cons.mp h.disjoint
  have hbeside : ∀ b ∈ free, Beside b ⟨base, size⟩ :=
    fun b hb => h.beside b hb _ mem_cons_self
  obtain ⟨before, mid, after, m, rfl, hnew, habove, hbelow, hjoins⟩ :=
    putBack_joined hpos h.sorted hbeside
  rw [hnew]
  refine ⟨?_, ?_, hdisjoint, hnonempty, ?_⟩
  · have hold := h.sorted.sublist (sublist_append_left before mid |>.append_right after)
    obtain ⟨hbefore, hafter, hacross⟩ := pairwise_append.mp hold
    refine pairwise_append.mpr ⟨hbefore, pairwise_cons.mpr ⟨hbelow, hafter⟩, ?_⟩
    intro b hb b' hb'
    obtain rfl | hb' := mem_cons.mp hb'
    · exact habove b hb
    · exact hacross b hb b' hb'
  · intro b hb t ht
    have hmem : b = m ∨ b ∈ before ∨ b ∈ after := by
      simpa [or_left_comm] using hb
    have hold : ∀ b ∈ before ++ mid ++ after, Beside b t :=
      fun b hb => h.beside b hb t (mem_cons_of_mem _ ht)
    obtain rfl | hb | hb := hmem
    · have htpos := hnonempty t ht
      have hblock : base + size ≤ t.base ∨ t.stop ≤ base := hbesideblock t ht
      -- a common point of the joined range and `t` would be one of `t` and a joined part
      have hnone : ∀ p, b.base ≤ p → p < b.stop → t.base ≤ p → p < t.stop → False := by
        intro p hlo hhi htlo hthi
        obtain hin | ⟨r, hr, hrlo, hrhi⟩ := (hjoins p).mp ⟨hlo, hhi⟩
        · omega
        · have hr := hold r (by simp [hr])
          unfold Beside at hr
          omega
      have hfirst := (hjoins base).mpr (.inl ⟨le_refl _, by omega⟩)
      have hlo : ¬(b.base < b.stop ∧ t.base ≤ b.base ∧ b.base < t.stop) :=
        fun hp => hnone b.base (le_refl _) hp.1 hp.2.1 hp.2.2
      have hto : ¬(b.base ≤ t.base ∧ t.base < b.stop ∧ t.base < t.stop) :=
        fun hp => hnone t.base hp.1 hp.2.1 (le_refl _) hp.2.2
      unfold Beside
      unfold AddrBlock.stop at *
      omega
    · exact hold b (by simp [hb])
    · exact hold b (by simp [hb])
  · intro p
    rw [h.covers p]
    simp only [mem_covered_append, mem_covered_cons, hjoins p]
    tauto

end WineForge.Mappings
