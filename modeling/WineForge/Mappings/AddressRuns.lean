import WineForge.Mappings.ImageAddresses
import Mathlib.Data.List.Nodup

/-!
# Runs of the image address allocator

In every run, each of the two regions stays divided into the ranges of file descriptors, the free
ranges and those that were lost.
-/

namespace WineForge.Mappings

open Library List

variable {F : Type} [DecidableEq F] {s s' : Addresses F} {b : AddrBlock}

def isHigh (base : Nat) : Bool := base >>> 32 ≠ 0

def Addresses.list (s : Addresses F) (high : Bool) : AddrRange :=
  if high then s.ranges64 else s.ranges32

def regionBase (high : Bool) : Nat := if high then 0x600000000000 else 0x60000000

def regionStop (high : Bool) : Nat := if high then 0x700000000000 else 0x7c000000

/-- The ranges of a region that are not free: those of file descriptors and the lost ones. -/
def Addresses.taken (s : Addresses F) (high : Bool) : List AddrBlock :=
  (s.mapped.map Prod.snd ++ s.lost).filter fun b => isHigh b.base = high

structure AddressInv (s : Addresses F) : Prop where
  divided : ∀ high, Divided (regionBase high) (regionStop high) (s.list high).free (s.taken high)
  nodup : (s.mapped.map Prod.fst).Nodup

omit [DecidableEq F] in
lemma rangesOf_eq (s : Addresses F) (base : Nat) : s.rangesOf base = s.list (isHigh base) := by
  unfold Addresses.rangesOf Addresses.list isHigh
  by_cases h : base >>> 32 ≠ 0
  · simp [h]
  · simp [h]

omit [DecidableEq F] in
lemma setRanges_list (s : Addresses F) (base : Nat) (range : AddrRange) (high : Bool) :
    (s.setRanges base range).list high = if isHigh base = high then range else s.list high := by
  unfold Addresses.setRanges Addresses.list isHigh
  by_cases h : base >>> 32 ≠ 0
  · cases high with
    | false => simp [h]
    | true => simp [h]
  · cases high with
    | false => simp [h]
    | true => simp [h]

omit [DecidableEq F] in
lemma setRanges_mapped (s : Addresses F) (base : Nat) (range : AddrRange) :
    (s.setRanges base range).mapped = s.mapped ∧ (s.setRanges base range).lost = s.lost := by
  unfold Addresses.setRanges
  split
  · exact ⟨rfl, rfl⟩
  · exact ⟨rfl, rfl⟩

lemma isHigh_of_inside {high : Bool} {p : Nat} (hlo : regionBase high ≤ p)
    (hhi : p < regionStop high) : isHigh p = high := by
  unfold isHigh regionBase regionStop at *
  rw [Nat.shiftRight_eq_div_pow]
  cases high with
  | false =>
    have hzero : p / 2 ^ 32 = 0 := by
      simp only [Bool.false_eq_true, if_false] at hlo hhi
      omega
    exact decide_eq_false (not_not.mpr hzero)
  | true =>
    have hpos : p / 2 ^ 32 ≠ 0 := by
      simp only [if_true] at hlo hhi
      omega
    exact decide_eq_true hpos

omit [DecidableEq F] in
lemma AddressInv.inside (h : AddressInv s) (hb : b ∈ s.mapped.map Prod.snd ++ s.lost) :
    regionBase (isHigh b.base) ≤ b.base ∧ b.stop ≤ regionStop (isHigh b.base) := by
  apply (h.divided (isHigh b.base)).inside
  exact mem_filter.mpr ⟨hb, by simp⟩

omit [DecidableEq F] in
lemma regionBase_pos (high : Bool) : 0 < regionBase high := by
  unfold regionBase
  split
  · omega
  · omega

omit [DecidableEq F] in
lemma neededSize_spec (mapping : Mapping F) : mapping.size + 0x10000 ≤ neededSize mapping := by
  unfold neededSize roundSize granularityMask
  omega

lemma AddressInv.unmapped {fd : F} (h : AddressInv s) (hfd : getFdMapAddress s fd = 0) :
    fd ∉ s.mapped.map Prod.fst := by
  unfold getFdMapAddress at hfd
  cases hlookup : s.mapped.lookup fd with
  | some b =>
    rw [hlookup] at hfd
    obtain ⟨front, back, heq, _⟩ := lookup_eq_some_iff.mp hlookup
    have hmem : b ∈ s.mapped.map Prod.snd ++ s.lost := by
      rw [heq]
      simp
    have hlo := (h.inside hmem).1
    have hpos := regionBase_pos (isHigh b.base)
    dsimp only at hfd
    omega
  | none =>
    intro hmem
    obtain ⟨p, hp, rfl⟩ := mem_map.mp hmem
    have hne := lookup_eq_none_iff.mp hlookup p hp
    simp at hne

lemma AddressInv.assign {mapping : Mapping F} {free : List AddrBlock} {ret : Nat}
    (h : AddressInv s) (hfd : getFdMapAddress s mapping.fd = 0)
    (htake : takeTop (neededSize mapping) (s.rangesOf mapping.imageBase).free = some (free, ret)) :
    AddressInv
      { s.setRanges mapping.imageBase { s.rangesOf mapping.imageBase with free } with
        mapped := (mapping.fd, ⟨ret, neededSize mapping⟩) :: s.mapped } ∧ ret ≠ 0 := by
  have hsize := neededSize_spec mapping
  obtain ⟨before, b, after, hold, hle, rfl, hret⟩ := takeTop_eq_some htake
  have hcut := h.divided (isHigh mapping.imageBase)
  rw [← rangesOf_eq, hold] at hcut
  have hcut := hcut.cut (by omega) hle
  rw [← hret] at hcut
  obtain ⟨hlo, hhi⟩ := hcut.inside mem_cons_self
  have hlo : regionBase (isHigh mapping.imageBase) ≤ ret := hlo
  have hhi : ret + neededSize mapping ≤ regionStop (isHigh mapping.imageBase) := hhi
  have hhigh : isHigh ret = isHigh mapping.imageBase := isHigh_of_inside hlo (by omega)
  have hpos := regionBase_pos (isHigh mapping.imageBase)
  refine ⟨⟨?_, nodup_cons.mpr ⟨h.unmapped hfd, h.nodup⟩⟩, by omega⟩
  intro high
  have hlist := setRanges_list s mapping.imageBase
    { s.rangesOf mapping.imageBase with
      free := before ++ ⟨b.base, b.size - neededSize mapping⟩ :: after } high
  have hlost := (setRanges_mapped s mapping.imageBase
    { s.rangesOf mapping.imageBase with
      free := before ++ ⟨b.base, b.size - neededSize mapping⟩ :: after }).2
  change Divided _ _ ((s.setRanges _ _).list high).free
    (((⟨ret, neededSize mapping⟩ :: s.mapped.map Prod.snd) ++ (s.setRanges _ _).lost).filter _)
  rw [hlist, hlost, cons_append, filter_cons]
  rw [hhigh]
  by_cases heq : isHigh mapping.imageBase = high
  · subst heq
    rw [if_pos rfl, if_pos (decide_eq_true rfl)]
    exact hcut
  · rw [if_neg heq, if_neg (by simp [heq])]
    exact h.divided high

lemma AddressInv.lookup {fd : F} (h : AddressInv s) (hlookup : s.mapped.lookup fd = some b) :
    s.mapped.Perm ((fd, b) :: s.mapped.filter fun p => p.1 ≠ fd) := by
  obtain ⟨front, back, heq, _⟩ := lookup_eq_some_iff.mp hlookup
  have hnodup := h.nodup
  rw [heq] at hnodup ⊢
  rw [map_append, map_cons, nodup_middle] at hnodup
  obtain ⟨hnew, _⟩ := nodup_cons.mp hnodup
  have hkeep : ∀ p ∈ front ++ back, decide (p.1 ≠ fd) = true := by
    intro p hp
    refine decide_eq_true ?_
    rintro rfl
    rw [← map_append] at hnew
    exact hnew (mem_map.mpr ⟨p, hp, rfl⟩)
  rw [filter_append, filter_cons_of_neg (by simp), ← filter_append, filter_eq_self.mpr hkeep]
  exact perm_middle

lemma AddressInv.destroy {fd : F} {enlarged : Bool} (h : AddressInv s)
    (hlookup : s.mapped.lookup fd = some b) :
    AddressInv
      { freeMapAddr s b.base b.size enlarged with
        mapped := s.mapped.filter fun p => p.1 ≠ fd } := by
  have hperm := h.lookup hlookup
  have hnodup := (hperm.map Prod.fst).nodup_iff.mp h.nodup
  refine ⟨fun high => ?_, (nodup_cons.mp hnodup).2⟩
  have htaken : (s.taken high).Perm
      ((b :: ((s.mapped.filter fun p => p.1 ≠ fd).map Prod.snd ++ s.lost)).filter
        fun b => isHigh b.base = high) :=
    ((hperm.map Prod.snd).append_right s.lost).filter _
  have hdivided := (h.divided high).perm htaken
  have hlist := setRanges_list s b.base (freeIn (s.rangesOf b.base) b.base b.size enlarged) high
  have hlost := (setRanges_mapped s b.base (freeIn (s.rangesOf b.base) b.base b.size enlarged)).2
  unfold freeMapAddr
  by_cases hrefused : MakesRoom (s.rangesOf b.base) b.base b.size ∧ enlarged = false
  · have hsame : freeIn (s.rangesOf b.base) b.base b.size enlarged = s.rangesOf b.base := by
      unfold freeIn
      rw [if_pos hrefused.1, hrefused.2]
      rfl
    rw [if_pos hrefused]
    change Divided _ _ ((s.setRanges _ _).list high).free
      (((s.mapped.filter _).map Prod.snd ++ b :: s.lost).filter _)
    rw [hlist, hsame, rangesOf_eq]
    have hfree : (if isHigh b.base = high then s.list (isHigh b.base) else s.list high) =
        s.list high := by
      split
      · rename_i heq
        rw [heq]
      · rfl
    rw [hfree]
    exact hdivided.perm (perm_middle.symm.filter _)
  · rw [if_neg hrefused]
    change Divided _ _ ((s.setRanges _ _).list high).free
      (((s.mapped.filter _).map Prod.snd ++ (s.setRanges _ _).lost).filter _)
    rw [hlist, hlost]
    rw [filter_cons] at hdivided
    by_cases heq : isHigh b.base = high
    · have hput : (freeIn (s.rangesOf b.base) b.base b.size enlarged).free =
          (putBack b.base b.size (s.list high).free).1 := by
        rw [← heq, ← rangesOf_eq]
        unfold freeIn
        split
        · rename_i hroom
          rw [if_pos]
          by_contra hfalse
          exact hrefused ⟨hroom, Bool.eq_false_of_not_eq_true hfalse⟩
        · rfl
      rw [if_pos heq, hput]
      rw [if_pos (decide_eq_true heq)] at hdivided
      exact hdivided.putBack
    · rw [if_neg heq]
      rw [if_neg (by simp [heq])] at hdivided
      exact hdivided

lemma assignMapAddress_cases (s : Addresses F) (mapping : Mapping F) :
    (assignMapAddress s mapping = (s, 0) ∧ (mapping.imageIsDll = true →
      takeTop (neededSize mapping) (s.rangesOf mapping.imageBase).free = none)) ∨
    (getFdMapAddress s mapping.fd ≠ 0 ∧
      assignMapAddress s mapping = (s, getFdMapAddress s mapping.fd)) ∨
    ∃ free ret, getFdMapAddress s mapping.fd = 0 ∧
      takeTop (neededSize mapping) (s.rangesOf mapping.imageBase).free = some (free, ret) ∧
      assignMapAddress s mapping =
        ({ s.setRanges mapping.imageBase { s.rangesOf mapping.imageBase with free } with
          mapped := (mapping.fd, ⟨ret, neededSize mapping⟩) :: s.mapped }, ret) := by
  unfold assignMapAddress
  split
  · rename_i hdll
    exact .inl ⟨rfl, fun h => absurd h hdll⟩
  split
  · rename_i hfd
    exact .inr (.inl ⟨hfd, rfl⟩)
  rename_i hfd
  cases htake : takeTop (neededSize mapping) (s.rangesOf mapping.imageBase).free with
  | none => exact .inl ⟨rfl, fun _ => rfl⟩
  | some p => exact .inr (.inr ⟨p.1, p.2, not_not.mp hfd, rfl, rfl⟩)

lemma addressStep_inv {op : AddressOp F} (h : AddressInv s) (hstep : addressStep s op = some s') :
    AddressInv s' := by
  cases op with
  | assign mapping =>
    rw [← Option.some.inj hstep]
    obtain ⟨heq, _⟩ | ⟨_, heq⟩ | ⟨free, ret, hfd, htake, heq⟩ := assignMapAddress_cases s mapping
    · rw [heq]
      exact h
    · rw [heq]
      exact h
    · rw [heq]
      exact (h.assign hfd htake).1
  | destroy fd enlarged =>
    rw [← Option.some.inj hstep, fdDestroy]
    cases hlookup : s.mapped.lookup fd with
    | none => exact h
    | some b => exact h.destroy hlookup

lemma divided_free (lo : Nat) {size : Nat} (hpos : 0 < size) :
    Divided lo (lo + size) [⟨lo, size⟩] [] ∧ Divided lo (lo + size) [] [⟨lo, size⟩] := by
  constructor
  · refine ⟨pairwise_singleton _ _, by simp, List.Pairwise.nil, by simp, ?_⟩
    intro p
    simp [AddrBlock.stop]
  · refine ⟨List.Pairwise.nil, by simp, pairwise_singleton _ _, by simpa using hpos, ?_⟩
    intro p
    simp [AddrBlock.stop]

omit [DecidableEq F] in
lemma initMemory_inv (enlarged32 enlarged64 : Bool) :
    AddressInv (@initMemory F enlarged32 enlarged64) := by
  obtain ⟨hfree32, htaken32⟩ := @divided_free 0x60000000 0x1c000000 (by decide)
  obtain ⟨hfree64, htaken64⟩ :=
    @divided_free 0x600000000000 0x100000000000 (by decide)
  have hmapped : (@initMemory F enlarged32 enlarged64).mapped = [] := by
    cases enlarged32 <;> cases enlarged64 <;> rfl
  refine ⟨fun high => ?_, hmapped ▸ nodup_nil⟩
  cases enlarged32 with
  | false =>
    cases enlarged64 with
    | false =>
      cases high with
      | false => exact htaken32
      | true => exact htaken64
    | true =>
      cases high with
      | false => exact htaken32
      | true => exact hfree64
  | true =>
    cases enlarged64 with
    | false =>
      cases high with
      | false => exact hfree32
      | true => exact htaken64
    | true =>
      cases high with
      | false => exact hfree32
      | true => exact hfree64

lemma lost_only {fd : F} {enlarged : Bool} (hne : (fdDestroy s fd enlarged).lost ≠ s.lost) :
    enlarged = false ∧ ∃ b, s.mapped.lookup fd = some b ∧
      (s.rangesOf b.base).free.length = (s.rangesOf b.base).size := by
  unfold fdDestroy at hne
  cases hlookup : s.mapped.lookup fd with
  | none =>
    rw [hlookup] at hne
    exact absurd rfl hne
  | some b =>
    rw [hlookup] at hne
    have hlost := (setRanges_mapped s b.base (freeIn (s.rangesOf b.base) b.base b.size enlarged)).2
    unfold freeMapAddr at hne
    dsimp only at hne
    split at hne
    · rename_i hrefused
      exact ⟨hrefused.2, b, rfl, hrefused.1.2⟩
    · exact absurd hlost hne

/-- The states that `init_memory` leaves. -/
def MemoryInit (s : Addresses F) : Prop :=
  ∃ enlarged32 enlarged64, s = initMemory enlarged32 enlarged64

/-- The two regions stay divided into the ranges of file descriptors, the free ranges and the lost
ones; a mapping gets no address only if it is not a library or no free range is large enough. -/
theorem image_addresses_divided (s : Addresses F) (hs : Reachable addressStep MemoryInit s) :
    (∀ high, Divided (regionBase high) (regionStop high) (s.list high).free (s.taken high)) ∧
    (s.mapped.map Prod.fst).Nodup ∧
    (∀ b ∈ s.mapped.map Prod.snd,
      regionBase (isHigh b.base) ≤ b.base ∧ b.stop ≤ regionStop (isHigh b.base)) ∧
    (∀ mapping : Mapping F, mapping.imageIsDll = true → (assignMapAddress s mapping).2 = 0 →
      ∀ b ∈ (s.rangesOf mapping.imageBase).free, b.size < neededSize mapping) ∧
    (∀ mapping : Mapping F, getFdMapAddress s mapping.fd = 0 →
      (assignMapAddress s mapping).2 ≠ 0 →
      (assignMapAddress s mapping).1.mapped =
        (mapping.fd, ⟨(assignMapAddress s mapping).2, neededSize mapping⟩) :: s.mapped ∧
        mapping.size + 0x10000 ≤ neededSize mapping) ∧
    ∀ fd enlarged, (fdDestroy s fd enlarged).lost ≠ s.lost → enlarged = false ∧
      ∃ b, s.mapped.lookup fd = some b ∧
        (s.rangesOf b.base).free.length = (s.rangesOf b.base).size := by
  have hinv : AddressInv s := by
    refine hs.invariant (P := AddressInv) ?_ fun s op s' h _ hstep => addressStep_inv h hstep
    rintro s ⟨enlarged32, enlarged64, rfl⟩
    exact initMemory_inv enlarged32 enlarged64
  refine ⟨hinv.divided, hinv.nodup, ?_, ?_, ?_, fun fd enlarged => lost_only⟩
  · intro b hb
    exact hinv.inside (mem_append_left _ hb)
  · intro mapping hdll hzero
    obtain ⟨_, hnone⟩ | ⟨hne, heq⟩ | ⟨free, ret, hfd, htake, heq⟩ :=
      assignMapAddress_cases s mapping
    · exact takeTop_eq_none (hnone hdll)
    · rw [heq] at hzero
      exact absurd hzero hne
    · rw [heq] at hzero
      exact absurd hzero (hinv.assign hfd htake).2
  · intro mapping hfd hne
    obtain ⟨heq, _⟩ | ⟨hmapped, _⟩ | ⟨free, ret, _, _, heq⟩ := assignMapAddress_cases s mapping
    · rw [heq] at hne
      exact absurd rfl hne
    · exact absurd hfd hmapped
    · rw [heq]
      exact ⟨rfl, neededSize_spec mapping⟩

def smallLibrary (fd : Nat) : Mapping Nat := ⟨fd, 0x10000000, true, 0x3000, by decide⟩

def twoLibraries : List (AddressOp Nat) :=
  [.assign (smallLibrary 1), .assign (smallLibrary 2), .destroy 1 true]

theorem image_addresses_divided_two :
    ∃ s, run addressStep (initMemory true true) twoLibraries = some s ∧
      s.ranges32.free = [⟨0x7bfe0000, 0x20000⟩, ⟨0x60000000, 0x1bfc0000⟩] ∧
      Divided 0x60000000 0x7c000000 s.ranges32.free (s.taken false) := by
  have hrun : (run addressStep (initMemory true true) twoLibraries).map (·.ranges32.free) =
      some [⟨0x7bfe0000, 0x20000⟩, ⟨0x60000000, 0x1bfc0000⟩] := by decide
  obtain ⟨s, hs, hfree⟩ := Option.map_eq_some_iff.mp hrun
  have hreach : Reachable addressStep (@MemoryInit Nat) s :=
    reachable_of_run (.start ⟨true, true, rfl⟩) twoLibraries hs
  exact ⟨s, hs, hfree, (image_addresses_divided s hreach).1 false⟩

def largeLibrary (fd : Nat) : Mapping Nat := ⟨fd, 0x10000000, true, 0x500000, by decide⟩

/-- Mappings of one file descriptor share an address, so the larger one reaches into the range of
another file, and a range that cannot be recorded is in no list. -/
theorem shared_address_or_lost : (∃ s, run addressStep (initMemory true true)
        [.assign (smallLibrary 1), .assign (smallLibrary 2)] = some s ∧
      (assignMapAddress s (smallLibrary 2)).2 = 0x7bfc0000 ∧
      (assignMapAddress s (largeLibrary 2)).2 = 0x7bfc0000 ∧
      (assignMapAddress s (smallLibrary 1)).2 = 0x7bfe0000 ∧
      0x7bfe0000 < 0x7bfc0000 + (largeLibrary 2).size) ∧
    ∃ s, Reachable addressStep (@MemoryInit Nat) s ∧ s.mapped = [] ∧
      0x60000000 ∉ addresses (s.list false).free := by
  refine ⟨⟨_, rfl, by decide, by decide, by decide, by decide⟩, initMemory false true, ?_, rfl, ?_⟩
  · exact .start ⟨false, true, rfl⟩
  · intro hmem
    obtain ⟨b, hb, _⟩ := hmem
    exact absurd hb not_mem_nil

end WineForge.Mappings
