import WineForge.Memory.Areas

/-!
# Space in the reserved areas

The search takes the first reserved area that it takes for one with room. With a large alignment
or a limit inside an area it may take one without.
-/

namespace WineForge.Memory

open Library

/-- A table whose areas cover the address space in order. -/
structure MemAreas.WellFormed (areas : MemAreas) : Prop where
  length : 2 ≤ areas.length
  first : areas.base 0 = 0
  increasing : ∀ pos, pos + 1 < areas.length → areas.base pos < areas.base (pos + 1)
  last : areas.base (areas.length - 1) = 2 ^ 64 - 0x100

/-- What `map_view` passes: addresses of the user space, a power of two from the granularity on as
the alignment, and a size that is rounded to pages. -/
structure Request.Valid (req : Request) : Prop where
  align : ∃ k, 16 ≤ k ∧ k < 64 ∧ req.alignMask = 2 ^ k - 1
  page : ∃ k, 12 ≤ k ∧ k ≤ 16 ∧ req.hostPageMask = 2 ^ k - 1
  size_pos : 0 < req.size
  size_dvd : req.hostPageMask + 1 ∣ req.size
  size_lt : req.size < 2 ^ 64
  limitLow_pos : 0 < req.limitLow
  limits : req.limitLow < req.limitHigh
  limitHigh_le : req.limitHigh ≤ 2 ^ 63

def InReserved (areas : MemAreas) (addr : Nat) : Prop :=
  ∃ pos, pos + 1 < areas.length ∧ areas.state pos = .reserved ∧ areas.base pos ≤ addr ∧
    addr < areas.stop pos

def Fits (areas : MemAreas) (req : Request) (ptr : Nat) : Prop :=
  req.alignMask + 1 ∣ ptr ∧ req.limitLow ≤ ptr ∧ ptr + req.size ≤ req.limitHigh ∧
    ∀ addr, ptr ≤ addr → addr < ptr + req.size → InReserved areas addr

def RangeIn (areas : MemAreas) (req : Request) (pos ptr : Nat) : Prop :=
  pos + 1 < areas.length ∧ areas.state pos = .reserved ∧ req.alignMask + 1 ∣ ptr ∧
    req.limitLow ≤ ptr ∧ ptr + req.size ≤ req.limitHigh ∧ areas.base pos ≤ ptr ∧
    ptr + req.size ≤ areas.stop pos

def Room (areas : MemAreas) (req : Request) (pos : Nat) : Prop := ∃ ptr, RangeIn areas req pos ptr

def Request.start (req : Request) (areas : MemAreas) (pos : Nat) : Nat :=
  alignUp (req.alignMask + 1) (if req.topDown then areas.base pos else max (areas.base pos) req.low)

def Request.stop (req : Request) (areas : MemAreas) (pos : Nat) : Nat :=
  min req.high (areas.stop pos)

def Request.position (req : Request) (areas : MemAreas) (pos : Nat) : Nat :=
  if req.topDown then alignDown (req.alignMask + 1) (ptrDiff (req.stop areas pos) req.size)
  else req.start areas pos

def Searched (areas : MemAreas) (req : Request) (pos : Nat) : Prop :=
  pos + 1 < areas.length ∧ areas.state pos = .reserved ∧ req.low < req.stop areas pos ∧
    (if req.topDown then areas.base pos ≤ req.high else areas.base pos < req.high)

/-- The search takes the area for one with room although its start is rounded up past its end, or
although only a range below the limit fits at its end. -/
def Misjudged (areas : MemAreas) (req : Request) (pos : Nat) : Prop :=
  Searched areas req pos ∧
    (req.stop areas pos < req.start areas pos ∧
        req.start areas pos + req.size ≤ req.stop areas pos + 2 ^ 64 ∨
      req.topDown = true ∧ req.start areas pos + req.size ≤ req.stop areas pos ∧
        alignDown (req.alignMask + 1) (req.stop areas pos - req.size) < req.limitLow)

def Before (req : Request) (pos pos' : Nat) : Prop :=
  if req.topDown then pos' < pos else pos < pos'

variable {areas : MemAreas} {req : Request} {pos ptr : Nat}

lemma MemAreas.WellFormed.toIncreasing (h : areas.WellFormed) : areas.Increasing :=
  ⟨h.length, h.first, h.increasing⟩

lemma findMemArea_spec (h : areas.WellFormed) {addr : Nat} (haddr : addr < 2 ^ 64 - 0x100) :
    findMemArea areas addr + 1 < areas.length ∧ areas.base (findMemArea areas addr) ≤ addr ∧
      addr < areas.stop (findMemArea areas addr) := by
  obtain ⟨hlen, hle, habove⟩ := findMemArea_last h.toIncreasing addr
  have hnext : findMemArea areas addr + 1 < areas.length := by
    by_contra hlast
    have heq : findMemArea areas addr = areas.length - 1 := by omega
    rw [heq, h.last] at hle
    omega
  exact ⟨hnext, hle, habove _ (Nat.lt_succ_self _) hnext⟩

lemma Request.align_pos (req : Request) : 0 < req.alignMask + 1 := Nat.succ_pos _

section

variable (h : req.Valid)

include h

lemma Request.Valid.align_dvd : req.alignMask + 1 ∣ 2 ^ 63 := by
  obtain ⟨k, _, hk, hmask⟩ := h.align
  have hone := Nat.one_le_two_pow (n := k)
  have heq : req.alignMask + 1 = 2 ^ k := by omega
  rw [heq]
  exact Nat.pow_dvd_pow 2 (by omega)

lemma Request.Valid.align_le : req.alignMask + 1 ≤ 2 ^ 63 :=
  Nat.le_of_dvd (by decide) h.align_dvd

lemma Request.Valid.page_dvd : req.hostPageMask + 1 ∣ req.alignMask + 1 := by
  obtain ⟨k, hk, _, hmask⟩ := h.align
  obtain ⟨j, _, hj, hpage⟩ := h.page
  have hone := Nat.one_le_two_pow (n := k)
  have hone' := Nat.one_le_two_pow (n := j)
  have heq : req.alignMask + 1 = 2 ^ k := by omega
  have heq' : req.hostPageMask + 1 = 2 ^ j := by omega
  rw [heq, heq']
  exact Nat.pow_dvd_pow 2 (by omega)

lemma Request.Valid.roundAddr_align {addr : Nat} (haddr : addr < 2 ^ 64) :
    roundAddr addr req.alignMask = alignDown (req.alignMask + 1) addr := by
  obtain ⟨k, _, hk, hmask⟩ := h.align
  have hone := Nat.one_le_two_pow (n := k)
  have heq : req.alignMask + 1 = 2 ^ k := by omega
  rw [roundAddr, heq, hmask]
  exact and_mask haddr (Nat.le_of_lt hk)

lemma Request.Valid.roundUp_align {addr : Nat} (haddr : addr ≤ 2 ^ 63) :
    roundAddr ((addr + req.alignMask) % 2 ^ 64) req.alignMask = alignUp (req.alignMask + 1) addr := by
  have hle := h.align_le
  have hlt : addr + req.alignMask < 2 ^ 64 := by omega
  rw [Nat.mod_eq_of_lt hlt, h.roundAddr_align hlt]
  rfl

lemma Request.Valid.low_eq : req.low = alignUp (req.alignMask + 1) req.limitLow := by
  have hle : req.limitLow ≤ 2 ^ 63 := (Nat.le_of_lt h.limits).trans h.limitHigh_le
  rw [Request.low, roundSize, Nat.zero_and, Nat.add_zero]
  exact h.roundUp_align hle

lemma Request.Valid.high_eq : req.high = alignDown (req.hostPageMask + 1) req.limitHigh := by
  obtain ⟨k, _, hk, hmask⟩ := h.page
  have hone := Nat.one_le_two_pow (n := k)
  have heq : req.hostPageMask + 1 = 2 ^ k := by omega
  have hlt : req.limitHigh < 2 ^ 64 := h.limitHigh_le.trans_lt (by decide)
  rw [Request.high, roundAddr, heq, hmask]
  exact and_mask hlt (by omega)

lemma Request.Valid.high_le : req.high ≤ req.limitHigh :=
  h.high_eq ▸ alignDown_le

lemma Request.Valid.high_lt : req.high < 2 ^ 64 - 0x100 := by
  have hle := h.high_le.trans h.limitHigh_le
  omega

lemma Request.Valid.le_low : req.limitLow ≤ req.low :=
  h.low_eq ▸ le_alignUp req.align_pos

lemma Request.Valid.low_le : req.low ≤ 2 ^ 63 :=
  h.low_eq ▸ alignUp_le req.align_pos h.align_dvd ((le_of_lt h.limits).trans h.limitHigh_le)

lemma Request.Valid.rounded (hptr : req.alignMask + 1 ∣ ptr)
    (hlow : req.limitLow ≤ ptr) (hhigh : ptr + req.size ≤ req.limitHigh) :
    req.low ≤ ptr ∧ ptr + req.size ≤ req.high := by
  refine ⟨h.low_eq ▸ alignUp_le req.align_pos hptr hlow, ?_⟩
  rw [h.high_eq]
  exact le_alignDown (Nat.succ_pos _) (Nat.dvd_add (h.page_dvd.trans hptr) h.size_dvd) hhigh

end

lemma ptrDiff_of_le {start stop : Nat} (h : start ≤ stop) (hstop : stop < 2 ^ 64) :
    ptrDiff stop start = stop - start := by
  unfold ptrDiff
  omega

lemma ptrDiff_of_lt {start stop : Nat} (h : stop < start) (hstart : start < 2 ^ 64) :
    ptrDiff stop start = stop + 2 ^ 64 - start := by
  unfold ptrDiff
  omega

def Taken (areas : MemAreas) (req : Request) (pos : Nat) : Prop :=
  Searched areas req pos ∧ req.size ≤ ptrDiff (req.stop areas pos) (req.start areas pos)

lemma Searched.base_le (hreq : req.Valid) (h : Searched areas req pos) :
    areas.base pos ≤ 2 ^ 63 := by
  have hhigh := hreq.high_le.trans hreq.limitHigh_le
  obtain ⟨_, _, _, hbase⟩ := h
  split at hbase <;> omega

lemma topDownFit_eq (hreq : req.Valid) (hdown : req.topDown = true)
    (hbase : areas.base pos ≤ 2 ^ 63) :
    topDownFit areas req pos (req.stop areas pos) =
      if areas.state pos = .reserved ∧
        req.size ≤ ptrDiff (req.stop areas pos) (req.start areas pos) then
        some (req.position areas pos) else none := by
  have hdiff : ptrDiff (req.stop areas pos) req.size < 2 ^ 64 := Nat.mod_lt _ (by decide)
  have hstart : req.start areas pos = alignUp (req.alignMask + 1) (areas.base pos) := by
    rw [Request.start, if_pos hdown]
  rw [topDownFit, hreq.roundUp_align hbase, hreq.roundAddr_align hdiff, Request.position,
    if_pos hdown, ← hstart]
  split
  · rename_i hstate
    rw [if_neg fun hand => hstate hand.1]
  rename_i hstate
  split
  · rename_i hlt
    rw [if_neg fun hand => Nat.not_lt.mpr hand.2 hlt]
  · rename_i hlt
    rw [if_pos ⟨not_not.mp hstate, Nat.not_lt.mp hlt⟩]

lemma bottomUpFit_eq (hreq : req.Valid) (hup : req.topDown = false)
    (hbase : areas.base pos ≤ 2 ^ 63) :
    bottomUpFit areas req pos (max (areas.base pos) req.low) =
      if areas.state pos = .reserved ∧
        req.size ≤ ptrDiff (req.stop areas pos) (req.start areas pos) then
        some (req.position areas pos) else none := by
  have hle : max (areas.base pos) req.low ≤ 2 ^ 63 := max_le hbase hreq.low_le
  have hstart : req.start areas pos =
      alignUp (req.alignMask + 1) (max (areas.base pos) req.low) := by
    rw [Request.start, hup, if_neg Bool.false_ne_true]
  rw [bottomUpFit, hreq.roundUp_align hle, Request.position, hup,
    if_neg Bool.false_ne_true, ← hstart]
  split
  · rename_i hstate
    rw [if_neg fun hand => hstate hand.1]
  rename_i hstate
  split
  · rename_i hlt
    rw [if_neg fun hand => Nat.not_lt.mpr hand.2 hlt]
  · rename_i hlt
    rw [if_pos ⟨not_not.mp hstate, Nat.not_lt.mp hlt⟩]

def Found (areas : MemAreas) (req : Request) (among : Nat → Prop) (o : Option Nat) : Prop :=
  (∃ pos, among pos ∧ Taken areas req pos ∧
      (∀ pos', among pos' → Before req pos' pos → ¬ Taken areas req pos') ∧
      o = some (req.position areas pos)) ∨
    o = none ∧ ∀ pos, among pos → ¬ Taken areas req pos

lemma topDownLoop_found (hareas : areas.WellFormed) (hreq : req.Valid) (hdown : req.topDown = true)
    (hpos : pos + 1 < areas.length) (hbase : areas.base pos ≤ req.high) :
    Found areas req (· ≤ pos) (topDownLoop areas req pos (req.stop areas pos)) := by
  have hhigh := hreq.high_le.trans hreq.limitHigh_le
  have hbefore : ∀ j k, Before req j k ↔ k < j := fun j k => by rw [Before, if_pos hdown]
  induction pos with
  | zero =>
    rw [topDownLoop, topDownFit_eq hreq hdown (hbase.trans hhigh)]
    by_cases hstop : req.stop areas 0 ≤ req.low
    · rw [if_pos hstop]
      refine .inr ⟨rfl, fun j hj htaken => ?_⟩
      rw [Nat.le_zero.mp hj] at htaken
      exact absurd htaken.1.2.2.1 (Nat.not_lt.mpr hstop)
    rw [if_neg hstop]
    split
    · rename_i hfit
      have htaken : Taken areas req 0 :=
        ⟨⟨hpos, hfit.1, Nat.lt_of_not_le hstop, by rw [if_pos hdown]; exact hbase⟩, hfit.2⟩
      refine .inl ⟨0, Nat.le_refl 0, htaken, fun j hj hlt => ?_, rfl⟩
      have hlt := (hbefore j 0).mp hlt
      omega
    rename_i hfit
    refine .inr ⟨rfl, fun j hj htaken => ?_⟩
    rw [Nat.le_zero.mp hj] at htaken
    exact hfit ⟨htaken.1.2.1, htaken.2⟩
  | succ pos ih =>
    rw [topDownLoop, topDownFit_eq hreq hdown (hbase.trans hhigh)]
    by_cases hstop : req.stop areas (pos + 1) ≤ req.low
    · rw [if_pos hstop]
      refine .inr ⟨rfl, fun j hj htaken => ?_⟩
      have hle : areas.stop j ≤ areas.stop (pos + 1) := hareas.toIncreasing.base_le (by omega) hpos
      have hlow := htaken.1.2.2.1
      unfold Request.stop at hlow hstop
      omega
    rw [if_neg hstop]
    by_cases hfit : areas.state (pos + 1) = .reserved ∧
        req.size ≤ ptrDiff (req.stop areas (pos + 1)) (req.start areas (pos + 1))
    · rw [if_pos hfit]
      have htaken : Taken areas req (pos + 1) :=
        ⟨⟨hpos, hfit.1, Nat.lt_of_not_le hstop, by rw [if_pos hdown]; exact hbase⟩, hfit.2⟩
      refine .inl ⟨pos + 1, Nat.le_refl _, htaken, fun j hj hlt => ?_, rfl⟩
      have hlt := (hbefore j _).mp hlt
      omega
    rw [if_neg hfit]
    have hbase' : areas.base pos ≤ req.high :=
      (hareas.toIncreasing.base_le (Nat.le_succ pos) (by omega)).trans hbase
    have hclipped : areas.stop pos = req.stop areas pos := (min_eq_right hbase).symm
    have hnot : ¬ Taken areas req (pos + 1) := fun htaken => hfit ⟨htaken.1.2.1, htaken.2⟩
    rw [hclipped]
    obtain ⟨j, hj, htaken, hfirst, hsome⟩ | ⟨hnone, hall⟩ := ih (by omega) hbase'
    · refine .inl ⟨j, Nat.le_succ_of_le hj, htaken, fun k hk hlt => ?_, hsome⟩
      obtain hle | rfl := Nat.le_or_eq_of_le_succ hk
      · exact hfirst k hle hlt
      · exact hnot
    refine .inr ⟨hnone, fun k hk => ?_⟩
    obtain hle | rfl := Nat.le_or_eq_of_le_succ hk
    · exact hall k hle
    · exact hnot

lemma bottomUpLoop_found (hareas : areas.WellFormed) (hreq : req.Valid) (hup : req.topDown = false)
    {left : Nat} (hleft : pos + left = areas.length)
    (hlow : pos + 1 < areas.length → req.low < areas.stop pos) :
    Found areas req (pos ≤ ·) (bottomUpLoop areas req left pos (max (areas.base pos) req.low)) := by
  have hhigh := hreq.high_le.trans hreq.limitHigh_le
  have hbefore : ∀ j k, Before req j k ↔ j < k := fun j k => by
    rw [Before, hup, if_neg Bool.false_ne_true]
  have hsearched : ∀ j, Searched areas req j → areas.base j < req.high ∧ req.low < req.high := by
    intro j hj
    obtain ⟨_, _, hlt, hbase⟩ := hj
    rw [hup, if_neg Bool.false_ne_true] at hbase
    exact ⟨hbase, hlt.trans_le (min_le_left _ _)⟩
  induction left generalizing pos with
  | zero =>
    refine .inr ⟨rfl, fun j hj htaken => ?_⟩
    have hlen := htaken.1.1
    omega
  | succ left ih =>
    rw [bottomUpLoop]
    by_cases hend : req.high ≤ max (areas.base pos) req.low
    · rw [if_pos hend]
      refine .inr ⟨rfl, fun j hj htaken => ?_⟩
      obtain ⟨hbase, hlt⟩ := hsearched j htaken.1
      have hle := hareas.toIncreasing.base_le hj (by have := htaken.1.1; omega)
      omega
    rw [if_neg hend]
    have hlt : areas.base pos < req.high ∧ req.low < req.high := by omega
    have hpos : pos + 1 < areas.length := by
      by_contra hlast
      have heq : pos = areas.length - 1 := by omega
      rw [heq, hareas.last] at hlt
      omega
    have hlow' := hlow hpos
    rw [bottomUpFit_eq hreq hup (by omega)]
    by_cases hfit : areas.state pos = .reserved ∧
        req.size ≤ ptrDiff (req.stop areas pos) (req.start areas pos)
    · rw [if_pos hfit]
      have htaken : Taken areas req pos := by
        refine ⟨⟨hpos, hfit.1, lt_min hlt.2 hlow', ?_⟩, hfit.2⟩
        rw [hup, if_neg Bool.false_ne_true]
        exact hlt.1
      refine .inl ⟨pos, le_refl pos, htaken, fun j hj hlt => ?_, rfl⟩
      have hlt := (hbefore j _).mp hlt
      omega
    rw [if_neg hfit]
    have hnot : ¬ Taken areas req pos := fun htaken => hfit ⟨htaken.1.2.1, htaken.2⟩
    have hstart : areas.base (pos + 1) = max (areas.base (pos + 1)) req.low :=
      (max_eq_left (le_of_lt hlow')).symm
    rw [hstart]
    have hnext : pos + 1 + 1 < areas.length → req.low < areas.stop (pos + 1) := fun hlen =>
      hlow'.trans (hareas.increasing (pos + 1) hlen)
    obtain ⟨j, hj, htaken, hfirst, hsome⟩ | ⟨hnone, hall⟩ := ih (by omega) hnext
    · refine .inl ⟨j, Nat.le_of_succ_le hj, htaken, fun k hk hlt => ?_, hsome⟩
      obtain rfl | hgt := eq_or_lt_of_le hk
      · exact hnot
      · exact hfirst k hgt hlt
    refine .inr ⟨hnone, fun k hk => ?_⟩
    obtain rfl | hgt := eq_or_lt_of_le hk
    · exact hnot
    · exact hall k hgt

lemma reservedPtr_found (hareas : areas.WellFormed) (hreq : req.Valid) :
    Found areas req (fun _ => True) (reservedPtr areas req) := by
  have hwiden : ∀ (among : Nat → Prop) o, Found areas req among o →
      (∀ pos, Taken areas req pos → among pos) → Found areas req (fun _ => True) o := by
    intro among o hfound hamong
    obtain ⟨j, _, htaken, hfirst, hsome⟩ | ⟨hnone, hall⟩ := hfound
    · exact .inl ⟨j, trivial, htaken, fun k _ hlt hk => hfirst k (hamong k hk) hlt hk, hsome⟩
    · exact .inr ⟨hnone, fun k _ hk => hall k (hamong k hk) hk⟩
  unfold reservedPtr
  cases hdir : req.topDown with
  | true =>
    obtain ⟨hlen, hbase, hstop⟩ := findMemArea_spec hareas hreq.high_lt
    have hclipped : req.stop areas (findMemArea areas req.high) = req.high :=
      min_eq_left (le_of_lt hstop)
    have hfound := topDownLoop_found hareas hreq hdir hlen hbase
    rw [hclipped] at hfound
    refine hwiden _ _ hfound fun pos htaken => ?_
    by_contra hgt
    obtain ⟨⟨hpos, _, _, hbase'⟩, _⟩ := htaken
    rw [if_pos hdir] at hbase'
    have hle : areas.stop (findMemArea areas req.high) ≤ areas.base pos :=
      hareas.toIncreasing.base_le (by omega) (by omega)
    omega
  | false =>
    have hlow : req.low < 2 ^ 64 - 0x100 := by
      have hle := hreq.low_le
      omega
    obtain ⟨hlen, hbase, hstop⟩ := findMemArea_spec hareas hlow
    have hleft : findMemArea areas req.low + (areas.length - findMemArea areas req.low) =
        areas.length := by omega
    have hfound := bottomUpLoop_found hareas hreq hdir hleft fun _ => hstop
    rw [max_eq_right hbase] at hfound
    refine hwiden _ _ hfound fun pos htaken => ?_
    by_contra hlt
    obtain ⟨⟨hpos, _, hstop', _⟩, _⟩ := htaken
    have hle : areas.stop pos ≤ areas.base (findMemArea areas req.low) :=
      hareas.toIncreasing.base_le (by omega) (by omega)
    have hmin : req.stop areas pos ≤ areas.stop pos := min_le_right _ _
    omega

lemma RangeIn.bounds (hreq : req.Valid) (h : RangeIn areas req pos ptr) :
    req.start areas pos ≤ ptr ∧ ptr + req.size ≤ req.stop areas pos ∧ req.low ≤ ptr := by
  obtain ⟨_, _, haligned, hlow, hhigh, hbase, hstop⟩ := h
  obtain ⟨hlow', hhigh'⟩ := hreq.rounded haligned hlow hhigh
  refine ⟨alignUp_le req.align_pos haligned ?_, le_min hhigh' hstop, hlow'⟩
  split
  · exact hbase
  · exact max_le hbase hlow'

lemma RangeIn.searched (hreq : req.Valid) (h : RangeIn areas req pos ptr) :
    Searched areas req pos := by
  obtain ⟨_, hstop, hlow⟩ := h.bounds hreq
  obtain ⟨hlen, hstate, _, _, _, hbase, _⟩ := h
  have hsize := hreq.size_pos
  have hle : req.stop areas pos ≤ req.high := min_le_left _ _
  refine ⟨hlen, hstate, by omega, ?_⟩
  split <;> omega

lemma RangeIn.fits (h : RangeIn areas req pos ptr) : Fits areas req ptr := by
  obtain ⟨hlen, hstate, haligned, hlow, hhigh, hbase, hstop⟩ := h
  exact ⟨haligned, hlow, hhigh, fun addr hle hlt =>
    ⟨pos, hlen, hstate, hbase.trans hle, hlt.trans_le hstop⟩⟩

lemma stop_lt (hreq : req.Valid) : req.stop areas pos < 2 ^ 64 := by
  have hle : req.stop areas pos ≤ req.high := min_le_left _ _
  have hlt := hreq.high_lt
  omega

lemma Searched.start_lt (hreq : req.Valid) (h : Searched areas req pos) :
    req.start areas pos < 2 ^ 64 := by
  have hbase := h.base_le hreq
  have hlow := hreq.low_le
  refine (alignUp_le req.align_pos hreq.align_dvd ?_).trans_lt (by decide)
  split
  · exact hbase
  · exact max_le hbase hlow

lemma Room.position (hreq : req.Valid) (h : Room areas req pos) :
    RangeIn areas req pos (req.position areas pos) := by
  obtain ⟨ptr, hptr⟩ := h
  obtain ⟨hstart, hstop, hlow'⟩ := hptr.bounds hreq
  obtain ⟨hlen, hstate, haligned, hlow, hhigh, hbase, hend⟩ := hptr
  have hle : req.stop areas pos ≤ req.high ∧ req.stop areas pos ≤ areas.stop pos :=
    ⟨min_le_left _ _, min_le_right _ _⟩
  have hlimit := hreq.high_le
  unfold Request.position
  split
  · rw [ptrDiff_of_le (by omega) (stop_lt hreq)]
    have hge : ptr ≤ alignDown (req.alignMask + 1) (req.stop areas pos - req.size) :=
      le_alignDown req.align_pos haligned (by omega)
    have hdown : alignDown (req.alignMask + 1) (req.stop areas pos - req.size) ≤
      req.stop areas pos - req.size := alignDown_le
    exact ⟨hlen, hstate, dvd_alignDown, by omega, by omega, by omega, by omega⟩
  rename_i hup
  have hstart' : max (areas.base pos) req.low ≤ req.start areas pos := by
    rw [Request.start, if_neg hup]
    exact le_alignUp req.align_pos
  have hdvd : req.alignMask + 1 ∣ req.start areas pos := dvd_alignUp
  have hlow'' := hreq.le_low
  exact ⟨hlen, hstate, hdvd, by omega, by omega, by omega, by omega⟩

lemma taken_iff (hreq : req.Valid) :
    Taken areas req pos ↔ Room areas req pos ∨ Misjudged areas req pos := by
  have hstop : req.stop areas pos < 2 ^ 64 := stop_lt hreq
  constructor
  · rintro ⟨hsearched, hsize⟩
    have hstart := hsearched.start_lt hreq
    by_cases hle : req.start areas pos ≤ req.stop areas pos
    · rw [ptrDiff_of_le hle hstop] at hsize
      have hsum : req.start areas pos + req.size ≤ req.stop areas pos := by omega
      have hmin : req.stop areas pos ≤ req.high ∧ req.stop areas pos ≤ areas.stop pos :=
        ⟨min_le_left _ _, min_le_right _ _⟩
      have hlimit := hreq.high_le
      have hlow := hreq.le_low
      cases hdir : req.topDown with
      | true =>
        have hbase : areas.base pos ≤ req.start areas pos := by
          rw [Request.start, if_pos hdir]
          exact le_alignUp req.align_pos
        have hge : req.start areas pos ≤
            alignDown (req.alignMask + 1) (req.stop areas pos - req.size) :=
          le_alignDown req.align_pos dvd_alignUp (by omega)
        have hdown : alignDown (req.alignMask + 1) (req.stop areas pos - req.size) ≤
          req.stop areas pos - req.size := alignDown_le
        by_cases hbelow :
            alignDown (req.alignMask + 1) (req.stop areas pos - req.size) < req.limitLow
        · exact .inr ⟨hsearched, .inr ⟨hdir, hsum, hbelow⟩⟩
        · exact .inl ⟨_, hsearched.1, hsearched.2.1, dvd_alignDown, Nat.le_of_not_lt hbelow,
            by omega, by omega, by omega⟩
      | false =>
        have hbase : max (areas.base pos) req.low ≤ req.start areas pos := by
          rw [Request.start, hdir, if_neg Bool.false_ne_true]
          exact le_alignUp req.align_pos
        have hdvd : req.alignMask + 1 ∣ req.start areas pos := dvd_alignUp
        exact .inl ⟨req.start areas pos, hsearched.1, hsearched.2.1, hdvd, by omega, by omega,
          by omega, by omega⟩
    · rw [ptrDiff_of_lt (by omega) hstart] at hsize
      exact .inr ⟨hsearched, .inl ⟨by omega, by omega⟩⟩
  · rintro (hroom | ⟨hsearched, hpast | ⟨_, hfit, _⟩⟩)
    · obtain ⟨ptr, hptr⟩ := hroom
      obtain ⟨hle, hend, _⟩ := hptr.bounds hreq
      refine ⟨hptr.searched hreq, ?_⟩
      rw [ptrDiff_of_le (by omega) hstop]
      omega
    · refine ⟨hsearched, ?_⟩
      rw [ptrDiff_of_lt hpast.1 (hsearched.start_lt hreq)]
      omega
    · refine ⟨hsearched, ?_⟩
      rw [ptrDiff_of_le (by omega) hstop]
      omega

lemma no_room_of_zero (hareas : areas.WellFormed) (hreq : req.Valid) (htaken : Taken areas req pos)
    (hzero : req.position areas pos = 0) {pos' : Nat} (hafter : ¬ Before req pos' pos) :
    ¬ Room areas req pos' := by
  rintro ⟨ptr, hptr⟩
  obtain ⟨hstart, hstop, hlow⟩ := hptr.bounds hreq
  have hpos := hreq.limitLow_pos
  have hle := hreq.le_low
  unfold Request.position at hzero
  unfold Before at hafter
  split at hzero
  · rename_i hdown
    rw [if_pos hdown] at hafter
    have hmono : areas.stop pos' ≤ areas.stop pos :=
      hareas.toIncreasing.base_le (by omega) (by have := htaken.1.1; omega)
    have hend : ptr + req.size ≤ req.stop areas pos := by
      unfold Request.stop at hstop ⊢
      omega
    rw [ptrDiff_of_le (by omega) (stop_lt hreq)] at hzero
    have hge : ptr ≤ alignDown (req.alignMask + 1) (req.stop areas pos - req.size) :=
      le_alignDown req.align_pos hptr.2.2.1 (by omega)
    omega
  · rename_i hup
    have hge : max (areas.base pos) req.low ≤ req.start areas pos := by
      rw [Request.start, if_neg hup]
      exact le_alignUp req.align_pos
    omega

instance (areas : MemAreas) (req : Request) (pos : Nat) : Decidable (Searched areas req pos) :=
  inferInstanceAs (Decidable (pos + 1 < areas.length ∧ areas.state pos = .reserved ∧
    req.low < req.stop areas pos ∧
    (if req.topDown then areas.base pos ≤ req.high else areas.base pos < req.high)))

instance (areas : MemAreas) (req : Request) (pos : Nat) : Decidable (Misjudged areas req pos) :=
  inferInstanceAs (Decidable (Searched areas req pos ∧
    (req.stop areas pos < req.start areas pos ∧
        req.start areas pos + req.size ≤ req.stop areas pos + 2 ^ 64 ∨
      req.topDown = true ∧ req.start areas pos + req.size ≤ req.stop areas pos ∧
        alignDown (req.alignMask + 1) (req.stop areas pos - req.size) < req.limitLow)))

def smallAreas : MemAreas :=
  [⟨0, .free⟩, ⟨0x50000, .reserved⟩, ⟨0x60000, .free⟩, ⟨2 ^ 64 - 0x100, .free⟩]

lemma smallAreas_wellFormed : smallAreas.WellFormed := by
  have hincreasing : ∀ pos < 3, smallAreas.base pos < smallAreas.base (pos + 1) := by decide
  refine ⟨by decide, by decide, fun pos hpos => ?_, by decide⟩
  have hlen : pos + 1 < 4 := hpos
  exact hincreasing pos (by omega)

def smallRequest (k : Nat) : Request := ⟨0x10000, 0x200000, 0x10000, false, 2 ^ k - 1, 0xfff⟩

lemma smallRequest_valid {k : Nat} (hk : 16 ≤ k) (hk' : k < 64) : (smallRequest k).Valid where
  align := ⟨k, hk, hk', rfl⟩
  page := ⟨12, by decide, by decide, rfl⟩
  size_pos := show 0 < 0x10000 by decide
  size_dvd := show 0xfff + 1 ∣ 0x10000 by decide
  size_lt := show 0x10000 < 2 ^ 64 by decide
  limitLow_pos := show 0 < 0x10000 by decide
  limits := show 0x10000 < 0x200000 by decide
  limitHigh_le := show 0x200000 ≤ 2 ^ 63 by decide

end WineForge.Memory
