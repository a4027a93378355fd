import WineForge.Library.Alignment

/-!
# Memory areas

The areas of the address space, and the search for space in the reserved ones.
-/

namespace WineForge.Memory

/-- `enum area_state`. -/
inductive AreaState
  | free | reserved | blocked | allocated
  deriving DecidableEq, Repr, Inhabited

/-- An entry of `mem_areas`. It ends where the next one starts. -/
structure MemArea where
  base : Nat
  state : AreaState
  deriving DecidableEq, Repr, Inhabited

/-- `mem_areas`, whose last entry only ends the one before. -/
abbrev MemAreas := List MemArea

def MemAreas.base (areas : MemAreas) (pos : Nat) : Nat := (areas.getD pos default).base

/-- `mem_area_end`. -/
def MemAreas.stop (areas : MemAreas) (pos : Nat) : Nat := areas.base (pos + 1)

def MemAreas.state (areas : MemAreas) (pos : Nat) : AreaState := (areas.getD pos default).state

/-- The loop of `find_mem_area`, which takes no more turns than there are areas. -/
def findMemAreaLoop (areas : MemAreas) (addr : Nat) : Nat → Int → Int → Int
  | 0, _, max => max
  | turns + 1, min, max =>
    if min ≤ max then
      let pos := (min + max) / 2
      if areas.base pos.toNat > addr then findMemAreaLoop areas addr turns min (pos - 1)
      else if areas.base pos.toNat < addr then findMemAreaLoop areas addr turns (pos + 1) max
      else pos
    else max

def findMemArea (areas : MemAreas) (addr : Nat) : Nat :=
  (findMemAreaLoop areas addr areas.length 0 (areas.length - 1)).toNat

def roundAddr (addr mask : Nat) : Nat := addr &&& (2 ^ 64 - 1 - mask)

def roundSize (addr size mask : Nat) : Nat :=
  ((size + (addr &&& mask) + mask) % 2 ^ 64) &&& (2 ^ 64 - 1 - mask)

def ptrDiff (stop start : Nat) : Nat := (stop + 2 ^ 64 - start) % 2 ^ 64

/-- The arguments of `map_reserved_area`. -/
structure Request where
  limitLow : Nat
  limitHigh : Nat
  size : Nat
  topDown : Bool
  alignMask : Nat
  hostPageMask : Nat
  deriving DecidableEq, Repr

def Request.low (req : Request) : Nat := roundSize 0 req.limitLow req.alignMask

def Request.high (req : Request) : Nat := roundAddr req.limitHigh req.hostPageMask

/-- A turn of the loop of `map_reserved_area` from the top. -/
def topDownFit (areas : MemAreas) (req : Request) (area stop : Nat) : Option Nat :=
  let start := roundAddr ((areas.base area + req.alignMask) % 2 ^ 64) req.alignMask
  if areas.state area ≠ .reserved then none
  else if ptrDiff stop start < req.size then none
  else some (roundAddr (ptrDiff stop req.size) req.alignMask)

def topDownLoop (areas : MemAreas) (req : Request) : Nat → Nat → Option Nat
  | 0, stop => if stop ≤ req.low then none else topDownFit areas req 0 stop
  | area + 1, stop =>
    if stop ≤ req.low then none
    else match topDownFit areas req (area + 1) stop with
      | some ptr => some ptr
      | none => topDownLoop areas req area (areas.stop area)

/-- A turn of the loop of `map_reserved_area` from the bottom. -/
def bottomUpFit (areas : MemAreas) (req : Request) (area start : Nat) : Option Nat :=
  let start := roundAddr ((start + req.alignMask) % 2 ^ 64) req.alignMask
  let stop := min req.high (areas.stop area)
  if areas.state area ≠ .reserved then none
  else if ptrDiff stop start < req.size then none
  else some start

def bottomUpLoop (areas : MemAreas) (req : Request) : Nat → Nat → Nat → Option Nat
  | 0, _, _ => none
  | left + 1, area, start =>
    if req.high ≤ start then none
    else match bottomUpFit areas req area start with
      | some ptr => some ptr
      | none => bottomUpLoop areas req left (area + 1) (areas.base (area + 1))

/-- The pointer that `map_reserved_area` finds. -/
def reservedPtr (areas : MemAreas) (req : Request) : Option Nat :=
  if req.topDown then topDownLoop areas req (findMemArea areas req.high) req.high
  else bottomUpLoop areas req (areas.length - findMemArea areas req.low)
    (findMemArea areas req.low) req.low

/-- The address of the call of `anon_mmap_fixed`, if any, and the result. -/
structure Mapped where
  call : Option Nat
  ret : Nat
  deriving DecidableEq, Repr

/-- `map_reserved_area`, with the results of `anon_mmap_fixed`. -/
def mapReservedArea (areas : MemAreas) (req : Request) (anonMmapFixed : Nat → Nat) : Mapped :=
  match reservedPtr areas req with
  | none => ⟨none, 0⟩
  | some ptr =>
    if ptr = 0 then ⟨none, 0⟩
    else ⟨some ptr, if anonMmapFixed ptr ≠ ptr then 0 else ptr⟩

/-!
## The search for an area

`find_mem_area` finds the last area that begins at the address or below, in any table in order.
-/

/-- A table in order that begins at address 0. -/
structure MemAreas.Increasing (areas : MemAreas) : Prop where
  length : 2 ≤ areas.length
  first : areas.base 0 = 0
  increasing : ∀ pos, pos + 1 < areas.length → areas.base pos < areas.base (pos + 1)

variable {areas : MemAreas}

lemma MemAreas.Increasing.base_lt (h : areas.Increasing) {i j : Nat} (hij : i < j)
    (hj : j < areas.length) : areas.base i < areas.base j := by
  induction j with
  | zero => exact absurd hij (Nat.not_lt_zero i)
  | succ j ih =>
    have hstep := h.increasing j hj
    obtain hlt | rfl := Nat.lt_or_eq_of_le (Nat.le_of_lt_succ hij)
    · exact (ih hlt (by omega)).trans hstep
    · exact hstep

lemma MemAreas.Increasing.base_le (h : areas.Increasing) {i j : Nat} (hij : i ≤ j)
    (hj : j < areas.length) : areas.base i ≤ areas.base j := by
  obtain hlt | rfl := lt_or_eq_of_le hij
  · exact le_of_lt (h.base_lt hlt hj)
  · exact le_refl _

lemma findMemAreaLoop_spec (h : areas.Increasing) {addr : Nat} {turns : Nat} {min max : Int} (hmin : 0 ≤ min) (hmax : max < areas.length)
    (hturns : max - min < turns) (horder : min ≤ max + 1)
    (hbelow : ∀ i : Nat, (i : Int) < min → areas.base i ≤ addr)
    (habove : ∀ i : Nat, max < (i : Int) → i < areas.length → addr < areas.base i) :
    ∃ i : Nat, findMemAreaLoop areas addr turns min max = i ∧ i < areas.length ∧
      areas.base i ≤ addr ∧ ∀ j, i < j → j < areas.length → addr < areas.base j := by
  have hend : max < min → ∃ i : Nat, max = i ∧ i < areas.length ∧ areas.base i ≤ addr ∧
      ∀ j, i < j → j < areas.length → addr < areas.base j := by
    intro hlt
    have hnonneg : 0 ≤ max := by
      by_contra hneg
      have hfirst := habove 0 (by omega) (by have := h.length; omega)
      rw [h.first] at hfirst
      omega
    obtain ⟨i, rfl⟩ := Int.eq_ofNat_of_zero_le hnonneg
    exact ⟨i, rfl, by omega, hbelow i (by omega), fun j hj hlen => habove j (by omega) hlen⟩
  induction turns generalizing min max with
  | zero => exact hend (by omega)
  | succ turns ih =>
    rw [findMemAreaLoop]
    by_cases hle : min ≤ max
    · rw [if_pos hle]
      dsimp only
      obtain ⟨i, hi⟩ := Int.eq_ofNat_of_zero_le (show 0 ≤ (min + max) / 2 by omega)
      rw [hi, Int.toNat_natCast]
      have hlen : i < areas.length := by omega
      by_cases hgt : areas.base i > addr
      · rw [if_pos hgt]
        refine ih hmin (by omega) (by omega) (by omega) hbelow (fun j hj hjlen => ?_) ?_
        · obtain hlt | hge := lt_or_ge i j
          · exact hgt.trans (h.base_lt hlt hjlen)
          · exact (show j = i by omega) ▸ hgt
        intro hlt
        have hnonneg : 0 ≤ (i : Int) - 1 := by
          by_contra hneg
          have hzero : i = 0 := by omega
          rw [hzero, h.first] at hgt
          omega
        obtain ⟨j, hj⟩ := Int.eq_ofNat_of_zero_le hnonneg
        refine ⟨j, hj, by omega, hbelow j (by omega), fun k hk hklen => ?_⟩
        obtain hlt' | hge := lt_or_ge i k
        · exact hgt.trans (h.base_lt hlt' hklen)
        · exact (show k = i by omega) ▸ hgt
      · rw [if_neg hgt]
        by_cases hlt : areas.base i < addr
        · rw [if_pos hlt]
          have hbelow' : ∀ j : Nat, (j : Int) < (i : Int) + 1 → areas.base j ≤ addr := fun j hj =>
            (h.base_le (by omega) hlen).trans (le_of_lt hlt)
          exact ih (by omega) hmax (by omega) (by omega) hbelow' habove
            fun hend => ⟨i, by omega, hlen, le_of_lt hlt, fun k hk hklen =>
              habove k (by omega) hklen⟩
        · rw [if_neg hlt]
          have heq : areas.base i = addr := by omega
          exact ⟨i, rfl, hlen, le_of_eq heq, fun j hj hjlen => heq ▸ h.base_lt hj hjlen⟩
    · rw [if_neg hle]
      exact hend (by omega)

lemma findMemArea_last (h : areas.Increasing) (addr : Nat) :
    findMemArea areas addr < areas.length ∧ areas.base (findMemArea areas addr) ≤ addr ∧
      ∀ j, findMemArea areas addr < j → j < areas.length → addr < areas.base j := by
  obtain ⟨i, hi, hlen, hle, habove⟩ := @findMemAreaLoop_spec areas h addr areas.length
    0 (areas.length - 1) (by omega) (by omega) (by omega) (by omega)
    (fun i hi => absurd hi (by omega)) (fun i hi hilen => absurd hi (by omega))
  have hfind : findMemArea areas addr = i := by rw [findMemArea, hi, Int.toNat_natCast]
  rw [hfind]
  exact ⟨hlen, hle, habove⟩

end WineForge.Memory
