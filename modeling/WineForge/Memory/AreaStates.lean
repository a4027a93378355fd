import WineForge.Library.Buffers
import WineForge.Library.StepFunction
import WineForge.Memory.Areas

/-!
# The states of the memory areas

`set_mem_area_state` on the words of `mem_areas`. The array stands for the states of all addresses
below its last entry.
-/

namespace WineForge.Memory

open Library

def AreaState.code : AreaState → ℕ
  | .free => 0
  | .reserved => 1
  | .blocked => 2
  | .allocated => 3

def AreaState.ofCode : ℕ → AreaState
  | 1 => .reserved
  | 2 => .blocked
  | 3 => .allocated
  | _ => .free

def makeMemArea (base state : ℕ) : ℕ := base ||| state

/-- `mem_area_base`, of a word. -/
def memAreaBase (word : ℕ) : ℕ := word - (word &&& 0xff)

/-- `mem_area_state`, of a word. -/
def memAreaState (word : ℕ) : ℕ := word &&& 0xff

def areasOf (words : List ℕ) : MemAreas :=
  words.map fun word => ⟨memAreaBase word, AreaState.ofCode (memAreaState word)⟩

/-- An assertion of the functions fails, or an index is not one of an entry. -/
inductive AreaFault
  | alignment
  | size
  | index
  deriving DecidableEq, Repr

/-- `mem_areas_size`, for pointers of `w` bits. -/
def memAreasSize (w : ℕ) : ℕ := 0x1000 <<< (w / 8)

def initialMemAreas (w : ℕ) : List ℕ := [0, 2 ^ w - 1]

def moveMemAreas (w : ℕ) (words : List ℕ) (dst src : ℕ) : Except AreaFault (List ℕ) :=
  if words.length < dst ∨ words.length < src then .error .index
  else if memAreasSize w < words.length + dst - src then .error .size
  else .ok (words.take dst ++ words.drop src)

def endArea (words : List ℕ) (stop : ℕ) : ℕ → ℕ → Except AreaFault ℕ
  | 0, _ => .error .index
  | turns + 1, endPos =>
    match words[endPos + 1]? with
    | none => .error .index
    | some word => if stop ≥ memAreaBase word then endArea words stop turns (endPos + 1) else .ok endPos

def baseAt (words : List ℕ) (pos : ℕ) : ℕ := memAreaBase (words.getD pos 0)

def stateAt (words : List ℕ) (pos : ℕ) : ℕ := memAreaState (words.getD pos 0)

/-- The two entries that `set_mem_area_state` writes behind `start_pos`, an unsigned number. -/
def writeAreas (words : List ℕ) (startPos addr stop state : ℕ) : Except AreaFault (List ℕ) :=
  match put words ((startPos + 1) % 2 ^ 32) [makeMemArea addr state] with
  | none => .error .index
  | some words =>
    match put words ((startPos + 2) % 2 ^ 32)
        [makeMemArea stop (stateAt words ((startPos + 2) % 2 ^ 32))] with
    | none => .error .index
    | some words => .ok words

/-- The part of `set_mem_area_state` from the merge with the next area on. -/
def replaceAreas (w : ℕ) (words : List ℕ) (startPos endPos addr stop : ℕ) (state : AreaState) :
    Except AreaFault (List ℕ) :=
  let merge := decide (stateAt words endPos = state.code)
  let stop := if merge then baseAt words (endPos + 1) else stop
  let endPos := if merge then endPos + 1 else endPos
  let startPos := if addr = baseAt words startPos then (startPos + 2 ^ 32 - 1) % 2 ^ 32 else startPos
  match moveMemAreas w words ((startPos + 2) % 2 ^ 32) endPos with
  | .error fault => .error fault
  | .ok words => writeAreas words startPos addr stop state.code

/-- The arguments of `set_mem_area_state`. -/
structure AreaUpdate where
  addr : ℕ
  size : ℕ
  state : AreaState

def AreaUpdate.stop (u : AreaUpdate) (w : ℕ) : ℕ :=
  if (u.addr + u.size) % 2 ^ w = 0 then 2 ^ w - 0x10000 else (u.addr + u.size) % 2 ^ w

def setMemAreaState (w : ℕ) (words : List ℕ) (u : AreaUpdate) : Except AreaFault (List ℕ) :=
  if u.addr % 0x10000 ≠ 0 ∨ u.size % 0x10000 ≠ 0 then .error .alignment
  else
    let startPos := findMemArea (areasOf words) u.addr
    match endArea words (u.stop w) words.length startPos with
    | .error fault => .error fault
    | .ok endPos =>
      if stateAt words startPos = u.state.code then
        if startPos = endPos then .ok words
        else replaceAreas w words startPos endPos (baseAt words startPos) (u.stop w) u.state
      else if startPos ≠ 0 ∧ stateAt words (startPos - 1) = u.state.code ∧
          u.addr = baseAt words startPos then
        replaceAreas w words (startPos - 1) endPos (baseAt words (startPos - 1)) (u.stop w) u.state
      else replaceAreas w words startPos endPos u.addr (u.stop w) u.state

def setMemAreaStates (w : ℕ) : List ℕ → List AreaUpdate → Except AreaFault (List ℕ)
  | words, [] => .ok words
  | words, u :: us =>
    match setMemAreaState w words u with
    | .error fault => .error fault
    | .ok words => setMemAreaStates w words us

/-- The range does not reach into the last 64K of the address space: its end is cut off there. -/
def AreaUpdate.Covers (u : AreaUpdate) (w x : ℕ) : Prop :=
  u.addr ≤ x ∧ x < min (u.addr + u.size) (2 ^ w - 0x10000)

instance (u : AreaUpdate) (w x : ℕ) : Decidable (u.Covers w x) :=
  inferInstanceAs (Decidable (_ ∧ _))

/-- A range of whole 64K blocks in the address space that has a block in front of the last one. -/
structure AreaUpdate.Valid (u : AreaUpdate) (w : ℕ) : Prop where
  addr : 0x10000 ∣ u.addr
  size : 0x10000 ∣ u.size
  size_pos : 0 < u.size
  inside : u.addr + u.size ≤ 2 ^ w
  below : u.addr < 2 ^ w - 0x10000

def lastState (w : ℕ) (us : List AreaUpdate) (x : ℕ) : AreaState :=
  us.foldl (fun state u => if u.Covers w x then u.state else state) .free

end WineForge.Memory
