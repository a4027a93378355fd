import WineForge.Library.ByteMemory
import Mathlib.Data.BitVec

/-!
# In-memory patches of PE modules

The loops of `pe_patches.c` over the memory of a module. An address that no request has made
writable faults when it is written, and a run that faults has no result. A `SIZE_T` has `bits` bits.
-/

namespace WineForge.Patches

open Library

/-- `struct wineforge_patch_fragment`. `WF_PATCH_FRAGMENT` refuses strings of different sizes. -/
structure Fragment where
  rva : UInt32
  before : List UInt8
  after : List UInt8
  same_size : after.length = before.length

namespace Fragment

variable (f : Fragment)

def size : Nat := f.before.length

def start (base : Nat) : Nat := base + f.rva.toNat

def Covers (base a : Nat) : Prop :=
  f.start base ≤ a ∧ a < f.start base + f.size

end Fragment

/-- A module in memory, and whether `NtProtectVirtualMemory` makes an address range writable. -/
structure Image (bits : Nat) where
  base : Nat
  size : Fin (2 ^ bits)
  protect : Nat → Nat → Bool

/-- What the first loop over the fragments has found out. -/
structure Checked where
  allBefore : Bool
  allAfter : Bool
  first : Nat
  last : Nat

def memcmp (mem : ByteMemory) (a : Nat) (bytes : List UInt8) (size : Nat) : Bool :=
  mem.fetch a size == bytes

/-- `memcpy` to pages of which `size` bytes from `start` on are writable. -/
def memcpy (start size : Nat) (mem : ByteMemory) (a : Nat) (bytes : List UInt8) :
    Option ByteMemory :=
  if start ≤ a ∧ a + bytes.length ≤ start + size then some (mem.store a bytes) else none

variable {bits : Nat}

def outOfRange (image : Image bits) (f : Fragment) : Bool :=
  image.size < f.rva.toNat || image.size - f.rva.toNat < f.size

def checkFragment (image : Image bits) (mem : ByteMemory) (c : Checked) (f : Fragment) : Checked :=
  let stop := (f.rva.toNat + f.size) % 2 ^ bits
  { allBefore := c.allBefore && memcmp mem (f.start image.base) f.before f.size
    allAfter := c.allAfter && memcmp mem (f.start image.base) f.after f.size
    first := if f.rva.toNat < c.first then f.rva.toNat else c.first
    last := if c.last < stop then stop else c.last }

def checkFragments (image : Image bits) (mem : ByteMemory) :
    List Fragment → Checked → Option Checked
  | [], c => some c
  | f :: fs, c =>
    if outOfRange image f then none
    else checkFragments image mem fs (checkFragment image mem c f)

def writeFragments (base start size : Nat) : List Fragment → ByteMemory → Option ByteMemory
  | [], mem => some mem
  | f :: fs, mem =>
    match memcpy start size mem (f.start base) f.after with
    | none => none
    | some mem => writeFragments base start size fs mem

def patchFragments (image : Image bits) (fragments : List Fragment) (mem : ByteMemory) :
    Option (Bool × ByteMemory) :=
  match checkFragments image mem fragments ⟨true, true, 2 ^ bits - 1, 0⟩ with
  | none => some (false, mem)
  | some c =>
    let protectSize := (2 ^ bits + c.last - c.first) % 2 ^ bits
    if c.allAfter then some (true, mem)
    else if !c.allBefore then some (false, mem)
    else if !image.protect (image.base + c.first) protectSize then some (false, mem)
    else (writeFragments image.base (image.base + c.first) protectSize fragments mem).map (true, ·)

def steamDxgiGeneratorFragments : List Fragment :=
  [⟨0x13a4, [0xff, 0x25], [0x48, 0xb8], rfl⟩,
    ⟨0x13ba, [0xad, 0x0b, 0x00, 0x00], [0x00, 0x00, 0xff, 0xe0], rfl⟩,
    ⟨0x13c3, [0xff, 0x25], [0x48, 0xb8], rfl⟩,
    ⟨0x13d9, [0xad, 0x0b, 0x00, 0x00], [0x00, 0x00, 0xff, 0xe0], rfl⟩,
    ⟨0x1437, [0x08], [0x02], rfl⟩,
    ⟨0x1507, [0x08], [0x02], rfl⟩,
    ⟨0x15b7, [0x08], [0x02], rfl⟩,
    ⟨0x1667, [0x08], [0x02], rfl⟩,
    ⟨0x1717, [0x08], [0x02], rfl⟩,
    ⟨0x17d7, [0x08], [0x02], rfl⟩]

def patchSteamDxgiGenerator (image : Image bits) (mem : ByteMemory) : Option (Bool × ByteMemory) :=
  patchFragments image steamDxgiGeneratorFragments mem

/-- `struct wineforge_patch_set`. A condition is the answer it gives. -/
structure PatchSet where
  pathSuffix : Option (List UInt16)
  machine : UInt16
  imageSize : Nat
  timestamp : UInt32
  builtin : Bool
  shouldApply : Option Bool
  fragments : List Fragment
  customApply : Bool
  matched : Bool

structure NtHeader where
  machine : UInt16
  timeDateStamp : UInt32

def lower (c : UInt16) : UInt16 :=
  if 65 ≤ c ∧ c ≤ 90 then c + 32 else c

def pathHasSuffix (path suffix : Option (List UInt16)) : Bool :=
  match suffix, path with
  | none, _ => true
  | some _, none => false
  | some suffix, some path =>
    suffix.length ≤ path.length &&
      (path.drop (path.length - suffix.length)).map lower == suffix.map lower

/-- The tests of `apply_patch_set` that do not look at the fragments. -/
def applies (set : PatchSet) (nt : Option NtHeader) (modulePath : Option (List UInt16))
    (imageSize : Nat) (isBuiltin : Bool) : Bool :=
  match nt with
  | none => false
  | some nt =>
    nt.machine == set.machine && isBuiltin == set.builtin &&
      pathHasSuffix modulePath set.pathSuffix &&
      (set.imageSize == 0 || imageSize == set.imageSize) &&
      (set.timestamp == 0 || nt.timeDateStamp == set.timestamp) && set.shouldApply.getD true

/-- What `apply_patch_set` leaves, and whether the handler of the set runs next. -/
structure Applied where
  set : PatchSet
  custom : Bool
  mem : ByteMemory

def applyPatchSet (rtlImageNtHeader : ByteMemory → Option NtHeader) (set : PatchSet)
    (modulePath : Option (List UInt16)) (image : Image bits) (isBuiltin : Bool)
    (mem : ByteMemory) : Option Applied :=
  if !applies set (rtlImageNtHeader mem) modulePath image.size isBuiltin then
    some ⟨set, false, mem⟩
  else if set.customApply then some ⟨{ set with matched := true }, true, mem⟩
  else (patchFragments image set.fragments mem).map fun r => ⟨set, false, r.2⟩

def oldPrefix : List UInt8 := [0xff, 0x25, 0x02, 0x00, 0x00, 0x00, 0x00, 0x00]

def tableRva : Nat := 0x01007000

def thunkCount : Nat := 0x400

def thunkSize : Nat := 0x10

def entryAt (table i : Nat) : Nat := table + i * thunkSize

def isOldThunk (mem : ByteMemory) (entry : Nat) : Bool :=
  memcmp mem entry oldPrefix 8

def isNewThunk (mem : ByteMemory) (entry : Nat) : Bool :=
  mem entry == 0x48 && mem (entry + 1) == 0xb8 && mem (entry + 10) == 0xff &&
    mem (entry + 11) == 0xe0

/-- `old_count`, `new_count` and `other_count`. -/
structure Counts where
  old : Nat
  new : Nat
  other : Nat

def countThunk (mem : ByteMemory) (entry : Nat) (c : Counts) : Counts :=
  if isOldThunk mem entry then { c with old := c.old + 1 }
  else if isNewThunk mem entry then { c with new := c.new + 1 }
  else { c with other := c.other + 1 }

/-- The loop over the first `n` entries of a table. -/
def countThunks (mem : ByteMemory) (table : Nat) : Nat → Counts
  | 0 => ⟨0, 0, 0⟩
  | n + 1 => countThunk mem (entryAt table n) (countThunks mem table n)

def rewriteThunk (mem : ByteMemory) (entry : Nat) : ByteMemory :=
  let target := mem.readLE (entry + 8) 8
  let mem := (mem.store entry [0x48]).store (entry + 1) [0xb8]
  let mem := mem.store (entry + 2) (ByteMemory.leBytes 8 target)
  let mem := (mem.store (entry + 10) [0xff]).store (entry + 11) [0xe0]
  mem.store (entry + 12) [0x90, 0x90, 0x90, 0x90]

def rewriteThunks (table : Nat) : Nat → ByteMemory → ByteMemory
  | 0, mem => mem
  | n + 1, mem =>
    let mem := rewriteThunks table n mem
    if isOldThunk mem (entryAt table n) then rewriteThunk mem (entryAt table n) else mem

def patchSteamDxgiThunkTable (image : Image bits) (mem : ByteMemory) : Bool × ByteMemory :=
  let tableSize := thunkCount * thunkSize
  let table := image.base + tableRva
  let counts := countThunks mem table thunkCount
  if image.size < tableRva || image.size - tableRva < tableSize then (false, mem)
  else if counts.old == 0 then (counts.new != 0, mem)
  else if !image.protect table tableSize then (false, mem)
  else (true, rewriteThunks table thunkCount mem)

/-- The instructions at an address, if they jump to an address in memory (`jmp [rip + disp32]`) or
in the code (`mov rax, imm64` and `jmp rax`), and where they jump to. -/
def jumpTarget (mem : ByteMemory) (a : Nat) : Option Nat :=
  if mem a = 0xff ∧ mem (a + 1) = 0x25 then
    let disp := (BitVec.ofNat 32 (mem.readLE (a + 2) 4)).toInt
    some (mem.readLE ((a + 6 : Int) + disp).toNat 8)
  else if mem a = 0x48 ∧ mem (a + 1) = 0xb8 ∧ mem (a + 10) = 0xff ∧ mem (a + 11) = 0xe0 then
    some (mem.readLE (a + 2) 8)
  else none

end WineForge.Patches
