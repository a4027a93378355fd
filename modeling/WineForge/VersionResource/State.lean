import Mathlib.Algebra.Order.Ring.Int

/-!
# The version resource of a module

`version_heuristics` and the functions that walk the entries of the resource. An entry is named by
its offset; what is behind the end of the resource cannot be read.
-/

namespace WineForge.VersionResource

/-- A read behind the end of the resource, or a loop that has used up its turns. -/
inductive Fault
  | outside | endless
  deriving DecidableEq, Repr

def readWord (res : List UInt8) (pos : ℕ) : Except Fault ℕ :=
  match res[pos]?, res[pos + 1]? with
  | some lo, some hi => .ok (lo.toNat + 256 * hi.toNat)
  | _, _ => .error .outside

def readDword (res : List UInt8) (pos : ℕ) : Except Fault ℕ := do
  let lo ← readWord res pos
  let hi ← readWord res (pos + 2)
  .ok (lo + 65536 * hi)

/-- `offsetof(struct version_info, key[n])`. -/
def keyOffset (n : ℕ) : ℕ := 6 + 2 * n

/-- `(n + 3) & ~3`. -/
def round4 (n : ℕ) : ℕ := (n + 3) / 4 * 4

/-- `struct version_entry`, with offsets for the pointers. -/
structure VersionEntry where
  info : ℕ
  value : ℕ
  next : ℕ
  child : ℕ
  deriving DecidableEq, Repr

def scanKey (res : List UInt8) (info infoLen : ℕ) : ℕ → ℕ → Except Fault (Option ℕ)
  | 0, _ => .error .endless
  | turns + 1, len => do
    let c ← readWord res (info + keyOffset len)
    if c = 0 then .ok (some len)
    else if keyOffset (len + 1) > infoLen then .ok none
    else scanKey res info infoLen turns (len + 1)

def valueSize (valLen type : ℕ) : ℕ := valLen * if type ≠ 0 then 2 else 1

def getVersionEntry (res : List UInt8) (ptr stop : ℕ) : Except Fault (Option VersionEntry) :=
  if ptr + 8 > stop then .ok none
  else do
    let infoLen ← readWord res ptr
    if ptr + infoLen > stop then .ok none
    else
      match ← scanKey res ptr infoLen (infoLen + 1) 0 with
      | none => .ok none
      | some len => do
        let valLen ← readWord res (ptr + 2)
        let type ← readWord res (ptr + 4)
        let len := round4 (keyOffset (len + 1))
        if len + valueSize valLen type > infoLen then .ok none
        else
          .ok (some {
            info := ptr
            value := ptr + len
            child := ptr + len + round4 (valueSize valLen type)
            next := ptr + round4 infoLen })

/-- `wcsicmp` tells no difference; only the end of a string is in upper case what its end is. -/
def wcsicmp (upper : ℕ → ℕ) (res : List UInt8) : ℕ → List ℕ → Except Fault Bool
  | pos, [] => do
    let c ← readWord res pos
    .ok (decide (upper c = upper 0))
  | pos, d :: name => do
    let c ← readWord res pos
    if upper c ≠ upper d then .ok false
    else if c = 0 then .ok true
    else wcsicmp upper res (pos + 2) name

/-- `wcsnicmp` tells no difference in the characters of the name. -/
def wcsnicmp (upper : ℕ → ℕ) (res : List UInt8) : ℕ → List ℕ → Except Fault Bool
  | _, [] => .ok true
  | pos, d :: name => do
    let c ← readWord res pos
    if upper c ≠ upper d then .ok false
    else if c = 0 then .ok true
    else wcsnicmp upper res (pos + 2) name

/-- The loop of `version_find_key`, in a given number of turns. -/
def findKeyLoop (upper : ℕ → ℕ) (res : List UInt8) (name : List ℕ) (stop : ℕ) :
    ℕ → VersionEntry → Except Fault (Option VersionEntry)
  | 0, _ => .error .endless
  | turns + 1, ret => do
    if ← wcsicmp upper res (ret.info + keyOffset 0) name then .ok (some ret)
    else
      match ← getVersionEntry res ret.next stop with
      | none => .ok none
      | some ret => findKeyLoop upper res name stop turns ret

def versionFindKey (upper : ℕ → ℕ) (res : List UInt8) (parent : VersionEntry) (name : List ℕ) :
    Except Fault (Option VersionEntry) := do
  match ← getVersionEntry res parent.child parent.next with
  | none => .ok none
  | some ret => findKeyLoop upper res name parent.next parent.next ret

inductive LoadOrder
  | invalid | disabled | native | builtin | nativeBuiltin | builtinNative | default
  deriving DecidableEq, Repr

def chars (s : String) : List ℕ := s.toList.map Char.toNat

def fileinfoW : List ℕ := chars "StringFileInfo"

def companyW : List ℕ := chars "CompanyName"

def vendors : List (List ℕ × LoadOrder) :=
  [(chars "Microsoft", .default), (chars "Twain Working Group", .builtin)]

def findVendor (upper : ℕ → ℕ) (res : List UInt8) (name len : ℕ) :
    List (List ℕ × LoadOrder) → Except Fault LoadOrder
  | [] => .ok .nativeBuiltin
  | (vendor, lo) :: rest => do
    if len < vendor.length then findVendor upper res name len rest
    else if ← wcsnicmp upper res name vendor then .ok lo
    else findVendor upper res name len rest

/-- What `struct pe_mapping_info` says about the resource. -/
structure PeMapping where
  wineBuiltin : Bool
  wineFakedll : Bool
  versionRes : List UInt8

def companyOrder (upper : ℕ → ℕ) (res : List UInt8) (entry : VersionEntry) :
    Except Fault LoadOrder := do
  let type ← readWord res (entry.info + 4)
  let len ← readWord res (entry.info + 2)
  if type = 0 ∨ len = 0 then .ok .invalid
  else
    let last ← readWord res (entry.value + 2 * (len - 1))
    findVendor upper res entry.value (if last = 0 then len - 1 else len) vendors

/-- The walk from the first entry, whose value is a `VS_FIXEDFILEINFO`. -/
def walk (upper : ℕ → ℕ) (res : List UInt8) : Except Fault LoadOrder := do
  match ← getVersionEntry res 0 res.length with
  | none => .ok .invalid
  | some entry =>
    let valLen ← readWord res (entry.info + 2)
    if valLen < 52 then .ok .invalid
    else
      let signature ← readDword res entry.value
      if signature ≠ 0xfeef04bd then .ok .invalid
      else
        match ← versionFindKey upper res entry fileinfoW with
        | none => .ok .invalid
        | some entry =>
          match ← getVersionEntry res entry.child entry.next with
          | none => .ok .invalid
          | some entry =>
            match ← versionFindKey upper res entry companyW with
            | none => .ok .invalid
            | some entry => companyOrder upper res entry

def versionHeuristics (upper : ℕ → ℕ) : Option PeMapping → Except Fault LoadOrder
  | none => .ok .invalid
  | some mapping =>
    if mapping.wineBuiltin || mapping.wineFakedll then .ok .invalid
    else if mapping.versionRes.length = 0 then .ok .nativeBuiltin
    else walk upper mapping.versionRes

end WineForge.VersionResource
