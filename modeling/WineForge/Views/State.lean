import WineForge.Library.SortedInsert

/-!
# Views of the address space

The views of `ntdll/unix/virtual.c` and the parts of `NtFreeVirtualMemory` that change them, on a
64-bit system. The tree of the views is the list of them in the order of their bases. A view lies in
the user space, so that sums of addresses do not wrap; the size of a request may be anything.
`host` is the size of a page of the host and `memory` says whether the host has memory left. A call
has no result where the code fails an assertion.
-/

namespace WineForge.Views

open Library

def pageSize : ℕ := 0x1000

def vprotCommitted : ℕ := 0x20
def vprotSystem : ℕ := 0x200
def vprotPlaceholder : ℕ := 0x400
def vprotFreePlaceholder : ℕ := 0x800

def secFile : ℕ := 0x800000
def secReserve : ℕ := 0x4000000
def secCommit : ℕ := 0x8000000

def memCoalescePlaceholders : ℕ := 0x1
def memPreservePlaceholder : ℕ := 0x2
def memDecommit : ℕ := 0x4000
def memRelease : ℕ := 0x8000

inductive Status
  | success
  | invalidParameter
  | invalidParameter3
  | invalidParameter4
  | memoryNotAllocated
  | freeVmNotAtBase
  | unableToFreeVm
  | conflictingAddresses
  | noMemory
  deriving DecidableEq, Repr

structure FileView where
  base : ℕ
  size : ℕ
  protect : ℕ
  deriving DecidableEq, Repr

namespace FileView

def stop (view : FileView) : ℕ := view.base + view.size

def isFreePlaceholder (view : FileView) : Bool :=
  decide (view.protect &&& vprotFreePlaceholder ≠ 0)

def isViewValloc (view : FileView) : Bool :=
  decide (view.protect &&& (secFile ||| secReserve ||| secCommit) = 0)

end FileView

/-- The views, the protection byte of each page and which of its tables there are, and the view
structures in the free list and in the current block. -/
structure State where
  viewsTree : List FileView
  vprot : ℕ → ℕ
  vprotTables : ℕ → Bool
  freeViews : ℕ
  blockViews : ℕ

def roundAddr (addr page : ℕ) : ℕ := addr - addr % page

def roundSize (addr size page : ℕ) : ℕ :=
  let total := (size + addr % page + (page - 1)) % 2 ^ 64
  total - total % page

def setPageVprot (vprot : ℕ → ℕ) (addr size byte : ℕ) (page : ℕ) : ℕ :=
  if addr / pageSize ≤ page ∧ page < (addr + size + (pageSize - 1)) / pageSize then byte % 0x100
  else vprot page

def setPageVprotBits (vprot : ℕ → ℕ) (addr size set clear : ℕ) (page : ℕ) : ℕ :=
  if addr / pageSize ≤ page ∧ page < (addr + size + (pageSize - 1)) / pageSize then
    (vprot page &&& (0xff ^^^ clear)) ||| set
  else vprot page

def allocTables (memory : Bool) (tables : ℕ → Bool) : List ℕ → (ℕ → Bool) × Bool
  | [] => (tables, true)
  | i :: numbers =>
    if tables i then allocTables memory tables numbers
    else if memory then allocTables memory (Function.update tables i true) numbers
    else (tables, false)

/-- The numbers of the tables of a range of pages; a table has `2 ^ 20` pages. -/
def tableNumbers (addr size : ℕ) : List ℕ :=
  let idx := addr / pageSize
  let stop := (addr + size + (pageSize - 1)) / pageSize
  List.range' (idx / 2 ^ 20) ((stop + (2 ^ 20 - 1)) / 2 ^ 20 - idx / 2 ^ 20)

namespace State

/-- The structures in a block of `view_block_size` bytes. -/
def viewsPerBlock : ℕ := 0x100000 / 56

def allocView (memory : Bool) (s : State) : Option State :=
  if 0 < s.freeViews then some { s with freeViews := s.freeViews - 1 }
  else if s.blockViews = 0 then
    if memory then some { s with blockViews := viewsPerBlock - 1 } else none
  else some { s with blockViews := s.blockViews - 1 }

def freeView (s : State) : State := { s with freeViews := s.freeViews + 1 }

/-- `wine_rb_put` does nothing where the tree has the key. -/
def registerView (s : State) (view : FileView) : State :=
  if s.viewsTree.any fun v => v.base = view.base then s
  else
    { s with
      viewsTree := insertBefore (fun v => decide (view.base < v.base)) view s.viewsTree }

def unregisterView (s : State) (view : FileView) : State :=
  { s with viewsTree := s.viewsTree.erase view }

/-- `find_view` for an address. -/
def findView (s : State) (addr : ℕ) : Option FileView :=
  s.viewsTree.find? fun view => view.base ≤ addr ∧ addr < view.stop

def deleteView (s : State) (view : FileView) : State :=
  freeView (unregisterView
    { s with vprot := setPageVprot s.vprot view.base view.size 0 } view)

/-- `create_view`. Views that overlap are deleted one by one. -/
def createView (host : ℕ) (memory : Bool) (s : State) (base size vprot : ℕ) :
    Option (State × Status) :=
  let overlapping := s.viewsTree.filter fun view => view.base < base + size ∧ base < view.stop
  if base % host ≠ 0 ∨ size % pageSize ≠ 0 then none
  else if overlapping.any fun view => view.protect &&& vprotSystem = 0 then none
  else
    let s := overlapping.foldl deleteView s
    let tables := allocTables memory s.vprotTables (tableNumbers base size)
    let s := { s with vprotTables := tables.1 }
    if tables.2 = false then some (s, .noMemory)
    else
      match s.allocView memory with
      | none => some (s, .noMemory)
      | some s =>
        some (registerView { s with vprot := setPageVprot s.vprot base size vprot }
          ⟨base, size, vprot⟩, .success)

def decommitPages (s : State) (view : FileView) (base size : ℕ) : State × Status :=
  let size := if size = 0 then view.size else size
  ({ s with vprot := setPageVprotBits s.vprot base size 0 vprotCommitted }, .success)

def removePagesFromView (memory : Bool) (s : State) (view : FileView) (base size : ℕ) :
    Option (State × Status) :=
  if view.size ≤ size then none
  else if view.base ≠ base ∧ base + size ≠ view.stop then
    match s.allocView memory with
    | none => some (s, .noMemory)
    | some s =>
      let newView : FileView := ⟨base + size, view.stop - (base + size), view.protect⟩
      let s := unregisterView s view
      let s := registerView s { view with size := base - view.base }
      some (registerView s newView, .success)
  else
    let s := unregisterView s view
    if view.base = base then
      some (registerView s ⟨base + size, view.size - size, view.protect⟩, .success)
    else some (registerView s { view with size := base - view.base }, .success)

/-- The end of `free_pages_preserve_placeholder`. -/
def makePlaceholder (s : State) (view : FileView) : State :=
  { s with
    viewsTree := s.viewsTree.map fun v =>
      if v = view then { view with protect := vprotPlaceholder ||| vprotFreePlaceholder } else v
    vprot := setPageVprot s.vprot view.base view.size 0 }

def freePagesPreservePlaceholder (host : ℕ) (memory : Bool) (s : State) (view : FileView)
    (base size : ℕ) : Option (State × Status) :=
  if size = 0 then some (s, .invalidParameter3)
  else if view.protect &&& vprotPlaceholder = 0 then some (s, .conflictingAddresses)
  else if view.isFreePlaceholder ∧ size = view.size then some (s, .conflictingAddresses)
  else if size < view.size then
    if base % host ≠ 0 ∨ (size % host ≠ 0 ∧ base + size ≠ view.stop) then
      some (s, .conflictingAddresses)
    else
      match removePagesFromView memory s view base size with
      | none => none
      | some (s, status) =>
        if status ≠ .success then some (s, status)
        else
          let protect := vprotPlaceholder ||| vprotFreePlaceholder
          match createView host memory s base size protect with
          | none => none
          | some (s, status) =>
            if status ≠ .success then some (s, status)
            else some (makePlaceholder s ⟨base, size, protect⟩, .success)
  else some (makePlaceholder s view, .success)

/-- The end of `free_pages`. -/
def freePart (memory : Bool) (s : State) (view : FileView) (base size : ℕ) :
    Option (State × Status) :=
  match removePagesFromView memory s view base size with
  | none => none
  | some (s, status) =>
    if status = .success then
      some ({ s with vprot := setPageVprot s.vprot base size 0 }, .success)
    else some (s, status)

def freePages (host : ℕ) (memory : Bool) (s : State) (view : FileView) (base size : ℕ) :
    Option (State × Status) :=
  if size = view.size then
    if base = view.base then some (deleteView s view, .success) else none
  else if view.base = base then
    if size % host ≠ 0 then some (s, .conflictingAddresses)
    else freePart memory s view base size
  else if base + size < view.stop ∧ (base + size) % host ≠ 0 then some (s, .conflictingAddresses)
  else freePart memory s view base size

/-- The loop of `coalesce_placeholders` over the view and those behind it: how many it takes and
their size. -/
def coalesceWalk (size : ℕ) : List FileView → ℕ → ℕ → ℕ × ℕ
  | [], viewCount, viewsSize => (viewCount, viewsSize)
  | curr :: rest, viewCount, viewsSize =>
    if curr.isFreePlaceholder then
      if size ≤ viewsSize + curr.size then (viewCount + 1, viewsSize + curr.size)
      else
        match rest with
        | [] => (viewCount + 1, viewsSize + curr.size)
        | next :: _ =>
          if curr.stop ≠ next.base then (viewCount + 1, viewsSize + curr.size)
          else coalesceWalk size rest (viewCount + 1) (viewsSize + curr.size)
    else (viewCount, viewsSize)

def rbNext (s : State) (view : FileView) : Option FileView :=
  s.viewsTree.find? fun v => decide (view.base < v.base)

/-- Frees as many views behind `view`. -/
def freeNext (view : FileView) : ℕ → State → Option State
  | 0, s => some s
  | n + 1, s =>
    match s.rbNext view with
    | none => none
    | some curr => freeNext view n (freeView (unregisterView s curr))

def coalescePlaceholders (s : State) (view : FileView) (base size : ℕ) : Option (State × Status) :=
  if size = 0 then some (s, .invalidParameter3)
  else if base ≠ view.base then some (s, .conflictingAddresses)
  else
    let walked := coalesceWalk size (s.viewsTree.filter fun v => view.base ≤ v.base) 0 0
    if walked.1 < 2 ∨ size ≠ walked.2 then some (s, .conflictingAddresses)
    else
      match freeNext view (walked.1 - 1) s with
      | none => none
      | some s => some (registerView (unregisterView s view) { view with size := walked.2 },
          .success)

/-- The `switch` of `NtFreeVirtualMemory`, with the size that the caller gets. -/
def freeByType (host : ℕ) (memory : Bool) (s : State) (view : FileView) (base size type : ℕ) :
    Option (State × Status) × ℕ :=
  if type = memDecommit then (some (decommitPages s view base size), size)
  else if type = memRelease then
    let size := if size = 0 then view.size else size
    (freePages host memory s view base size, size)
  else if type = memRelease ||| memPreservePlaceholder then
    (freePagesPreservePlaceholder host memory s view base size, size)
  else if type = memRelease ||| memCoalescePlaceholders then
    (coalescePlaceholders s view base size, size)
  else if type = memCoalescePlaceholders then (some (s, .invalidParameter4), size)
  else (some (s, .invalidParameter), size)

end State

/-- What the caller has after the call. -/
structure Reply where
  status : Status
  addr : ℕ
  size : ℕ
  deriving DecidableEq, Repr

namespace State

def ntFreeVirtualMemory (host : ℕ) (memory : Bool) (s : State) (addr size type : ℕ) :
    Option (State × Reply) :=
  let rounded := if size = 0 then 0 else roundSize addr size pageSize
  let base := roundAddr addr pageSize
  let fails := fun status => some (s, (⟨status, addr, size⟩ : Reply))
  if base = 0 then fails .invalidParameter
  else
    match s.findView base with
    | none => fails .memoryNotAllocated
    | some view =>
      if view.isViewValloc = false then fails .invalidParameter
      else if rounded = 0 ∧ base ≠ view.base then fails .freeVmNotAtBase
      else if view.stop - base < rounded ∧ type &&& memCoalescePlaceholders = 0 then
        fails .unableToFreeVm
      else
        let freed := s.freeByType host memory view base rounded type
        freed.1.map fun result =>
          if result.2 = .success then (result.1, ⟨.success, base, freed.2⟩)
          else (result.1, ⟨result.2, addr, size⟩)

end State

end WineForge.Views
