import Mathlib.Data.List.Basic
import Mathlib.Algebra.Order.Ring.Int

/-!
# Polling for directory changes

The fallback of the server where the system has no change notification: a timer compares each
directory with the entries of its last scan. Reading a directory succeeds, and its files do not
change during a scan.
-/

namespace WineForge.DirectoryChanges

open Function

/-- What is compared of `struct stat`. The times are seconds and nanoseconds. -/
structure Stat where
  mode : UInt32
  size : ℤ
  mtime : ℤ × ℤ
  atime : ℤ × ℤ
  ctime : ℤ × ℤ
  deriving DecidableEq

def fileNotifyChangeFileName : UInt32 := 0x1
def fileNotifyChangeDirName : UInt32 := 0x2
def fileNotifyChangeAttributes : UInt32 := 0x4
def fileNotifyChangeSize : UInt32 := 0x8
def fileNotifyChangeLastWrite : UInt32 := 0x10
def fileNotifyChangeLastAccess : UInt32 := 0x20
def fileNotifyChangeCreation : UInt32 := 0x40

/-- `S_ISDIR`. -/
def Stat.isDir (st : Stat) : Bool := st.mode &&& 0xf000 = 0x4000

def changePollNameFilter (st : Stat) : UInt32 :=
  if st.isDir then fileNotifyChangeDirName else fileNotifyChangeFileName

def changePollModifiedFilter (oldSt newSt : Stat) : UInt32 :=
  (if oldSt.mode ≠ newSt.mode then fileNotifyChangeAttributes else 0) |||
  (if oldSt.size ≠ newSt.size then fileNotifyChangeSize else 0) |||
  (if oldSt.mtime ≠ newSt.mtime then fileNotifyChangeLastWrite else 0) |||
  (if oldSt.atime ≠ newSt.atime then fileNotifyChangeLastAccess else 0) |||
  (if oldSt.ctime ≠ newSt.ctime then fileNotifyChangeAttributes ||| fileNotifyChangeCreation else 0)

/-- `FILE_ACTION_*`, as far as they are used. -/
inductive FileAction
  | added | removed | modified
  deriving DecidableEq, Repr

/-- A change that is told to the clients. -/
structure Report where
  action : FileAction
  name : String
  deriving DecidableEq, Repr

/-- `struct change_poll_entry`. -/
structure PollEntry where
  name : String
  st : Stat
  seen : Bool

/-- `struct dir`, and the number of requests that wait on it. -/
structure Dir where
  filter : UInt32
  wantData : Bool
  subtree : Bool
  changeRecords : List Report
  pollEntries : List PollEntry
  asyncs : ℕ

/-- `create_dir_obj`. -/
def Dir.create : Dir := ⟨0, false, false, [], [], 0⟩

/-- A directory during a scan, and the changes that the scan has told. -/
structure Scan where
  dir : Dir
  reports : List Report

/-- `change_poll_notify`. -/
def Scan.notify (r : Scan) (action : FileAction) (filter : UInt32) (name : String) : Scan :=
  if filter &&& r.dir.filter = 0 then r
  else
    { dir := { r.dir with
        changeRecords :=
          if r.dir.wantData then r.dir.changeRecords ++ [⟨action, name⟩] else r.dir.changeRecords
        asyncs := 0 }
      reports := r.reports ++ [⟨action, name⟩] }

def Scan.setEntries (r : Scan) (entries : List PollEntry) : Scan :=
  { r with dir := { r.dir with pollEntries := entries } }

/-- `change_poll_find_entry`. -/
def findEntry (entries : List PollEntry) (name : String) : Option PollEntry :=
  entries.find? fun entry => entry.name = name

def refreshEntry (name : String) (st : Stat) : List PollEntry → List PollEntry
  | [] => []
  | entry :: entries =>
    if entry.name = name then ⟨name, st, true⟩ :: entries
    else entry :: refreshEntry name st entries

def Scan.visit (initial : Bool) (r : Scan) (file : String × Stat) : Scan :=
  if file.1 = "." ∨ file.1 = ".." then r
  else
    match findEntry r.dir.pollEntries file.1 with
    | none =>
      let r := r.setEntries (r.dir.pollEntries ++ [⟨file.1, file.2, true⟩])
      if initial then r
      else r.notify .added (changePollNameFilter file.2 ||| fileNotifyChangeCreation) file.1
    | some entry =>
      let filter := changePollModifiedFilter entry.st file.2
      let r := r.setEntries (refreshEntry file.1 file.2 r.dir.pollEntries)
      if initial = false ∧ filter ≠ 0 then r.notify .modified filter file.1 else r

def Scan.remove (initial : Bool) (r : Scan) (entry : PollEntry) : Scan :=
  if initial then r else r.notify .removed (changePollNameFilter entry.st) entry.name

/-- `change_poll_scan_dir`, for a directory of these files. -/
def changePollScanDir (dir : Dir) (files : List (String × Stat)) (initial : Bool) : Scan :=
  let r : Scan := ⟨{ dir with
    pollEntries := dir.pollEntries.map fun entry => { entry with seen := false } }, []⟩
  let r := files.foldl (Scan.visit initial) r
  let unseen := r.dir.pollEntries.filter fun entry => !entry.seen
  let r := unseen.foldl (Scan.remove initial) r
  r.setEntries (r.dir.pollEntries.filter fun entry => entry.seen)

/-- A scan as it is remembered: the files at the scan before, if any, those now, and what was
told. -/
structure ScanRecord where
  filter : UInt32
  before : Option (List (String × Stat))
  now : List (String × Stat)
  reports : List Report

/-- The directory objects with the files in their directories, `change_list`, and whether
`change_poll_timer` is armed; the files at the last scan of each directory and the scans so far are
remembered only for what is said about them. -/
structure ChangeServer where
  dirs : ℕ → Option Dir
  files : ℕ → List (String × Stat)
  changeList : List ℕ
  changePollTimer : Bool
  lastScan : ℕ → Option (List (String × Stat))
  scans : List ScanRecord

def ChangeServer.initial : ChangeServer where
  dirs _ := none
  files _ := []
  changeList := []
  changePollTimer := false
  lastScan _ := none
  scans := []

def ChangeServer.setDir (s : ChangeServer) (d : ℕ) (dir : Option Dir) : ChangeServer :=
  { s with dirs := update s.dirs d dir }

def ChangeServer.scan (s : ChangeServer) (d : ℕ) (dir : Dir) (initial : Bool) : ChangeServer :=
  let r := changePollScanDir dir (s.files d) initial
  { s with
    dirs := update s.dirs d (some r.dir)
    lastScan := update s.lastScan d (some (s.files d))
    scans := s.scans ++ [⟨dir.filter, s.lastScan d, s.files d, r.reports⟩] }

/-- `change_poll_adjust_changes`. -/
def ChangeServer.adjustChanges (s : ChangeServer) (d : ℕ) (dir : Dir) : ChangeServer :=
  let s := if dir.pollEntries.isEmpty then s.scan d dir true else s.setDir d (some dir)
  { s with changePollTimer := true }

/-- The handler of `read_directory_changes`. Without the filter it fails. -/
def ChangeServer.readDirectoryChanges (s : ChangeServer) (d : ℕ) (dir : Dir) (filter : UInt32)
    (subtree wantData : Bool) : ChangeServer :=
  if filter = 0 then s
  else
    let dir := { dir with asyncs := dir.asyncs + 1 }
    -- the filter is assigned once
    let first := decide (dir.filter = 0)
    let s := if first then { s with changeList := d :: s.changeList } else s
    let dir := if first then { dir with filter, subtree, wantData } else dir
    let dir := if dir.changeRecords.isEmpty then dir else { dir with asyncs := 0 }
    s.adjustChanges d dir

/-- The loop of `change_poll_callback`. -/
def ChangeServer.scanAll (s : ChangeServer) (ds : List ℕ) : ChangeServer :=
  ds.foldl (fun s d =>
    match s.dirs d with
    | some dir => if dir.filter ≠ 0 then s.scan d dir false else s
    | none => s) s

def ChangeServer.changePollCallback (s : ChangeServer) : ChangeServer :=
  let s := { s with changePollTimer := false }.scanAll s.changeList
  { s with changePollTimer := !s.changeList.isEmpty }

def ChangeServer.dirDestroy (s : ChangeServer) (d : ℕ) (dir : Dir) : ChangeServer :=
  let s := if dir.filter ≠ 0 then { s with changeList := s.changeList.erase d } else s
  { s.setDir d none with
    changePollTimer := s.changePollTimer && !s.changeList.isEmpty
    lastScan := update s.lastScan d none }

inductive ChangeAction
  | create (d : ℕ)
  | destroy (d : ℕ)
  | readDirectoryChanges (d : ℕ) (filter : UInt32) (subtree wantData : Bool)
  | readChange (d : ℕ)
  | poll
  | change (d : ℕ) (files : List (String × Stat))

def ChangeServer.step (s : ChangeServer) : ChangeAction → Option ChangeServer
  | .create d => if s.dirs d = none then some (s.setDir d (some Dir.create)) else none
  | .destroy d => (s.dirs d).map (s.dirDestroy d)
  | .readDirectoryChanges d filter subtree wantData =>
    (s.dirs d).map fun dir => s.readDirectoryChanges d dir filter subtree wantData
  | .readChange d => (s.dirs d).map fun dir => s.setDir d (some { dir with changeRecords := [] })
  | .poll => if s.changePollTimer then some s.changePollCallback else none
  | .change d files =>
    if (files.map Prod.fst).Nodup then some { s with files := update s.files d files }
    else none

end WineForge.DirectoryChanges
