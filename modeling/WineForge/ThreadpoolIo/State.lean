import Mathlib.Data.List.Basic
import WineForge.Library.Transition

/-!
# Thread pool objects for asynchronous I/O

The key of a completion packet is the pointer to the object, so the object must stay until its last
packet was taken from the port. `pending_count` counts the operations that still need a callback and
`skipped_count` those that a cancelling wait gave up.

A step is a section of the code under `pool->cs` or `ioqueue.cs`, or a single interlocked operation.
A failed assertion ends the process, so there is no step. An application uses an object until it
releases it, and releases it once: with `TpReleaseIoCompletion` or with the cleanup group.
-/

namespace WineForge.ThreadpoolIo

open Function Library

/-- The memory of an object; it is `dying` while `tp_object_release` cleans it up. -/
inductive Life
  | absent | live | dying | freed
  deriving DecidableEq

/-- How far `TpReleaseIoCompletion` has come with an object: where nothing is outstanding,
`tp_object_prepare_shutdown`, `shutdown = TRUE` and the reference of the application follow. -/
inductive Release
  | held | unlock | mark | drop | returned
  deriving DecidableEq

/-- How far `TpReleaseCleanupGroupMembers` has come with a member. -/
inductive GroupStage
  | outside
  | unlock (cancelPending : Bool)
  | cancel | wait | check | dropObject | mark | drop | done
  deriving DecidableEq

def GroupStage.early : GroupStage → Bool
  | outside | unlock _ | cancel | wait => true
  | check | dropObject | mark | drop | done => false

def GroupStage.holds : GroupStage → Bool
  | outside | done => false
  | unlock _ | cancel | wait | check | dropObject | mark | drop => true

structure Io (Op St : Type) where
  refcount : Int
  shutdown : Bool
  isGroupMember : Bool
  numPending : Nat
  numRunning : Nat
  numAssociated : Nat
  pendingCount : Int
  skippedCount : Int
  shuttingDown : Bool
  /-- The array `completions`, the last element first. -/
  completions : List (Op × St)
  life : Life
  -- the calls in progress
  release : Release
  group : GroupStage
  /-- References that loops of `tp_object_cancel` have still to drop. -/
  owed : Nat
  /-- Workers that have still to drop the reference of the callback they have run. -/
  finishing : Nat
  -- history: whether the reference of the application is gone, and the operations that have neither
  -- been cancelled nor had their packet processed
  dropped : Bool
  pendingOps : List Op
  skippedOps : List Op
  deriving DecidableEq

abbrev Packet (Obj Op St : Type) := Option (Obj × Op × St)

/-- The control state of `ioqueue_thread_proc`. -/
inductive Pc (Obj Op St : Type)
  | stopped
  /-- In `NtRemoveIoCompletion`. -/
  | removing
  | got (packet : Packet Obj Op St)
  /-- At the first section, of an object that is shutting down. -/
  | closing (o : Obj) (op : Op) (iosb : St)
  /-- At the second section. -/
  | deliver (o : Obj) (op : Op) (iosb : St)
  | destroy (o : Obj)
  | destroyDrop (o : Obj)
  /-- At the test of `ioqueue.objcount`. -/
  | tail
  | asleep
  deriving DecidableEq

/-- The thread owns `ioqueue.cs`. -/
def Pc.locked {Obj Op St : Type} : Pc Obj Op St → Bool
  | closing .. | deliver .. | destroy _ | destroyDrop _ | tail => true
  | stopped | removing | got _ | asleep => false

def Pc.hand {Obj Op St : Type} : Pc Obj Op St → Packet Obj Op St
  | got packet => packet
  | closing o op iosb | deliver o op iosb => some (o, op, iosb)
  | stopped | removing | destroy _ | destroyDrop _ | tail | asleep => none

/-- `tp_ioqueue_lock` creates the thread unless it is running. -/
def Pc.start {Obj Op St : Type} : Pc Obj Op St → Pc Obj Op St
  | stopped => removing
  | pc => pc

structure State (Obj Op St : Type) where
  io : Obj → Io Op St
  objcount : Int
  port : List (Packet Obj Op St)
  pc : Pc Obj Op St
  -- history: the object of an operation, how it ended, and the callbacks that were called
  owner : Op → Option Obj
  posted : Op → Option St
  cancelled : Op → Bool
  calls : List (Obj × Op × St)

section Objects

variable {Op St : Type}

def Io.blank : Io Op St :=
  ⟨0, false, false, 0, 0, 0, 0, 0, false, [], .absent, .held, .outside, 0, 0, true, [], []⟩

def Io.Outstanding (r : Io Op St) (op : Op) : Prop := op ∈ r.pendingOps ∨ op ∈ r.skippedOps

instance [DecidableEq Op] (r : Io Op St) (op : Op) : Decidable (r.Outstanding op) :=
  inferInstanceAs (Decidable (_ ∨ _))

def Io.Usable (r : Io Op St) : Prop :=
  r.life = .live ∧ r.release = .held ∧ r.group.early = true

instance (r : Io Op St) : Decidable r.Usable := inferInstanceAs (Decidable (_ ∧ _))

def Io.live (r : Io Op St) : List (Op × St) := r.completions.take r.numPending

def Io.settle [DecidableEq Op] (r : Io Op St) (op : Op) : Io Op St :=
  { r with pendingOps := r.pendingOps.erase op, skippedOps := r.skippedOps.erase op }

def objectIsFinished (r : Io Op St) (group : Bool) : Bool :=
  r.numPending = 0 && r.pendingCount = 0 &&
    if group then r.numRunning = 0 else r.numAssociated = 0

def objectRelease (r : Io Op St) : Option (Io Op St) :=
  if r.refcount - 1 ≠ 0 then some { r with refcount := r.refcount - 1 }
  else if r.shutdown && r.numPending = 0 && r.numRunning = 0 && r.numAssociated = 0 then
    some { r with refcount := r.refcount - 1, life := .dying }
  else none

def objectSubmit (r : Io Op St) : Option (Io Op St) :=
  if r.shutdown then none
  else some { r with refcount := r.refcount + 1, numPending := r.numPending + 1 }

def objectCancel (r : Io Op St) : Io Op St :=
  { r with
    numPending := 0
    owed := r.owed + r.numPending
    skippedCount := r.skippedCount + r.pendingCount
    pendingCount := 0
    skippedOps := r.pendingOps ++ r.skippedOps
    pendingOps := [] }

end Objects

variable {Obj Op St : Type} [DecidableEq Obj] [DecidableEq Op]

def setIo (s : State Obj Op St) (o : Obj) (r : Io Op St) : State Obj Op St :=
  { s with io := update s.io o r }

/-- `tp_object_release`, after which the caller has come to `k`. -/
def releaseRef (s : State Obj Op St) (o : Obj) (k : Io Op St → Io Op St) :
    Option (State Obj Op St) :=
  (objectRelease (s.io o)).map fun r => setIo s o (k r)

def ioqueueUnlock (s : State Obj Op St) (o : Obj) (k : Io Op St → Io Op St) :
    Option (State Obj Op St) :=
  if s.pc.locked || s.objcount = 0 then none
  else if (s.io o).shutdown then some (setIo s o (k (s.io o)))
  else if s.objcount - 1 ≠ 0 then
    some { setIo s o (k (s.io o)) with objcount := s.objcount - 1 }
  else some { setIo s o (k (s.io o)) with objcount := s.objcount - 1, port := s.port ++ [none] }

/-- `tp_object_cancel` up to the loop that drops the references. -/
def cancelObject (s : State Obj Op St) (o : Obj) (k : Io Op St → Io Op St) : State Obj Op St :=
  { setIo s o (k (objectCancel (s.io o))) with
    cancelled := fun op => s.cancelled op || (decide (op ∈ (s.io o).pendingOps) ||
      decide (op ∈ (s.io o).live.map Prod.fst)) }

def allocIoCompletion (s : State Obj Op St) (o : Obj) (grouped : Bool) : Option (State Obj Op St) :=
  if (s.io o).life = .absent ∧ s.pc.locked = false then
    some { setIo s o { Io.blank with
        refcount := 1, isGroupMember := grouped, life := .live, dropped := false } with
      objcount := s.objcount + 1
      pc := s.pc.start }
  else none

def startAsyncIoOperation (s : State Obj Op St) (o : Obj) (op : Op) : Option (State Obj Op St) :=
  if (s.io o).Usable ∧ s.owner op = none then
    some { setIo s o { s.io o with
        pendingCount := (s.io o).pendingCount + 1, pendingOps := op :: (s.io o).pendingOps } with
      owner := update s.owner op (some o) }
  else none

def postPacket (s : State Obj Op St) (op : Op) (iosb : St) : Option (State Obj Op St) :=
  match s.owner op with
  | none => none
  | some o =>
    if (s.io o).Outstanding op ∧ (s.posted op).isNone then
      some { s with
        port := s.port ++ [some (o, op, iosb)]
        posted := update s.posted op (some iosb) }
    else none

def cancelAsyncIoOperation (s : State Obj Op St) (op : Op) : Option (State Obj Op St) :=
  match s.owner op with
  | none => none
  | some o =>
    if (s.io o).Outstanding op ∧ (s.posted op).isNone then
      some { setIo s o { (s.io o).settle op with pendingCount := (s.io o).pendingCount - 1 } with
        cancelled := update s.cancelled op true }
    else none

/-- `tp_object_wait` at the end only reads the object. -/
def waitForIoCompletion (s : State Obj Op St) (o : Obj) (cancelPending : Bool) :
    Option (State Obj Op St) :=
  if (s.io o).Usable then some (if cancelPending then cancelObject s o id else s) else none

def cancelRelease (s : State Obj Op St) (o : Obj) : Option (State Obj Op St) :=
  if (s.io o).owed = 0 then none
  else releaseRef s o fun r => { r with owed := r.owed - 1 }

def releaseIoCompletion (s : State Obj Op St) (o : Obj) : Option (State Obj Op St) :=
  if (s.io o).Usable ∧ (s.io o).group = .outside then
    some (setIo s o { s.io o with
      shuttingDown := true
      release := if (s.io o).pendingCount = 0 ∧ (s.io o).skippedCount = 0 then .unlock
        else .returned })
  else none

/-- The rest of `TpReleaseIoCompletion` where nothing is outstanding. -/
def releaseNext (s : State Obj Op St) (o : Obj) : Option (State Obj Op St) :=
  match (s.io o).release with
  | .unlock => ioqueueUnlock s o fun r => { r with release := .mark }
  | .mark => some (setIo s o { s.io o with shutdown := true, release := .drop })
  | .drop => releaseRef s o fun r => { r with release := .returned, dropped := true }
  | .held | .returned => none

/-- `TpReleaseCleanupGroupMembers` comes to a member in its first loop. -/
def takeMember (s : State Obj Op St) (o : Obj) (cancelPending : Bool) : Option (State Obj Op St) :=
  if (s.io o).isGroupMember then
    if (s.io o).refcount + 1 = 1 then some (setIo s o { s.io o with isGroupMember := false })
    else some (setIo s o { s.io o with
      refcount := (s.io o).refcount + 1
      isGroupMember := false
      group := .unlock cancelPending })
  else none

/-- What `TpReleaseCleanupGroupMembers` does with a member afterwards. -/
def groupNext (s : State Obj Op St) (o : Obj) : Option (State Obj Op St) :=
  match (s.io o).group with
  | .unlock cancelPending =>
    ioqueueUnlock s o fun r => { r with group := if cancelPending then .cancel else .wait }
  | .cancel => some (cancelObject s o fun r => { r with group := .wait })
  | .wait =>
    if objectIsFinished (s.io o) true then some (setIo s o { s.io o with group := .check })
    else none
  | .check => some (setIo s o { s.io o with
      group := if (s.io o).shutdown then .mark else .dropObject })
  | .dropObject => releaseRef s o fun r => { r with dropped := true, group := .mark }
  | .mark => some (setIo s o { s.io o with shutdown := true, group := .drop })
  | .drop => releaseRef s o fun r => { r with group := .done }
  | .outside | .done => none

/-- The end of `tp_object_release` for the last reference. -/
def freeObject (s : State Obj Op St) (o : Obj) : Option (State Obj Op St) :=
  if (s.io o).life = .dying then
    some (setIo s o { s.io o with life := .freed, isGroupMember := false })
  else none

/-- A worker takes the object from its pool; `tp_object_execute` calls the callback. -/
def executeObject (s : State Obj Op St) (o : Obj) : Option (State Obj Op St) :=
  if (s.io o).numPending = 0 then none
  else
    match (s.io o).completions with
    | [] => none
    | (op, iosb) :: rest =>
      some { setIo s o { s.io o with
          numPending := (s.io o).numPending - 1
          completions := rest
          numAssociated := (s.io o).numAssociated + 1
          numRunning := (s.io o).numRunning + 1 } with
        calls := s.calls ++ [(o, op, iosb)] }

def callbackDone (s : State Obj Op St) (o : Obj) : Option (State Obj Op St) :=
  if (s.io o).numRunning = 0 then none
  else some (setIo s o { s.io o with
    numRunning := (s.io o).numRunning - 1
    numAssociated := (s.io o).numAssociated - 1
    finishing := (s.io o).finishing + 1 })

def workerRelease (s : State Obj Op St) (o : Obj) : Option (State Obj Op St) :=
  if (s.io o).finishing = 0 then none
  else releaseRef s o fun r => { r with finishing := r.finishing - 1 }

/-- The first section: what a packet of an object that is shutting down is good for. -/
def closePacket (s : State Obj Op St) (o : Obj) (op : Op) (iosb : St) : State Obj Op St :=
  if (s.io o).pendingCount ≠ 0 then { s with pc := .deliver o op iosb }
  else
    let skipped := if (s.io o).skippedCount ≠ 0 then (s.io o).skippedCount - 1 else 0
    { setIo s o { (s.io o).settle op with skippedCount := skipped } with
      pc := if skipped ≠ 0 then .removing else .destroy o }

/-- The second section; `reserved` is the result of `array_reserve`. -/
def deliverPacket (s : State Obj Op St) (o : Obj) (op : Op) (iosb : St) (reserved : Bool) :
    Option (State Obj Op St) :=
  if (s.io o).pendingCount = 0 then some { setIo s o ((s.io o).settle op) with pc := .tail }
  else if reserved then
    (objectSubmit { (s.io o).settle op with
        pendingCount := (s.io o).pendingCount - 1
        completions := (op, iosb) :: (s.io o).completions }).map fun r =>
      { setIo s o r with pc := .tail }
  else some { setIo s o { (s.io o).settle op with
      pendingCount := (s.io o).pendingCount - 1 } with pc := .removing }

def ioqueueThread (s : State Obj Op St) (reserved : Bool) : Option (State Obj Op St) :=
  match s.pc with
  | .removing =>
    match s.port with
    | [] => none
    | packet :: rest => some { s with pc := .got packet, port := rest }
  | .got none => some { s with pc := .tail }
  | .got (some (o, op, iosb)) =>
    if (s.io o).shutdown || (s.io o).shuttingDown then some { s with pc := .closing o op iosb }
    else some { s with pc := .deliver o op iosb }
  | .closing o op iosb => some (closePacket s o op iosb)
  | .deliver o op iosb => deliverPacket s o op iosb reserved
  | .destroy o =>
    some { setIo s o { s.io o with shutdown := true } with
      objcount := s.objcount - 1
      pc := .destroyDrop o }
  | .destroyDrop o =>
    (releaseRef s o fun r => { r with dropped := true }).map fun t => { t with pc := .tail }
  | .tail => some { s with pc := if s.objcount = 0 then .asleep else .removing }
  | .asleep => some { s with pc := .removing }
  | .stopped => none

/-- The thread has slept for `THREADPOOL_WORKER_TIMEOUT`. -/
def ioqueueTimeout (s : State Obj Op St) : Option (State Obj Op St) :=
  match s.pc with
  | .asleep => some { s with pc := if s.objcount = 0 then .stopped else .removing }
  | _ => none

inductive Act (Obj Op St : Type)
  | alloc (o : Obj) (grouped : Bool)
  | start (o : Obj) (op : Op)
  | post (op : Op) (iosb : St)
  | cancelOperation (op : Op)
  | wait (o : Obj) (cancelPending : Bool)
  | cancelRelease (o : Obj)
  | release (o : Obj)
  | releaseNext (o : Obj)
  | takeMember (o : Obj) (cancelPending : Bool)
  | groupNext (o : Obj)
  | free (o : Obj)
  | execute (o : Obj)
  | callbackDone (o : Obj)
  | workerRelease (o : Obj)
  | ioqueue (reserved : Bool)
  | ioqueueTimeout

def step (s : State Obj Op St) : Act Obj Op St → Option (State Obj Op St)
  | .alloc o grouped => allocIoCompletion s o grouped
  | .start o op => startAsyncIoOperation s o op
  | .post op iosb => postPacket s op iosb
  | .cancelOperation op => cancelAsyncIoOperation s op
  | .wait o cancelPending => waitForIoCompletion s o cancelPending
  | .cancelRelease o => cancelRelease s o
  | .release o => releaseIoCompletion s o
  | .releaseNext o => releaseNext s o
  | .takeMember o cancelPending => takeMember s o cancelPending
  | .groupNext o => groupNext s o
  | .free o => freeObject s o
  | .execute o => executeObject s o
  | .callbackDone o => callbackDone s o
  | .workerRelease o => workerRelease s o
  | .ioqueue reserved => ioqueueThread s reserved
  | .ioqueueTimeout => ioqueueTimeout s

def Initial (s : State Obj Op St) : Prop :=
  s.io = (fun _ => Io.blank) ∧ s.objcount = 0 ∧ s.port = [] ∧ s.pc = .stopped ∧
    s.owner = (fun _ => none) ∧ s.posted = (fun _ => none) ∧ s.cancelled = (fun _ => false) ∧
    s.calls = []

end WineForge.ThreadpoolIo
