import WineForge.Library.ListWalk
import WineForge.WfuSync.WaitLoop

/-!
# `NtPulseEvent`

The request sets the event and resets it at once. A thread in the wait queue of the server is
satisfied in between, by `wake_up`. A thread that sleeps on an address is only woken, and looks at
the event again on its own.
-/

namespace WineForge.WfuSync

open Function Library List

/-- A wait of `wfusync_wait_multiple`; `ready` tells whether the other objects of a wait for all
objects are signaled. -/
inductive SlotKind
  | any
  | all (ready : Bool)
  deriving DecidableEq

def SlotKind.ready : SlotKind → Bool
  | .any => true
  | .all ready => ready

/-- Where a wait with a slot is: asleep on it, before its requests to the server, and at the two
attempts of the loop. `armed` tells whether the slot was woken since it was registered, and
`fallback` whether the wait goes to the server after it has left. -/
inductive SlotPc
  | asleep
  | woken
  | consume
  | register
  | recheck (armed : Bool)
  | leave (fallback : Bool)
  deriving DecidableEq

/-- A thread that waits for the event: in the server wait queue or before that request, in
`wfusync_wait_event`, or in `wfusync_wait_multiple`. `ready` tells whether the thread can run and
the other objects of its wait let it proceed. -/
inductive PulseThread
  | outside
  | queued (ready : Bool)
  | select (ready : Bool)
  | address (p : LoopThread)
  | slot (kind : SlotKind) (c : WaitArgs) (pc : SlotPc)

/-- A step of `wfusync_wait_event`, seen from outside. -/
def PulseThread.ofLoop : LoopThread → PulseThread
  | .outside => .outside
  | .select _ => .select true
  | p => .address p

def PulseThread.isAsleep : PulseThread → Bool
  | .address p => p.isAsleep
  | _ => false

/-- `wake_address` on the address of the event. -/
def PulseThread.roused : PulseThread → PulseThread
  | .address p => .address p.roused
  | p => p

/-- `wake_wait_slot`. -/
def PulseThread.slotWoken : PulseThread → PulseThread
  | .slot kind c .asleep => .slot kind c .woken
  | .slot kind c (.recheck _) => .slot kind c (.recheck false)
  | p => p

/-- `consume_waitany_states`; the other objects are not signaled. -/
def consumeWaitanyStates (c : WaitArgs) (o : WfusyncState) : NtStatus × WfusyncState :=
  if o.generation ≠ c.generation ∨ o.word.type ≠ .event then (.notImplemented, o)
  else consumeEventState o

/-- A step of `wfusync_wait_multiple` that is not a request. -/
def slotStep (kind : SlotKind) (c : WaitArgs) (o : WfusyncState) (choice : Choice) :
    SlotPc → Option (WfusyncState × PulseThread × Bool)
  | .asleep =>
    match choice with
    | .go => some (o, .slot kind c .woken, false)
    | .expire =>
      if kind = .any ∨ c.timed then some (o, .slot kind c (.leave !c.timed), false) else none
    | .unsupported => some (o, .slot kind c (.leave true), false)
  | .consume =>
    let r := consumeWaitanyStates c o
    if r.1.satisfied then some (r.2, .outside, true)
    else if r.1 = .timeout then some (r.2, .slot kind c .register, false)
    else some (r.2, .select kind.ready, false)
  | .recheck armed =>
    let r := consumeWaitanyStates c o
    if r.1.satisfied then some (r.2, .slot kind c (.leave false), true)
    else if r.1 = .timeout then
      if choice = .expire ∧ c.timed then some (r.2, .slot kind c (.leave false), false)
      else some (r.2, .slot kind c (if armed then .asleep else .woken), false)
    else some (r.2, .slot kind c (.leave true), false)
  | .woken | .register | .leave _ => none

/-- Where the server is in the request: the section of `wfusync_set_event` and its wakes, the scan
of the wait queue in `wake_up`, and both again for the reset, which `after` marks. -/
inductive PulsePc (ι : Type*)
  | set
  | wakeAddress (w : Wake)
  | wakeSlots
  | scan (after : Bool) (entry : ℕ)
  | satisfy (after : Bool) (t : ι)
  | reset
  | done

/-- The event, its wait queue, the threads with a registered slot, and the waits that the event
satisfied. -/
structure PulseState (ι : Type*) where
  obj : WfusyncState
  queue : List ι
  waiters : List ι
  threads : ι → PulseThread
  server : PulsePc ι
  released : List ι

inductive PulseAct (ι : Type*)
  | server (target : Option ι)
  | run (t : ι) (choice : Choice)
  | request (t : ι)

variable {ι : Type*} [DecidableEq ι]

namespace PulseState

def goto (s : PulseState ι) (t : ι) (p : PulseThread) : PulseState ι :=
  { s with threads := update s.threads t p }

def satisfied (s : PulseState ι) (t : ι) : PulseState ι :=
  { s with released := t :: s.released }

/-- `event_sync_add_queue`. -/
def addQueue (s : PulseState ι) (t : ι) : PulseState ι :=
  { s with
    queue := s.queue ++ [t]
    obj := { s.obj with word := { s.obj.word with serverWaiters := true } } }

/-- `event_sync_remove_queue`. -/
def removeQueue (s : PulseState ι) (t : ι) : PulseState ι :=
  { s with
    queue := s.queue.erase t
    obj := { s.obj with word := { s.obj.word with
      serverWaiters := s.obj.word.serverWaiters && decide (s.queue.erase t ≠ []) } } }

/-- `wfusync_register_wait`, as far as it is about the event. -/
def registerWait (s : PulseState ι) (t : ι) : PulseState ι :=
  { s with
    waiters := t :: s.waiters
    obj := { s.obj with word := { s.obj.word with multiWaiters := true } } }

/-- `wfusync_unregister_wait`. -/
def unregisterWait (s : PulseState ι) (t : ι) : PulseState ι :=
  { s with
    waiters := s.waiters.erase t
    obj := { s.obj with word := { s.obj.word with
      multiWaiters := s.obj.word.multiWaiters && decide (s.waiters.erase t ≠ []) } } }

def canWake (s : PulseState ι) (t : ι) : Bool :=
  match s.threads t with
  | .queued ready => wfusyncEventSignaled s.obj && ready
  | _ => false

/-- The end of `wake_up` in the set or in the reset. -/
def scanned (after : Bool) : PulsePc ι :=
  if after then .done else .reset

/-- `wake_address`: all sleepers, or any one if there is one. -/
def rouse [Fintype ι] (s : PulseState ι) (w : Wake) (target : Option ι) : Option (PulseState ι) :=
  match w, target with
  | .all, _ => some { s with threads := fun t => (s.threads t).roused }
  | .one, some t => if (s.threads t).isAsleep then some (s.goto t (s.threads t).roused) else none
  | .one, none => if ∀ t, (s.threads t).isAsleep = false then some s else none

/-- A step of the request. The event is manual-reset if its `high` is not 0. -/
def serverStep [Fintype ι] (s : PulseState ι) (target : Option ι) : Option (PulseState ι) :=
  match s.server with
  | .set =>
    let r := SignalOp.setEvent.server 0 s.obj
    some { s with
      obj := r.state
      server := match r.wake with
        | none => .wakeSlots
        | some w => .wakeAddress w }
  | .wakeAddress w => (s.rouse w target).map fun s' => { s' with server := .wakeSlots }
  | .wakeSlots =>
    some { s with
      threads := fun t => if t ∈ s.waiters then (s.threads t).slotWoken else s.threads t
      server := .scan false 0 }
  | .scan after entry =>
    match s.queue[entry]? with
    | none => some { s with server := scanned after }
    | some t => some { s with
        server := if s.canWake t then .satisfy after t else .scan after (entry + 1) }
  | .satisfy after t =>
    let s' := { s with obj := wfusyncEventSatisfied s.obj }.removeQueue t
    some { (s'.goto t .outside).satisfied t with
      server := if s.obj.high ≠ 0 then .scan after 0 else scanned after }
  | .reset =>
    some { s with
      obj := (SignalOp.resetEvent.server 0 s.obj).state
      server := .scan true 0 }
  | .done => none

def runStep (s : PulseState ι) (t : ι) (choice : Choice) : Option (PulseState ι) :=
  let next := fun (r : WfusyncState × PulseThread × Bool) =>
    let s' := { s with obj := r.1 }.goto t r.2.1
    if r.2.2 then s'.satisfied t else s'
  match s.threads t with
  | .address p =>
    (clientStep .event 0 s.obj choice p).map fun r => next (r.1, .ofLoop r.2.1, r.2.2)
  | .slot kind c pc => (slotStep kind c s.obj choice pc).map next
  | .outside | .queued _ | .select _ => none

def retryAll (s : PulseState ι) (t : ι) (ready : Bool) (c : WaitArgs) : PulseState ι :=
  if s.obj.word.serverWaiters ∨ s.obj.generation ≠ c.generation ∨ s.obj.word.type ≠ .event then
    s.goto t (.select ready)
  else if s.obj.low = 0 then (s.registerWait t).goto t (.slot (.all ready) c .asleep)
  else if ready then
    (({ s with obj := wfusyncEventSatisfied s.obj }).goto t .outside).satisfied t
  else s.goto t (.slot (.all ready) c .asleep)

def requestStep (s : PulseState ι) (t : ι) : Option (PulseState ι) :=
  match s.server, s.threads t with
  | .done, .select ready =>
    if wfusyncEventSignaled s.obj ∧ ready then
      some (({ s with obj := wfusyncEventSatisfied s.obj }.goto t .outside).satisfied t)
    else some ((s.addQueue t).goto t (.queued ready))
  | .done, .slot kind c .woken =>
    match kind with
    | .any => some ((s.unregisterWait t).goto t (.slot kind c .consume))
    | .all ready => some ((s.unregisterWait t).retryAll t ready c)
  | .done, .slot kind c .register =>
    some ((s.registerWait t).goto t (.slot kind c (.recheck (decide (s.obj.low = 0)))))
  | .done, .slot kind _ (.leave fallback) =>
    some ((s.unregisterWait t).goto t (if fallback then .select kind.ready else .outside))
  | _, _ => none

end PulseState

def pulseStep [Fintype ι] (s : PulseState ι) : PulseAct ι → Option (PulseState ι)
  | .server target => s.serverStep target
  | .run t choice => s.runStep t choice
  | .request t => s.requestStep t

def PulseThread.isReady : PulseThread → Bool
  | .queued ready => ready
  | .address p => p.isAsleep
  | .slot kind _ .asleep => kind.ready
  | _ => false

/-- A manual-reset event releases every thread that is ready, an auto-reset event exactly one of
them if there is any. -/
def PulseReleases (manual : Bool) (ready : ι → Bool) (released : List ι) : Prop :=
  if manual then ∀ t, t ∈ released ↔ ready t = true
  else (∀ t ∈ released, ready t = true) ∧ ((∃ t, ready t = true) → released.length = 1)

namespace PulseState

def manual (s : PulseState ι) : Bool :=
  decide (s.obj.high ≠ 0)

/-- The request begins: every thread is outside or blocked. -/
structure Begins (s : PulseState ι) : Prop where
  word : s.obj.word = ⟨.event, false, decide (s.waiters ≠ []), decide (s.queue ≠ [])⟩
  nodup : s.queue.Nodup
  queue : ∀ t, t ∈ s.queue ↔ ∃ ready, s.threads t = .queued ready
  waiters : ∀ t, t ∈ s.waiters ↔ ∃ kind c, s.threads t = .slot kind c .asleep
  threads : ∀ t, s.threads t = .outside ∨ (∃ ready, s.threads t = .queued ready) ∨
    (∃ c, s.threads t = .address (.asleep c)) ∨ ∃ kind c, s.threads t = .slot kind c .asleep
  server : s.server = .set
  released : s.released = []

def AtRest (s : PulseState ι) : Prop :=
  s.server = .done ∧ ∀ t, s.threads t = .outside ∨ (∃ ready, s.threads t = .queued ready) ∨
    (∃ c, s.threads t = .address (.asleep c)) ∨ ∃ kind c, s.threads t = .slot kind c .asleep

/-- Whatever the schedule, the pulse has released the right threads when all have come to rest, and
the event is not signaled. -/
def PulsesRight [Fintype ι] (s : PulseState ι) : Prop :=
  ∀ s', Reachable pulseStep (· = s) s' → s'.AtRest →
    s'.obj.low = 0 ∧ PulseReleases s.manual (fun t => (s.threads t).isReady) s'.released

/-- No ready thread sleeps on an address, or the event is auto-reset and a ready thread is in the
wait queue of the server. -/
def InServerQueue (s : PulseState ι) : Prop :=
  (∀ t, (s.threads t).isReady = true → s.threads t = .queued true) ∨
    s.manual = false ∧ ∃ t, s.threads t = .queued true

end PulseState

variable {s s' s₀ : PulseState ι} {t : ι}

/-- The places of the loop of `wfusync_wait_event`. -/
def LoopThread.InLoop : LoopThread → Bool
  | .loop _ | .consume _ | .clock _ _ | .sleep _ _ _ | .asleep _ => true
  | _ => false

/-- A thread that cannot consume the event: it is in the queue or outside, or it waits for another
object as well. -/
def PulseThread.Harmless : PulseThread → Bool
  | .outside | .queued _ | .select false => true
  | .slot (.all false) _ .asleep | .slot (.all false) _ .woken |
    .slot (.all false) _ (.leave _) => true
  | _ => false

def PulseThread.IsQueued (p : PulseThread) : Prop :=
  ∃ ready, p = .queued ready

/-- A thread of `wfusync_wait_event` stays in its loop. -/
def PulseThread.Waits (p : PulseThread) : Prop :=
  ∀ q, p = .address q → q.InLoop = true

/-- The event cannot be consumed by a client: the server owns it, or it is not signaled. -/
def WfusyncState.Closed (o : WfusyncState) : Prop :=
  o.word.serverWaiters = true ∨ o.low = 0

variable {o : WfusyncState} {choice : Choice} {kind : SlotKind} {c : WaitArgs} {pc : SlotPc}
  {r : WfusyncState × PulseThread × Bool}

lemma consumeEventState_closed (h : o.Closed) :
    (consumeEventState o).2 = o ∧ (consumeEventState o).1.satisfied = false := by
  unfold consumeEventState wfusyncLockGranted
  split
  · rename_i hgranted
    obtain hserver | hlow := h
    · rw [hserver] at hgranted
      simp at hgranted
    · rw [consumeEventStateLocked, if_pos hlow]
      exact ⟨rfl, rfl⟩
  · exact ⟨rfl, rfl⟩

lemma consumeWaitanyStates_closed (h : o.Closed) (c : WaitArgs) :
    (consumeWaitanyStates c o).2 = o ∧ (consumeWaitanyStates c o).1.satisfied = false := by
  unfold consumeWaitanyStates
  split
  · exact ⟨rfl, rfl⟩
  · exact consumeEventState_closed h

/-- What a step of a client leaves when the event is closed to it. -/
structure Idles (o : WfusyncState) (r : WfusyncState × PulseThread × Bool) : Prop where
  obj : r.1 = o
  satisfied : r.2.2 = false
  notQueued : ¬ r.2.1.IsQueued
  waits : r.2.1.Waits

lemma ofLoop_notQueued (p : LoopThread) : ¬ (PulseThread.ofLoop p).IsQueued := by
  rintro ⟨ready, h⟩
  cases p <;> nomatch h

lemma afterConsume_waits (c : WaitArgs) (status : NtStatus) :
    (PulseThread.ofLoop (afterConsume .event c status)).Waits := by
  unfold afterConsume
  split
  · exact nofun
  split
  · rintro q ⟨⟩
    rfl
  · rintro q ⟨⟩
    rfl

lemma clientStep_idles {p : LoopThread}
    {r : WfusyncState × LoopThread × Bool} (hp : p.InLoop = true) (h : o.Closed)
    (hstep : clientStep .event 0 o choice p = some r) :
    Idles o (r.1, .ofLoop r.2.1, r.2.2) := by
  have hidle : ∀ q : LoopThread, (PulseThread.ofLoop q).Waits →
      Idles o (o, .ofLoop q, false) := fun q hq => ⟨rfl, rfl, ofLoop_notQueued q, hq⟩
  cases p with
  | loop c =>
    simp only [clientStep] at hstep
    split at hstep
    · cases hstep
      exact hidle _ nofun
    cases hstep
    refine hidle _ ?_
    rintro q ⟨⟩
    rfl
  | consume c =>
    cases hstep
    obtain ⟨hobj, hsat⟩ := consumeEventState_closed h
    exact ⟨hobj, hsat, ofLoop_notQueued _, afterConsume_waits c _⟩
  | clock c refused =>
    simp only [clientStep] at hstep
    split at hstep
    · split at hstep
      · cases hstep
        exact hidle _ nofun
      · simp at hstep
    cases hstep
    refine hidle _ ?_
    rintro q ⟨⟩
    rfl
  | sleep c value refused =>
    simp only [clientStep] at hstep
    split at hstep
    · cases hstep
      exact hidle _ nofun
    cases hstep
    refine hidle _ ?_
    split_ifs
    · rintro q ⟨⟩
      rfl
    · rintro q ⟨⟩
      rfl
  | asleep c =>
    simp only [clientStep] at hstep
    split at hstep
    · cases hstep
      refine hidle _ ?_
      rintro q ⟨⟩
      rfl
    · cases hstep
      refine hidle _ ?_
      split_ifs
      · exact nofun
      · exact nofun
    · cases hstep
      exact hidle _ nofun
  | _ => exact absurd hp Bool.false_ne_true

lemma slotStep_idles (h : o.Closed) (hstep : slotStep kind c o choice pc = some r) : Idles o r := by
  have hidle : ∀ q : PulseThread, ¬ q.IsQueued → q.Waits → Idles o (o, q, false) :=
    fun q hq hwaits => ⟨rfl, rfl, hq, hwaits⟩
  obtain ⟨hobj, hsat⟩ := consumeWaitanyStates_closed h c
  cases pc with
  | asleep =>
    simp only [slotStep] at hstep
    split at hstep
    · cases hstep
      exact hidle _ nofun nofun
    · split at hstep
      · cases hstep
        exact hidle _ nofun nofun
      · simp at hstep
    · cases hstep
      exact hidle _ nofun nofun
  | consume =>
    simp only [slotStep, hsat, hobj] at hstep
    split at hstep
    · rename_i hfalse
      exact absurd hfalse Bool.false_ne_true
    split at hstep
    · cases hstep
      exact hidle _ nofun nofun
    · cases hstep
      exact hidle _ nofun nofun
  | recheck armed =>
    simp only [slotStep, hsat, hobj] at hstep
    split at hstep
    · rename_i hfalse
      exact absurd hfalse Bool.false_ne_true
    split at hstep
    · split at hstep
      · cases hstep
        exact hidle _ nofun nofun
      · cases hstep
        exact hidle _ nofun nofun
    · cases hstep
      exact hidle _ nofun nofun
  | woken | register | leave fallback => exact absurd hstep (by simp [slotStep])

lemma slotStep_harmless (hharmless : (PulseThread.slot kind c pc).Harmless = true)
    (hstep : slotStep kind c o choice pc = some r) : Idles o r ∧ r.2.1.Harmless = true := by
  cases pc with
  | asleep =>
    obtain _ | ready := kind
    · exact absurd hharmless Bool.false_ne_true
    cases ready with
    | true => exact absurd hharmless Bool.false_ne_true
    | false =>
      simp only [slotStep] at hstep
      split at hstep
      · cases hstep
        exact ⟨⟨rfl, rfl, nofun, nofun⟩, rfl⟩
      · split at hstep
        · cases hstep
          exact ⟨⟨rfl, rfl, nofun, nofun⟩, rfl⟩
        · simp at hstep
      · cases hstep
        exact ⟨⟨rfl, rfl, nofun, nofun⟩, rfl⟩
  | woken | register | leave fallback => exact absurd hstep (by simp [slotStep])
  | consume | recheck armed =>
    obtain _ | _ | _ := kind
    · exact absurd hharmless Bool.false_ne_true
    · exact absurd hharmless Bool.false_ne_true
    · exact absurd hharmless Bool.false_ne_true

lemma Idles.moves (h : Idles s.obj r) :
    (if r.2.2 then ({ s with obj := r.1 }.goto t r.2.1).satisfied t
      else { s with obj := r.1 }.goto t r.2.1) = s.goto t r.2.1 := by
  obtain ⟨hobj, hsat, -, -⟩ := h
  rw [hsat, hobj]
  rfl

lemma PulseState.runStep_quiet (hwaits : (s.threads t).Waits)
    (h : s.obj.Closed ∨ (s.threads t).Harmless = true) (hstep : s.runStep t choice = some s') :
    ∃ p, s' = s.goto t p ∧ ¬ p.IsQueued ∧ p.Waits ∧ ¬ (s.threads t).IsQueued ∧
      ((s.threads t).Harmless = true → p.Harmless = true) := by
  unfold PulseState.runStep at hstep
  cases hp : s.threads t with
  | address p =>
    rw [hp] at hstep hwaits h
    simp only [Option.map_eq_some_iff] at hstep
    obtain ⟨r, hr, hs'⟩ := hstep
    have hclosed : s.obj.Closed := h.resolve_right Bool.false_ne_true
    have hidles := clientStep_idles (hwaits p rfl) hclosed hr
    rw [hidles.moves] at hs'
    exact ⟨_, hs'.symm, hidles.notQueued, hidles.waits, nofun,
      fun hharmless => absurd hharmless Bool.false_ne_true⟩
  | slot kind c pc =>
    rw [hp] at hstep h
    simp only [Option.map_eq_some_iff] at hstep
    obtain ⟨r, hr, hs'⟩ := hstep
    by_cases hharmless : (PulseThread.slot kind c pc).Harmless = true
    · obtain ⟨hidles, hafter⟩ := slotStep_harmless hharmless hr
      rw [hidles.moves] at hs'
      exact ⟨_, hs'.symm, hidles.notQueued, hidles.waits, nofun, fun _ => hafter⟩
    · have hidles := slotStep_idles (h.resolve_right hharmless) hr
      rw [hidles.moves] at hs'
      exact ⟨_, hs'.symm, hidles.notQueued, hidles.waits, nofun, fun h => absurd h hharmless⟩
  | outside | queued ready | select ready =>
    rw [hp] at hstep
    simp at hstep

/-- What holds until the wake-ups of the set are over. -/
structure PulseState.Before (s₀ s : PulseState ι) : Prop where
  nodup : s.queue.Nodup
  queue : ∀ t, t ∈ s.queue ↔ (s.threads t).IsQueued
  ready : ∀ t, s.threads t = .queued true → (s₀.threads t).isReady = true
  subset : ∀ t ∈ s.released, (s₀.threads t).isReady = true
  manual : s₀.manual = true → ∀ t, (s₀.threads t).isReady = true →
    t ∈ s.released ∨ s.threads t = .queued true
  auto : s₀.manual = false → s.released = [] ∧
    ((∃ t, (s₀.threads t).isReady = true) → ∃ t, s.threads t = .queued true)
  guard : (∀ t, (s.threads t).Harmless = true) ∨
    s₀.manual = false ∧ s.obj.word.serverWaiters = true ∧ ∃ t, s.threads t = .queued true

/-- The invariant of a pulse whose ready threads are in the wait queue. -/
structure PulseState.PulseInv (s₀ s : PulseState ι) : Prop where
  waits : ∀ t, (s.threads t).Waits
  event : s.obj.word.type = .event
  high : s.obj.high = s₀.obj.high
  phase : match s.server with
    | .set => s₀.Before s
    | .wakeAddress _ | .wakeSlots => s₀.Before s ∧ s.obj.low ≠ 0
    | .scan false entry => s₀.Before s ∧ s.obj.low ≠ 0 ∧
        ∀ i < entry, ∀ t, s.queue[i]? = some t → s.threads t ≠ .queued true
    | .satisfy false t => s₀.Before s ∧ s.obj.low ≠ 0 ∧ s.threads t = .queued true
    | .reset => PulseReleases s₀.manual (fun t => (s₀.threads t).isReady) s.released ∧
        ((∀ t, (s.threads t).Harmless = true) ∨ s.obj.low = 0)
    | .scan true _ | .done =>
        PulseReleases s₀.manual (fun t => (s₀.threads t).isReady) s.released ∧ s.obj.low = 0
    | .satisfy true _ => False

namespace PulseState

lemma goto_threads_self (s : PulseState ι) (t : ι) (p : PulseThread) :
    (s.goto t p).threads t = p := update_self ..

lemma goto_threads_of_ne (s : PulseState ι) {t u : ι} (p : PulseThread) (h : u ≠ t) :
    (s.goto t p).threads u = s.threads u := update_of_ne h ..

variable {p : PulseThread}

lemma goto_isQueued (hnew : ¬ p.IsQueued) (hold : ¬ (s.threads t).IsQueued)
    {ready : Bool} (u : ι) :
    (s.goto t p).threads u = .queued ready ↔ s.threads u = .queued ready := by
  by_cases hu : u = t
  · rw [hu, goto_threads_self]
    exact iff_of_false (fun h => hnew ⟨ready, h⟩) fun h => hold ⟨ready, h⟩
  · rw [goto_threads_of_ne s p hu]

omit [DecidableEq ι] in
lemma Before.move (h : s₀.Before s) (hqueue : s'.queue = s.queue)
    (hreleased : s'.released = s.released)
    (hserver : s'.obj.word.serverWaiters = s.obj.word.serverWaiters)
    (hqueued : ∀ u ready, s'.threads u = .queued ready ↔ s.threads u = .queued ready)
    (hharmless : ∀ u, (s.threads u).Harmless = true → (s'.threads u).Harmless = true) :
    s₀.Before s' := by
  refine ⟨hqueue ▸ h.nodup, fun u => ?_, fun u hu => h.ready u ((hqueued u true).mp hu),
    hreleased ▸ h.subset, fun hmanual u hu => ?_, fun hauto => ?_, ?_⟩
  · rw [hqueue]
    refine (h.queue u).trans ?_
    exact exists_congr fun ready => (hqueued u ready).symm
  · rw [hreleased]
    exact (h.manual hmanual u hu).imp_right (hqueued u true).mpr
  · obtain ⟨hnone, hsome⟩ := h.auto hauto
    refine ⟨hreleased.trans hnone, fun hready => ?_⟩
    obtain ⟨u, hu⟩ := hsome hready
    exact ⟨u, (hqueued u true).mpr hu⟩
  · refine h.guard.imp (fun hall u => hharmless u (hall u)) fun ⟨hauto, hwaiters, u, hu⟩ => ?_
    exact ⟨hauto, hserver.trans hwaiters, u, (hqueued u true).mpr hu⟩

lemma Before.goto (h : s₀.Before s) (hnew : ¬ p.IsQueued) (hold : ¬ (s.threads t).IsQueued)
    (hharmless : (s.threads t).Harmless = true → p.Harmless = true) : s₀.Before (s.goto t p) := by
  refine h.move rfl rfl rfl (fun u _ => goto_isQueued hnew hold u) fun u hu => ?_
  by_cases hut : u = t
  · rw [hut, goto_threads_self]
    exact hharmless (hut ▸ hu)
  · rw [goto_threads_of_ne s p hut]
    exact hu

omit [DecidableEq ι] in
lemma Before.closed (h : s₀.Before s) (t : ι) : s.obj.Closed ∨ (s.threads t).Harmless = true := by
  obtain hall | ⟨-, hserver, -⟩ := h.guard
  · exact .inr (hall t)
  · exact .inl (.inl hserver)

lemma goto_waits (hwaits : ∀ t, (s.threads t).Waits) (hp : p.Waits) (u : ι) :
    ((s.goto t p).threads u).Waits := by
  by_cases hu : u = t
  · rw [hu, goto_threads_self]
    exact hp
  · rw [goto_threads_of_ne s p hu]
    exact hwaits u

lemma PulseInv.run (h : s₀.PulseInv s) {choice : Choice} (hstep : s.runStep t choice = some s') :
    s₀.PulseInv s' := by
  have hphase := h.phase
  have hclosed : s.obj.Closed ∨ (s.threads t).Harmless = true := by
    cases hserver : s.server with
    | set =>
      rw [hserver] at hphase
      exact hphase.closed t
    | wakeAddress w | wakeSlots =>
      rw [hserver] at hphase
      exact hphase.1.closed t
    | scan after entry =>
      rw [hserver] at hphase
      cases after with
      | false => exact hphase.1.closed t
      | true => exact .inl (.inr hphase.2)
    | satisfy after u =>
      rw [hserver] at hphase
      cases after with
      | false => exact hphase.1.closed t
      | true => exact hphase.elim
    | reset =>
      rw [hserver] at hphase
      obtain hall | hlow := hphase.2
      · exact .inr (hall t)
      · exact .inl (.inr hlow)
    | done =>
      rw [hserver] at hphase
      exact .inl (.inr hphase.2)
  obtain ⟨p, rfl, hnew, hwaits, hold, hharmless⟩ := runStep_quiet (h.waits t) hclosed hstep
  refine ⟨goto_waits h.waits hwaits, h.event, h.high, ?_⟩
  have hqueued := @goto_isQueued _ _ s t p hnew hold
  have hserver' : (s.goto t p).server = s.server := rfl
  rw [hserver']
  cases hserver : s.server with
  | set =>
    rw [hserver] at hphase
    exact hphase.goto hnew hold hharmless
  | wakeAddress w | wakeSlots =>
    rw [hserver] at hphase
    exact ⟨hphase.1.goto hnew hold hharmless, hphase.2⟩
  | scan after entry =>
    rw [hserver] at hphase
    cases after with
    | false =>
      refine ⟨hphase.1.goto hnew hold hharmless, hphase.2.1, fun i hi u hu hready => ?_⟩
      exact hphase.2.2 i hi u hu ((hqueued u).mp hready)
    | true => exact hphase
  | satisfy after u =>
    rw [hserver] at hphase
    cases after with
    | false =>
      exact ⟨hphase.1.goto hnew hold hharmless, hphase.2.1, (hqueued u).mpr hphase.2.2⟩
    | true => exact hphase.elim
  | reset =>
    rw [hserver] at hphase
    refine ⟨hphase.1, hphase.2.imp_left fun hall u => ?_⟩
    by_cases hut : u = t
    · rw [hut, goto_threads_self]
      exact hharmless (hall t)
    · rw [goto_threads_of_ne s p hut]
      exact hall u
  | done =>
    rw [hserver] at hphase
    exact hphase

/-! The steps of the request -/

lemma roused_queued (p : PulseThread) (ready : Bool) :
    p.roused = .queued ready ↔ p = .queued ready := by
  cases p with
  | address p => exact iff_of_false nofun nofun
  | _ => rfl

lemma roused_harmless (h : p.Harmless = true) : p.roused.Harmless = true := by
  cases p with
  | address p => exact absurd h Bool.false_ne_true
  | _ => exact h

lemma roused_waits (h : p.Waits) : p.roused.Waits := by
  cases p with
  | address p =>
    rintro q ⟨⟩
    have hloop := h p rfl
    cases p with
    | asleep c => rfl
    | _ => exact hloop
  | _ => exact h

lemma slotWoken_queued (p : PulseThread) (ready : Bool) :
    p.slotWoken = .queued ready ↔ p = .queued ready := by
  cases p with
  | slot kind c pc => cases pc <;> exact iff_of_false nofun nofun
  | _ => rfl

lemma slotWoken_harmless (h : p.Harmless = true) : p.slotWoken.Harmless = true := by
  cases p with
  | slot kind c pc =>
    obtain _ | _ | _ := kind
    · cases pc <;> exact absurd h Bool.false_ne_true
    · cases pc <;> first | rfl | exact absurd h Bool.false_ne_true
    · cases pc <;> exact absurd h Bool.false_ne_true
  | _ => exact h

lemma slotWoken_waits (h : p.Waits) : p.slotWoken.Waits := by
  cases p with
  | slot kind c pc => cases pc <;> exact nofun
  | _ => exact h

lemma rouse_eq_some [Fintype ι] {w : Wake} {target : Option ι} (h : s.rouse w target = some s') :
    ∃ f : ι → PulseThread, s' = { s with threads := f } ∧
      ∀ u, f u = (s.threads u).roused ∨ f u = s.threads u := by
  unfold rouse at h
  split at h
  · cases h
    exact ⟨_, rfl, fun u => .inl rfl⟩
  · rename_i u
    split at h
    · cases h
      refine ⟨_, rfl, fun v => ?_⟩
      by_cases hv : v = u
      · rw [hv]
        exact .inl (update_self ..)
      · exact .inr (update_of_ne hv ..)
    · simp at h
  split at h
  · cases h
    exact ⟨_, rfl, fun u => .inr rfl⟩
  · simp at h

lemma setEvent_server {o : WfusyncState} (h : o.word.type = .event) :
    (SignalOp.setEvent.server 0 o).state = { o with low := 1 } := by
  have htype : o.word.type = SignalOp.setEvent.type := h
  rw [SignalOp.server, if_pos htype]
  rfl

lemma resetEvent_server {o : WfusyncState} (h : o.word.type = .event) :
    (SignalOp.resetEvent.server 0 o).state = { o with low := 0 } := by
  have htype : o.word.type = SignalOp.resetEvent.type := h
  rw [SignalOp.server, if_pos htype]
  rfl

omit [DecidableEq ι] in
lemma Before.exhausted (h : s₀.Before s)
    (hscanned : ∀ (i : ℕ) t, s.queue[i]? = some t → s.threads t ≠ .queued true) :
    PulseReleases s₀.manual (fun t => (s₀.threads t).isReady) s.released ∧
      ∀ t, (s.threads t).Harmless = true := by
  have hnone : ∀ t, s.threads t ≠ .queued true := by
    intro t ht
    obtain ⟨i, hi⟩ := mem_iff_getElem?.mp ((h.queue t).mpr ⟨true, ht⟩)
    exact hscanned i t hi ht
  refine ⟨?_, h.guard.resolve_right fun ⟨_, _, t, ht⟩ => hnone t ht⟩
  unfold PulseReleases
  split
  · rename_i hmanual
    exact fun t => ⟨h.subset t, fun ht => (h.manual hmanual t ht).resolve_right (hnone t)⟩
  rename_i hauto
  rw [Bool.not_eq_true] at hauto
  refine ⟨h.subset, fun hready => ?_⟩
  obtain ⟨t, ht⟩ := (h.auto hauto).2 hready
  exact absurd ht (hnone t)

omit [DecidableEq ι] in
lemma canWake_iff (s : PulseState ι) (t : ι) :
    s.canWake t = true ↔ s.obj.low ≠ 0 ∧ s.threads t = .queued true := by
  unfold canWake
  split
  · rename_i ready hready
    rw [hready, Bool.and_eq_true, wfusyncEventSignaled, decide_eq_true_eq, PulseThread.queued.injEq]
  · rename_i hother
    exact iff_of_false Bool.false_ne_true fun h => hother true h.2

lemma Before.release (h : s₀.Before s) (hmanual : s₀.manual = true)
    (ht : s.threads t = .queued true) (o : WfusyncState) :
    s₀.Before (((({ s with obj := o }).removeQueue t).goto t .outside).satisfied t) := by
  have hthreads : ∀ u ready, update s.threads t .outside u = .queued ready ↔
      u ≠ t ∧ s.threads u = .queued ready := by
    intro u ready
    by_cases hu : u = t
    · rw [hu, update_self]
      exact iff_of_false nofun fun h => h.1 rfl
    · rw [update_of_ne hu]
      exact (and_iff_right hu).symm
  have hharmless : ∀ u, (s.threads u).Harmless = true := by
    refine h.guard.resolve_right fun hauto => ?_
    rw [hmanual] at hauto
    exact absurd hauto.1.symm Bool.false_ne_true
  refine ⟨h.nodup.erase t, fun u => ?_, fun u hu => ?_, fun u hu => ?_, fun _ u hu => ?_,
    fun hauto => ?_, .inl fun u => ?_⟩
  · refine (h.nodup.mem_erase_iff).trans ?_
    rw [h.queue u]
    constructor
    · rintro ⟨hne, ready, hready⟩
      exact ⟨ready, (hthreads u ready).mpr ⟨hne, hready⟩⟩
    · rintro ⟨ready, hready⟩
      obtain ⟨hne, hold⟩ := (hthreads u ready).mp hready
      exact ⟨hne, ready, hold⟩
  · exact h.ready u ((hthreads u true).mp hu).2
  · obtain rfl | hold := mem_cons.mp hu
    · exact h.ready u ht
    · exact h.subset u hold
  · by_cases hut : u = t
    · exact .inl (hut ▸ mem_cons_self ..)
    · obtain hold | hqueued := h.manual hmanual u hu
      · exact .inl (mem_cons_of_mem t hold)
      · exact .inr ((hthreads u true).mpr ⟨hut, hqueued⟩)
  · rw [hmanual] at hauto
    exact absurd hauto.symm Bool.false_ne_true
  by_cases hut : u = t
  · rw [hut, satisfied]
    rw [goto_threads_self]
    rfl
  · rw [satisfied]
    rw [goto_threads_of_ne _ _ hut]
    exact hharmless u

omit [DecidableEq ι] in
lemma Before.single (h : s₀.Before s) (hauto : s₀.manual = false) (ht : s.threads t = .queued true) :
    PulseReleases s₀.manual (fun t => (s₀.threads t).isReady) (t :: s.released) := by
  rw [PulseReleases, hauto, (h.auto hauto).1]
  refine ⟨fun u hu => ?_, fun _ => rfl⟩
  rw [mem_singleton.mp hu]
  exact h.ready t ht

lemma PulseInv.satisfy (h : s₀.PulseInv s) {u : ι} (hserver : s.server = .satisfy false u) :
    s₀.PulseInv { ((({ s with obj := wfusyncEventSatisfied s.obj }).removeQueue u).goto u
        .outside).satisfied u with
      server := if s.obj.high ≠ 0 then .scan false 0 else scanned false } := by
  have hphase := h.phase
  rw [hserver] at hphase
  obtain ⟨hbefore, hlow, hu⟩ := hphase
  have hsatisfied : (wfusyncEventSatisfied s.obj).word = s.obj.word ∧
      (wfusyncEventSatisfied s.obj).high = s.obj.high := by
    unfold wfusyncEventSatisfied
    split <;> exact ⟨rfl, rfl⟩
  have hoff := @goto_waits _ _ ({ s with obj := wfusyncEventSatisfied s.obj }.removeQueue u) u
    .outside h.waits nofun
  refine ⟨hoff, ?_, hsatisfied.2.trans h.high, ?_⟩
  · exact (congrArg TypeWord.type hsatisfied.1).trans h.event
  by_cases hmanual : s.obj.high ≠ 0
  · have hmanual' : s₀.manual = true := by
      rw [manual, ← h.high, decide_eq_true_eq]
      exact hmanual
    rw [if_pos hmanual]
    have hafter := hbefore.release hmanual' hu (wfusyncEventSatisfied s.obj)
    refine ⟨hafter.move rfl rfl rfl (fun _ _ => Iff.rfl) fun _ => id, ?_,
      fun i hi => absurd hi (Nat.not_lt_zero i)⟩
    have hsame : wfusyncEventSatisfied s.obj = s.obj := if_neg hmanual
    have hlow' : (wfusyncEventSatisfied s.obj).low ≠ 0 := by
      rw [hsame]
      exact hlow
    exact hlow'
  · have hauto : s₀.manual = false := by
      rw [manual, ← h.high, decide_eq_false_iff_not]
      exact hmanual
    rw [if_neg hmanual]
    refine ⟨hbefore.single hauto hu, .inr ?_⟩
    have hreset : wfusyncEventSatisfied s.obj = { s.obj with low := 0 } :=
      if_pos (not_not.mp hmanual)
    exact congrArg WfusyncState.low hreset

lemma PulseInv.server [Fintype ι] (h : s₀.PulseInv s) {target : Option ι}
    (hstep : s.serverStep target = some s') : s₀.PulseInv s' := by
  have hphase := h.phase
  unfold serverStep at hstep
  cases hserver : s.server with
  | set =>
    rw [hserver] at hphase hstep
    cases hstep
    have hset := setEvent_server h.event
    have hbefore : s₀.Before { s with obj := { s.obj with low := 1 } } :=
      hphase.move rfl rfl rfl (fun _ _ => Iff.rfl) fun _ => id
    rw [hset]
    refine ⟨h.waits, h.event, h.high, ?_⟩
    cases (SignalOp.setEvent.server 0 s.obj).wake with
    | none | some w =>
      exact ⟨hbefore.move rfl rfl rfl (fun _ _ => Iff.rfl) fun _ => id, Int.one_ne_zero⟩
  | wakeAddress w =>
    rw [hserver] at hphase hstep
    obtain ⟨s₁, hrouse, rfl⟩ := Option.map_eq_some_iff.mp hstep
    obtain ⟨f, rfl, hf⟩ := rouse_eq_some hrouse
    refine ⟨fun u => ?_, h.event, h.high, ?_, hphase.2⟩
    · dsimp only
      obtain hroused | hsame := hf u
      · rw [hroused]
        exact roused_waits (h.waits u)
      · rw [hsame]
        exact h.waits u
    refine hphase.1.move rfl rfl rfl (fun u ready => ?_) fun u hu => ?_
    · dsimp only
      obtain hroused | hsame := hf u
      · rw [hroused, roused_queued]
      · rw [hsame]
    dsimp only
    obtain hroused | hsame := hf u
    · rw [hroused]
      exact roused_harmless hu
    · rw [hsame]
      exact hu
  | wakeSlots =>
    rw [hserver] at hphase hstep
    cases hstep
    refine ⟨fun u => ?_, h.event, h.high, ?_, hphase.2, fun i hi => absurd hi (Nat.not_lt_zero i)⟩
    · dsimp only
      split
      · exact slotWoken_waits (h.waits u)
      · exact h.waits u
    refine hphase.1.move rfl rfl rfl (fun u ready => ?_) fun u hu => ?_
    · dsimp only
      split
      · exact slotWoken_queued _ ready
      · rfl
    dsimp only
    split
    · exact slotWoken_harmless hu
    · exact hu
  | scan after entry =>
    rw [hserver] at hphase hstep
    dsimp only at hstep
    split at hstep
    · rename_i hend
      cases hstep
      cases after with
      | false =>
        refine ⟨h.waits, h.event, h.high, ?_⟩
        have hover := hphase.1.exhausted fun i u hu => ?_
        · exact ⟨hover.1, .inl hover.2⟩
        · have hlength := List.getElem?_eq_none_iff.mp hend
          obtain ⟨hi, -⟩ := List.getElem?_eq_some_iff.mp hu
          exact hphase.2.2 i (Nat.lt_of_lt_of_le hi hlength) u hu
      | true => exact ⟨h.waits, h.event, h.high, hphase⟩
    · rename_i u hentry
      cases hstep
      refine ⟨h.waits, h.event, h.high, ?_⟩
      cases after with
      | false =>
        by_cases hwake : s.canWake u = true
        · rw [if_pos hwake]
          exact ⟨hphase.1.move rfl rfl rfl (fun _ _ => Iff.rfl) fun _ => id, hphase.2.1,
            ((canWake_iff s u).mp hwake).2⟩
        rw [if_neg hwake]
        refine ⟨hphase.1.move rfl rfl rfl (fun _ _ => Iff.rfl) fun _ => id, hphase.2.1,
          fun i hi v hv hready => ?_⟩
        obtain hi | rfl := Nat.lt_succ_iff_lt_or_eq.mp hi
        · exact hphase.2.2 i hi v hv hready
        · have heq : u = v := Option.some.inj (hentry.symm.trans hv)
          exact hwake ((canWake_iff s u).mpr ⟨hphase.2.1, heq ▸ hready⟩)
      | true =>
        have hasleep : ¬ s.canWake u = true := fun hwake =>
          ((canWake_iff s u).mp hwake).1 hphase.2
        rw [if_neg hasleep]
        exact hphase
  | satisfy after u =>
    rw [hserver] at hphase hstep
    cases after with
    | false =>
      cases hstep
      exact h.satisfy hserver
    | true => exact hphase.elim
  | reset =>
    rw [hserver] at hphase hstep
    cases hstep
    rw [resetEvent_server h.event]
    exact ⟨h.waits, h.event, h.high, hphase.1, rfl⟩
  | done =>
    rw [hserver] at hstep
    exact absurd hstep (by simp)

/-- A request that is handled after the pulse finds the event not signaled. -/
structure Requested (t : ι) (s s' : PulseState ι) : Prop where
  server : s.server = .done ∧ s'.server = .done
  low : s'.obj.low = s.obj.low
  high : s'.obj.high = s.obj.high
  type : s'.obj.word.type = s.obj.word.type
  released : s'.released = s.released
  thread : ∃ p, s'.threads = update s.threads t p ∧ p.Waits

lemma retryAll_requested (hserver : s.server = .done) (hlow : s.obj.low = 0) (ready : Bool)
    (c : WaitArgs) : Requested t s (s.retryAll t ready c) := by
  unfold retryAll
  split
  · exact ⟨⟨hserver, hserver⟩, rfl, rfl, rfl, rfl, _, rfl, nofun⟩
  · exact ⟨⟨hserver, hserver⟩, rfl, rfl, rfl, rfl, _, rfl, nofun⟩

lemma requestStep_requested (hlow : s.server = .done → s.obj.low = 0)
    (hstep : s.requestStep t = some s') : Requested t s s' := by
  unfold requestStep at hstep
  split at hstep
  · rename_i ready hserver hthread
    have hunsignaled : wfusyncEventSignaled s.obj = false := by
      rw [wfusyncEventSignaled, decide_eq_false_iff_not, not_not]
      exact hlow hserver
    rw [if_neg (by rw [hunsignaled]; exact fun h => Bool.false_ne_true h.1)] at hstep
    cases hstep
    exact ⟨⟨hserver, hserver⟩, rfl, rfl, rfl, rfl, _, rfl, nofun⟩
  · rename_i kind c hserver hthread
    cases kind with
    | any =>
      cases hstep
      exact ⟨⟨hserver, hserver⟩, rfl, rfl, rfl, rfl, _, rfl, nofun⟩
    | all ready =>
      cases hstep
      have hretry := retryAll_requested (s := s.unregisterWait t) (t := t) hserver (hlow hserver)
        ready c
      exact ⟨⟨hserver, hretry.server.2⟩, hretry.low, hretry.high, hretry.type, hretry.released,
        hretry.thread⟩
  · rename_i kind c hserver hthread
    cases hstep
    exact ⟨⟨hserver, hserver⟩, rfl, rfl, rfl, rfl, _, rfl, nofun⟩
  · rename_i kind c fallback hserver hthread
    cases hstep
    refine ⟨⟨hserver, hserver⟩, rfl, rfl, rfl, rfl, _, rfl, ?_⟩
    split
    · exact nofun
    · exact nofun
  · simp at hstep

lemma PulseInv.request (h : s₀.PulseInv s) (hstep : s.requestStep t = some s') :
    s₀.PulseInv s' := by
  have hphase := h.phase
  have hdone : s.server = .done → s.obj.low = 0 := by
    intro hserver
    rw [hserver] at hphase
    exact hphase.2
  have hrequest := requestStep_requested hdone hstep
  rw [hrequest.server.1] at hphase
  obtain ⟨p, hthreads, hwaits⟩ := hrequest.thread
  refine ⟨fun u => ?_, hrequest.type.trans h.event, hrequest.high.trans h.high, ?_⟩
  · rw [hthreads]
    exact goto_waits h.waits hwaits u
  · rw [hrequest.server.2, hrequest.released, hrequest.low]
    exact hphase

lemma PulseInv.step [Fintype ι] (h : s₀.PulseInv s) {a : PulseAct ι}
    (hstep : pulseStep s a = some s') : s₀.PulseInv s' := by
  cases a with
  | server target => exact h.server hstep
  | run t choice => exact h.run hstep
  | request t => exact h.request hstep

omit [DecidableEq ι] in
lemma Begins.waits (h : s.Begins) (t : ι) : (s.threads t).Waits := by
  obtain hp | ⟨ready, hp⟩ | ⟨c, hp⟩ | ⟨kind, c, hp⟩ := h.threads t
  · rw [hp]
    exact nofun
  · rw [hp]
    exact nofun
  · rw [hp]
    rintro q ⟨⟩
    rfl
  · rw [hp]
    exact nofun

omit [DecidableEq ι] in
lemma Begins.inv (h : s.Begins) (hqueue : s.InServerQueue) : s.PulseInv s := by
  refine ⟨h.waits, by rw [h.word], rfl, ?_⟩
  rw [h.server]
  have hready : ∀ t, s.threads t = .queued true → (s.threads t).isReady = true := by
    intro t ht
    rw [ht]
    rfl
  refine ⟨h.nodup, h.queue, hready, ?_, fun hmanual t ht => ?_, fun hauto => ⟨h.released, ?_⟩, ?_⟩
  · rw [h.released]
    simp
  · obtain hall | ⟨hauto, -⟩ := hqueue
    · exact .inr (hall t ht)
    · rw [hmanual] at hauto
      exact absurd hauto.symm Bool.false_ne_true
  · rintro ⟨t, ht⟩
    obtain hall | ⟨-, hsome⟩ := hqueue
    · exact ⟨t, hall t ht⟩
    · exact hsome
  obtain hall | ⟨hauto, t, ht⟩ := hqueue
  · refine .inl fun t => ?_
    by_contra hharm
    obtain hp | ⟨ready, hp⟩ | ⟨c, hp⟩ | ⟨kind, c, hp⟩ := h.threads t
    · exact hharm (by rw [hp]; rfl)
    · exact hharm (by rw [hp]; rfl)
    · exact absurd (hall t (by rw [hp]; rfl)) (by rw [hp]; exact nofun)
    obtain _ | ready := kind
    · exact absurd (hall t (by rw [hp]; rfl)) (by rw [hp]; exact nofun)
    · cases ready with
      | true => exact absurd (hall t (by rw [hp]; rfl)) (by rw [hp]; exact nofun)
      | false => exact hharm (by rw [hp]; rfl)
  · have hmem : t ∈ s.queue := (h.queue t).mpr ⟨true, ht⟩
    refine .inr ⟨hauto, ?_, t, ht⟩
    rw [h.word]
    exact decide_eq_true (ne_nil_of_mem hmem)

lemma Begins.pulsesRight [Fintype ι] (h : s.Begins) (hqueue : s.InServerQueue) : s.PulsesRight := by
  intro s' hreach hrest
  have hinv : s.PulseInv s' := by
    refine hreach.invariant (fun _ hs => ?_) fun _ _ _ hinv _ hstep => hinv.step hstep
    rw [hs]
    exact h.inv hqueue
  have hphase := hinv.phase
  rw [hrest.1] at hphase
  exact ⟨hphase.2, hphase.1⟩

end PulseState

/-- What the request alone does to a blocked thread. -/
inductive PulseThread.Prodded : PulseThread → PulseThread → Prop
  | outside : Prodded .outside .outside
  | queued (ready : Bool) : Prodded (.queued ready) (.queued ready)
  | dequeued (ready : Bool) : Prodded (.queued ready) .outside
  | asleep (c : WaitArgs) : Prodded (.address (.asleep c)) (.address (.asleep c))
  | roused (c : WaitArgs) : Prodded (.address (.asleep c)) (.address (.loop c))
  | slot (kind : SlotKind) (c : WaitArgs) : Prodded (.slot kind c .asleep) (.slot kind c .asleep)
  | woken (kind : SlotKind) (c : WaitArgs) : Prodded (.slot kind c .asleep) (.slot kind c .woken)

def PulsePc.phase : PulsePc ι → ℕ
  | .set => 6
  | .wakeAddress _ => 5
  | .wakeSlots => 4
  | .scan false _ | .satisfy false _ => 3
  | .reset => 2
  | .scan true _ | .satisfy true _ => 1
  | .done => 0

def PulsePc.entriesLeft (length : ℕ) : PulsePc ι → ℕ
  | .scan _ entry => length - entry + 1
  | _ => 0

namespace PulseState

lemma prodded_roused {p₀ p : PulseThread} (h : p₀.Prodded p) : p₀.Prodded p.roused := by
  cases h with
  | outside => exact .outside
  | queued ready => exact .queued ready
  | dequeued ready => exact .dequeued ready
  | asleep c | roused c => exact .roused c
  | slot kind c => exact .slot kind c
  | woken kind c => exact .woken kind c

lemma prodded_slotWoken {p₀ p : PulseThread} (h : p₀.Prodded p) : p₀.Prodded p.slotWoken := by
  cases h with
  | outside => exact .outside
  | queued ready => exact .queued ready
  | dequeued ready => exact .dequeued ready
  | asleep c => exact .asleep c
  | roused c => exact .roused c
  | slot kind c | woken kind c => exact .woken kind c

/-- Only the server has run since the request began. -/
structure ServerOnly (s₀ s : PulseState ι) : Prop where
  event : s.obj.word.type = .event
  threads : ∀ t, (s₀.threads t).Prodded (s.threads t)
  released : ∀ t ∈ s.released, s₀.threads t = .queued true
  satisfy : ∀ after t, s.server = .satisfy after t →
    after = false ∧ s.threads t = .queued true ∧ t ∈ s.queue
  unsignaled : (∃ entry, s.server = .scan true entry) ∨ s.server = .done → s.obj.low = 0

def serverMeasure (s : PulseState ι) : ℕ ×ₗ ℕ ×ₗ ℕ :=
  toLex (s.server.phase, toLex (s.queue.length, s.server.entriesLeft s.queue.length))

omit [DecidableEq ι] in
lemma Begins.serverOnly (h : s.Begins) : s.ServerOnly s := by
  refine ⟨by rw [h.word], fun t => ?_, ?_, ?_, ?_⟩
  · obtain hp | ⟨ready, hp⟩ | ⟨c, hp⟩ | ⟨kind, c, hp⟩ := h.threads t
    · rw [hp]
      exact .outside
    · rw [hp]
      exact .queued ready
    · rw [hp]
      exact .asleep c
    · rw [hp]
      exact .slot kind c
  · rw [h.released]
    simp
  · rw [h.server]
    exact nofun
  · rw [h.server]
    exact nofun

lemma exists_rouse [Fintype ι] (s : PulseState ι) (w : Wake) :
    ∃ target s', s.rouse w target = some s' := by
  cases w with
  | all => exact ⟨none, _, rfl⟩
  | one =>
    by_cases hasleep : ∃ t, (s.threads t).isAsleep = true
    · obtain ⟨t, ht⟩ := hasleep
      exact ⟨some t, _, if_pos ht⟩
    · push Not at hasleep
      exact ⟨none, s, if_pos fun t => Bool.eq_false_iff.mpr (hasleep t)⟩

omit [DecidableEq ι] in
lemma ServerOnly.move (h : s₀.ServerOnly s) {low : Int} {f : ι → PulseThread} {pc : PulsePc ι}
    (hf : ∀ t, (s₀.threads t).Prodded (f t))
    (hsatisfy : ∀ after t, pc = .satisfy after t → after = false ∧ f t = .queued true ∧ t ∈ s.queue)
    (hover : (∃ entry, pc = .scan true entry) ∨ pc = .done → low = 0) :
    s₀.ServerOnly { s with obj := { s.obj with low := low }, threads := f, server := pc } :=
  ⟨h.event, hf, h.released, hsatisfy, hover⟩

lemma ServerOnly.satisfied (h : s₀.ServerOnly s) (hserver : s.server = .satisfy false t) :
    s₀.ServerOnly { ((({ s with obj := wfusyncEventSatisfied s.obj }).removeQueue t).goto t
        .outside).satisfied t with
      server := if s.obj.high ≠ 0 then .scan false 0 else scanned false } := by
  obtain ⟨-, hthread, -⟩ := h.satisfy false t hserver
  have hqueued : s₀.threads t = .queued true := by
    have hprodded := h.threads t
    rw [hthread] at hprodded
    cases hp : s₀.threads t with
    | queued ready =>
      rw [hp] at hprodded
      cases hprodded
      rfl
    | _ =>
      rw [hp] at hprodded
      nomatch hprodded
  refine ⟨?_, fun u => ?_, fun u hu => ?_, fun after u hpc => ?_, fun hpc => ?_⟩
  · refine Eq.trans ?_ h.event
    unfold wfusyncEventSatisfied
    split <;> rfl
  · have hsame : ∀ o : WfusyncState, (((({ s with obj := o }).removeQueue t).goto t
        .outside).satisfied t).threads u = update s.threads t .outside u := fun _ => rfl
    rw [hsame]
    by_cases hu : u = t
    · rw [hu, update_self, hqueued]
      exact .dequeued true
    · rw [update_of_ne hu]
      exact h.threads u
  · obtain rfl | hu := mem_cons.mp hu
    · exact hqueued
    · exact h.released u hu
  · split at hpc
    · nomatch hpc
    · nomatch hpc
  · split at hpc
    · nomatch hpc
    · nomatch hpc

lemma ServerOnly.next [Fintype ι] (h : s₀.ServerOnly s) (hrun : ¬ s.server = .done) :
    ∃ a s', pulseStep s a = some s' ∧ s₀.ServerOnly s' ∧ s'.serverMeasure < s.serverMeasure := by
  cases hserver : s.server with
  | set =>
    refine ⟨.server none, _, by rw [pulseStep, serverStep, hserver], ?_, ?_⟩
    · rw [setEvent_server h.event]
      refine h.move h.threads (fun after t hpc => ?_) fun hpc => ?_
      · split at hpc
        · exact nomatch hpc
        · exact nomatch hpc
      · split at hpc
        · exact hpc.elim nofun nofun
        · exact hpc.elim nofun nofun
    refine lex_lt (.inl ?_)
    rw [hserver]
    cases (SignalOp.setEvent.server 0 s.obj).wake with
    | none | some w => exact Nat.lt_of_sub_eq_succ rfl
  | wakeAddress w =>
    obtain ⟨target, s₁, hrouse⟩ := exists_rouse s w
    obtain ⟨f, rfl, hf⟩ := rouse_eq_some hrouse
    refine ⟨.server target, _, by rw [pulseStep, serverStep, hserver]; simp only [hrouse]; rfl,
      ?_, ?_⟩
    · refine h.move (fun t => ?_) nofun nofun
      dsimp only
      obtain hroused | hsame := hf t
      · rw [hroused]
        exact prodded_roused (h.threads t)
      · rw [hsame]
        exact h.threads t
    · refine lex_lt (.inl ?_)
      rw [hserver]
      exact Nat.lt_of_sub_eq_succ rfl
  | wakeSlots =>
    refine ⟨.server none, _, by rw [pulseStep, serverStep, hserver], ?_, ?_⟩
    · refine h.move (fun t => ?_) nofun nofun
      split
      · exact prodded_slotWoken (h.threads t)
      · exact h.threads t
    · refine lex_lt (.inl ?_)
      rw [hserver]
      exact Nat.lt_of_sub_eq_succ rfl
  | scan after entry =>
    cases hentry : s.queue[entry]? with
    | none =>
      refine ⟨.server none, { s with server := scanned after }, ?_, ?_, ?_⟩
      · rw [pulseStep, serverStep, hserver]
        simp only [hentry]
      · refine h.move h.threads (fun _ t hpc => ?_) fun hpc => ?_
        · cases after <;> exact nomatch hpc
        · cases after with
          | false => exact hpc.elim nofun nofun
          | true => exact h.unsignaled (.inl ⟨entry, hserver⟩)
      refine lex_lt (.inl ?_)
      rw [hserver]
      cases after with
      | false | true => exact Nat.lt_of_sub_eq_succ rfl
    | some t =>
      refine ⟨.server none, { s with
        server := if s.canWake t then .satisfy after t else .scan after (entry + 1) }, ?_, ?_, ?_⟩
      · rw [pulseStep, serverStep, hserver]
        simp only [hentry]
      · refine h.move h.threads (fun after' u hpc => ?_) fun hpc => ?_
        · split at hpc
          · rename_i hwake
            obtain ⟨hlow, hready⟩ := (canWake_iff s t).mp hwake
            cases hpc
            cases after with
            | false => exact ⟨rfl, hready, mem_of_getElem? hentry⟩
            | true => exact absurd (h.unsignaled (.inl ⟨entry, hserver⟩)) hlow
          · nomatch hpc
        split at hpc
        · exact hpc.elim nofun nofun
        obtain ⟨entry', hpc⟩ | hpc := hpc
        · cases hpc
          exact h.unsignaled (.inl ⟨entry, hserver⟩)
        · nomatch hpc
      · have hlength : entry < s.queue.length := (List.getElem?_eq_some_iff.mp hentry).1
        refine lex_lt (.inr ⟨?_, .inr ⟨rfl, ?_⟩⟩)
        · rw [hserver]
          split
          · cases after <;> rfl
          · cases after <;> rfl
        rw [hserver]
        dsimp only
        split
        · exact Nat.succ_pos _
        · rw [PulsePc.entriesLeft, PulsePc.entriesLeft]
          omega
  | satisfy after t =>
    obtain ⟨rfl, hthread, hmem⟩ := h.satisfy after t hserver
    refine ⟨.server none, _, by rw [pulseStep, serverStep, hserver], h.satisfied hserver, ?_⟩
    have hshorter : (s.queue.erase t).length < s.queue.length := by
      rw [length_erase_of_mem hmem]
      exact Nat.sub_lt (length_pos_of_mem hmem) Nat.one_pos
    by_cases hmanual : s.obj.high ≠ 0
    · refine lex_lt (.inr ⟨?_, .inl hshorter⟩)
      rw [hserver, if_pos hmanual]
      rfl
    · refine lex_lt (.inl ?_)
      rw [hserver, if_neg hmanual]
      exact Nat.lt_of_sub_eq_succ rfl
  | reset =>
    refine ⟨.server none, _, by rw [pulseStep, serverStep, hserver], ?_, ?_⟩
    · rw [resetEvent_server h.event]
      exact h.move h.threads nofun fun _ => rfl
    · refine lex_lt (.inl ?_)
      rw [hserver]
      exact Nat.lt_of_sub_eq_succ rfl
  | done => exact absurd hserver hrun

end PulseState

/-- A thread after the pulse: the value to compare the address with is 0, and no wake-up reached a
registered slot. -/
def PulseThread.Settles : PulseThread → Prop
  | .address (.sleep _ value _) => value = 0
  | .address p => p.InLoop = true
  | .slot _ _ (.recheck armed) => armed = true
  | _ => True

def PulseThread.stepsLeft : PulseThread → ℕ
  | .outside | .queued _ => 0
  | .select _ => 1
  | .address p =>
    match p with
    | .loop _ => 4
    | .consume _ => 3
    | .clock _ _ => 2
    | .sleep _ _ _ => 1
    | _ => 0
  | .slot _ _ pc =>
    match pc with
    | .woken => 6
    | .consume => 5
    | .register => 4
    | .recheck _ => 3
    | .leave _ => 2
    | .asleep => 0

lemma PulseThread.Settles.atRest {p : PulseThread} (h : p.Settles) (hrest : p.stepsLeft = 0) :
    p = .outside ∨ (∃ ready, p = .queued ready) ∨ (∃ c, p = .address (.asleep c)) ∨
      ∃ kind c, p = .slot kind c .asleep := by
  cases p with
  | outside => exact .inl rfl
  | queued ready => exact .inr (.inl ⟨ready, rfl⟩)
  | select ready => exact absurd hrest Nat.one_ne_zero
  | address p =>
    cases p with
    | asleep c => exact .inr (.inr (.inl ⟨c, rfl⟩))
    | loop c | consume c | clock c refused | sleep c value refused =>
      exact absurd hrest (Nat.succ_ne_zero _)
    | _ => exact absurd h Bool.false_ne_true
  | slot kind c pc =>
    cases pc with
    | asleep => exact .inr (.inr (.inr ⟨kind, c, rfl⟩))
    | _ => exact absurd hrest (Nat.succ_ne_zero _)

lemma clientStep_settles {p : LoopThread}
    (hp : (PulseThread.address p).Settles) (hleft : (PulseThread.address p).stepsLeft ≠ 0)
    (hlow : o.low = 0) :
    ∃ r, clientStep .event 0 o .go p = some r ∧ (PulseThread.ofLoop r.2.1).Settles ∧
      (PulseThread.ofLoop r.2.1).stepsLeft < (PulseThread.address p).stepsLeft := by
  cases p with
  | loop c =>
    by_cases hleaves : o.generation ≠ c.generation ∨ o.word.type ≠ WaitKind.event.type ∨
        wfusyncHasServerWaiters o
    · exact ⟨_, if_pos hleaves, trivial, Nat.lt_of_sub_eq_succ rfl⟩
    · exact ⟨_, if_neg hleaves, rfl, Nat.lt_of_sub_eq_succ rfl⟩
  | consume c =>
    obtain ⟨-, hsat⟩ := consumeEventState_closed (.inr hlow)
    refine ⟨_, rfl, ?_⟩
    rw [afterConsume, if_neg (by rw [WaitKind.consumeState, hsat]; exact Bool.false_ne_true)]
    split
    · exact ⟨rfl, Nat.lt_of_sub_eq_succ rfl⟩
    · exact ⟨rfl, Nat.lt_of_sub_eq_succ rfl⟩
  | clock c refused => exact ⟨_, rfl, rfl, Nat.lt_of_sub_eq_succ rfl⟩
  | sleep c value refused =>
    have hvalue : o.low = value := hlow.trans hp.symm
    refine ⟨_, rfl, ?_⟩
    rw [if_pos hvalue]
    exact ⟨rfl, one_pos⟩
  | _ => exact absurd rfl hleft

lemma slotStep_settles
    (hp : (PulseThread.slot kind c pc).Settles) (hpc : pc = .consume ∨ ∃ armed, pc = .recheck armed)
    (hlow : o.low = 0) :
    ∃ r, slotStep kind c o .go pc = some r ∧ r.2.1.Settles ∧
      r.2.1.stepsLeft < (PulseThread.slot kind c pc).stepsLeft := by
  obtain ⟨-, hsat⟩ := consumeWaitanyStates_closed (.inr hlow) c
  have hunsat : ¬ (consumeWaitanyStates c o).1.satisfied = true := by
    rw [hsat]
    exact Bool.false_ne_true
  obtain rfl | ⟨armed, rfl⟩ := hpc
  · rw [slotStep, if_neg hunsat]
    split
    · exact ⟨_, rfl, trivial, Nat.lt_of_sub_eq_succ rfl⟩
    · exact ⟨_, rfl, trivial, Nat.lt_of_sub_eq_succ rfl⟩
  have harmed : armed = true := hp
  rw [slotStep, if_neg hunsat]
  split
  · exact ⟨_, rfl, trivial, Nat.lt_of_sub_eq_succ rfl⟩
  · exact ⟨_, rfl, trivial, Nat.lt_of_sub_eq_succ rfl⟩

namespace PulseState

/-- The request is over, and the threads that were released stay the same. -/
structure Settling (L : List ι) (s : PulseState ι) : Prop where
  server : s.server = .done
  low : s.obj.low = 0
  released : s.released = L
  threads : ∀ t, (s.threads t).Settles

/-- A step of one thread towards its rest. -/
structure Settled (t : ι) (s s' : PulseState ι) : Prop where
  server : s'.server = s.server
  low : s'.obj.low = s.obj.low
  released : s'.released = s.released
  thread : ∃ p, s'.threads = update s.threads t p ∧ p.Settles ∧
    p.stepsLeft < (s.threads t).stepsLeft

lemma goto_settled {p : PulseThread} (hp : p.Settles)
    (hless : p.stepsLeft < (s.threads t).stepsLeft) : Settled t s (s.goto t p) :=
  ⟨rfl, rfl, rfl, p, rfl, hp, hless⟩

lemma runStep_settled (hlow : s.obj.low = 0) (ht : (s.threads t).Settles)
    (hrun : (∃ p, s.threads t = .address p ∧ (s.threads t).stepsLeft ≠ 0) ∨
      ∃ kind c pc, s.threads t = .slot kind c pc ∧ (pc = .consume ∨ ∃ armed, pc = .recheck armed)) :
    ∃ s', s.runStep t .go = some s' ∧ Settled t s s' := by
  obtain ⟨p, hp, hleft⟩ | ⟨kind, c, pc, hp, hpc⟩ := hrun
  · rw [hp] at ht hleft
    obtain ⟨r, hr, hsettles, hless⟩ := clientStep_settles ht hleft hlow
    have hloop : p.InLoop = true := by
      cases p with
      | sleep c value refused => rfl
      | _ => exact ht
    have hidles := clientStep_idles hloop (.inr hlow) hr
    refine ⟨s.goto t (.ofLoop r.2.1), ?_, goto_settled hsettles (hp ▸ hless)⟩
    rw [runStep, hp]
    dsimp only
    rw [hr]
    exact congrArg some hidles.moves
  · rw [hp] at ht
    obtain ⟨r, hr, hsettles, hless⟩ := slotStep_settles ht hpc hlow
    have hidles := slotStep_idles (.inr hlow) hr
    refine ⟨s.goto t r.2.1, ?_, goto_settled hsettles (hp ▸ hless)⟩
    rw [runStep, hp]
    dsimp only
    rw [hr]
    exact congrArg some hidles.moves

lemma retryAll_settled {kind : SlotKind} {c : WaitArgs} (hlow : s.obj.low = 0)
    (ht : s.threads t = .slot kind c .woken) (ready : Bool) :
    Settled t s (s.retryAll t ready c) := by
  unfold retryAll
  split
  · exact ⟨rfl, rfl, rfl, _, rfl, trivial, ht ▸ Nat.lt_of_sub_eq_succ rfl⟩
  · exact ⟨rfl, rfl, rfl, _, rfl, trivial, ht ▸ Nat.lt_of_sub_eq_succ rfl⟩

lemma requestStep_settled (hserver : s.server = .done) (hlow : s.obj.low = 0)
    (hrequest : (∃ ready, s.threads t = .select ready) ∨
      ∃ kind c pc, s.threads t = .slot kind c pc ∧
      (pc = .woken ∨ pc = .register ∨ ∃ fallback, pc = .leave fallback)) :
    ∃ s', s.requestStep t = some s' ∧ Settled t s s' := by
  obtain ⟨ready, ht⟩ | ⟨kind, c, pc, ht, rfl | rfl | ⟨fallback, rfl⟩⟩ := hrequest
  · have hunsignaled : wfusyncEventSignaled s.obj = false := by
      rw [wfusyncEventSignaled, decide_eq_false_iff_not, not_not]
      exact hlow
    rw [requestStep, hserver, ht]
    dsimp only
    rw [if_neg (by rw [hunsignaled]; exact fun h => Bool.false_ne_true h.1)]
    exact ⟨_, rfl, rfl, rfl, rfl, _, rfl, trivial, ht ▸ Nat.lt_of_sub_eq_succ rfl⟩
  · rw [requestStep, hserver, ht]
    cases kind with
    | any => exact ⟨_, rfl, rfl, rfl, rfl, _, rfl, trivial, ht ▸ Nat.lt_of_sub_eq_succ rfl⟩
    | all ready =>
      have hretry : Settled t (s.unregisterWait t) ((s.unregisterWait t).retryAll t ready c) :=
        retryAll_settled (s := s.unregisterWait t) hlow ht ready
      exact ⟨_, rfl, hretry.server, hretry.low, hretry.released, hretry.thread⟩
  · rw [requestStep, hserver, ht]
    exact ⟨_, rfl, rfl, rfl, rfl, _, rfl, decide_eq_true hlow, ht ▸ Nat.lt_of_sub_eq_succ rfl⟩
  rw [requestStep, hserver, ht]
  refine ⟨_, rfl, rfl, rfl, rfl, _, rfl, ?_, ?_⟩
  · split
    · exact trivial
    · exact trivial
  rw [ht]
  split
  · exact Nat.lt_of_sub_eq_succ rfl
  · exact Nat.lt_of_sub_eq_succ rfl

lemma Settling.enabled [Fintype ι] {L : List ι} (h : s.Settling L)
    (hleft : (s.threads t).stepsLeft ≠ 0) : ∃ a s', pulseStep s a = some s' ∧ Settled t s s' := by
  have hrun := @runStep_settled _ _ s t h.low (h.threads t)
  have hrequest := @requestStep_settled _ _ s t h.server h.low
  cases ht : s.threads t with
  | outside | queued ready =>
    rw [ht] at hleft
    exact absurd rfl hleft
  | select ready =>
    obtain ⟨s', hs', hsettled⟩ := hrequest (.inl ⟨ready, ht⟩)
    exact ⟨.request t, s', hs', hsettled⟩
  | address p =>
    obtain ⟨s', hs', hsettled⟩ := hrun (.inl ⟨p, ht, hleft⟩)
    exact ⟨.run t .go, s', hs', hsettled⟩
  | slot kind c pc =>
    have hrunSlot := fun hpc => hrun (.inr ⟨kind, c, pc, ht, hpc⟩)
    have hrequestSlot := fun hpc => hrequest (.inr ⟨kind, c, pc, ht, hpc⟩)
    cases pc with
    | asleep =>
      rw [ht] at hleft
      exact absurd rfl hleft
    | consume =>
      obtain ⟨s', hs', hsettled⟩ := hrunSlot (.inl rfl)
      exact ⟨.run t .go, s', hs', hsettled⟩
    | recheck armed =>
      obtain ⟨s', hs', hsettled⟩ := hrunSlot (.inr ⟨armed, rfl⟩)
      exact ⟨.run t .go, s', hs', hsettled⟩
    | woken =>
      obtain ⟨s', hs', hsettled⟩ := hrequestSlot (.inl rfl)
      exact ⟨.request t, s', hs', hsettled⟩
    | register =>
      obtain ⟨s', hs', hsettled⟩ := hrequestSlot (.inr (.inl rfl))
      exact ⟨.request t, s', hs', hsettled⟩
    | leave fallback =>
      obtain ⟨s', hs', hsettled⟩ := hrequestSlot (.inr (.inr ⟨fallback, rfl⟩))
      exact ⟨.request t, s', hs', hsettled⟩

def waitMeasure [Fintype ι] (s : PulseState ι) : ℕ :=
  ∑ t, (s.threads t).stepsLeft

lemma Settling.next [Fintype ι] {L : List ι} (h : s.Settling L) (hrest : ¬ s.AtRest) :
    ∃ a s', pulseStep s a = some s' ∧ s'.Settling L ∧ s'.waitMeasure < s.waitMeasure := by
  have hmoving : ∃ t, (s.threads t).stepsLeft ≠ 0 := by
    by_contra hnone
    push Not at hnone
    exact hrest ⟨h.server, fun t => (h.threads t).atRest (hnone t)⟩
  obtain ⟨t, ht⟩ := hmoving
  obtain ⟨a, s', hs', hsettled⟩ := h.enabled ht
  obtain ⟨p, hthreads, hp, hless⟩ := hsettled.thread
  refine ⟨a, s', hs', ⟨hsettled.server.trans h.server, hsettled.low.trans h.low,
    hsettled.released.trans h.released, fun u => ?_⟩, ?_⟩
  · rw [hthreads]
    by_cases hu : u = t
    · rw [hu, update_self]
      exact hp
    · rw [update_of_ne hu]
      exact h.threads u
  unfold waitMeasure
  rw [hthreads]
  refine Finset.sum_lt_sum (fun u _ => ?_) ⟨t, Finset.mem_univ t, ?_⟩
  · by_cases hu : u = t
    · rw [hu, update_self]
      exact hless.le
    · rw [update_of_ne hu]
  · rw [update_self]
    exact hless

omit [DecidableEq ι] in
lemma ServerOnly.settling (h : s₀.ServerOnly s) (hserver : s.server = .done) :
    s.Settling s.released := by
  refine ⟨hserver, h.unsignaled (.inr hserver), rfl, fun t => ?_⟩
  have hprodded := h.threads t
  generalize s₀.threads t = p₀ at hprodded
  generalize s.threads t = p at hprodded
  cases hprodded with
  | outside | queued | dequeued | slot | woken => exact trivial
  | asleep | roused => exact rfl

lemma Begins.unfair [Fintype ι] (h : s.Begins) : ∃ s', Reachable pulseStep (· = s) s' ∧ s'.AtRest ∧
      ∀ t ∈ s'.released, s.threads t = .queued true := by
  have hserver : ∃ s₁, Reachable pulseStep (· = s) s₁ ∧ s.ServerOnly s₁ ∧ s₁.server = .done := by
    refine Reaches.progress wellFounded_lt serverMeasure (fun u hu hrun => ?_) (.start rfl)
      h.serverOnly
    obtain ⟨a, u', hstep, hu', hless⟩ := hu.next hrun
    exact ⟨a, u', trivial, hstep, hu', hless⟩
  obtain ⟨s₁, hreach₁, honly, hdone⟩ := hserver
  have hrest : ∃ s₂, Reachable pulseStep (· = s) s₂ ∧ s₂.Settling s₁.released ∧ s₂.AtRest := by
    refine Reaches.progress wellFounded_lt waitMeasure (fun u hu hrun => ?_) hreach₁
      (honly.settling hdone)
    obtain ⟨a, u', hstep, hu', hless⟩ := hu.next hrun
    exact ⟨a, u', trivial, hstep, hu', hless⟩
  obtain ⟨s₂, hreach₂, hsettling, hrest₂⟩ := hrest
  refine ⟨s₂, hreach₂, hrest₂, fun t ht => ?_⟩
  rw [hsettling.released] at ht
  exact honly.released t ht

lemma Begins.inServerQueue [Fintype ι] (h : s.Begins) (hright : s.PulsesRight) :
    s.InServerQueue := by
  obtain ⟨s', hreach, hrest, hreleased⟩ := h.unfair
  obtain ⟨-, hreleases⟩ := hright s' hreach hrest
  unfold PulseReleases at hreleases
  split at hreleases
  · exact .inl fun t ht => hreleased t ((hreleases t).mpr ht)
  rename_i hauto
  by_cases hready : ∃ t, (s.threads t).isReady = true
  · have hone := hreleases.2 hready
    obtain ⟨t, ht⟩ := exists_mem_of_length_pos (hone ▸ one_pos)
    exact .inr ⟨Bool.eq_false_iff.mpr hauto, t, hreleased t ht⟩
  · exact .inl fun t ht => absurd ⟨t, ht⟩ hready

end PulseState

/-- The pulse releases the threads that a server without shared state would release in every
schedule, exactly when no ready thread sleeps on the address or on a slot, or a ready thread in the
wait queue takes the event of an auto-reset event. -/
theorem pulse_event [Fintype ι] (s : PulseState ι) (h : s.Begins) :
    s.PulsesRight ↔ s.InServerQueue :=
  ⟨h.inServerQueue, h.pulsesRight⟩

def queuedPulse (high : Int) (other : PulseThread) : PulseState Bool where
  obj := { low := 0, high := high, generation := 0, word := ⟨.event, false, false, true⟩ }
  queue := [false]
  waiters := []
  threads t := if t then other else .queued true
  server := .set
  released := []

def sleepingPulse (high : Int) : PulseState Bool :=
  queuedPulse high (.address (.asleep ⟨false, 0⟩))

lemma queuedPulse_begins (high : Int) {other : PulseThread}
    (hother : other = .outside ∨ ∃ c, other = .address (.asleep c)) :
    (queuedPulse high other).Begins := by
  refine ⟨rfl, nodup_singleton _, fun t => ?_, fun t => ?_, fun t => ?_, rfl, rfl⟩
  · cases t with
    | false => exact iff_of_true (mem_singleton_self _) ⟨true, rfl⟩
    | true =>
      refine iff_of_false (fun h => nomatch mem_singleton.mp h) ?_
      obtain rfl | ⟨c, rfl⟩ := hother
      · exact nofun
      · exact nofun
  · cases t with
    | false => exact iff_of_false nofun nofun
    | true =>
      refine iff_of_false nofun ?_
      obtain rfl | ⟨c, rfl⟩ := hother
      · exact nofun
      · exact nofun
  · cases t with
    | false => exact .inr (.inl ⟨true, rfl⟩)
    | true => exact hother.imp id fun h => .inr (.inl h)

theorem pulse_event_queued :
    (queuedPulse 1 .outside).Begins ∧ (queuedPulse 1 .outside).PulsesRight := by
  have hbegins := queuedPulse_begins 1 (.inl rfl)
  refine ⟨hbegins, (pulse_event _ hbegins).mpr (.inl fun t ht => ?_)⟩
  cases t with
  | false => rfl
  | true => exact absurd ht Bool.false_ne_true

/-- The sleeper of a manual-reset event is woken, and looks at the event after the reset. -/
theorem pulse_event_sleeper :
    ∃ s : PulseState Bool, s.Begins ∧ s.manual = true ∧ ¬ s.PulsesRight := by
  have hbegins := queuedPulse_begins 1 (.inr ⟨⟨false, 0⟩, rfl⟩)
  refine ⟨sleepingPulse 1, hbegins, rfl, fun hright => ?_⟩
  obtain hall | ⟨hauto, -⟩ := hbegins.inServerQueue hright
  · exact nomatch hall true rfl
  · nomatch hauto

end WineForge.WfuSync
