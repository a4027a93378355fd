import Mathlib
import WineForge.Library.SortedInsert
import WineForge.Library.Transition

/-!
# Timer queues

A queue has a list of timers and a thread of its own, which queues a callback for each timer that
has expired. A timer that is deleted while callbacks of it are queued or running stays in the list
until the last of them has finished.

A step is a section of the code under `q->cs`, or a wait or a call between two of them. A handle of
a timer is used while the timer has not been freed, and the handle of a queue until its thread has
exited. Each timer has a number of its own: the memory of a freed one is not used again.
-/

namespace WineForge.TimerQueues

open Library

abbrev TimerId := Nat

def expireNever : UInt64 := 0xffffffffffffffff

def infinite : UInt32 := 0xffffffff

/-- What the code must not do: fail an assertion, or use a timer that has been freed. -/
inductive Fault
  | assertion | freedMemory
  deriving DecidableEq, Repr

/-- `struct queue_timer`. -/
structure QueueTimer where
  /-- The number of callbacks pending execution. -/
  runcount : Nat
  period : UInt32
  /-- `WT_EXECUTEINTIMERTHREAD` of the flags. -/
  executeInTimerThread : Bool
  expire : UInt64
  destroy : Bool
  /-- The removal event. -/
  event : Option Nat
  deriving DecidableEq, Repr

/-- `struct timer_queue`, with the memory of its timers. -/
structure TimerQueue where
  timer : TimerId → Option QueueTimer
  timers : List TimerId
  quit : Bool
  /-- `q->event` is signaled. -/
  event : Bool
  -- history: the timers that have been allocated and freed, the removal events that have been set,
  -- and how often the thread has been signaled because it should exit
  created : Nat
  freed : List TimerId
  removals : List Nat
  exitSignals : Nat

def TimerQueue.get (q : TimerQueue) (t : TimerId) : Except Fault QueueTimer :=
  match q.timer t with
  | some timer => .ok timer
  | none => .error .freedMemory

def TimerQueue.set (q : TimerQueue) (t : TimerId) (timer : QueueTimer) : TimerQueue :=
  { q with timer := Function.update q.timer t (some timer) }

/-- `cur->expire` of an entry of the list. -/
def TimerQueue.expireOf (q : TimerQueue) (t : TimerId) : UInt64 :=
  match q.timer t with
  | some timer => timer.expire
  | none => 0

def queueRemoveTimer (q : TimerQueue) (t : TimerId) : Except Fault TimerQueue := do
  let timer ← q.get t
  if timer.runcount ≠ 0 ∨ timer.destroy = false then .error .assertion
  else
    let timers := q.timers.erase t
    let removals := match timer.event with
      | some event => event :: q.removals
      | none => q.removals
    let exit := q.quit && timers.isEmpty
    .ok { q with
      timer := Function.update q.timer t none
      timers := timers
      event := q.event || exit
      freed := t :: q.freed
      removals := removals
      exitSignals := q.exitSignals + exit.toNat }

def timerCleanupCallback (q : TimerQueue) (t : TimerId) : Except Fault TimerQueue := do
  let timer ← q.get t
  if timer.runcount = 0 then .error .assertion
  else
    let runcount := timer.runcount - 1
    let q := q.set t { timer with runcount := runcount }
    if timer.destroy = true ∧ runcount = 0 then queueRemoveTimer q t else .ok q

def TimerQueue.place (q : TimerQueue) (t : TimerId) (time : UInt64) : List TimerId :=
  if time ≠ expireNever then insertBefore (fun cur => decide (time < q.expireOf cur)) t q.timers
  else q.timers ++ [t]

def queueAddTimer (q : TimerQueue) (t : TimerId) (time : UInt64) (setEvent : Bool) :
    Except Fault TimerQueue := do
  let timer ← q.get t
  if q.quit = true ∧ ¬ (timer.destroy = true ∧ time = expireNever) then .error .assertion
  else
    let timers := q.place t time
    let q := q.set t { timer with expire := time }
    -- if we insert at the head of the list, we need to expire sooner than expected
    .ok { q with timers := timers, event := q.event || (setEvent && timers.head? == some t) }

def queueMoveTimer (q : TimerQueue) (t : TimerId) (time : UInt64) (setEvent : Bool) :
    Except Fault TimerQueue :=
  queueAddTimer { q with timers := q.timers.erase t } t time setEvent

/-- When a timer expires next; `now` is the time at which it has expired. -/
def nextExpire (timer : QueueTimer) (now : UInt64) : UInt64 :=
  if timer.period ≠ 0 then
    let next := timer.expire + timer.period.toUInt64
    -- avoid trigger cascade if overloaded / hibernated
    if next < now then now + timer.period.toUInt64 else next
  else expireNever

/-- `queue_timer_expire` until it leaves the section, with the timer to call back. -/
def queueTimerExpire (q : TimerQueue) (now : UInt64) : Except Fault (TimerQueue × Option TimerId) :=
  match q.timers with
  | [] => .ok (q, none)
  | t :: _ => do
    let timer ← q.get t
    if timer.destroy = false ∧ timer.expire ≤ now then
      let q := q.set t { timer with runcount := timer.runcount + 1 }
      let q ← queueMoveTimer q t (nextExpire timer now) false
      .ok (q, some t)
    else .ok (q, none)

def queueGetTimeout (q : TimerQueue) (now : UInt64) : Except Fault UInt32 :=
  match q.timers with
  | [] => .ok infinite
  | t :: _ => do
    let timer ← q.get t
    if timer.destroy = true ∧ timer.expire ≠ expireNever then .error .assertion
    else if timer.expire ≠ expireNever then
      .ok (if timer.expire < now then 0 else (timer.expire - now).toUInt32)
    else .ok infinite

def queueDestroyTimer (q : TimerQueue) (t : TimerId) : Except Fault TimerQueue := do
  let timer ← q.get t
  let q := q.set t { timer with destroy := true }
  if timer.runcount = 0 then queueRemoveTimer q t else queueMoveTimer q t expireNever false

def following (t : TimerId) : List TimerId → Option TimerId
  | [] => none
  | x :: xs => if x = t then xs.head? else following t xs

/-- The pointer `next` of an entry of the list or of its head, which is `none`. -/
def TimerQueue.next (q : TimerQueue) : Option TimerId → Option TimerId
  | none => q.timers.head?
  | some t => following t q.timers

/-- The loop of `RtlDeleteTimerQueueEx` (`LIST_FOR_EACH_ENTRY_SAFE`) from two cursors, with the
timers that it visits; nothing where it has not ended after `fuel` tests. -/
def destroyLoop : Nat → TimerQueue → Option TimerId → Option TimerId →
    Option (Except Fault (TimerQueue × List TimerId))
  | 0, _, _, _ => none
  | _ + 1, q, none, _ => some (.ok (q, []))
  | fuel + 1, q, some t, temp =>
    match queueDestroyTimer q t with
    | .error fault => some (.error fault)
    | .ok q =>
      (destroyLoop fuel q temp (q.next temp)).map fun res =>
        res.map fun (q, visited) => (q, t :: visited)

/-- The section of `RtlDeleteTimerQueueEx`. -/
def rtlDeleteTimerQueueEx (fuel : Nat) (q : TimerQueue) :
    Option (Except Fault (TimerQueue × List TimerId)) :=
  let q := { q with quit := true }
  match q.timers.head? with
  | some t => destroyLoop fuel q (some t) (q.next (some t))
  | none => some (.ok ({ q with event := true, exitSignals := q.exitSignals + 1 }, []))

/-- `RtlCreateTimer`; a new timer of a queue that quits is freed at once. -/
def rtlCreateTimer (q : TimerQueue) (now : UInt64) (dueTime period : UInt32)
    (executeInTimerThread : Bool) : Except Fault TimerQueue :=
  let t := q.created
  let q := { q with created := q.created + 1 }
  if q.quit = true then .ok { q with freed := t :: q.freed }
  else
    queueAddTimer (q.set t ⟨0, period, executeInTimerThread, 0, false, none⟩) t
      (now + dueTime.toUInt64) true

def rtlUpdateTimer (q : TimerQueue) (t : TimerId) (now : UInt64) (dueTime period : UInt32) :
    Except Fault TimerQueue := do
  let timer ← q.get t
  -- can't change a timer if it was once-only or destroyed
  if timer.expire ≠ expireNever then
    queueMoveTimer (q.set t { timer with period := period }) t (now + dueTime.toUInt64) true
  else .ok q

/-- The section of `RtlDeleteTimer`. -/
def rtlDeleteTimer (q : TimerQueue) (t : TimerId) (event : Option Nat) : Except Fault TimerQueue := do
  let timer ← q.get t
  queueDestroyTimer (q.set t { timer with event := event }) t

inductive ThreadPc
  /-- In `NtWaitForSingleObject`. -/
  | waiting (timeout : UInt32)
  | signaled
  | timedOut
  /-- Behind the section of `queue_timer_expire`. -/
  | submitting (t : TimerId)
  /-- In a callback. -/
  | running (t : TimerId)
  /-- At the call of `queue_get_timeout`. -/
  | adjusting
  | exited
  deriving DecidableEq, Repr

def ThreadPc.holds (t : TimerId) : ThreadPc → Nat
  | submitting t' | running t' => if t' = t then 1 else 0
  | waiting _ | signaled | timedOut | adjusting | exited => 0

structure State where
  queue : TimerQueue
  thread : ThreadPc
  /-- The work items that are queued or running. -/
  callbacks : List TimerId

inductive Act
  | create (now : UInt64) (dueTime period : UInt32) (executeInTimerThread : Bool)
  | update (t : TimerId) (now : UInt64) (dueTime period : UInt32)
  | delete (t : TimerId) (event : Option Nat)
  | deleteQueue (fuel : Nat)
  /-- A work item has run its callback. -/
  | finish (t : TimerId)
  | wake
  | timeOut
  | checkQuit
  | expire (now : UInt64)
  /-- The thread runs the callback, or it calls `RtlQueueWorkItem`. -/
  | submit (success : Bool)
  | finishInThread
  | getTimeout (now : UInt64)

def State.call (s : State) (res : Except Fault TimerQueue) : Except Fault State :=
  res.map fun queue => { s with queue := queue }

def step (s : State) : Act → Option (Except Fault State)
  | .create now dueTime period executeInTimerThread =>
    if s.thread = .exited then none
    else some (s.call (rtlCreateTimer s.queue now dueTime period executeInTimerThread))
  | .update t now dueTime period =>
    if (s.queue.timer t).isSome then some (s.call (rtlUpdateTimer s.queue t now dueTime period))
    else none
  | .delete t event =>
    if (s.queue.timer t).isSome then some (s.call (rtlDeleteTimer s.queue t event)) else none
  | .deleteQueue fuel =>
    if s.queue.quit = true then none
    else (rtlDeleteTimerQueueEx fuel s.queue).map fun res => s.call (res.map Prod.fst)
  | .finish t =>
    if t ∈ s.callbacks then
      some (State.call { s with callbacks := s.callbacks.erase t } (timerCleanupCallback s.queue t))
    else none
  | .wake =>
    match s.thread with
    | .waiting _ =>
      if s.queue.event = true then
        some (.ok { s with queue := { s.queue with event := false }, thread := .signaled })
      else none
    | _ => none
  | .timeOut =>
    match s.thread with
    | .waiting timeout => if timeout = infinite then none else some (.ok { s with thread := .timedOut })
    | _ => none
  | .checkQuit =>
    if s.thread = .signaled then
      some (.ok { s with
        thread := if s.queue.quit = true ∧ s.queue.timers = [] then .exited else .adjusting })
    else none
  | .expire now =>
    if s.thread = .timedOut then
      some ((queueTimerExpire s.queue now).map fun (queue, t) =>
        { s with
          queue := queue
          thread := match t with
            | some t => .submitting t
            | none => .adjusting })
    else none
  | .submit success =>
    match s.thread with
    | .submitting t =>
      some do
        let timer ← s.queue.get t
        if timer.executeInTimerThread = true then .ok { s with thread := .running t }
        else if success = true then .ok { s with thread := .adjusting, callbacks := t :: s.callbacks }
        else State.call { s with thread := .adjusting } (timerCleanupCallback s.queue t)
    | _ => none
  | .finishInThread =>
    match s.thread with
    | .running t =>
      some (State.call { s with thread := .adjusting } (timerCleanupCallback s.queue t))
    | _ => none
  | .getTimeout now =>
    if s.thread = .adjusting then
      some ((queueGetTimeout s.queue now).map fun timeout => { s with thread := .waiting timeout })
    else none

def next (s : State) (a : Act) : Option State :=
  match step s a with
  | some (.ok s') => some s'
  | _ => none

/-- `RtlCreateTimerQueue`. -/
def initial : State :=
  ⟨⟨fun _ => none, [], false, false, 0, [], [], 0⟩, .waiting infinite, []⟩

end WineForge.TimerQueues
