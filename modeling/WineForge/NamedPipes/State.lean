import Mathlib.Algebra.Order.Ring.Int

/-!
# Named pipes

The two ends of a connected pipe. Each end has the queue of messages that the other end wrote to
it. A message that is freed stays in the list, marked as no longer queued, so that the list is also
the record of all accepted writes. All allocations succeed, and no request is cancelled.
-/

namespace WineForge.NamedPipes

inductive End
  | server
  | client
  deriving DecidableEq, Repr

def End.other : End → End
  | server => client
  | client => server

/-- The status of a completed read. -/
inductive Status
  | success
  | bufferOverflow
  deriving DecidableEq, Repr

/-- The status of requests that end with the connection. -/
inductive DisconnectStatus
  | pipeBroken
  | pipeDisconnected
  deriving DecidableEq, Repr

/-- How a write completed: with its data read, with its data queued, cut short in non-blocking mode
or terminated. -/
inductive Completion
  | read (size : Nat)
  | queued (size avail : Nat)
  | cut (readPos : Nat)
  | terminated (status : DisconnectStatus)
  deriving DecidableEq, Repr

def Completion.written : Completion → Option Nat
  | read size => some size
  | queued size _ => some size
  | cut readPos => some readPos
  | terminated _ => none

structure Message where
  data : List UInt8
  readPos : Nat
  /-- The write is pending: `message->async` is set. -/
  async : Bool
  /-- The message is in the queue. -/
  queued : Bool
  /-- Empty while the status of the write is `STATUS_PENDING`. -/
  completion : Option Completion
  deriving DecidableEq, Repr

def Message.size (message : Message) : Nat := message.data.length

/-- `in_size - read_pos`. -/
def Message.left (message : Message) : Nat := message.size - message.readPos

inductive PipeState
  | connected
  | disconnected
  | closing
  deriving DecidableEq, Repr

/-- A completed read, with the message and the position that it started at. -/
structure ReadResult where
  messageMode : Bool
  outSize : Nat
  status : Status
  data : List UInt8
  message : Nat
  start : Nat
  deriving DecidableEq, Repr

structure PipeEnd where
  /-- `NAMED_PIPE_MESSAGE_STREAM_READ`. -/
  messageRead : Bool
  /-- `NAMED_PIPE_NONBLOCKING_MODE`. -/
  nonblocking : Bool
  state : PipeState
  /-- `pipe_end->pipe` is set. -/
  hasPipe : Bool
  /-- `pipe_end->connection` is set, to the other end. -/
  connection : Bool
  /-- The handles to the end are closed and it is destroyed. -/
  destroyed : Bool
  bufferSize : Nat
  messages : List Message
  /-- The buffer sizes of the pending reads. -/
  reads : List Nat
  /-- The number of pending flushes. -/
  flushes : Nat
  results : List ReadResult
  deriving DecidableEq, Repr

structure Pipe where
  messageMode : Bool
  ends : End → PipeEnd

def Pipe.set (s : Pipe) (e : End) (p : PipeEnd) : Pipe :=
  { s with ends := Function.update s.ends e p }

@[simp] lemma Pipe.set_ends (s : Pipe) (e : End) (p : PipeEnd) : (s.set e p).ends e = p := by
  simp [Pipe.set]

@[simp] lemma End.other_other (e : End) : e.other.other = e := by
  cases e <;> rfl

def wrap32 (n : Nat) : Nat := n % 4294967296

def wakeMessage (message : Message) (completion : Completion) : Message :=
  if message.async then
    { message with async := false, completion := some (message.completion.getD completion) }
  else message

def freeMessage (message : Message) : Message := { message with queued := false }

def queueEmpty (messages : List Message) : Bool := messages.all fun m => !m.queued

def listHead (messages : List Message) : Nat := messages.findIdx fun m => m.queued

/-- The bytes available to a read in byte mode, counted until they fill the buffer. -/
def availFor (outSize : Nat) : List Message → Nat → Nat
  | [], avail => avail
  | m :: ms, avail =>
    if m.queued then
      let avail := wrap32 (avail + m.left)
      if avail ≥ outSize then avail else availFor outSize ms avail
    else availFor outSize ms avail

def readWhole : List Message → List Message
  | [] => []
  | m :: ms =>
    if m.queued then
      freeMessage (wakeMessage { m with readPos := m.size } (.read m.size)) :: ms
    else m :: readWhole ms

def readLoop (outSize : Nat) : List Message → Nat → List Message × List UInt8
  | [], _ => ([], [])
  | m :: ms, writePos =>
    if m.queued then
      let writing := min (outSize - writePos) m.left
      let buf := (m.data.drop m.readPos).take writing
      let m' := { m with readPos := m.readPos + writing }
      let m' := if m'.readPos = m.size then freeMessage (wakeMessage m' (.read m.size)) else m'
      if writePos + writing < outSize then
        let (ms', buf') := readLoop outSize ms (writePos + writing)
        (m' :: ms', buf ++ buf')
      else (m' :: ms, buf)
    else
      let (ms', buf') := readLoop outSize ms writePos
      (m :: ms', buf')

def emptyMessage : Message := ⟨[], 0, false, false, none⟩

/-- Completes a read with a buffer of `outSize` bytes. The queue is not empty. -/
def messageQueueRead (p : PipeEnd) (outSize : Nat) : PipeEnd :=
  let i := listHead p.messages
  let message := p.messages.getD i emptyMessage
  let size :=
    if p.messageRead then min outSize message.left else min outSize (availFor outSize p.messages 0)
  let status :=
    if p.messageRead ∧ message.readPos + size < message.size then Status.bufferOverflow
    else Status.success
  let (messages, data) :=
    if message.readPos = 0 ∧ message.size = outSize then
      (readWhole p.messages, message.data.take size)
    else readLoop size p.messages 0
  { p with
    messages := messages
    results := p.results ++ [⟨p.messageRead, outSize, status, data, i, message.readPos⟩] }

/-- The loop of `reselect_read_queue` on the pending reads. -/
def serveReads : List Nat → PipeEnd → PipeEnd
  | [], p => { p with reads := [] }
  | outSize :: reads, p =>
    if queueEmpty p.messages then { p with reads := outSize :: reads }
    else serveReads reads (messageQueueRead p outSize)

/-- The loop of `reselect_write_queue`. -/
def wakeWrites (nonblocking : Bool) (bufferSize : Nat) : List Message → Nat → List Message
  | [], _ => []
  | m :: ms, avail =>
    if m.queued then
      if m.async ∧ m.completion ≠ none then
        freeMessage { m with async := false } :: wakeWrites nonblocking bufferSize ms avail
      else
        let avail := wrap32 (avail + m.left)
        let m' :=
          if m.async ∧ (avail ≤ bufferSize ∨ m.size = 0) then
            wakeMessage m (.queued m.size avail)
          else if m.async ∧ nonblocking then freeMessage (wakeMessage m (.cut m.readPos))
          else m
        m' :: wakeWrites nonblocking bufferSize ms avail
    else m :: wakeWrites nonblocking bufferSize ms avail

/-! ### The mutual recursion

Both functions set `ignore_reselect` while they complete requests, so completing a request inside
their loops does not call them again. -/

lemma length_serveReads_le (reads : List Nat) (p : PipeEnd) :
    (serveReads reads p).reads.length ≤ reads.length := by
  induction reads generalizing p with
  | nil => simp [serveReads]
  | cons outSize reads ih =>
    rw [serveReads]
    split
    · exact Nat.le_refl _
    · exact Nat.le_trans (ih _) (Nat.le_succ _)

/-- Whether the loop of `reselect_read_queue` serves a read. -/
def servesRead (p : PipeEnd) : Bool := !queueEmpty p.messages && !p.reads.isEmpty

lemma length_serveReads_lt {p : PipeEnd} (h : servesRead p = true) :
    (serveReads p.reads p).reads.length < p.reads.length := by
  obtain ⟨hqueue, hreads⟩ := Bool.and_eq_true_iff.mp h
  cases hp : p.reads with
  | nil => simp [hp] at hreads
  | cons outSize reads =>
    have hne : ¬queueEmpty p.messages = true := by simpa using hqueue
    rw [serveReads, if_neg hne]
    exact Nat.lt_succ_of_le (length_serveReads_le _ _)

/-- `fd_async_wake_up` on the flushes of an end. -/
def wakeFlushes (s : Pipe) (e : End) : Pipe := s.set e { s.ends e with flushes := 0 }

mutual

def reselectReadQueue (s : Pipe) (e : End) (reselectWrite : Bool) : Pipe :=
  let served := servesRead (s.ends e)
  let p := serveReads (s.ends e).reads (s.ends e)
  let s' := s.set e p
  if p.connection then
    if queueEmpty p.messages then wakeFlushes s' e.other
    else if reselectWrite || served then reselectWriteQueue s' e.other
    else s'
  else s'
  termination_by ((s.ends e).reads.length, if reselectWrite then 2 else 0)
  decreasing_by
    simp only [End.other_other, Pipe.set_ends]
    rename_i hwrite
    cases hserved : servesRead (s.ends e) with
    | true => exact Prod.Lex.left _ _ (length_serveReads_lt hserved)
    | false =>
      simp only [served, hserved, Bool.or_false] at hwrite
      rw [if_pos hwrite]
      have hle := length_serveReads_le (s.ends e).reads (s.ends e)
      obtain hlt | heq := Nat.lt_or_eq_of_le hle
      · exact Prod.Lex.left _ _ hlt
      · rw [heq]
        exact Prod.Lex.right _ (by decide)

/-- `e` is the writing end. -/
def reselectWriteQueue (s : Pipe) (e : End) : Pipe :=
  if (s.ends e).connection then
    let reader := s.ends e.other
    reselectReadQueue
      (s.set e.other
        { reader with
          messages := wakeWrites (s.ends e).nonblocking reader.bufferSize reader.messages 0 })
      e.other false
  else s
  termination_by ((s.ends e.other).reads.length, 1)
  decreasing_by
    simp only [Pipe.set_ends]
    exact Prod.Lex.right _ (by decide)

end

def terminateReads (e : End) : List Nat → Pipe → Pipe
  | [], s => s
  | _ :: reads, s =>
    terminateReads e reads
      (reselectReadQueue (s.set e { s.ends e with reads := (s.ends e).reads.tail }) e false)

/-- One round of the loop over the messages of `e`, at position `i`. A message that is pending is
freed and its write is terminated, which calls `reselect_write_queue` for the writer. -/
def disconnectMessage (s : Pipe) (e : End) (status : DisconnectStatus) (i : Nat) (message : Message) : Pipe :=
  let p := s.ends e
  if message.async then
    let message := freeMessage (wakeMessage message (.terminated status))
    reselectWriteQueue (s.set e { p with messages := p.messages.set i message }) e.other
  else if status = .pipeDisconnected then
    s.set e { p with messages := p.messages.set i (freeMessage message) }
  else s

/-- The loop over the messages, from position `i` on. The next message is remembered before each
round; without a result it has been freed when the loop gets to it. -/
def disconnectMessages (e : End) (status : DisconnectStatus) : Nat → Nat → Pipe → Option Pipe
  | 0, _, s => some s
  | n + 1, i, s =>
    match (s.ends e).messages[i]? with
    | none => some s
    | some message =>
      if message.queued then
        let rest := (s.ends e).messages.drop (i + 1)
        let s' := disconnectMessage s e status i message
        if queueEmpty rest then disconnectMessages e status n (i + 1) s'
        else if ((s'.ends e).messages.getD (i + 1 + listHead rest) emptyMessage).queued then
          disconnectMessages e status n (i + 1) s'
        else none
      else disconnectMessages e status n (i + 1) s

/-- `pipe_end_disconnect` up to the other end. -/
def disconnectEnd (s : Pipe) (e : End) (status : DisconnectStatus) : Option Pipe :=
  let state := if status = .pipeDisconnected then PipeState.disconnected else .closing
  let s := s.set e { s.ends e with connection := false, state := state, flushes := 0 }
  let s := terminateReads e (s.ends e).reads s
  disconnectMessages e status (s.ends e).messages.length 0 s

def pipeEndDisconnect (s : Pipe) (e : End) (status : DisconnectStatus) : Option Pipe := do
  let connection := (s.ends e).connection
  let s ← disconnectEnd s e status
  if connection then
    disconnectEnd (s.set e.other { s.ends e.other with connection := false }) e.other status
  else some s

def pipeEndDestroy (s : Pipe) (e : End) : Option Pipe := do
  let s ← pipeEndDisconnect s e .pipeBroken
  some (s.set e
    { s.ends e with messages := (s.ends e).messages.map freeMessage, destroyed := true })

def pipeEndRead (s : Pipe) (e : End) (outSize : Nat) : Pipe :=
  let p := s.ends e
  let queue := reselectReadQueue (s.set e { p with reads := p.reads ++ [outSize] }) e false
  match p.state with
  | .connected => if p.nonblocking ∧ queueEmpty p.messages then s else queue
  | .disconnected => s
  | .closing => if queueEmpty p.messages then s else queue

def pipeEndWrite (s : Pipe) (e : End) (data : List UInt8) : Pipe :=
  match (s.ends e).state with
  | .connected =>
    if ¬s.messageMode ∧ data = [] then s
    else
      let p := s.ends e.other
      let message : Message := ⟨data, 0, true, true, none⟩
      reselectReadQueue (s.set e.other { p with messages := p.messages ++ [message] }) e.other true
  | .disconnected => s
  | .closing => s

def pipeEndFlush (s : Pipe) (e : End) : Pipe :=
  let p := s.ends e
  if p.hasPipe ∧ p.connection ∧ ¬queueEmpty (s.ends e.other).messages then
    s.set e { p with flushes := p.flushes + 1 }
  else s

/-- The copying loop of `pipe_end_peek`. -/
def peekData (replySize : Nat) : List Message → Nat → List UInt8
  | [], _ => []
  | m :: ms, writePos =>
    if m.queued then
      let writing := min (replySize - writePos) m.left
      let buf := (m.data.drop m.readPos).take writing
      if writePos + writing = replySize then buf
      else buf ++ peekData replySize ms (writePos + writing)
    else peekData replySize ms writePos

/-- What `pipe_end_peek` returns: the available bytes, the length of the message, the data and
whether the message is longer than them. Without a result the pipe has no data to show. -/
def pipeEndPeek (s : Pipe) (e : End) (maxSize : Nat) : Option (Nat × Nat × List UInt8 × Bool) :=
  let p := s.ends e
  let avail := (p.messages.filter fun m => m.queued).foldl (fun avail m => wrap32 (avail + m.left)) 0
  let first := p.messages.getD (listHead p.messages) emptyMessage
  let length := if avail ≠ 0 ∧ s.messageMode then first.left else 0
  let size := min maxSize avail
  let size := if avail ≠ 0 ∧ s.messageMode then min size length else size
  let data := if size = 0 then [] else peekData size p.messages 0
  match p.state with
  | .connected => some (avail, length, data, decide (length > size))
  | .closing =>
    if queueEmpty p.messages then none else some (avail, length, data, decide (length > size))
  | .disconnected => none

def setNamedPipeInfo (s : Pipe) (e : End) (messageRead nonblocking : Bool) : Pipe :=
  let p := s.ends e
  if ¬p.hasPipe then s
  else if messageRead ∧ ¬s.messageMode then s
  else s.set e { p with messageRead := messageRead, nonblocking := nonblocking }

/-- `FSCTL_PIPE_DISCONNECT`, which only the server can request. -/
def pipeDisconnect (s : Pipe) : Option Pipe :=
  match (s.ends .server).state with
  | .connected =>
    pipeEndDisconnect (s.set .client { s.ends .client with hasPipe := false }) .server
      .pipeDisconnected
  | .closing => pipeEndDisconnect s .server .pipeDisconnected
  | .disconnected => some s

inductive Op
  | read (e : End) (outSize : Nat)
  | write (e : End) (data : List UInt8)
  | peek (e : End) (maxSize : Nat)
  | flush (e : End)
  | setInfo (e : End) (messageRead nonblocking : Bool)
  | disconnect
  | close (e : End)
  /-- A completed request of the read or the write queue goes away. -/
  | reselect (e : End) (write : Bool)
  deriving DecidableEq, Repr

def Op.requester : Op → End
  | .read e _ => e
  | .write e _ => e
  | .peek e _ => e
  | .flush e => e
  | .setInfo e _ _ => e
  | .disconnect => .server
  | .close e => e
  | .reselect e _ => e

def execute (s : Pipe) : Op → Option Pipe
  | .read e outSize => some (pipeEndRead s e outSize)
  | .write e data => some (pipeEndWrite s e data)
  | .peek _ _ => some s
  | .flush e => some (pipeEndFlush s e)
  | .setInfo e messageRead nonblocking => some (setNamedPipeInfo s e messageRead nonblocking)
  | .disconnect => pipeDisconnect s
  | .close e => pipeEndDestroy s e
  | .reselect e true => some (reselectWriteQueue s e)
  | .reselect e false => some (reselectReadQueue s e false)

/-- There are no requests for an end that is destroyed. Without a result the server has used a
message that was freed. -/
def step (s : Pipe) (op : Op) : Option Pipe :=
  if (s.ends op.requester).destroyed then some s else execute s op

def connectedEnd (bufferSize : Nat) (messageRead nonblocking : Bool) : PipeEnd :=
  ⟨messageRead, nonblocking, .connected, true, true, false, bufferSize, [], [], 0, []⟩

def Connected (s : Pipe) : Prop :=
  ∀ e, ∃ bufferSize messageRead nonblocking, s.ends e =
    connectedEnd bufferSize messageRead nonblocking

end WineForge.NamedPipes
