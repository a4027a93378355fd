import WineForge.Library.Transition
import WineForge.NamedPipes.State

/-!
# The sizes of queued messages

`pipe_end_transceive` takes the size of the reply from the size of the request data. Here a message
has the sizes of its iosb only, next to the size of the buffer that `in_data` points to, and every
copy out of such a buffer is recorded.
-/

namespace WineForge.NamedPipes.Transceive

open Library List Option

/-- `struct pipe_message` with the sizes of its iosb; `in_data` points to `alloc` bytes. -/
structure Message where
  alloc : ℕ
  inSize : ℕ
  readPos : ℕ
  deriving DecidableEq, Repr

/-- A copy of `size` bytes from the position `start` of a buffer of `alloc` bytes. -/
structure Copy where
  alloc : ℕ
  start : ℕ
  size : ℕ
  deriving DecidableEq, Repr

structure PipeEnd where
  /-- `NAMED_PIPE_MESSAGE_STREAM_READ`. -/
  messageRead : Bool
  /-- `pipe_end->connection` is set, to the other end. -/
  connection : Bool
  messages : List Message
  /-- The buffer sizes of the pending reads. -/
  reads : List ℕ

structure Pipe where
  messageMode : Bool
  ends : End → PipeEnd
  copies : List Copy

/-- The difference of two values of `data_size_t`. -/
def sub32 (a b : ℕ) : ℕ := wrap32 (a + (4294967296 - b))

/-- `in_size - read_pos`. -/
def Message.left (m : Message) : ℕ := sub32 m.inSize m.readPos

/-- The bytes available to a read in byte mode, counted until they fill the buffer. -/
def availFor (outSize : ℕ) : List Message → ℕ → ℕ
  | [], avail => avail
  | m :: ms, avail =>
    let avail := wrap32 (avail + m.left)
    if avail ≥ outSize then avail else availFor outSize ms avail

/-- The copying loop. It has no result where it runs out of messages. A message that does not fill
the buffer has been read to its end and is freed. -/
def copyLoop (outSize : ℕ) : List Message → ℕ → Option (List Message × List Copy)
  | [], _ => none
  | m :: ms, writePos =>
    let writing := min (outSize - writePos) m.left
    let copies := if writing = 0 then [] else [⟨m.alloc, m.readPos, writing⟩]
    let m := { m with readPos := m.readPos + writing }
    if writePos + writing < outSize then
      (copyLoop outSize ms (writePos + writing)).map fun r => (r.1, copies ++ r.2)
    else some (if m.readPos = m.inSize then ms else m :: ms, copies)

/-- A read with a buffer of `outSize` bytes. The fast path gives away the buffer as a whole. -/
def messageQueueRead (p : PipeEnd) (outSize : ℕ) : Option (List Message × List Copy) :=
  match p.messages with
  | [] => none
  | m :: ms =>
    let size := min outSize (if p.messageRead then m.left else availFor outSize (m :: ms) 0)
    if m.readPos = 0 ∧ m.inSize = outSize then some (ms, [⟨m.alloc, 0, size⟩])
    else copyLoop size (m :: ms) 0

/-- The loop of `reselect_read_queue` on the pending reads. -/
def serveReads (p : PipeEnd) : List ℕ → List Message → Option (PipeEnd × List Copy)
  | [], messages => some ({ p with messages := messages, reads := [] }, [])
  | outSize :: reads, messages =>
    if messages = [] then some ({ p with messages := messages, reads := outSize :: reads }, [])
    else do
      let (messages, copies) ← messageQueueRead { p with messages := messages } outSize
      let (p, copies') ← serveReads p reads messages
      some (p, copies ++ copies')

def Pipe.set (s : Pipe) (e : End) (p : PipeEnd) : Pipe :=
  { s with ends := Function.update s.ends e p }

def reselectReadQueue (s : Pipe) (e : End) : Option Pipe := do
  let (p, copies) ← serveReads (s.ends e) (s.ends e).reads (s.ends e).messages
  some { s.set e p with copies := s.copies ++ copies }

/-- `queue_message`, with the data of the request and the size that its iosb says. -/
def queueMessage (s : Pipe) (e : End) (dataSize inSize : ℕ) : Pipe :=
  let p := s.ends e
  s.set e { p with messages := p.messages ++ [⟨dataSize, inSize, 0⟩] }

def queueRead (s : Pipe) (e : End) (outSize : ℕ) : Pipe :=
  let p := s.ends e
  s.set e { p with reads := p.reads ++ [outSize] }

def pipeEndRead (s : Pipe) (e : End) (outSize : ℕ) : Option Pipe :=
  if (s.ends e).connection ∨ (s.ends e).messages ≠ [] then
    reselectReadQueue (queueRead s e outSize) e
  else some s

def pipeEndWrite (s : Pipe) (e : End) (dataSize : ℕ) : Option Pipe :=
  if (s.ends e).connection then
    if ¬s.messageMode ∧ dataSize = 0 then some s
    else reselectReadQueue (queueMessage s e.other dataSize dataSize) e.other
  else some s

/-- What `pipe_end_transceive` asks for before it queues the message. -/
def mayTransceive (p : PipeEnd) : Prop := p.connection ∧ p.messageRead ∧ p.messages = []

instance (p : PipeEnd) : Decidable (mayTransceive p) := by
  unfold mayTransceive
  infer_instance

def pipeEndTransceive (s : Pipe) (e : End) (dataSize outSize : ℕ) : Option Pipe :=
  if mayTransceive (s.ends e) then do
    let s ← reselectReadQueue (queueMessage s e.other dataSize (sub32 dataSize outSize)) e.other
    reselectReadQueue (queueRead s e outSize) e
  else some s

/-- `drop` stands for all that frees a message unread (the end of a write that was completed or cut
short, a disconnect, the end of a handle), `dropRead` for all that terminates a read. -/
inductive Op
  | read (e : End) (outSize : UInt32)
  | write (e : End) (dataSize : UInt32)
  | transceive (e : End) (dataSize outSize : UInt32)
  | setInfo (e : End) (messageRead : Bool)
  | disconnect (e : End)
  | drop (e : End) (i : ℕ)
  | dropRead (e : End) (i : ℕ)

def step (s : Pipe) : Op → Option Pipe
  | .read e outSize => pipeEndRead s e outSize.toNat
  | .write e dataSize => pipeEndWrite s e dataSize.toNat
  | .transceive e dataSize outSize => pipeEndTransceive s e dataSize.toNat outSize.toNat
  | .setInfo e messageRead =>
    if messageRead ∧ ¬s.messageMode then some s
    else some (s.set e { s.ends e with messageRead := messageRead })
  | .disconnect e => some (s.set e { s.ends e with connection := false })
  | .drop e i => some (s.set e { s.ends e with messages := (s.ends e).messages.eraseIdx i })
  | .dropRead e i => some (s.set e { s.ends e with reads := (s.ends e).reads.eraseIdx i })

def Start (s : Pipe) : Prop := (∀ e, (s.ends e).messages = []) ∧ s.copies = []

def Sound (s : Pipe) : Op → Prop
  | .transceive e dataSize outSize => mayTransceive (s.ends e) → outSize.toNat ≤ dataSize.toNat
  | _ => True

structure Message.Inside (m : Message) : Prop where
  alloc : m.alloc < 4294967296
  size : m.inSize ≤ m.alloc
  pos : m.readPos ≤ m.inSize

def Copy.Inside (c : Copy) : Prop := c.start + c.size ≤ c.alloc

def Good (s : Pipe) : Prop :=
  (∀ e, ∀ m ∈ (s.ends e).messages, m.Inside) ∧ ∀ c ∈ s.copies, c.Inside

lemma Message.Inside.left_eq {m : Message} (h : m.Inside) : m.left = m.inSize - m.readPos := by
  have halloc := h.alloc
  have hsize := h.size
  have hpos := h.pos
  unfold Message.left sub32 wrap32
  omega

def total (ms : List Message) : ℕ := (ms.map Message.left).sum

lemma availFor_le (outSize : ℕ) (ms : List Message) (avail : ℕ) :
    availFor outSize ms avail ≤ avail + total ms := by
  induction ms generalizing avail with
  | nil => exact Nat.le_refl _
  | cons m ms ih =>
    have hwrap : wrap32 (avail + m.left) ≤ avail + m.left := Nat.mod_le ..
    have htotal : total (m :: ms) = m.left + total ms := rfl
    unfold availFor
    dsimp only
    split
    · omega
    · exact Nat.le_trans (ih _) (by omega)

def ReadInside (r : Option (List Message × List Copy)) : Prop :=
  ∃ ms copies, r = some (ms, copies) ∧ (∀ m ∈ ms, m.Inside) ∧ ∀ c ∈ copies, c.Inside

lemma copyLoop_inside {outSize : ℕ} {ms : List Message} (h : ∀ m ∈ ms, m.Inside) {writePos : ℕ}
    (htotal : outSize ≤ writePos + total ms) (hne : writePos < outSize ∨ ms ≠ []) :
    ReadInside (copyLoop outSize ms writePos) := by
  induction ms generalizing writePos with
  | nil =>
    have hnone : total [] = 0 := rfl
    obtain hlt | hne := hne
    · omega
    · exact absurd rfl hne
  | cons m ms ih =>
    obtain ⟨hm, hms⟩ := forall_mem_cons.mp h
    have hleft := hm.left_eq
    have hpos := hm.pos
    have hsize := hm.size
    have hcons : total (m :: ms) = m.left + total ms := rfl
    have hcopies : ∀ c ∈ (if min (outSize - writePos) m.left = 0 then []
        else [Copy.mk m.alloc m.readPos (min (outSize - writePos) m.left)]), c.Inside := by
      intro c hc
      split at hc
      · exact absurd hc not_mem_nil
      rw [mem_singleton.mp hc]
      unfold Copy.Inside
      dsimp only
      omega
    unfold copyLoop
    dsimp only
    split
    · rename_i hlt
      obtain ⟨ms', copies, hloop, hms', hrest⟩ := ih hms (by omega) (.inl hlt)
      rw [hloop]
      refine ⟨_, _, rfl, hms', fun c hc => ?_⟩
      exact (mem_append.mp hc).elim (hcopies c) (hrest c)
    refine ⟨_, _, rfl, ?_, hcopies⟩
    split
    · exact hms
    · exact forall_mem_cons.mpr ⟨⟨hm.alloc, hsize, by dsimp only; omega⟩, hms⟩

lemma messageQueueRead_inside {p : PipeEnd} (outSize : ℕ) (h : ∀ m ∈ p.messages, m.Inside)
    (hne : p.messages ≠ []) : ReadInside (messageQueueRead p outSize) := by
  unfold messageQueueRead
  split
  · rename_i hnil
    exact absurd hnil hne
  rename_i m ms hcons
  rw [hcons] at h
  have hm := (forall_mem_cons.mp h).1
  dsimp only
  split
  · refine ⟨_, _, rfl, (forall_mem_cons.mp h).2, fun c hc => ?_⟩
    have hsize := hm.size
    rw [mem_singleton.mp hc]
    unfold Copy.Inside
    dsimp only
    omega
  apply copyLoop_inside h _ (.inr (cons_ne_nil m ms))
  have hcons : total (m :: ms) = m.left + total ms := rfl
  have havail := availFor_le outSize (m :: ms) 0
  split <;> omega

lemma serveReads_inside (p : PipeEnd) (reads : List ℕ) {messages : List Message}
    (h : ∀ m ∈ messages, m.Inside) :
    ∃ p' copies, serveReads p reads messages = some (p', copies) ∧
      (∀ m ∈ p'.messages, m.Inside) ∧ ∀ c ∈ copies, c.Inside := by
  induction reads generalizing messages with
  | nil => exact ⟨_, _, rfl, h, nofun⟩
  | cons outSize reads ih =>
    unfold serveReads
    split
    · exact ⟨_, _, rfl, h, nofun⟩
    rename_i hne
    obtain ⟨ms, copies, hread, hms, hcopies⟩ :=
      @messageQueueRead_inside { p with messages := messages } outSize h hne
    obtain ⟨p', copies', hserve, hp, hrest⟩ := ih hms
    rw [hread]
    simp only [bind_eq_bind, bind_some, hserve]
    refine ⟨p', _, rfl, hp, fun c hc => ?_⟩
    exact (mem_append.mp hc).elim (hcopies c) (hrest c)

variable {s : Pipe}

lemma Good.set (h : Good s) (e : End) {p : PipeEnd} (hp : ∀ m ∈ p.messages, m.Inside) :
    Good (s.set e p) := by
  refine ⟨fun e' => ?_, h.2⟩
  by_cases heq : e' = e
  · subst heq
    simpa [Pipe.set] using hp
  · simpa [Pipe.set, heq] using h.1 e'

lemma reselectReadQueue_good (h : Good s) (e : End) :
    ∃ s', reselectReadQueue s e = some s' ∧ Good s' := by
  obtain ⟨p, copies, hserve, hp, hcopies⟩ := serveReads_inside (s.ends e) (s.ends e).reads (h.1 e)
  unfold reselectReadQueue
  simp only [bind_eq_bind, hserve, bind_some]
  refine ⟨_, rfl, (h.set e hp).1, fun c hc => ?_⟩
  exact (mem_append.mp hc).elim (h.2 c) (hcopies c)

lemma queueMessage_good (h : Good s) (e : End) {dataSize inSize : ℕ}
    (hdata : dataSize < 4294967296) (hle : inSize ≤ dataSize) :
    Good (queueMessage s e dataSize inSize) := by
  apply h.set e
  intro m hm
  obtain hm | hm := mem_append.mp hm
  · exact h.1 e m hm
  · rw [mem_singleton.mp hm]
    exact ⟨hdata, hle, Nat.zero_le _⟩

lemma queueRead_good (h : Good s) (e : End) (outSize : ℕ) :
    ∃ s', reselectReadQueue (queueRead s e outSize) e = some s' ∧ Good s' := by
  apply reselectReadQueue_good
  exact h.set e (h.1 e)

lemma pipeEndWrite_good (h : Good s) (e : End) {dataSize : ℕ}
    (hdata : dataSize < 4294967296) : ∃ s', pipeEndWrite s e dataSize = some s' ∧ Good s' := by
  unfold pipeEndWrite
  split
  · split
    · exact ⟨s, rfl, h⟩
    · exact reselectReadQueue_good (queueMessage_good h _ hdata (Nat.le_refl _)) _
  · exact ⟨s, rfl, h⟩

lemma pipeEndTransceive_good (h : Good s) (e : End) {dataSize outSize : ℕ}
    (hdata : dataSize < 4294967296) (hle : mayTransceive (s.ends e) → outSize ≤ dataSize) :
    ∃ s', pipeEndTransceive s e dataSize outSize = some s' ∧ Good s' := by
  unfold pipeEndTransceive
  split
  · rename_i hmay
    have hsub : sub32 dataSize outSize ≤ dataSize := by
      have hle := hle hmay
      unfold sub32 wrap32
      omega
    obtain ⟨s', hqueued, h'⟩ :=
      reselectReadQueue_good (queueMessage_good h e.other hdata hsub) e.other
    simp only [bind_eq_bind, hqueued, bind_some]
    exact queueRead_good h' e outSize
  · exact ⟨s, rfl, h⟩

lemma step_good {op : Op} (h : Good s) (hsound : Sound s op) :
    ∃ s', step s op = some s' ∧ Good s' := by
  cases op with
  | read e outSize =>
    change ∃ s', ite _ _ _ = _ ∧ _
    split
    · exact queueRead_good h e _
    · exact ⟨s, rfl, h⟩
  | write e dataSize => exact pipeEndWrite_good h e dataSize.toNat_lt
  | transceive e dataSize outSize => exact pipeEndTransceive_good h e dataSize.toNat_lt hsound
  | setInfo e messageRead =>
    change ∃ s', ite _ _ _ = _ ∧ _
    split
    · exact ⟨s, rfl, h⟩
    · exact ⟨_, rfl, h.set e (h.1 e)⟩
  | disconnect e => exact ⟨_, rfl, h.set e (h.1 e)⟩
  | drop e i => exact ⟨_, rfl, h.set e fun m hm => h.1 e m (mem_of_mem_eraseIdx hm)⟩
  | dropRead e i => exact ⟨_, rfl, h.set e (h.1 e)⟩

/-- As long as every transceive that is not refused has at least as much data as its reply may have,
all reads stay in the buffers of the messages. -/
theorem transceive_inside (s : Pipe) (h : Reaches step Sound Start s) :
    (∀ e, ∀ m ∈ (s.ends e).messages, m.inSize ≤ m.alloc ∧ m.readPos ≤ m.inSize) ∧
    (∀ c ∈ s.copies, c.start + c.size ≤ c.alloc) ∧
    ∀ op, Sound s op → ∃ s', step s op = some s' := by
  have hgood : Good s := by
    apply h.invariant (P := Good)
    · intro s hs
      refine ⟨fun e m hm => ?_, fun c hc => ?_⟩
      · exact absurd hm (by simp [hs.1 e])
      · exact absurd hc (by simp [hs.2])
    · intro s op s' hs hsound hstep
      obtain ⟨s'', hstep', hgood⟩ := step_good hs hsound
      exact some.inj (hstep'.symm.trans hstep) ▸ hgood
  refine ⟨fun e m hm => ⟨(hgood.1 e m hm).size, (hgood.1 e m hm).pos⟩, hgood.2, fun op hop => ?_⟩
  obtain ⟨s', hstep, _⟩ := step_good hgood hop
  exact ⟨s', hstep⟩

def fresh : Pipe := ⟨true, fun _ => ⟨true, true, [], []⟩, []⟩

/-- The server reads the whole message and the client waits for the reply. -/
theorem transceive_inside_exchange :
    ∃ s, run step fresh [.transceive .client 12 8, .read .server 4] = some s ∧
      s.copies = [⟨12, 0, 4⟩] ∧ ∀ c ∈ s.copies, c.start + c.size ≤ c.alloc := by
  have h : Reaches step Sound Start fresh := .start ⟨fun _ => rfl, rfl⟩
  refine ⟨_, rfl, rfl, (transceive_inside _ (h.run [.transceive .client 12 8, .read .server 4]
    ⟨fun _ => by decide, trivial, trivial⟩ rfl)).2.1⟩

/-- The difference of the sizes wraps around, and the server reads from an empty buffer. -/
theorem transceive_reads_outside :
    ¬∀ s, Reachable step Start s → ∀ c ∈ s.copies, c.start + c.size ≤ c.alloc := by
  intro h
  have hstart : Reachable step Start fresh := .start ⟨fun _ => rfl, rfl⟩
  have hcopy := h _ (reachable_of_run hstart [.transceive .client 0 1, .read .server 2] rfl)
    ⟨0, 0, 2⟩ (mem_singleton.mpr rfl)
  exact absurd hcopy (by decide)

end WineForge.NamedPipes.Transceive
