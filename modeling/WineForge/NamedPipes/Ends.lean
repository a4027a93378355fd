import WineForge.NamedPipes.Quota

/-!
# Completing reads

What an end has received is what was taken out of its messages, and each read in message mode
stays inside one message.
-/

namespace WineForge.NamedPipes

open List

/-- A read returns at most as much as its buffer holds. In message mode the bytes come from one
message, and the status says whether some of that message remains. -/
def ReadResult.Delimited (messages : List (List UInt8)) (r : ReadResult) : Prop :=
  r.data.length ≤ r.outSize ∧
    if r.messageMode then
      ∃ data, messages[r.message]? = some data ∧ r.data = (data.drop r.start).take r.outSize ∧
        (r.status = .bufferOverflow ↔ r.start + r.data.length < data.length)
    else r.status = .success

structure Delivering (p : PipeEnd) : Prop where
  sound : ∀ m ∈ p.messages, Sound p.bufferSize m
  ordered : Ordered p.messages
  delivered : p.results.flatMap ReadResult.data = p.messages.flatMap Message.taken
  delimited : ∀ r ∈ p.results, r.Delimited (p.messages.map Message.data)
  small : queuedBytes p.messages < 4294967296
  quota : WithinQuota p.bufferSize 0 p.messages

/-- The size of a read with a buffer of `outSize` bytes. -/
def readSize (p : PipeEnd) (outSize : Nat) : Nat :=
  if p.messageRead then
    min outSize (p.messages.getD (listHead p.messages) emptyMessage).left
  else min outSize (availFor outSize p.messages 0)

section Read

variable {bufferSize outSize : Nat} {ms : List Message}

lemma exists_queued (hqueue : queueEmpty ms = false) : ∃ m ∈ ms, m.queued = true := by
  simpa [queueEmpty] using hqueue

lemma getElem?_listHead (hqueue : queueEmpty ms = false) :
    ∃ m ∈ ms, m.queued = true ∧ ms[listHead ms]? = some m ∧
      ms.getD (listHead ms) emptyMessage = m := by
  have hlt : listHead ms < ms.length := by
    obtain ⟨m, hm, hqueued⟩ := exists_queued hqueue
    exact findIdx_lt_length_of_exists ⟨m, hm, hqueued⟩
  have hget : ms[listHead ms]? = some ms[listHead ms] := getElem?_eq_getElem hlt
  refine ⟨ms[listHead ms], getElem_mem hlt, findIdx_getElem (w := hlt), hget, ?_⟩
  rw [getD_eq_getElem?_getD, hget, Option.getD_some]

lemma queuedBytes_mem {m : Message} (hm : m ∈ ms) (hqueued : m.queued = true) :
    m.left ≤ queuedBytes ms := by
  induction ms with
  | nil => simp at hm
  | cons n ms ih =>
    rw [queuedBytes]
    obtain rfl | hm := mem_cons.mp hm
    · rw [if_pos hqueued]
      exact Nat.le_add_right _ _
    · exact (ih hm).trans (Nat.le_add_left _ _)

lemma availFor_le {avail : Nat} (hsmall : avail + queuedBytes ms < 4294967296) :
    availFor outSize ms avail ≤ avail + queuedBytes ms := by
  induction ms generalizing avail with
  | nil => exact Nat.le_add_right _ _
  | cons m ms ih =>
    rw [queuedBytes] at hsmall ⊢
    rw [availFor]
    by_cases hqueued : m.queued = true
    · rw [if_pos hqueued] at hsmall ⊢
      have hwrap : wrap32 (avail + m.left) = avail + m.left := Nat.mod_eq_of_lt (by omega)
      rw [if_pos hqueued, hwrap]
      dsimp only
      split
      · omega
      · have hrest := @ih (avail + m.left) (by omega)
        omega
    rw [if_neg hqueued] at hsmall ⊢
    rw [if_neg hqueued]
    have hrest := @ih avail (by omega)
    omega

lemma availFor_first (hqueue : queueEmpty ms = false)
    (hhead : outSize ≤ (ms.getD (listHead ms) emptyMessage).left)
    (hsmall : queuedBytes ms < 4294967296) : outSize ≤ availFor outSize ms 0 := by
  induction ms with
  | nil => simp [queueEmpty] at hqueue
  | cons m ms ih =>
    rw [queuedBytes] at hsmall
    rw [availFor]
    cases hqueued : m.queued with
    | true =>
      have hpos : listHead (m :: ms) = 0 := by simp [listHead, findIdx_cons, hqueued]
      rw [hpos, getD_cons_zero] at hhead
      rw [hqueued, if_pos rfl] at hsmall
      have hwrap : wrap32 (0 + m.left) = m.left := by
        rw [Nat.zero_add]
        exact Nat.mod_eq_of_lt (by omega)
      rw [if_pos rfl, hwrap]
      rw [if_pos hhead]
      exact hhead
    | false =>
      have hpos : listHead (m :: ms) = listHead ms + 1 := by
        simp [listHead, findIdx_cons, hqueued]
      rw [hpos, getD_cons_succ] at hhead
      rw [if_neg (by simp)]
      exact ih (by simpa [queueEmpty, hqueued] using hqueue) hhead (by omega)

lemma length_drop_left (m : Message) : (m.data.drop m.readPos).length = m.left := by
  rw [length_drop, Message.left, Message.size]

lemma length_readLoop {writePos : Nat} (hs : ∀ m ∈ ms, Sound bufferSize m)
    (hle : writePos ≤ outSize) :
    (readLoop outSize ms writePos).2.length = min (outSize - writePos) (queuedBytes ms) := by
  induction ms generalizing writePos with
  | nil => simp [readLoop, queuedBytes]
  | cons m ms ih =>
    have hsms := fun m' hm' => hs m' (mem_cons_of_mem m hm')
    rw [readLoop_cons, queuedBytes]
    by_cases hqueued : m.queued = true
    · rw [if_pos hqueued, if_pos hqueued]
      have hbuf : ((m.data.drop m.readPos).take (min (outSize - writePos) m.left)).length =
          min (outSize - writePos) m.left := by
        rw [length_take, length_drop_left]
        omega
      split
      · have hrest := @ih (writePos + min (outSize - writePos) m.left) hsms (by omega)
        rw [length_append, hbuf, hrest]
        omega
      · rw [hbuf]
        omega
    · rw [if_neg hqueued, if_neg hqueued, ih hsms hle]
      omega

lemma readLoop_first (hqueue : queueEmpty ms = false)
    (hhead : outSize ≤ (ms.getD (listHead ms) emptyMessage).left) :
    (readLoop outSize ms 0).2 = ((ms.getD (listHead ms) emptyMessage).data.drop
        (ms.getD (listHead ms) emptyMessage).readPos).take outSize := by
  induction ms with
  | nil => simp [queueEmpty] at hqueue
  | cons m ms ih =>
    rw [readLoop_cons]
    cases hqueued : m.queued with
    | true =>
      have hpos : listHead (m :: ms) = 0 := by simp [listHead, findIdx_cons, hqueued]
      rw [hpos, getD_cons_zero] at hhead ⊢
      have hmin : min (outSize - 0) m.left = outSize := by omega
      rw [if_pos rfl, hmin, if_neg (by omega)]
    | false =>
      have hpos : listHead (m :: ms) = listHead ms + 1 := by
        simp [listHead, findIdx_cons, hqueued]
      rw [hpos, getD_cons_succ] at hhead ⊢
      rw [if_neg (by simp)]
      exact ih (by simpa [queueEmpty, hqueued] using hqueue) hhead

end Read

variable {p : PipeEnd}

lemma readWhole_or_readLoop (outSize : Nat) (hqueue : queueEmpty p.messages = false)
    (hsmall : queuedBytes p.messages < 4294967296) :
    (if (p.messages.getD (listHead p.messages) emptyMessage).readPos = 0 ∧
        (p.messages.getD (listHead p.messages) emptyMessage).size = outSize then
      (readWhole p.messages,
        (p.messages.getD (listHead p.messages) emptyMessage).data.take (readSize p outSize))
    else readLoop (readSize p outSize) p.messages 0) =
      readLoop (readSize p outSize) p.messages 0 := by
  split
  · rename_i hwhole
    have hleft : (p.messages.getD (listHead p.messages) emptyMessage).left = outSize := by
      rw [Message.left]
      omega
    have hsize : readSize p outSize = outSize := by
      unfold readSize
      split
      · omega
      · have hfirst := availFor_first hqueue hleft.ge hsmall
        omega
    rw [hsize, readWhole_eq hwhole hqueue]
  · rfl

lemma messageQueueRead_eq {outSize : Nat} (hqueue : queueEmpty p.messages = false)
    (hsmall : queuedBytes p.messages < 4294967296) :
    messageQueueRead p outSize =
      { p with
        messages := (readLoop (readSize p outSize) p.messages 0).1
        results := p.results ++ [⟨p.messageRead, outSize,
          if p.messageRead ∧ (p.messages.getD (listHead p.messages) emptyMessage).readPos +
            readSize p outSize < (p.messages.getD (listHead p.messages) emptyMessage).size then
            .bufferOverflow else .success,
          (readLoop (readSize p outSize) p.messages 0).2, listHead p.messages,
          (p.messages.getD (listHead p.messages) emptyMessage).readPos⟩] } := by
  have hpath := readWhole_or_readLoop outSize hqueue hsmall
  unfold readSize at hpath ⊢
  unfold messageQueueRead
  dsimp only
  rw [hpath]

section MessageQueueRead

variable {p : PipeEnd} (outSize : Nat)

lemma readSize_le (hsmall : queuedBytes p.messages < 4294967296)
    (hqueue : queueEmpty p.messages = false) :
    readSize p outSize ≤ outSize ∧ readSize p outSize ≤ queuedBytes p.messages := by
  unfold readSize
  split
  · obtain ⟨m, hm, hqueued, _, hget⟩ := getElem?_listHead hqueue
    rw [hget]
    have hle := queuedBytes_mem hm hqueued
    omega
  · have hle : availFor outSize p.messages 0 ≤ 0 + queuedBytes p.messages :=
      availFor_le (by omega)
    omega

lemma readLoop_message (hqueue : queueEmpty p.messages = false) (hmode : p.messageRead = true) :
    (readLoop (readSize p outSize) p.messages 0).2 =
      ((p.messages.getD (listHead p.messages) emptyMessage).data.drop
        (p.messages.getD (listHead p.messages) emptyMessage).readPos).take outSize := by
  have hsize : readSize p outSize =
      min outSize (p.messages.getD (listHead p.messages) emptyMessage).left := by
    rw [readSize, if_pos hmode]
  rw [readLoop_first hqueue (by omega), hsize, ← length_drop_left]
  exact take_eq_take_min.symm

lemma map_data_advanced {ms ms' : List Message} (h : List.Forall₂ Advanced ms ms') :
    ms'.map Message.data = ms.map Message.data := by
  induction h with
  | nil => rfl
  | cons hm _ ih => rw [map_cons, map_cons, hm.data_eq, ih]

lemma messageQueueRead_delimited (hs : ∀ m ∈ p.messages, Sound p.bufferSize m)
    (hsmall : queuedBytes p.messages < 4294967296) (hqueue : queueEmpty p.messages = false) :
    ReadResult.Delimited (p.messages.map Message.data) ⟨p.messageRead, outSize,
      if p.messageRead ∧ (p.messages.getD (listHead p.messages) emptyMessage).readPos +
        readSize p outSize < (p.messages.getD (listHead p.messages) emptyMessage).size then
        .bufferOverflow else .success,
      (readLoop (readSize p outSize) p.messages 0).2, listHead p.messages,
      (p.messages.getD (listHead p.messages) emptyMessage).readPos⟩ := by
  obtain ⟨hout, hbytes⟩ := readSize_le outSize hsmall hqueue
  have hlength : (readLoop (readSize p outSize) p.messages 0).2.length = readSize p outSize := by
    rw [length_readLoop hs (Nat.zero_le _)]
    omega
  refine ⟨hlength.trans_le hout, ?_⟩
  cases hmode : p.messageRead with
  | true =>
    obtain ⟨m, _, _, hget, hhead⟩ := getElem?_listHead hqueue
    have hdata := readLoop_message outSize hqueue hmode
    rw [if_pos rfl]
    refine ⟨m.data, ?_, ?_, ?_⟩
    · rw [getElem?_map, hget, Option.map_some]
    · rw [hdata, hhead]
    rw [hlength, hhead]
    by_cases hrest : m.readPos + readSize p outSize < m.size
    · rw [if_pos ⟨rfl, hrest⟩]
      exact ⟨fun _ => hrest, fun _ => rfl⟩
    · rw [if_neg fun h => hrest h.2]
      exact ⟨fun h => absurd h (by simp), fun h => absurd h hrest⟩
  | false => simp

/-- One completed read. -/
theorem messageQueueRead_delivering (h : Delivering p) (hr : Readable p.bufferSize p.messages)
    (hqueue : queueEmpty p.messages = false) :
    Delivering (messageQueueRead p outSize) ∧
      Readable p.bufferSize (messageQueueRead p outSize).messages ∧
      List.Forall₂ Advanced p.messages (messageQueueRead p outSize).messages := by
  have hread := readLoop_spec (readSize p outSize) 0 hr
  have hdata := map_data_advanced hread.advanced
  rw [messageQueueRead_eq hqueue h.small]
  refine ⟨⟨hread.readable.sound, hread.readable.ordered, ?_, ?_, ?_, ?_⟩, hread.readable,
    hread.advanced⟩
  · rw [flatMap_append, h.delivered, hread.taken]
    simp
  · rw [hdata]
    intro r hmem
    obtain hold | hnew := mem_append.mp hmem
    · exact h.delimited r hold
    · rw [mem_singleton.mp hnew]
      exact messageQueueRead_delimited outSize h.sound h.small hqueue
  · apply (queuedBytes_le hread.advanced ?_).trans_lt h.small
    exact fun _ _ hm hq => ⟨(hm.queued hq).1, hm.left_le⟩
  · exact h.quota.shrink (hread.advanced.imp fun _ _ hm => hm.shrunk) le_rfl

end MessageQueueRead

/-- While an end can still read, its messages are readable. While it is connected, everything that
was freed was read as far as it was accepted. -/
structure EndInv (p : PipeEnd) : Prop extends Delivering p where
  readable : p.destroyed = false → p.state ≠ .disconnected → Clear p.messages ∧ Waiting p.messages
  dead : p.destroyed = true ∨ p.state = .disconnected → p.reads = []
  settled : p.connection = true → ∀ m ∈ p.messages, m.queued = false → m.Settled
  connected : p.connection = true ↔ p.state = .connected
  alive : p.connection = true → p.destroyed = false

lemma EndInv.reading (h : EndInv p) (hdestroyed : p.destroyed = false)
    (hstate : p.state ≠ .disconnected) : Readable p.bufferSize p.messages := by
  obtain ⟨hclear, hwaiting⟩ := h.readable hdestroyed hstate
  exact ⟨h.sound, h.ordered, hclear, hwaiting⟩

lemma serveReads_invariant {I : PipeEnd → Prop}
    (hread : ∀ p outSize, I p → queueEmpty p.messages = false → I (messageQueueRead p outSize))
    (hreads : ∀ p reads, I p → I { p with reads := reads }) (reads : List Nat)
    (h : I p) : I (serveReads reads p) := by
  induction reads generalizing p with
  | nil => exact hreads p [] h
  | cons outSize reads ih =>
    rw [serveReads]
    split
    · exact hreads p _ h
    · rename_i hqueue
      exact ih (hread p outSize h (by simpa using hqueue))

lemma serveReads_nil (h : p.reads = []) : serveReads p.reads p = p := by
  rw [h, serveReads, ← h]

/-- The fields of an end that reading leaves alone. -/
structure SameEnd (p p' : PipeEnd) : Prop where
  messageRead : p'.messageRead = p.messageRead
  nonblocking : p'.nonblocking = p.nonblocking
  state : p'.state = p.state
  connection : p'.connection = p.connection
  destroyed : p'.destroyed = p.destroyed
  bufferSize : p'.bufferSize = p.bufferSize

lemma serveReads_same (reads : List Nat) (p : PipeEnd) : SameEnd p (serveReads reads p) := by
  apply serveReads_invariant (I := SameEnd p)
  · exact fun _ _ h _ => ⟨h.1, h.2, h.3, h.4, h.5, h.6⟩
  · exact fun _ _ h => ⟨h.1, h.2, h.3, h.4, h.5, h.6⟩
  · exact ⟨rfl, rfl, rfl, rfl, rfl, rfl⟩

lemma serveReads_done (reads : List Nat) (p : PipeEnd) : servesRead (serveReads reads p) = false := by
  induction reads generalizing p with
  | nil => simp [serveReads, servesRead]
  | cons outSize reads ih =>
    rw [serveReads]
    split
    · rename_i hqueue
      simp [servesRead, hqueue]
    · exact ih _

structure Reading (p : PipeEnd) : Prop extends Delivering p where
  readable : Readable p.bufferSize p.messages

lemma serveReads_reading (reads : List Nat) (h : Reading p) : Reading (serveReads reads p) := by
  apply serveReads_invariant (I := Reading) _ _ reads h
  · intro p outSize h hqueue
    obtain ⟨hdelivering, hreadable, _⟩ :=
      messageQueueRead_delivering outSize h.toDelivering h.readable hqueue
    exact ⟨hdelivering, hreadable⟩
  · exact fun p reads h => ⟨⟨h.1.1, h.1.2, h.1.3, h.1.4, h.1.5, h.1.6⟩, h.2⟩

lemma serveReads_settled (reads : List Nat) (h : Reading p)
    (hsettled : ∀ m ∈ p.messages, m.queued = false → m.Settled) :
    ∀ m ∈ (serveReads reads p).messages, m.queued = false → m.Settled := by
  have hboth := serveReads_invariant
    (I := fun p => Reading p ∧ ∀ m ∈ p.messages, m.queued = false → m.Settled) ?_ ?_ reads
    ⟨h, hsettled⟩
  · exact hboth.2
  · intro p outSize h hqueue
    obtain ⟨hreading, hsettled⟩ := h
    obtain ⟨hdelivering, hreadable, hadvanced⟩ :=
      messageQueueRead_delivering outSize hreading.toDelivering hreading.readable hqueue
    refine ⟨⟨hdelivering, hreadable⟩, fun m' hm' hfree => ?_⟩
    obtain ⟨m, hm, hadv⟩ := forall₂_mem_right hadvanced hm'
    cases hqueued : m.queued with
    | true => exact hadv.freed hqueued hfree
    | false =>
      rw [hadv.kept hqueued]
      exact hsettled m hm hqueued
  · exact fun p reads h => 
      ⟨⟨⟨h.1.1.1, h.1.1.2, h.1.1.3, h.1.1.4, h.1.1.5, h.1.1.6⟩, h.1.2⟩, h.2⟩

/-- Serving the pending reads keeps the invariant. -/
theorem serveReads_inv (h : EndInv p) : EndInv (serveReads p.reads p) := by
  by_cases hdead : p.destroyed = true ∨ p.state = .disconnected
  · rw [serveReads_nil (h.dead hdead)]
    exact h
  obtain ⟨hdestroyed, hstate⟩ := not_or.mp hdead
  have hread : Reading p := ⟨h.toDelivering, h.reading (by simpa using hdestroyed) hstate⟩
  have hsame := serveReads_same p.reads p
  have hreading := serveReads_reading p.reads hread
  refine ⟨hreading.toDelivering, ?_, ?_, ?_, ?_, ?_⟩
  · exact fun _ _ => ⟨hreading.readable.clear, hreading.readable.waiting⟩
  · intro hdead'
    rw [hsame.destroyed, hsame.state] at hdead'
    exact absurd hdead' hdead
  · intro hconnection
    rw [hsame.connection] at hconnection
    exact serveReads_settled p.reads hread (h.settled hconnection)
  · rw [hsame.connection, hsame.state]
    exact h.connected
  · rw [hsame.connection, hsame.destroyed]
    exact h.alive

lemma Delivering.kept (h : Delivering p) {ms : List Message}
    (hkept : List.Forall₂ (Kept p.bufferSize) p.messages ms)
    (hquota : WithinQuota p.bufferSize 0 ms) : Delivering { p with messages := ms } := by
  refine ⟨sound_kept hkept, h.ordered.kept hkept, ?_, ?_, ?_, hquota⟩
  · rw [flatMap_taken_kept hkept]
    exact h.delivered
  · rw [map_data_kept hkept]
    exact h.delimited
  · exact (queuedBytes_kept hkept).trans_lt h.small

/-- Waking the writes to a connected end keeps the invariant. -/
theorem wakeWrites_inv (nonblocking : Bool) (h : EndInv p) (hconnection : p.connection = true) :
    EndInv { p with messages := wakeWrites nonblocking p.bufferSize p.messages 0 } := by
  have hstate : p.state ≠ .disconnected := by
    rw [h.connected.mp hconnection]
    decide
  have hdestroyed := h.alive hconnection
  have hreadable := @wakeWrites_readable nonblocking _ _ (h.reading hdestroyed hstate) h.small
  have hsmall : 0 + queuedBytes p.messages < 4294967296 := by
    rw [Nat.zero_add]
    exact h.small
  have hquota : WithinQuota p.bufferSize 0 (wakeWrites nonblocking p.bufferSize p.messages 0) :=
    wakeWrites_within h.sound hsmall le_rfl h.quota
  refine ⟨h.toDelivering.kept (wakeWrites_kept h.sound h.small) hquota, ?_, h.dead, ?_,
    h.connected, h.alive⟩
  · exact fun _ _ => ⟨hreadable.clear, hreadable.waiting⟩
  intro _ m' hm' hfree
  obtain ⟨m, hm, _, _, hwoken⟩ := forall₂_mem_right (wakeWrites_woken h.sound hsmall) hm'
  cases hqueued : m.queued with
  | true => exact hwoken.freed hqueued hfree
  | false =>
    rw [hwoken.gone hqueued]
    exact h.settled hconnection m hm hqueued

end WineForge.NamedPipes
