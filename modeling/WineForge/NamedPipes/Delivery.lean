import WineForge.Library.Transition
import WineForge.NamedPipes.Disconnect

/-!
# Delivery

In every run of a pipe each end has received a prefix of what was written to it, messages are not
mixed, and a write only succeeds with its data read, queued within the quota or, in non-blocking
mode, cut to what was read.
-/

namespace WineForge.NamedPipes

open Bool Library List Option

/-- The invariant of the two ends. -/
structure PairInv (s : Pipe) : Prop where
  ends : ∀ e, EndInv (s.ends e)
  linked : ∀ e, (s.ends e).connection = (s.ends e.other).connection

section PairInv

variable {s : Pipe} {e : End} {e : End} {p : PipeEnd} {status : DisconnectStatus} {s' : Pipe}

lemma Pipe.forall_set {P : End → PipeEnd → Prop}
    (h : ∀ e', P e' (s.ends e')) (hp : P e p) : ∀ e', P e' ((s.set e p).ends e') := by
  intro e'
  obtain rfl | rfl := End.eq_or_other e e'
  · rw [Pipe.set_ends]
    exact hp
  · rw [Pipe.set_other]
    exact h e.other

lemma Pipe.forall_cases {P : End → Prop} (e : End) (h : P e) (hother : P e.other) : ∀ e', P e' := by
  intro e'
  obtain rfl | rfl := End.eq_or_other e e'
  · exact h
  · exact hother

lemma PairInv.set (h : PairInv s) (hp : EndInv p)
    (hconnection : p.connection = (s.ends e).connection) : PairInv (s.set e p) := by
  refine ⟨Pipe.forall_set h.ends hp, fun e' => ?_⟩
  obtain rfl | rfl := End.eq_or_other e e'
  · rw [Pipe.set_ends, Pipe.set_other, hconnection]
    exact h.linked _
  · rw [Pipe.set_other, End.other_other, Pipe.set_ends, hconnection]
    exact (h.linked e).symm

lemma EndInv.flushes (h : EndInv p) (flushes : Nat) : EndInv { p with flushes := flushes } :=
  ⟨⟨h.1.1, h.1.2, h.1.3, h.1.4, h.1.5, h.1.6⟩, h.2, h.3, h.4, h.5, h.6⟩

/-- Both functions of the mutual recursion keep the invariant. -/
theorem reselect_inv :
    (∀ s e reselectWrite, PairInv s → PairInv (reselectReadQueue s e reselectWrite)) ∧
      ∀ s e, PairInv s → PairInv (reselectWriteQueue s e) := by
  apply reselect_invariant
  · intro s e h
    exact h.set (serveReads_inv (h.ends e)) (serveReads_same _ _).connection
  · intro s e h
    exact h.set ((h.ends e).flushes 0) rfl
  · intro s e h hconnection
    rw [h.linked e] at hconnection
    exact h.set (wakeWrites_inv _ (h.ends e.other) hconnection) rfl

lemma queueEmpty_wakeWrites {nonblocking : Bool} {bufferSize avail : Nat} {ms : List Message}
    (h : queueEmpty ms = true) :
    wakeWrites nonblocking bufferSize ms avail = ms := by
  induction ms with
  | nil => rfl
  | cons m ms ih =>
    simp only [queueEmpty, all_cons, and_eq_true, not_eq_true'] at h ih
    rw [wakeWrites_freed h.1, ih h.2]

lemma reselect_idle (e' : End) : (∀ s e reselectWrite, servesRead (s.ends e') = false →
      servesRead ((reselectReadQueue s e reselectWrite).ends e') = false) ∧
    ∀ s e, servesRead (s.ends e') = false →
      servesRead ((reselectWriteQueue s e).ends e') = false := by
  apply reselect_invariant
  · intro s e h
    obtain rfl | rfl := End.eq_or_other e e'
    · rw [Pipe.set_ends]
      exact serveReads_done _ _
    · rw [Pipe.set_other]
      exact h
  · intro s e h
    obtain rfl | rfl := End.eq_or_other e e'
    · rw [wakeFlushes, Pipe.set_ends]
      exact h
    · rw [wakeFlushes, Pipe.set_other]
      exact h
  intro s e h _
  obtain rfl | rfl := End.eq_or_other e.other e'
  · rw [Pipe.set_ends]
    simp only [servesRead, and_eq_false_iff, not_eq_false'] at h ⊢
    obtain hempty | hreads := h
    · rw [queueEmpty_wakeWrites hempty]
      exact .inl hempty
    · exact .inr hreads
  · rw [Pipe.set_other]
    exact h

lemma reselectReadQueue_idle (s : Pipe) (e : End) (reselectWrite : Bool) :
    servesRead ((reselectReadQueue s e reselectWrite).ends e) = false := by
  have hdone : servesRead ((s.set e (serveReads (s.ends e).reads (s.ends e))).ends e) = false := by
    rw [Pipe.set_ends]
    exact serveReads_done _ _
  rw [reselectReadQueue]
  split
  · split
    · rw [wakeFlushes, Pipe.set_other_ends]
      exact hdone
    · split
      · exact (reselect_idle e).2 _ _ hdone
      · exact hdone
  · exact hdone

/-- Between two requests no read is pending while its queue has a message. -/
structure RunInv (s : Pipe) : Prop extends PairInv s where
  idle : ∀ e, servesRead (s.ends e) = false

lemma reselect_request (reselectWrite : Bool) (h : PairInv s)
    (hidle : servesRead (s.ends e.other) = false) :
    RunInv (reselectReadQueue s e reselectWrite) := by
  refine ⟨reselect_inv.1 s e reselectWrite h, fun e' => ?_⟩
  obtain rfl | rfl := End.eq_or_other e e'
  · exact reselectReadQueue_idle s _ reselectWrite
  · exact (reselect_idle e.other).1 s e reselectWrite hidle

lemma EndInv.addRead (outSize : Nat) (h : EndInv p) (hdestroyed : p.destroyed = false)
    (hstate : p.state ≠ .disconnected) : EndInv { p with reads := p.reads ++ [outSize] } := by
  refine ⟨⟨h.1.1, h.1.2, h.1.3, h.1.4, h.1.5, h.1.6⟩, h.2, ?_, h.4, h.5, h.6⟩
  intro hdead
  obtain hdead | hdead := hdead
  · exact absurd hdead (by simp [hdestroyed])
  · exact absurd hdead hstate

lemma pipeEndRead_inv (outSize : Nat) (h : RunInv s)
    (hdestroyed : (s.ends e).destroyed = false) : RunInv (pipeEndRead s e outSize) := by
  have hqueue : (s.ends e).state ≠ .disconnected →
      RunInv (reselectReadQueue
        (s.set e { s.ends e with reads := (s.ends e).reads ++ [outSize] }) e false) := by
    intro hstate
    apply reselect_request
    · exact h.toPairInv.set ((h.ends e).addRead outSize hdestroyed hstate) rfl
    · rw [Pipe.set_other]
      exact h.idle e.other
  unfold pipeEndRead
  dsimp only
  split
  · rename_i hstate
    split
    · exact h
    · exact hqueue (by simp [hstate])
  · exact h
  rename_i hstate
  split
  · exact h
  · exact hqueue (by simp [hstate])

lemma ReadResult.Delimited.append {ms : List (List UInt8)} {r : ReadResult}
    (h : r.Delimited ms) (ms' : List (List UInt8)) : r.Delimited (ms ++ ms') := by
  refine ⟨h.1, ?_⟩
  have hmode := h.2
  split
  · rename_i hmessage
    rw [if_pos hmessage] at hmode
    obtain ⟨data, hget, hdata⟩ := hmode
    obtain ⟨hlt, _⟩ := List.getElem?_eq_some_iff.mp hget
    exact ⟨data, by rw [getElem?_append_left hlt, hget], hdata⟩
  · rename_i hmessage
    rw [if_neg hmessage] at hmode
    exact hmode

lemma queuedBytes_append (ms ms' : List Message) :
    queuedBytes (ms ++ ms') = queuedBytes ms + queuedBytes ms' := by
  induction ms with
  | nil => simp [queuedBytes]
  | cons m ms ih =>
    rw [cons_append, queuedBytes, queuedBytes, ih, Nat.add_assoc]

lemma pairwise_concat {α : Type*} {P : α → α → Prop} {l : List α} {a : α} (hl : l.Pairwise P)
    (ha : ∀ b ∈ l, P b a) : (l ++ [a]).Pairwise P := by
  rw [pairwise_append]
  refine ⟨hl, pairwise_singleton _ _, fun b hb a' ha' => ?_⟩
  rw [mem_singleton.mp ha']
  exact ha b hb

lemma EndInv.addMessage (data : List UInt8) (h : EndInv p) (hconnection : p.connection = true)
    (hfits : queuedBytes p.messages + data.length < 4294967296) :
    EndInv { p with messages := p.messages ++ [⟨data, 0, true, true, none⟩] } := by
  refine ⟨⟨?_, ?_, ?_, ?_, ?_, ?_⟩, ?_, h.dead, ?_, h.connected, h.alive⟩
  · intro m hm
    obtain hm | hm := mem_append.mp hm
    · exact h.sound m hm
    · rw [mem_singleton.mp hm]
      exact ⟨Nat.zero_le _, fun _ => ⟨rfl, rfl⟩, fun _ => rfl, by simp, by simp, by simp⟩
  · exact pairwise_concat h.ordered fun _ _ hpos => absurd hpos (lt_irrefl 0)
  · rw [flatMap_append, ← h.delivered]
    simp [Message.taken]
  · intro r hr
    rw [map_append]
    exact (h.delimited r hr).append _
  · rw [queuedBytes_append]
    simpa [queuedBytes, Message.left, Message.size] using hfits
  · exact h.quota.concat rfl
  · intro hdestroyed hstate
    obtain ⟨hclear, hwaiting⟩ := h.readable hdestroyed hstate
    exact ⟨pairwise_concat hclear fun m hm hfree _ _ => h.settled hconnection m hm hfree,
      pairwise_concat hwaiting fun _ _ _ _ _ => rfl⟩
  intro _ m hm hfree
  obtain hm | hm := mem_append.mp hm
  · exact h.settled hconnection m hm hfree
  · rw [mem_singleton.mp hm] at hfree
    simp at hfree

lemma pipeEndWrite_inv {data : List UInt8} (h : RunInv s)
    (hfits : queuedBytes (s.ends e.other).messages + data.length < 4294967296) :
    RunInv (pipeEndWrite s e data) := by
  unfold pipeEndWrite
  cases hstate : (s.ends e).state with
  | connected =>
    dsimp only
    split
    · exact h
    have hconnection : (s.ends e.other).connection = true := by
      rw [← h.linked e]
      exact (h.ends e).connected.mpr hstate
    apply reselect_request
    · exact h.toPairInv.set ((h.ends e.other).addMessage data hconnection hfits) rfl
    · rw [End.other_other, Pipe.set_other_ends]
      exact h.idle e
  | disconnected => exact h
  | closing => exact h

lemma EndInv.reading_or (h : EndInv (s.ends e)) :
    Readable (s.ends e).bufferSize (s.ends e).messages ∨ (s.ends e).reads = [] := by
  by_cases hdead : (s.ends e).destroyed = true ∨ (s.ends e).state = .disconnected
  · exact .inr (h.dead hdead)
  · obtain ⟨hdestroyed, hstate⟩ := not_or.mp hdead
    exact .inl (h.reading (by simpa using hdestroyed) hstate)

lemma EndInv.reading_of_connection (h : EndInv p) (hconnection : p.connection = true) :
    Readable p.bufferSize p.messages := by
  apply h.reading (h.alive hconnection)
  rw [h.connected.mp hconnection]
  decide

/-- An end that has lost its connection keeps the invariant when it is of no use any more, or when
what is left in its queue can be read. -/
lemma Left.inv {p' : PipeEnd} (h : Left status p p')
    (hleft : p'.destroyed = true ∨ p'.state = .disconnected ∨
      (Clear p'.messages ∧ Waiting p'.messages)) : EndInv p' := by
  refine ⟨h.delivering, ?_, fun _ => h.reads, ?_, ?_, ?_⟩
  · intro hdestroyed hstate
    obtain hdead | hdead | hreadable := hleft
    · exact absurd hdead (by simp [hdestroyed])
    · exact absurd hdead hstate
    · exact hreadable
  · intro hconnection
    exact absurd hconnection (by simp [h.connection])
  · rw [h.connection, h.state]
    unfold disconnectedState
    split <;> simp
  · intro hconnection
    exact absurd hconnection (by simp [h.connection])

lemma servesRead_nil (h : p.reads = []) : servesRead p = false := by
  simp [servesRead, h]

/-- Both ends after `pipe_end_disconnect`. -/
structure Disconnected (status : DisconnectStatus) (s s' : Pipe) (e : End) : Prop where
  left : Left status (s.ends e) (s'.ends e)
  done : ∀ m ∈ (s'.ends e).messages, m.async = false
  other : EndInv (s'.ends e.other)
  idle : servesRead (s'.ends e.other) = false
  apart : (s'.ends e.other).connection = false

lemma pipeEndDisconnect_spec (h : RunInv s)
    (hd : pipeEndDisconnect s e status = some s') : Disconnected status s s' e := by
  obtain ⟨s₁, hfirst, hd⟩ := bind_eq_some_iff.mp hd
  have hdone := disconnectEnd_done (h.ends e).toDelivering (h.ends e).reading_or hfirst
  obtain ⟨p, rfl, hleft⟩ := disconnectEnd_left (h.ends e).toDelivering (h.ends e).reading_or hfirst
  rw [Pipe.set_ends] at hdone
  split at hd
  · rename_i hconnection
    rw [h.linked e] at hconnection
    have hreadable := (h.ends e.other).reading_of_connection hconnection
    rw [Pipe.set_other] at hd
    set q : PipeEnd := { s.ends e.other with connection := false }
    have hq : ((s.set e p).set e.other q).ends e.other = q := Pipe.set_ends _ _ _
    have hdelivering := (h.ends e.other).toDelivering
    obtain ⟨q', hs', hleft', hclear⟩ := disconnectEnd_readable
      (by rw [hq]; exact ⟨hdelivering.1, hdelivering.2, hdelivering.3, hdelivering.4,
        hdelivering.5, hdelivering.6⟩)
      (by rw [hq]; exact hreadable)
      (by rw [End.other_other, Pipe.set_other_ends, Pipe.set_ends]; exact hleft.connection) hd
    rw [Pipe.set_set] at hs'
    have he : s'.ends e = p := by rw [hs', Pipe.set_other_ends, Pipe.set_ends]
    have hother : s'.ends e.other = q' := by rw [hs', Pipe.set_ends]
    refine ⟨by rw [he]; exact hleft, by rw [he]; exact hdone, ?_, ?_, ?_⟩
    · rw [hother]
      exact hleft'.inv (.inr (.inr hclear))
    · rw [hother]
      exact servesRead_nil hleft'.reads
    · rw [hother]
      exact hleft'.connection
  · rename_i hconnection
    rw [h.linked e] at hconnection
    rw [← some.inj hd]
    refine ⟨by rw [Pipe.set_ends]; exact hleft, by rw [Pipe.set_ends]; exact hdone, ?_, ?_, ?_⟩
    · rw [Pipe.set_other]
      exact h.ends e.other
    · rw [Pipe.set_other]
      exact h.idle e.other
    · simpa using hconnection

lemma pipeEndDisconnect_isSome (h : RunInv s) (hsteady : (s.ends e.other).nonblocking = false) :
    ∃ s', pipeEndDisconnect s e status = some s' := by
  obtain ⟨s₁, hfirst⟩ := @disconnectEnd_isSome s e status (fun _ => hsteady)
    (h.ends e).toDelivering (h.ends e).reading_or
  unfold pipeEndDisconnect
  rw [hfirst]
  obtain ⟨p, rfl, hleft⟩ := disconnectEnd_left (h.ends e).toDelivering (h.ends e).reading_or hfirst
  dsimp only [bind_eq_bind, bind_some]
  split
  · rename_i hconnection
    rw [h.linked e] at hconnection
    have hreadable := (h.ends e.other).reading_of_connection hconnection
    have hdelivering := (h.ends e.other).toDelivering
    rw [Pipe.set_other]
    set q : PipeEnd := { s.ends e.other with connection := false }
    have hq : ((s.set e p).set e.other q).ends e.other = q := Pipe.set_ends _ _ _
    apply disconnectEnd_isSome
    · intro hwriter
      rw [End.other_other, Pipe.set_other_ends, Pipe.set_ends, hleft.connection] at hwriter
      simp at hwriter
    · rw [hq]
      exact ⟨hdelivering.1, hdelivering.2, hdelivering.3, hdelivering.4, hdelivering.5,
        hdelivering.6⟩
    · rw [hq]
      exact .inl hreadable
  · exact ⟨_, rfl⟩

lemma Disconnected.inv (h : Disconnected status s s' e)
    (hp : EndInv p) (hconnection : p.connection = false) (hreads : p.reads = []) :
    RunInv (s'.set e p) := by
  refine ⟨⟨Pipe.forall_cases e ?_ ?_, fun e' => ?_⟩, Pipe.forall_cases e ?_ ?_⟩
  · rw [Pipe.set_ends]
    exact hp
  · rw [Pipe.set_other]
    exact h.other
  · obtain rfl | rfl := End.eq_or_other e e'
    · rw [Pipe.set_ends, Pipe.set_other, hconnection, h.apart]
    · rw [Pipe.set_other, End.other_other, Pipe.set_ends, hconnection, h.apart]
  · rw [Pipe.set_ends]
    exact servesRead_nil hreads
  · rw [Pipe.set_other]
    exact h.idle

lemma pipeEndDestroy_inv (h : RunInv s) (hd : pipeEndDestroy s e = some s') : RunInv s' := by
  obtain ⟨s₁, hdisconnect, hd⟩ := bind_eq_some_iff.mp hd
  have hspec := pipeEndDisconnect_spec h hdisconnect
  rw [← some.inj hd]
  have hleft := hspec.left
  have hsound := hleft.delivering.sound
  have hkept : List.Forall₂ (Kept (s₁.ends e).bufferSize) (s₁.ends e).messages
      ((s₁.ends e).messages.map freeMessage) := by
    rw [forall₂_map_right_iff, forall₂_same]
    exact fun m hm => freeMessage_kept (hsound m hm) (hspec.done m hm)
  have hshrunk : List.Forall₂ Shrunk (s₁.ends e).messages
      ((s₁.ends e).messages.map freeMessage) := by
    rw [forall₂_map_right_iff, forall₂_same]
    exact fun m _ hqueued => absurd hqueued (by simp [freeMessage])
  have hdelivering := hleft.delivering.kept hkept (hleft.delivering.quota.shrink hshrunk le_rfl)
  refine hspec.inv (p := { s₁.ends e with
    messages := (s₁.ends e).messages.map freeMessage, destroyed := true }) ?_ hleft.connection
    hleft.reads
  refine ⟨⟨hdelivering.1, hdelivering.2, hdelivering.3, hdelivering.4, hdelivering.5,
    hdelivering.6⟩, ?_, fun _ => hleft.reads, ?_, ?_, ?_⟩
  · exact fun hdestroyed => absurd hdestroyed (by simp)
  · exact fun hconnection => absurd hconnection (by simp [hleft.connection])
  · rw [hleft.connection, hleft.state]
    unfold disconnectedState
    split <;> simp
  · exact fun hconnection => absurd hconnection (by simp [hleft.connection])

lemma RunInv.hasPipe (h : RunInv s) (e : End) (hasPipe : Bool) :
    RunInv (s.set e { s.ends e with hasPipe := hasPipe }) := by
  have hend := h.ends e
  refine ⟨h.toPairInv.set ⟨⟨hend.1.1, hend.1.2, hend.1.3, hend.1.4, hend.1.5, hend.1.6⟩, hend.2,
    hend.3, hend.4, hend.5, hend.6⟩ rfl, ?_⟩
  exact Pipe.forall_set (P := fun _ p => servesRead p = false) h.idle (h.idle e)

lemma pipeDisconnect_inv (h : RunInv s) (hd : pipeDisconnect s = some s') : RunInv s' := by
  have hfinish : ∀ {s₀}, RunInv s₀ →
      pipeEndDisconnect s₀ .server .pipeDisconnected = some s' → RunInv s' := by
    intro s₀ h₀ hd
    have hspec := pipeEndDisconnect_spec h₀ hd
    have hdead : EndInv (s'.ends .server) := by
      apply hspec.left.inv
      rw [hspec.left.state]
      exact .inr (.inl rfl)
    have hinv := hspec.inv hdead hspec.left.connection hspec.left.reads
    rwa [Pipe.set_self] at hinv
  unfold pipeDisconnect at hd
  split at hd
  · exact hfinish (h.hasPipe .client false) hd
  · exact hfinish h hd
  · exact some.inj hd ▸ h

def Fits (s : Pipe) : Op → Prop
  | .write e data => queuedBytes (s.ends e.other).messages + data.length < 4294967296
  | _ => True

lemma setNamedPipeInfo_inv (h : RunInv s) (e : End) (messageRead nonblocking : Bool) :
    RunInv (setNamedPipeInfo s e messageRead nonblocking) := by
  have hend := h.ends e
  unfold setNamedPipeInfo
  dsimp only
  split
  · exact h
  split
  · exact h
  · refine ⟨h.toPairInv.set ⟨⟨hend.1.1, hend.1.2, hend.1.3, hend.1.4, hend.1.5, hend.1.6⟩,
      hend.2, hend.3, hend.4, hend.5, hend.6⟩ rfl, ?_⟩
    exact Pipe.forall_set (P := fun _ p => servesRead p = false) h.idle (h.idle e)

lemma pipeEndFlush_inv (h : RunInv s) (e : End) : RunInv (pipeEndFlush s e) := by
  unfold pipeEndFlush
  dsimp only
  split
  · refine ⟨h.toPairInv.set ((h.ends e).flushes _) rfl, ?_⟩
    exact Pipe.forall_set (P := fun _ p => servesRead p = false) h.idle (h.idle e)
  · exact h

/-- One request keeps the invariant. -/
theorem step_inv {op : Op} (h : RunInv s) (hfits : Fits s op)
    (hstep : step s op = some s') : RunInv s' := by
  unfold step at hstep
  split at hstep
  · exact some.inj hstep ▸ h
  rename_i halive
  have hdestroyed : (s.ends op.requester).destroyed = false := by simpa using halive
  cases op with
  | read e outSize =>
    rw [← some.inj hstep]
    exact pipeEndRead_inv outSize h hdestroyed
  | write e data =>
    rw [← some.inj hstep]
    exact pipeEndWrite_inv h hfits
  | peek e maxSize => exact some.inj hstep ▸ h
  | flush e =>
    rw [← some.inj hstep]
    exact pipeEndFlush_inv h e
  | setInfo e messageRead nonblocking =>
    rw [← some.inj hstep]
    exact setNamedPipeInfo_inv h e messageRead nonblocking
  | disconnect => exact pipeDisconnect_inv h hstep
  | close e => exact pipeEndDestroy_inv h hstep
  | reselect e write =>
    cases write with
    | true =>
      rw [← some.inj hstep]
      exact ⟨reselect_inv.2 s e h.toPairInv, fun e' => (reselect_idle e').2 s e (h.idle e')⟩
    | false =>
      rw [← some.inj hstep]
      exact reselect_request false h.toPairInv (h.idle e.other)

lemma connected_inv (h : Connected s) : RunInv s := by
  refine ⟨⟨fun e => ?_, fun e => ?_⟩, fun e => ?_⟩
  · obtain ⟨bufferSize, messageRead, nonblocking, heq⟩ := h e
    rw [heq]
    exact ⟨⟨by simp [connectedEnd], .nil, rfl, by simp [connectedEnd],
      by simp [connectedEnd, queuedBytes], trivial⟩,
      fun _ _ => ⟨.nil, .nil⟩, fun _ => rfl, by simp [connectedEnd], by simp [connectedEnd],
      fun _ => rfl⟩
  · obtain ⟨_, _, _, heq⟩ := h e
    obtain ⟨_, _, _, heq'⟩ := h e.other
    rw [heq, heq']
    rfl
  · obtain ⟨_, _, _, heq⟩ := h e
    rw [heq]
    rfl

theorem runInv_of_reaches (h : Reaches step Fits Connected s) : RunInv s := by
  apply h.invariant (P := RunInv)
  · exact fun s hs => connected_inv hs
  · exact fun s op s' hinv hfits hstep => step_inv hinv hfits hstep

lemma step_isSome {op : Op} (h : RunInv s) (hop : op = .disconnect ∨ op = .close op.requester →
      (s.ends op.requester.other).nonblocking = false) : ∃ s', step s op = some s' := by
  unfold step
  split
  · exact ⟨s, rfl⟩
  cases op with
  | read e outSize | write e data | peek e maxSize | flush e
    | setInfo e messageRead nonblocking => exact ⟨_, rfl⟩
  | reselect e write => cases write <;> exact ⟨_, rfl⟩
  | disconnect =>
    have hsteady := hop (.inl rfl)
    change ∃ s', pipeDisconnect s = some s'
    unfold pipeDisconnect
    split
    · apply pipeEndDisconnect_isSome (h.hasPipe .client false)
      exact hsteady
    · exact pipeEndDisconnect_isSome h hsteady
    · exact ⟨s, rfl⟩
  | close e =>
    have hsteady := hop (.inr rfl)
    obtain ⟨s₁, hdisconnect⟩ := @pipeEndDisconnect_isSome s e .pipeBroken h hsteady
    change ∃ s', pipeEndDestroy s e = some s'
    unfold pipeEndDestroy
    rw [hdisconnect]
    exact ⟨_, rfl⟩

end PairInv

/-- What the other end wrote to `e`, and what `e` has read. -/
def acceptedBytes (s : Pipe) (e : End) : List UInt8 := (s.ends e).messages.flatMap Message.accepted

def receivedBytes (s : Pipe) (e : End) : List UInt8 := (s.ends e).results.flatMap ReadResult.data

/-- A write that reports `written` bytes was read or queued as a whole, together with the queue
before it within the quota of the reader, or cut to what was read of it. -/
def WriteResult (p : PipeEnd) (i : Nat) (m : Message) (written : Nat) : Completion → Prop
  | .read _ => written = m.size ∧ m.readPos = m.size
  | .queued _ avail => written = m.size ∧ (avail ≤ p.bufferSize ∨ m.size = 0) ∧
      (m.queued = true → m.size = 0 ∨ queuedBytes (p.messages.take (i + 1)) ≤ p.bufferSize)
  | .cut readPos => written = readPos ∧ m.readPos = readPos ∧ m.queued = false
  | .terminated _ => False

def newPipe (nonblocking : Bool) : Pipe where
  messageMode := true
  ends
    | .server => connectedEnd 2 true false
    | .client => connectedEnd 2 true nonblocking

lemma newPipe_connected (nonblocking : Bool) : Connected (newPipe nonblocking) := by
  intro e
  cases e with
  | server => exact ⟨2, true, false, rfl⟩
  | client => exact ⟨2, true, nonblocking, rfl⟩

def writtenPipe : Pipe := pipeEndWrite (newPipe false) .client [1, 2, 3]

def partlyRead : Pipe := pipeEndRead writtenPipe .server 2

lemma writtenPipe_eq : writtenPipe = (newPipe false).set .server
    { connectedEnd 2 true false with messages := [⟨[1, 2, 3], 0, true, true, none⟩] } := by
  change reselectReadQueue _ _ _ = _
  rw [reselectReadQueue_write, reselectWriteQueue_wake, reselectReadQueue_keep]
  · simp [Pipe.set]
    rfl
  all_goals rfl

lemma partlyRead_received : receivedBytes partlyRead .server = [1, 2] := by
  rw [partlyRead, writtenPipe_eq]
  change ((reselectReadQueue _ _ _).ends .server).results.flatMap ReadResult.data = _
  rw [reselectReadQueue_write, reselectWriteQueue_wake, reselectReadQueue_keep]
  all_goals rfl

end WineForge.NamedPipes
