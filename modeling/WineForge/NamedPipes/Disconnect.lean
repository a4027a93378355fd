import WineForge.NamedPipes.Ends

/-!
# Reselecting and disconnecting

The rule for the mutual recursion of `reselect_read_queue` and `reselect_write_queue`, and what
`pipe_end_disconnect` leaves of an end.
-/

namespace WineForge.NamedPipes

open List Option

@[simp] lemma Pipe.set_set (s : Pipe) (e : End) (p p' : PipeEnd) :
    (s.set e p).set e p' = s.set e p' := by
  simp [Pipe.set]

@[simp] lemma Pipe.set_self (s : Pipe) (e : End) : s.set e (s.ends e) = s := by
  simp [Pipe.set]

lemma End.other_ne (e : End) : e.other ≠ e := by
  cases e <;> decide

@[simp] lemma Pipe.set_other (s : Pipe) (e : End) (p : PipeEnd) :
    (s.set e p).ends e.other = s.ends e.other := by
  simp [Pipe.set, End.other_ne]

@[simp] lemma Pipe.set_other_ends (s : Pipe) (e : End) (p : PipeEnd) :
    (s.set e.other p).ends e = s.ends e := by
  simp [Pipe.set, Ne.symm (End.other_ne e)]

lemma End.eq_or_other (e e' : End) : e' = e ∨ e' = e.other := by
  cases e <;> cases e' <;> decide

/-- The induction behind both functions: what serving reads, waking flushes and waking writes keep,
the whole recursion keeps. -/
theorem reselect_invariant {I : Pipe → Prop}
    (hserve : ∀ s e, I s → I (s.set e (serveReads (s.ends e).reads (s.ends e))))
    (hflush : ∀ s e, I s → I (wakeFlushes s e))
    (hwake : ∀ s e, I s → (s.ends e).connection = true → I (s.set e.other
      { s.ends e.other with
        messages := wakeWrites (s.ends e).nonblocking (s.ends e.other).bufferSize
          (s.ends e.other).messages 0 })) :
    (∀ s e reselectWrite, I s → I (reselectReadQueue s e reselectWrite)) ∧
      ∀ s e, I s → I (reselectWriteQueue s e) := by
  apply reselectReadQueue.mutual_induct
    (fun s e reselectWrite => I s → I (reselectReadQueue s e reselectWrite))
    (fun s e => I s → I (reselectWriteQueue s e))
  · intro s e reselectWrite p hconnection hqueue h
    rw [reselectReadQueue, if_pos hconnection, if_pos hqueue]
    exact hflush _ _ (hserve s e h)
  · intro s e reselectWrite served p s' hconnection hqueue hwrite ih h
    rw [reselectReadQueue, if_pos hconnection, if_neg hqueue, if_pos hwrite]
    exact ih (hserve s e h)
  · intro s e reselectWrite served p hconnection hqueue hwrite h
    rw [reselectReadQueue, if_pos hconnection, if_neg hqueue, if_neg hwrite]
    exact hserve s e h
  · intro s e reselectWrite p hconnection h
    rw [reselectReadQueue, if_neg hconnection]
    exact hserve s e h
  · intro s e hconnection reader ih h
    rw [reselectWriteQueue, if_pos hconnection]
    exact ih (hwake s e h hconnection)
  · intro s e hconnection h
    rw [reselectWriteQueue, if_neg hconnection]
    exact h

section Apart

variable {s : Pipe} {e : End} {reselectWrite : Bool}

lemma reselectReadQueue_empty (hconnection : (s.ends e).connection = true)
    (hqueue : queueEmpty (serveReads (s.ends e).reads (s.ends e)).messages = true) :
    reselectReadQueue s e reselectWrite =
      wakeFlushes (s.set e (serveReads (s.ends e).reads (s.ends e))) e.other := by
  rw [reselectReadQueue, (serveReads_same _ _).connection, if_pos hconnection, if_pos hqueue]

lemma reselectReadQueue_write (hconnection : (s.ends e).connection = true)
    (hqueue : queueEmpty (serveReads (s.ends e).reads (s.ends e)).messages = false)
    (hwrite : (reselectWrite || servesRead (s.ends e)) = true) :
    reselectReadQueue s e reselectWrite =
      reselectWriteQueue (s.set e (serveReads (s.ends e).reads (s.ends e))) e.other := by
  rw [reselectReadQueue, (serveReads_same _ _).connection, if_pos hconnection,
    if_neg (by simp [hqueue]), if_pos hwrite]

lemma reselectReadQueue_keep
    (hqueue : queueEmpty (serveReads (s.ends e).reads (s.ends e)).messages = false)
    (hwrite : (reselectWrite || servesRead (s.ends e)) = false) :
    reselectReadQueue s e reselectWrite = s.set e (serveReads (s.ends e).reads (s.ends e)) := by
  rw [reselectReadQueue]
  split
  · rw [if_neg (by simp [hqueue]), if_neg (by simp [hwrite])]
  · rfl

lemma reselectWriteQueue_wake (hconnection : (s.ends e).connection = true) :
    reselectWriteQueue s e = reselectReadQueue (s.set e.other { s.ends e.other with
        messages := wakeWrites (s.ends e).nonblocking (s.ends e.other).bufferSize
          (s.ends e.other).messages 0 }) e.other false := by
  rw [reselectWriteQueue, if_pos hconnection]

lemma reselectReadQueue_apart (h : (s.ends e).connection = false) :
    reselectReadQueue s e reselectWrite = s.set e (serveReads (s.ends e).reads (s.ends e)) := by
  have hsame := (serveReads_same (s.ends e).reads (s.ends e)).connection
  rw [reselectReadQueue, if_neg]
  rw [hsame, h]
  exact Bool.false_ne_true

lemma reselectWriteQueue_apart (h : (s.ends e).connection = false) :
    reselectWriteQueue s e = s := by
  rw [reselectWriteQueue, if_neg (by simp [h])]

end Apart

section TerminateReads

variable {e : End} {s : Pipe}

lemma terminateReads_cons {outSize : Nat} {reads : List Nat} (h : (s.ends e).connection = false) :
    terminateReads e (outSize :: reads) s =
      terminateReads e reads (s.set e (serveReads (s.ends e).reads.tail
        { s.ends e with reads := (s.ends e).reads.tail })) := by
  rw [terminateReads, reselectReadQueue_apart (by rw [Pipe.set_ends]; exact h), Pipe.set_ends,
    Pipe.set_set]

lemma terminateReads_invariant {I : PipeEnd → Prop}
    (hserve : ∀ p reads, I p → I (serveReads reads p))
    (hreads : ∀ p reads, I p → I { p with reads := reads }) (reads : List Nat)
    (hapart : (s.ends e).connection = false) (h : I (s.ends e)) :
    ∃ p, terminateReads e reads s = s.set e p ∧ SameEnd (s.ends e) p ∧ I p := by
  induction reads generalizing s with
  | nil => exact ⟨s.ends e, by rw [terminateReads, Pipe.set_self], ⟨rfl, rfl, rfl, rfl, rfl, rfl⟩, h⟩
  | cons outSize reads ih =>
    rw [terminateReads_cons hapart]
    have hsame := serveReads_same (s.ends e).reads.tail
      { s.ends e with reads := (s.ends e).reads.tail }
    set p := serveReads (s.ends e).reads.tail { s.ends e with reads := (s.ends e).reads.tail }
    have hp : I p := hserve _ _ (hreads _ _ h)
    obtain ⟨p', heq, hsame', hp'⟩ := ih (s := s.set e p)
      (by rw [Pipe.set_ends, hsame.connection]; exact hapart) (by rw [Pipe.set_ends]; exact hp)
    rw [Pipe.set_ends] at hsame'
    refine ⟨p', by rw [heq, Pipe.set_set], ?_, hp'⟩
    exact ⟨hsame'.1.trans hsame.1, hsame'.2.trans hsame.2, hsame'.3.trans hsame.3,
      hsame'.4.trans hsame.4, hsame'.5.trans hsame.5, hsame'.6.trans hsame.6⟩

lemma terminateReads_reads (reads : List Nat) (hapart : (s.ends e).connection = false)
    (hle : (s.ends e).reads.length ≤ reads.length) :
    ((terminateReads e reads s).ends e).reads = [] := by
  induction reads generalizing s with
  | nil => exact length_eq_zero_iff.mp (Nat.le_zero.mp hle)
  | cons outSize reads ih =>
    rw [terminateReads_cons hapart]
    apply ih
    · rw [Pipe.set_ends, (serveReads_same _ _).connection]
      exact hapart
    rw [Pipe.set_ends]
    have hshorter := length_serveReads_le (s.ends e).reads.tail
      { s.ends e with reads := (s.ends e).reads.tail }
    rw [length_tail] at hshorter
    rw [length_cons] at hle
    omega

end TerminateReads

section Messages

variable {bufferSize : Nat} {m : Message} {ms : List Message}

lemma terminated_kept (hs : Sound bufferSize m) (hasync : m.async = true) (status : DisconnectStatus) :
    Kept bufferSize m (freeMessage (wakeMessage m (.terminated status))) := by
  obtain ⟨hqueued, hnone⟩ := hs.pending hasync
  have heq : freeMessage (wakeMessage m (.terminated status)) =
      { m with async := false, completion := some (.terminated status), queued := false } := by
    simp [wakeMessage, freeMessage, hasync, hnone]
  have haccepted : m.accepted = m.data := hs.whole hqueued
  rw [heq]
  refine ⟨rfl, rfl, ⟨hs.readPos_le, by simp, by simp, by simp, by simp, by simp⟩, ?_, by simp,
    by simp⟩
  intro hsettled
  rw [Message.Settled, haccepted] at hsettled
  exact hsettled

lemma freeMessage_kept (hs : Sound bufferSize m) (hasync : m.async = false) :
    Kept bufferSize m (freeMessage m) := by
  refine ⟨rfl, rfl, ⟨hs.readPos_le, ?_, by simp [freeMessage], hs.read, hs.fits, ?_⟩, id,
    by simp [freeMessage], id⟩
  · intro h
    exact absurd (hasync.symm.trans h) Bool.false_ne_true
  · exact fun readPos hcut => ⟨(hs.cut readPos hcut).1, rfl⟩

lemma forall₂_kept_refl (hs : ∀ m ∈ ms, Sound bufferSize m) :
    List.Forall₂ (Kept bufferSize) ms ms :=
  forall₂_same.mpr fun m hm => .refl (hs m hm)

lemma forall₂_kept_trans {ms' ms'' : List Message} (h : List.Forall₂ (Kept bufferSize) ms ms')
    (h' : List.Forall₂ (Kept bufferSize) ms' ms'') : List.Forall₂ (Kept bufferSize) ms ms'' := by
  induction h generalizing ms'' with
  | nil => exact h'
  | cons hm _ ih =>
    cases h' with
    | cons hm' htail => exact .cons (hm.trans hm') (ih htail)

lemma forall₂_kept_set {i : Nat} {m' : Message} (hs : ∀ m ∈ ms, Sound bufferSize m)
    (hget : ms[i]? = some m) (hkept : Kept bufferSize m m') :
    List.Forall₂ (Kept bufferSize) ms (ms.set i m') := by
  induction ms generalizing i with
  | nil => exact .nil
  | cons n ms ih =>
    have hn := hs n mem_cons_self
    have hms := fun m hm => hs m (mem_cons_of_mem n hm)
    cases i with
    | zero =>
      rw [getElem?_cons_zero, some.injEq] at hget
      rw [set_cons_zero, hget]
      exact .cons hkept (forall₂_kept_refl hms)
    | succ i =>
      exact .cons (.refl hn) (ih hms hget)

end Messages

/-- What `pipe_end_disconnect` does to a message when nothing interferes. -/
def disconnectedMessage (status : DisconnectStatus) (m : Message) : Message :=
  if m.async then freeMessage (wakeMessage m (.terminated status))
  else if status = .pipeDisconnected then freeMessage m
  else m

variable {m : Message} {bufferSize : Nat}

lemma disconnectedMessage_kept (hs : Sound bufferSize m)
    (status : DisconnectStatus) : Kept bufferSize m (disconnectedMessage status m) := by
  unfold disconnectedMessage
  split
  · rename_i hasync
    exact terminated_kept hs hasync status
  rename_i hasync
  split
  · exact freeMessage_kept hs (by simpa using hasync)
  · exact .refl hs

lemma disconnectedMessage_shrunk (hs : Sound bufferSize m)
    (status : DisconnectStatus) : Shrunk m (disconnectedMessage status m) := by
  intro hqueued
  have hkept := disconnectedMessage_kept hs status
  have hq := hkept.queued hqueued
  unfold disconnectedMessage at hqueued ⊢
  split at hqueued
  · exact absurd hqueued (by simp [freeMessage])
  rename_i hasync
  split at hqueued
  · exact absurd hqueued (by simp [freeMessage])
  · rename_i hstatus
    rw [if_neg hasync, if_neg hstatus]
    exact ⟨hq, rfl, rfl, le_rfl⟩

lemma forall₂_shrunk_set {i : Nat} {m' : Message} {ms : List Message}
    (hget : ms[i]? = some m) (hshrunk : Shrunk m m') :
    List.Forall₂ Shrunk ms (ms.set i m') := by
  induction ms generalizing i with
  | nil => exact .nil
  | cons n ms ih =>
    have hrefl : ∀ n, Shrunk n n := fun _ hq => ⟨hq, rfl, rfl, le_rfl⟩
    cases i with
    | zero =>
      rw [getElem?_cons_zero, some.injEq] at hget
      rw [set_cons_zero, hget]
      exact .cons hshrunk (forall₂_same.mpr fun n _ => hrefl n)
    | succ i =>
      exact .cons (hrefl n) (ih hget)

def reselected (s : Pipe) (e : End) (m : Message) (ms : List Message) : List Message :=
  if m.async ∧ (s.ends e.other).connection then
    wakeWrites (s.ends e.other).nonblocking (s.ends e).bufferSize ms 0
  else ms

section Disconnect

variable {s : Pipe} {e : End} {status : DisconnectStatus} {i n : Nat} {m : Message} {s' : Pipe}

lemma disconnectMessage_eq (hapart : (s.ends e).connection = false)
    (hreads : (s.ends e).reads = []) (hget : (s.ends e).messages[i]? = some m) :
    disconnectMessage s e status i m = s.set e { s.ends e with
        messages := reselected s e m
          ((s.ends e).messages.set i (disconnectedMessage status m)) } := by
  unfold disconnectMessage disconnectedMessage reselected
  cases hasync : m.async with
  | true =>
    simp only [if_true, true_and]
    by_cases hconnection : (s.ends e.other).connection = true
    · rw [reselectWriteQueue, if_pos (by rw [Pipe.set_other]; exact hconnection)]
      rw [if_pos hconnection]
      simp only [End.other_other, Pipe.set_set, Pipe.set_ends, Pipe.set_other]
      rw [reselectReadQueue_apart (by rw [Pipe.set_ends]; exact hapart), Pipe.set_ends,
        Pipe.set_set]
      refine congrArg (s.set e) (serveReads_nil ?_)
      exact hreads
    · rw [reselectWriteQueue_apart (by rw [Pipe.set_other]; simpa using hconnection),
        if_neg hconnection]
  | false =>
    have hset : (s.ends e).messages.set i m = (s.ends e).messages := by
      obtain ⟨hlt, heq⟩ := List.getElem?_eq_some_iff.mp hget
      rw [← heq, set_getElem_self]
    simp only [Bool.false_eq_true, if_false, false_and]
    split
    · rfl
    · rw [hset, Pipe.set_self]

lemma disconnectMessage_kept (status : DisconnectStatus) (hd : Delivering (s.ends e))
    (hget : (s.ends e).messages[i]? = some m) :
    List.Forall₂ (Kept (s.ends e).bufferSize) (s.ends e).messages (reselected s e m
      ((s.ends e).messages.set i (disconnectedMessage status m))) := by
  have hkept := forall₂_kept_set hd.sound hget
    (disconnectedMessage_kept (hd.sound m (mem_of_getElem? hget)) status)
  unfold reselected
  split
  · exact forall₂_kept_trans hkept
      (wakeWrites_kept (sound_kept hkept) ((queuedBytes_kept hkept).trans_lt hd.small))
  · exact hkept

lemma disconnectMessage_delivering (status : DisconnectStatus)
    (hd : Delivering (s.ends e)) (hget : (s.ends e).messages[i]? = some m) :
    Delivering { s.ends e with
      messages := reselected s e m
        ((s.ends e).messages.set i (disconnectedMessage status m)) } := by
  apply hd.kept (disconnectMessage_kept status hd hget)
  have hm := hd.sound m (mem_of_getElem? hget)
  have hkept := forall₂_kept_set hd.sound hget (disconnectedMessage_kept hm status)
  have hquota := hd.quota.shrink
    (forall₂_shrunk_set hget (disconnectedMessage_shrunk hm status)) le_rfl
  have hsmall := (queuedBytes_kept hkept).trans_lt hd.small
  unfold reselected
  split
  · exact wakeWrites_within (sound_kept hkept) (by omega) le_rfl hquota
  · exact hquota

lemma disconnectMessages_delivering (hapart : (s.ends e).connection = false)
    (hreads : (s.ends e).reads = []) (hd : Delivering (s.ends e))
    (h : disconnectMessages e status n i s = some s') :
    ∃ ms, s' = s.set e { s.ends e with messages := ms } ∧
      Delivering { s.ends e with messages := ms } := by
  induction n generalizing i s with
  | zero =>
    rw [disconnectMessages, some.injEq] at h
    exact ⟨(s.ends e).messages, by rw [← h, Pipe.set_self], hd⟩
  | succ n ih =>
    rw [disconnectMessages] at h
    cases hget : (s.ends e).messages[i]? with
    | none =>
      rw [hget] at h
      exact ⟨(s.ends e).messages, by rw [← some.inj h, Pipe.set_self], hd⟩
    | some m =>
      rw [hget] at h
      dsimp only at h
      split at h
      · have hdelivering := disconnectMessage_delivering status hd hget
        rw [disconnectMessage_eq hapart hreads hget] at h
        set ms := reselected s e m ((s.ends e).messages.set i (disconnectedMessage status m))
        have hnext : disconnectMessages e status n (i + 1)
            (s.set e { s.ends e with messages := ms }) = some s' →
            ∃ ms, s' = s.set e { s.ends e with messages := ms } ∧
              Delivering { s.ends e with messages := ms } := by
          intro h
          obtain ⟨ms', heq, hdelivering'⟩ := ih (s := s.set e { s.ends e with messages := ms })
            (by rw [Pipe.set_ends]; exact hapart)
            (by rw [Pipe.set_ends]; exact hreads)
            (by rw [Pipe.set_ends]; exact hdelivering) h
          simp only [Pipe.set_ends, Pipe.set_set] at heq hdelivering'
          exact ⟨ms', heq, hdelivering'⟩
        split at h
        · exact hnext h
        · split at h
          · exact hnext h
          · simp at h
      · exact ih hapart hreads hd h

lemma reselected_async (status : DisconnectStatus) (hd : Delivering (s.ends e))
    (hget : (s.ends e).messages[i]? = some m) :
    List.Forall₂ (fun n n' => n'.async = true → n.async = true)
      ((s.ends e).messages.set i (disconnectedMessage status m))
      (reselected s e m ((s.ends e).messages.set i (disconnectedMessage status m))) := by
  have hkept := forall₂_kept_set hd.sound hget
    (disconnectedMessage_kept (hd.sound m (mem_of_getElem? hget)) status)
  unfold reselected
  split
  · exact (wakeWrites_kept (sound_kept hkept) ((queuedBytes_kept hkept).trans_lt hd.small)).imp
      fun _ _ h => h.async
  · exact forall₂_same.mpr fun _ _ h => h

lemma disconnectedMessage_async (m : Message) : (disconnectedMessage status m).async = false := by
  unfold disconnectedMessage
  split
  · exact wakeMessage_async _ _
  rename_i hasync
  split
  · simpa [freeMessage] using hasync
  · simpa using hasync

lemma forall₂_getElem? {α β : Type*} {R : α → β → Prop} {l : List α} {l' : List β}
    (h : List.Forall₂ R l l') {b : β} (hget : l'[i]? = some b) :
    ∃ a, l[i]? = some a ∧ R a b := by
  induction h generalizing i with
  | nil => simp at hget
  | @cons a b' _ _ hab _ ih =>
    cases i with
    | zero =>
      rw [getElem?_cons_zero, some.injEq] at hget
      exact ⟨a, getElem?_cons_zero, hget ▸ hab⟩
    | succ i =>
      obtain ⟨a', ha', hR⟩ := ih hget
      exact ⟨a', by rw [getElem?_cons_succ, ha'], hR⟩

lemma disconnectMessages_done (hapart : (s.ends e).connection = false)
    (hreads : (s.ends e).reads = []) (hd : Delivering (s.ends e))
    (hn : (s.ends e).messages.length ≤ n + i)
    (hpassed : ∀ j < i, ∀ m, (s.ends e).messages[j]? = some m → m.async = false)
    (h : disconnectMessages e status n i s = some s') :
    ∀ m ∈ (s'.ends e).messages, m.async = false := by
  have hall : (s.ends e).messages.length ≤ i → ∀ m ∈ (s.ends e).messages, m.async = false := by
    intro hle m hm
    obtain ⟨j, hj, heq⟩ := mem_iff_getElem.mp hm
    exact hpassed j (by omega) m (by rw [getElem?_eq_getElem hj, heq])
  induction n generalizing i s with
  | zero =>
    rw [disconnectMessages, some.injEq] at h
    rw [← h]
    exact hall (by omega)
  | succ n ih =>
    rw [disconnectMessages] at h
    cases hget : (s.ends e).messages[i]? with
    | none =>
      rw [hget, some.injEq] at h
      rw [← h]
      exact hall (getElem?_eq_none_iff.mp hget)
    | some m =>
      rw [hget] at h
      have hm := hd.sound m (mem_of_getElem? hget)
      dsimp only at h
      split at h
      · have hlength := (disconnectMessage_kept status hd hget).length_eq
        have hdelivering := disconnectMessage_delivering status hd hget
        have hasync := reselected_async status hd hget
        rw [disconnectMessage_eq hapart hreads hget] at h
        set ms := reselected s e m ((s.ends e).messages.set i (disconnectedMessage status m))
        have hpassed' : ∀ j < i + 1, ∀ n, ms[j]? = some n → n.async = false := by
          intro j hj n hn
          obtain ⟨n₀, hn₀, hkept⟩ := forall₂_getElem? hasync hn
          have hdone : n₀.async = false := by
            by_cases heq : j = i
            · obtain ⟨hlt, _⟩ := List.getElem?_eq_some_iff.mp hget
              rw [heq, getElem?_set_self hlt, Option.some.injEq] at hn₀
              rw [← hn₀]
              exact disconnectedMessage_async m
            · rw [getElem?_set_ne (Ne.symm heq)] at hn₀
              exact hpassed j (by omega) n₀ hn₀
          by_contra hpending
          rw [hkept (by simpa using hpending)] at hdone
          simp at hdone
        have hnext : disconnectMessages e status n (i + 1)
            (s.set e { s.ends e with messages := ms }) = some s' →
            ∀ m ∈ (s'.ends e).messages, m.async = false := by
          intro h
          refine ih (s := s.set e { s.ends e with messages := ms })
            (by rw [Pipe.set_ends]; exact hapart) (by rw [Pipe.set_ends]; exact hreads)
            (by rw [Pipe.set_ends]; exact hdelivering)
            (by rw [Pipe.set_ends]; dsimp only; omega)
            (by rw [Pipe.set_ends]; exact hpassed') h ?_
          rw [Pipe.set_ends]
          intro hle n hn
          obtain ⟨j, hj, heq⟩ := mem_iff_getElem.mp hn
          exact hpassed' j (by dsimp only at hle hj; omega) n (by rw [getElem?_eq_getElem hj, heq])
        split at h
        · exact hnext h
        · split at h
          · exact hnext h
          · simp at h
      · rename_i hqueued
        have hpassed' : ∀ j < i + 1, ∀ n, (s.ends e).messages[j]? = some n → n.async = false := by
          intro j hj n hn
          by_cases heq : j = i
          · rw [heq, hget, some.injEq] at hn
            by_contra hpending
            exact hqueued (hm.pending (by rw [hn]; simpa using hpending)).1
          · exact hpassed j (by omega) n hn
        refine ih hapart hreads hd (by omega) hpassed' h fun hle n hn => ?_
        obtain ⟨j, hj, heq⟩ := mem_iff_getElem.mp hn
        exact hpassed' j (by omega) n (by rw [getElem?_eq_getElem hj, heq])

/-- Nothing is freed behind the back of the loop while the writer is in blocking mode. -/
def Steady (s : Pipe) (e : End) : Prop :=
  (s.ends e.other).connection = true → (s.ends e.other).nonblocking = false

lemma reselected_queued (status : DisconnectStatus) (hsteady : Steady s e)
    (hd : Delivering (s.ends e)) (hget : (s.ends e).messages[i]? = some m) :
    (reselected s e m ((s.ends e).messages.set i (disconnectedMessage status m))).map
      Message.queued =
        ((s.ends e).messages.set i (disconnectedMessage status m)).map Message.queued := by
  have hkept := forall₂_kept_set hd.sound hget
    (disconnectedMessage_kept (hd.sound m (mem_of_getElem? hget)) status)
  have hsmall := (queuedBytes_kept hkept).trans_lt hd.small
  unfold reselected
  split
  · rename_i hconnection
    rw [hsteady hconnection.2]
    exact wakeWrites_queued_eq (sound_kept hkept) (by omega)
  · rfl

lemma next_queued (status : DisconnectStatus) (hsteady : Steady s e)
    (hd : Delivering (s.ends e)) (hget : (s.ends e).messages[i]? = some m)
    (hrest : queueEmpty ((s.ends e).messages.drop (i + 1)) = false) :
    ((reselected s e m ((s.ends e).messages.set i (disconnectedMessage status m))).getD
      (i + 1 + listHead ((s.ends e).messages.drop (i + 1))) emptyMessage).queued = true := by
  obtain ⟨n, _, hqueued, hhead, _⟩ := getElem?_listHead hrest
  set k := listHead ((s.ends e).messages.drop (i + 1))
  rw [getElem?_drop] at hhead
  have hflag := congrArg (fun l => l[i + 1 + k]?) (reselected_queued status hsteady hd hget)
  simp only [getElem?_map] at hflag
  rw [getElem?_set_ne (by omega), hhead, map_some, hqueued, map_eq_some_iff] at hflag
  obtain ⟨n', hn', hqueued'⟩ := hflag
  rw [getD_eq_getElem?_getD, hn', getD_some, hqueued']

lemma disconnectMessages_isSome (hsteady : Steady s e)
    (hapart : (s.ends e).connection = false) (hreads : (s.ends e).reads = [])
    (hd : Delivering (s.ends e)) : ∃ s', disconnectMessages e status n i s = some s' := by
  induction n generalizing i s with
  | zero => exact ⟨s, rfl⟩
  | succ n ih =>
    rw [disconnectMessages]
    cases hget : (s.ends e).messages[i]? with
    | none => exact ⟨s, rfl⟩
    | some m =>
      have hdelivering := disconnectMessage_delivering status hd hget
      dsimp only
      split
      · rw [disconnectMessage_eq hapart hreads hget, Pipe.set_ends]
        set ms := reselected s e m ((s.ends e).messages.set i (disconnectedMessage status m))
          with hms
        have hnext : ∃ s', disconnectMessages e status n (i + 1)
            (s.set e { s.ends e with messages := ms }) = some s' := by
          apply ih (s := s.set e { s.ends e with messages := ms })
          · rw [Steady, Pipe.set_other]
            exact hsteady
          · rw [Pipe.set_ends]
            exact hapart
          · rw [Pipe.set_ends]
            exact hreads
          · rw [Pipe.set_ends]
            exact hdelivering
        split
        · exact hnext
        rename_i hrest
        have hqueued := next_queued status hsteady hd hget (by simpa using hrest)
        rw [if_pos hqueued]
        exact hnext
      · exact ih hsteady hapart hreads hd

def closedMessage (status : DisconnectStatus) (m : Message) : Message :=
  if m.queued then disconnectedMessage status m else m

lemma disconnectMessages_apart
    (hwriter : (s.ends e.other).connection = false) (hapart : (s.ends e).connection = false)
    (hreads : (s.ends e).reads = []) (hn : (s.ends e).messages.length ≤ n + i)
    (h : disconnectMessages e status n i s = some s') :
    s' = s.set e { s.ends e with
      messages := (s.ends e).messages.take i ++
        ((s.ends e).messages.drop i).map (closedMessage status) } := by
  induction n generalizing i s with
  | zero =>
    rw [disconnectMessages, some.injEq] at h
    rw [← h, drop_of_length_le (by omega), take_of_length_le (by omega), map_nil,
      append_nil, Pipe.set_self]
  | succ n ih =>
    rw [disconnectMessages] at h
    cases hget : (s.ends e).messages[i]? with
    | none =>
      rw [hget, Option.some.injEq] at h
      have hle := List.getElem?_eq_none_iff.mp hget
      rw [← h, drop_of_length_le hle, take_of_length_le hle, map_nil, append_nil, Pipe.set_self]
    | some m =>
      rw [hget] at h
      obtain ⟨hlt, hm⟩ := List.getElem?_eq_some_iff.mp hget
      have hdrop : (s.ends e).messages.drop i = m :: (s.ends e).messages.drop (i + 1) := by
        rw [drop_eq_getElem_cons hlt, hm]
      have htake : (s.ends e).messages.take (i + 1) = (s.ends e).messages.take i ++ [m] := by
        rw [take_add_one, hget, toList_some]
      rw [hdrop, map_cons]
      dsimp only at h
      split at h
      · rename_i hqueued
        have hreselected : ∀ ms, reselected s e m ms = ms := by
          intro ms
          rw [reselected, if_neg (by simp [hwriter])]
        rw [disconnectMessage_eq hapart hreads hget, hreselected] at h
        set ms := (s.ends e).messages.set i (disconnectedMessage status m) with hms
        have hnext : disconnectMessages e status n (i + 1)
            (s.set e { s.ends e with messages := ms }) = some s' →
            s' = s.set e { s.ends e with
              messages := (s.ends e).messages.take i ++ (closedMessage status m ::
                ((s.ends e).messages.drop (i + 1)).map (closedMessage status)) } := by
          intro h
          have hrest := ih (s := s.set e { s.ends e with messages := ms })
            (by rw [Pipe.set_other]; exact hwriter) (by rw [Pipe.set_ends]; exact hapart)
            (by rw [Pipe.set_ends]; exact hreads)
            (by rw [Pipe.set_ends, hms, length_set]; omega) h
          rw [hrest, Pipe.set_ends, Pipe.set_set, closedMessage, if_pos hqueued, hms,
            drop_set_of_lt (by omega), take_add_one, take_set_of_le le_rfl,
            getElem?_set_self hlt, toList_some, append_assoc,
            singleton_append]
        split at h
        · exact hnext h
        · split at h
          · exact hnext h
          · simp at h
      · rename_i hqueued
        have hrest := ih hwriter hapart hreads (by omega) h
        rw [hrest, htake, closedMessage, if_neg hqueued, append_assoc, singleton_append]

lemma closedMessage_async (hs : Sound bufferSize m) : (closedMessage status m).async = false := by
  unfold closedMessage disconnectedMessage
  cases hasync : m.async with
  | true =>
    rw [if_pos (hs.pending hasync).1, if_pos rfl]
    exact wakeMessage_async _ _
  | false =>
    rw [if_neg (by simp : ¬false = true)]
    split
    · split
      · exact hasync
      · exact hasync
    · exact hasync

lemma closedMessage_stays (hqueued : (closedMessage status m).queued = true) :
    status ≠ .pipeDisconnected ∧ m.queued = true ∧ m.async = false ∧
      closedMessage status m = m := by
  unfold closedMessage disconnectedMessage at hqueued ⊢
  split at hqueued
  · rename_i hq
    rw [if_pos hq]
    split at hqueued
    · exact absurd hqueued (by simp [freeMessage])
    rename_i hasync
    split at hqueued
    · exact absurd hqueued (by simp [freeMessage])
    · rename_i hstatus
      exact ⟨hstatus, hq, by simpa using hasync, by rw [if_neg hasync, if_neg hstatus]⟩
  · rename_i hq
    exact absurd hqueued hq

lemma closed_readable {ms : List Message} (h : Readable bufferSize ms) :
    Clear (ms.map (closedMessage status)) ∧ Waiting (ms.map (closedMessage status)) := by
  have hclosed : List.Forall₂ (fun m m' => Sound bufferSize m ∧ m' = closedMessage status m) ms
      (ms.map (closedMessage status)) := by
    rw [forall₂_map_right_iff, forall₂_same]
    exact fun m hm => ⟨h.sound m hm, rfl⟩
  refine ⟨?_, ?_⟩
  · apply pairwise_of_forall₂ hclosed (h.clear.and h.waiting)
    rintro m n m' n' ⟨_, rfl⟩ ⟨_, rfl⟩ ⟨hclear, hwaiting⟩ hfree hqueued hne
    obtain ⟨hstatus, hq, hasync, heq⟩ := closedMessage_stays hqueued
    rw [heq] at hne
    -- a pending write before it would have kept it pending
    have hdone : m.async = false := by
      by_contra hpending
      rw [hwaiting (by simpa using hpending) hq hne] at hasync
      simp at hasync
    have hsame : closedMessage status m = m := by
      simp [closedMessage, disconnectedMessage, hdone, hstatus]
    rw [hsame] at hfree ⊢
    exact hclear hfree hq hne
  · apply pairwise_of_forall₂ hclosed h.waiting
    rintro m n m' n' ⟨hs, rfl⟩ _ _ hasync
    rw [closedMessage_async hs] at hasync
    simp at hasync

def disconnectedState (status : DisconnectStatus) : PipeState :=
  if status = .pipeDisconnected then .disconnected else .closing

/-- What is left of an end that has lost its connection. -/
structure Left (status : DisconnectStatus) (p p' : PipeEnd) : Prop where
  delivering : Delivering p'
  connection : p'.connection = false
  state : p'.state = disconnectedState status
  destroyed : p'.destroyed = p.destroyed
  reads : p'.reads = []
  nonblocking : p'.nonblocking = p.nonblocking

lemma terminated_spec (status : DisconnectStatus) (hd : Delivering (s.ends e))
    (hreading : Readable (s.ends e).bufferSize (s.ends e).messages ∨ (s.ends e).reads = []) :
    ∃ p, terminateReads e (s.ends e).reads (s.set e { s.ends e with
          connection := false, state := disconnectedState status, flushes := 0 }) = s.set e p ∧
      Left status (s.ends e) p ∧
      (Readable (s.ends e).bufferSize (s.ends e).messages → Readable p.bufferSize p.messages) := by
  set p₀ : PipeEnd := { s.ends e with
    connection := false, state := disconnectedState status, flushes := 0 } with hp₀
  have hd₀ : Delivering p₀ := ⟨hd.1, hd.2, hd.3, hd.4, hd.5, hd.6⟩
  have hapart : ((s.set e p₀).ends e).connection = false := by rw [Pipe.set_ends]
  have hreads := terminateReads_reads (s.ends e).reads hapart (by rw [Pipe.set_ends])
  by_cases hreadable : Readable (s.ends e).bufferSize (s.ends e).messages
  · obtain ⟨p, heq, hsame, hp⟩ := terminateReads_invariant (I := Reading)
      (fun p reads h => serveReads_reading reads h)
      (fun p reads h => ⟨⟨h.1.1, h.1.2, h.1.3, h.1.4, h.1.5, h.1.6⟩, h.2⟩) (s.ends e).reads hapart
      (by rw [Pipe.set_ends]; exact ⟨hd₀, hreadable⟩)
    rw [Pipe.set_ends] at hsame
    rw [heq, Pipe.set_set, Pipe.set_ends] at hreads
    refine ⟨p, by rw [heq, Pipe.set_set], ⟨hp.toDelivering, ?_, ?_, ?_, hreads, ?_⟩,
      fun _ => hp.readable⟩
    · rw [hsame.connection]
    · rw [hsame.state]
    · rw [hsame.destroyed]
    · rw [hsame.nonblocking]
  · have hnil := hreading.resolve_left hreadable
    refine ⟨p₀, by rw [hnil, terminateReads], ⟨hd₀, rfl, rfl, rfl, hnil, rfl⟩, ?_⟩
    exact fun h => absurd h hreadable

lemma disconnectEnd_eq : disconnectEnd s e status =
      let s' := terminateReads e (s.ends e).reads (s.set e { s.ends e with
          connection := false, state := disconnectedState status, flushes := 0 })
      disconnectMessages e status (s'.ends e).messages.length 0 s' := by
  unfold disconnectEnd disconnectedState
  dsimp only
  rw [Pipe.set_ends]

lemma disconnectEnd_left (hd : Delivering (s.ends e))
    (hreading : Readable (s.ends e).bufferSize (s.ends e).messages ∨ (s.ends e).reads = [])
    (h : disconnectEnd s e status = some s') :
    ∃ p, s' = s.set e p ∧ Left status (s.ends e) p := by
  obtain ⟨p, heq, hleft, _⟩ := terminated_spec status hd hreading
  rw [disconnectEnd_eq, heq] at h
  have hp : ((s.set e p).ends e) = p := Pipe.set_ends s e p
  obtain ⟨ms, heq', hdelivering⟩ := disconnectMessages_delivering (by rw [hp]; exact hleft.connection)
    (by rw [hp]; exact hleft.reads) (by rw [hp]; exact hleft.delivering) h
  rw [Pipe.set_set, hp] at heq'
  rw [hp] at hdelivering
  refine ⟨_, heq', hdelivering, ?_, ?_, ?_, ?_, ?_⟩
  · exact hleft.connection
  · exact hleft.state
  · exact hleft.destroyed
  · exact hleft.reads
  · exact hleft.nonblocking

lemma disconnectEnd_done (hd : Delivering (s.ends e))
    (hreading : Readable (s.ends e).bufferSize (s.ends e).messages ∨ (s.ends e).reads = [])
    (h : disconnectEnd s e status = some s') : ∀ m ∈ (s'.ends e).messages, m.async = false := by
  obtain ⟨p, heq, hleft, _⟩ := terminated_spec status hd hreading
  rw [disconnectEnd_eq, heq] at h
  have hp : ((s.set e p).ends e) = p := Pipe.set_ends s e p
  exact disconnectMessages_done (by rw [hp]; exact hleft.connection)
    (by rw [hp]; exact hleft.reads) (by rw [hp]; exact hleft.delivering) (by omega)
    (fun j hj => absurd hj (Nat.not_lt_zero j)) h

lemma disconnectEnd_isSome (hsteady : Steady s e) (hd : Delivering (s.ends e))
    (hreading : Readable (s.ends e).bufferSize (s.ends e).messages ∨ (s.ends e).reads = []) :
    ∃ s', disconnectEnd s e status = some s' := by
  obtain ⟨p, heq, hleft, _⟩ := terminated_spec status hd hreading
  rw [disconnectEnd_eq, heq]
  have hp : ((s.set e p).ends e) = p := Pipe.set_ends s e p
  apply disconnectMessages_isSome
  · rw [Steady, Pipe.set_other]
    exact hsteady
  · rw [hp]
    exact hleft.connection
  · rw [hp]
    exact hleft.reads
  · rw [hp]
    exact hleft.delivering

lemma disconnectEnd_readable (hd : Delivering (s.ends e))
    (hreadable : Readable (s.ends e).bufferSize (s.ends e).messages)
    (hwriter : (s.ends e.other).connection = false) (h : disconnectEnd s e status = some s') :
    ∃ p, s' = s.set e p ∧ Left status (s.ends e) p ∧ Clear p.messages ∧ Waiting p.messages := by
  obtain ⟨p, heq, hleft, hr⟩ := terminated_spec status hd (.inl hreadable)
  have hfirst := disconnectEnd_left hd (.inl hreadable) h
  rw [disconnectEnd_eq, heq] at h
  have hp : ((s.set e p).ends e) = p := Pipe.set_ends s e p
  have hresult := disconnectMessages_apart (by rw [Pipe.set_other]; exact hwriter)
    (by rw [hp]; exact hleft.connection) (by rw [hp]; exact hleft.reads) (by omega) h
  obtain ⟨p', heq', hleft'⟩ := hfirst
  have hpp := congrArg (fun s => s.ends e) (heq'.symm.trans hresult)
  simp only [Pipe.set_ends] at hpp
  refine ⟨p', heq', hleft', ?_⟩
  rw [hpp]
  exact closed_readable (hr hreadable)

end Disconnect

end WineForge.NamedPipes
