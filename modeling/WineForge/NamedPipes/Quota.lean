import WineForge.NamedPipes.Messages

/-!
# Waking pending writes

`reselect_write_queue` completes the pending writes that fit the quota of the reader. Nothing is
read by it, and a message that it frees has nothing left that was accepted.
-/

namespace WineForge.NamedPipes

open List

/-- What becomes of a message without anything being read from it. -/
structure Kept (bufferSize : Nat) (m m' : Message) : Prop where
  data_eq : m'.data = m.data
  readPos_eq : m'.readPos = m.readPos
  sound : Sound bufferSize m'
  settled : m.Settled → m'.Settled
  queued : m'.queued = true → m.queued = true
  async : m'.async = true → m.async = true

variable {bufferSize avail : Nat} {m : Message} {nonblocking : Bool} {ms : List Message}

lemma Kept.refl (hs : Sound bufferSize m) : Kept bufferSize m m :=
  ⟨rfl, rfl, hs, id, id, id⟩

lemma Kept.trans {m' m'' : Message} (h : Kept bufferSize m m')
    (h' : Kept bufferSize m' m'') : Kept bufferSize m m'' where
  data_eq := h'.data_eq.trans h.data_eq
  readPos_eq := h'.readPos_eq.trans h.readPos_eq
  sound := h'.sound
  settled hm := h'.settled (h.settled hm)
  queued hq := h.queued (h'.queued hq)
  async ha := h.async (h'.async ha)

lemma Kept.taken_eq {m' : Message} (h : Kept bufferSize m m') : m'.taken = m.taken := by
  rw [Message.taken, Message.taken, h.data_eq, h.readPos_eq]

/-- What one round of `reselect_write_queue` does to a message, when `avail` bytes are counted with
it. -/
structure Woken (nonblocking : Bool) (bufferSize avail : Nat) (m m' : Message) : Prop
    extends Kept bufferSize m m' where
  freed : m.queued = true → m'.queued = false → m'.Settled
  gone : m.queued = false → m' = m
  blocking : nonblocking = false → m'.queued = m.queued
  exceeds : m'.async = true → bufferSize < avail ∧ nonblocking = false
  waits : bufferSize < avail → nonblocking = false → m.async = true → m.data ≠ [] → m' = m

def wokenMessage (nonblocking : Bool) (bufferSize avail : Nat) (m : Message) : Message :=
  if m.async ∧ (avail ≤ bufferSize ∨ m.size = 0) then wakeMessage m (.queued m.size avail)
  else if m.async ∧ nonblocking then freeMessage (wakeMessage m (.cut m.readPos))
  else m

lemma wakeWrites_queued (hs : Sound bufferSize m) (hqueued : m.queued = true) :
    wakeWrites nonblocking bufferSize (m :: ms) avail =
      wokenMessage nonblocking bufferSize (wrap32 (avail + m.left)) m ::
        wakeWrites nonblocking bufferSize ms (wrap32 (avail + m.left)) := by
  have hpending : ¬(m.async = true ∧ m.completion ≠ none) := by
    rintro ⟨hasync, hne⟩
    exact hne (hs.pending hasync).2
  rw [wakeWrites, if_pos hqueued, if_neg hpending, wokenMessage]

lemma wakeWrites_freed (hqueued : m.queued = false) :
    wakeWrites nonblocking bufferSize (m :: ms) avail =
      m :: wakeWrites nonblocking bufferSize ms avail := by
  rw [wakeWrites, if_neg (by simp [hqueued])]

lemma wakeMessage_queued_sound (hs : Sound bufferSize m)
    (hasync : m.async = true) (hfits : avail ≤ bufferSize ∨ m.size = 0) :
    Sound bufferSize (wakeMessage m (.queued m.size avail)) ∧
      (m.Settled → (wakeMessage m (.queued m.size avail)).Settled) := by
  obtain ⟨hqueued, hnone⟩ := hs.pending hasync
  have heq : wakeMessage m (.queued m.size avail) =
      { m with async := false, completion := some (.queued m.size avail) } := by
    simp [wakeMessage, hasync, hnone]
  have haccepted : m.accepted = m.data := hs.whole hqueued
  rw [heq]
  refine ⟨⟨hs.readPos_le, by simp, fun _ => rfl, by simp, ?_, by simp⟩, ?_⟩
  · intro size avail' h
    simp only [Option.some.injEq, Completion.queued.injEq] at h
    exact ⟨h.1.symm, h.2 ▸ hfits⟩
  · intro hsettled
    rw [Message.Settled, haccepted] at hsettled
    exact hsettled

lemma freeMessage_cut_sound (hs : Sound bufferSize m) (hasync : m.async = true) :
    Sound bufferSize (freeMessage (wakeMessage m (.cut m.readPos))) ∧
      (freeMessage (wakeMessage m (.cut m.readPos))).Settled := by
  have hnone := (hs.pending hasync).2
  have heq : freeMessage (wakeMessage m (.cut m.readPos)) =
      { m with async := false, completion := some (.cut m.readPos), queued := false } := by
    simp [wakeMessage, freeMessage, hasync, hnone]
  rw [heq]
  refine ⟨⟨hs.readPos_le, by simp, by simp, by simp, by simp, ?_⟩, rfl⟩
  intro readPos h
  simp only [Option.some.injEq, Completion.cut.injEq] at h
  exact ⟨h.symm, rfl⟩

lemma wokenMessage_woken (hs : Sound bufferSize m) (hqueued : m.queued = true) :
    Woken nonblocking bufferSize avail m (wokenMessage nonblocking bufferSize avail m) := by
  unfold wokenMessage
  split
  · rename_i h
    obtain ⟨hasync, hfits⟩ := h
    obtain ⟨hsound, hsettled⟩ := wakeMessage_queued_sound hs hasync hfits
    refine ⟨⟨wakeMessage_data _ _, wakeMessage_readPos _ _, hsound, hsettled, ?_, ?_⟩,
      ?_, ?_, ?_, ?_, ?_⟩
    · exact fun _ => hqueued
    · exact fun _ => hasync
    · intro _ hq
      rw [wakeMessage_queued, hqueued] at hq
      simp at hq
    · intro hq
      rw [hqueued] at hq
      simp at hq
    · exact fun _ => wakeMessage_queued _ _
    · intro ha
      rw [wakeMessage_async] at ha
      simp at ha
    -- above the quota only an empty message is woken
    intro hfull _ _ hne
    have hsize : m.size = 0 := hfits.resolve_left (Nat.not_le_of_lt hfull)
    exact absurd (length_eq_zero_iff.mp hsize) hne
  · rename_i hkeep
    split
    · rename_i h
      obtain ⟨hasync, hnonblocking⟩ := h
      obtain ⟨hsound, hsettled⟩ := freeMessage_cut_sound hs hasync
      have hwoken : (freeMessage (wakeMessage m (.cut m.readPos))).async = false :=
        wakeMessage_async _ _
      refine ⟨⟨wakeMessage_data _ _, wakeMessage_readPos _ _, hsound, fun _ => hsettled, ?_, ?_⟩,
        ?_, ?_, ?_, ?_, ?_⟩
      · exact fun _ => hqueued
      · exact fun _ => hasync
      · exact fun _ _ => hsettled
      · intro hq
        rw [hqueued] at hq
        simp at hq
      · intro hblocking
        rw [hblocking] at hnonblocking
        simp at hnonblocking
      · intro ha
        rw [hwoken] at ha
        simp at ha
      · intro _ hblocking
        rw [hblocking] at hnonblocking
        simp at hnonblocking
    · rename_i hcut
      refine ⟨.refl hs, ?_, fun _ => rfl, fun _ => rfl, ?_, fun _ _ _ _ => rfl⟩
      · intro hq hq'
        rw [hq] at hq'
        simp at hq'
      intro hasync
      refine ⟨?_, ?_⟩
      · by_contra hfits
        exact hkeep ⟨hasync, .inl (Nat.le_of_not_lt hfits)⟩
      · by_contra hnonblocking
        exact hcut ⟨hasync, by simpa using hnonblocking⟩

lemma Woken.of_freed (hs : Sound bufferSize m) (hfree : m.queued = false) :
    Woken nonblocking bufferSize avail m m := by
  refine ⟨.refl hs, ?_, fun _ => rfl, fun _ => rfl, ?_, fun _ _ _ _ => rfl⟩
  · intro hq
    rw [hq] at hfree
    simp at hfree
  · intro hasync
    rw [(hs.pending hasync).1] at hfree
    simp at hfree

lemma wakeWrites_woken
    (hs : ∀ m ∈ ms, Sound bufferSize m) (hsmall : avail + queuedBytes ms < 4294967296) :
    List.Forall₂ (fun m m' => ∃ avail', avail ≤ avail' ∧ Woken nonblocking bufferSize avail' m m')
      ms (wakeWrites nonblocking bufferSize ms avail) := by
  induction ms generalizing avail with
  | nil => exact .nil
  | cons m ms ih =>
    have hsm := hs m mem_cons_self
    have hsms := fun m' hm' => hs m' (mem_cons_of_mem m hm')
    rw [queuedBytes] at hsmall
    cases hqueued : m.queued with
    | true =>
      rw [if_pos hqueued] at hsmall
      have hwrap : wrap32 (avail + m.left) = avail + m.left := Nat.mod_eq_of_lt (by omega)
      rw [wakeWrites_queued hsm hqueued, hwrap]
      refine .cons ⟨avail + m.left, Nat.le_add_right _ _, wokenMessage_woken hsm hqueued⟩ ?_
      apply (ih hsms (by omega)).imp
      intro m m' hwoken
      obtain ⟨avail', hle, hwoken⟩ := hwoken
      exact ⟨avail', by omega, hwoken⟩
    | false =>
      rw [wakeWrites_freed hqueued]
      exact .cons ⟨avail, le_rfl, .of_freed hsm hqueued⟩ (ih hsms (by omega))

lemma pairwise_of_forall₂ {α β : Type*} {R : α → β → Prop} {P : α → α → Prop}
    {Q : β → β → Prop} {l : List α} {l' : List β} (h : List.Forall₂ R l l') (hp : l.Pairwise P)
    (himp : ∀ a a' b b', R a b → R a' b' → P a a' → Q b b') : l'.Pairwise Q := by
  induction h with
  | nil => exact .nil
  | cons hab htail ih =>
    obtain ⟨hfirst, hrest⟩ := pairwise_cons.mp hp
    refine pairwise_cons.mpr ⟨fun b' hb' => ?_, ih hrest⟩
    obtain ⟨a', ha', hab'⟩ := forall₂_mem_right htail hb'
    exact himp _ _ _ _ hab hab' (hfirst a' ha')

section Kept

variable {bufferSize : Nat} {ms ms' : List Message}

section

variable (h : List.Forall₂ (Kept bufferSize) ms ms')

include h

lemma Ordered.kept (ho : Ordered ms) : Ordered ms' := by
  apply pairwise_of_forall₂ h ho
  intro m m' n n' hm hm' hordered hpos
  rw [hm'.readPos_eq] at hpos
  exact hm.settled (hordered hpos)

lemma flatMap_taken_kept : ms'.flatMap Message.taken = ms.flatMap Message.taken := by
  induction h with
  | nil => rfl
  | cons hm _ ih => rw [flatMap_cons, flatMap_cons, hm.taken_eq, ih]

lemma map_data_kept : ms'.map Message.data = ms.map Message.data := by
  induction h with
  | nil => rfl
  | cons hm _ ih => rw [map_cons, map_cons, hm.data_eq, ih]

lemma sound_kept : ∀ m ∈ ms', Sound bufferSize m := by
  intro m' hm'
  obtain ⟨m, _, hkept⟩ := forall₂_mem_right h hm'
  exact hkept.sound

end

lemma queuedBytes_le {R : Message → Message → Prop} (h : List.Forall₂ R ms ms')
    (hle : ∀ m m', R m m' → m'.queued = true → m.queued = true ∧ m'.left ≤ m.left) :
    queuedBytes ms' ≤ queuedBytes ms := by
  induction h with
  | nil => exact le_rfl
  | @cons m m' ms ms' hm _ ih =>
    apply Nat.add_le_add _ ih
    by_cases hqueued : m'.queued = true
    · obtain ⟨hq, hleft⟩ := hle m m' hm hqueued
      rw [if_pos hqueued, if_pos hq]
      exact hleft
    · rw [if_neg hqueued]
      exact Nat.zero_le _

lemma Kept.left_eq {m m' : Message} (h : Kept bufferSize m m') : m'.left = m.left := by
  rw [Message.left, Message.left, Message.size, Message.size, h.data_eq, h.readPos_eq]

lemma Advanced.left_le {m m' : Message} (h : Advanced m m') : m'.left ≤ m.left := by
  have hpos := h.readPos_le
  rw [Message.left, Message.left, Message.size, Message.size, h.data_eq]
  omega

lemma queuedBytes_kept (h : List.Forall₂ (Kept bufferSize) ms ms') :
    queuedBytes ms' ≤ queuedBytes ms :=
  queuedBytes_le h fun _ _ hm hq => ⟨hm.queued hq, hm.left_eq.le⟩

end Kept

section WakeWrites

variable {nonblocking : Bool} {bufferSize : Nat} {ms : List Message}

lemma wakeWrites_kept (hs : ∀ m ∈ ms, Sound bufferSize m) (hsmall : queuedBytes ms < 4294967296) :
    List.Forall₂ (Kept bufferSize) ms (wakeWrites nonblocking bufferSize ms 0) := by
  apply (wakeWrites_woken hs (by omega)).imp
  intro m m' hwoken
  obtain ⟨_, _, hwoken⟩ := hwoken
  exact hwoken.toKept

lemma wakeWrites_queued_eq {avail : Nat} (hs : ∀ m ∈ ms, Sound bufferSize m)
    (hsmall : avail + queuedBytes ms < 4294967296) :
    (wakeWrites false bufferSize ms avail).map Message.queued = ms.map Message.queued := by
  have hwoken := @wakeWrites_woken _ _ false _ hs hsmall
  generalize wakeWrites false bufferSize ms avail = ms' at hwoken ⊢
  clear hs hsmall
  induction hwoken with
  | nil => rfl
  | cons hm _ ih =>
    obtain ⟨_, _, hm⟩ := hm
    rw [map_cons, map_cons, hm.blocking rfl, ih]

lemma wakeWrites_waiting {avail : Nat} (hs : ∀ m ∈ ms, Sound bufferSize m) (hw : Waiting ms)
    (hsmall : avail + queuedBytes ms < 4294967296) :
    Waiting (wakeWrites nonblocking bufferSize ms avail) := by
  induction ms generalizing avail with
  | nil => exact .nil
  | cons m ms ih =>
    have hsm := hs m mem_cons_self
    have hsms := fun m' hm' => hs m' (mem_cons_of_mem m hm')
    obtain ⟨hwm, hwms⟩ := pairwise_cons.mp hw
    rw [queuedBytes] at hsmall
    cases hqueued : m.queued with
    | false =>
      rw [wakeWrites_freed hqueued]
      refine pairwise_cons.mpr ⟨fun _ _ hasync => ?_, ih hsms hwms (by omega)⟩
      rw [(hsm.pending hasync).1] at hqueued
      simp at hqueued
    | true =>
      rw [if_pos hqueued] at hsmall
      have hwrap : wrap32 (avail + m.left) = avail + m.left := Nat.mod_eq_of_lt (by omega)
      have hbound : avail + m.left + queuedBytes ms < 4294967296 := by omega
      rw [wakeWrites_queued hsm hqueued, hwrap]
      refine pairwise_cons.mpr ⟨fun n' hn' hasync hq hne => ?_, ih hsms hwms hbound⟩
      have hwoken : Woken nonblocking bufferSize (avail + m.left) m
          (wokenMessage nonblocking bufferSize (avail + m.left) m) := wokenMessage_woken hsm hqueued
      obtain ⟨hover, hblocking⟩ := hwoken.exceeds hasync
      obtain ⟨n, hn, avail', hle, hkept⟩ := forall₂_mem_right (wakeWrites_woken hsms hbound) hn'
      have hne' : n.data ≠ [] := hkept.data_eq ▸ hne
      have hpending := hwm n hn (hwoken.async hasync) (hkept.queued hq) hne'
      rw [hkept.waits (hover.trans_le hle) hblocking hpending hne']
      exact hpending

theorem wakeWrites_readable (h : Readable bufferSize ms) (hsmall : queuedBytes ms < 4294967296) :
    Readable bufferSize (wakeWrites nonblocking bufferSize ms 0) := by
  have hkept : List.Forall₂ (Kept bufferSize) ms (wakeWrites nonblocking bufferSize ms 0) :=
    wakeWrites_kept h.sound hsmall
  have hbound : 0 + queuedBytes ms < 4294967296 := by omega
  refine ⟨sound_kept hkept, h.ordered.kept hkept, ?_, wakeWrites_waiting h.sound h.waiting hbound⟩
  apply pairwise_of_forall₂ (wakeWrites_woken h.sound hbound) h.clear
  intro m m' n n' hm hm' hclear hfree hqueued hne
  obtain ⟨_, _, hm⟩ := hm
  obtain ⟨_, _, hm'⟩ := hm'
  cases hq : m.queued with
  | true => exact hm.freed hq hfree
  | false =>
    rw [hm.gone hq]
    exact hclear hq (hm'.queued hqueued) (hm'.data_eq ▸ hne)

end WakeWrites

/-- A write that is complete while its data is in the queue fits the buffer of the reader together
with what is queued before it. -/
def WithinQuota (bufferSize : Nat) : Nat → List Message → Prop
  | _, [] => True
  | before, m :: ms =>
    (m.queued = true → m.async = false → m.size = 0 ∨ before + m.left ≤ bufferSize) ∧
      WithinQuota bufferSize (before + if m.queued then m.left else 0) ms

section Within

variable {nonblocking : Bool} {bufferSize : Nat} {ms ms' : List Message}

def Shrunk (m m' : Message) : Prop :=
  m'.queued = true → m.queued = true ∧ m'.async = m.async ∧ m'.size = m.size ∧ m'.left ≤ m.left

variable {m : Message} {before : Nat}

lemma Advanced.shrunk {m' : Message} (h : Advanced m m') : Shrunk m m' := by
  intro hqueued
  obtain ⟨hq, hasync⟩ := h.queued hqueued
  exact ⟨hq, hasync, by rw [Message.size, Message.size, h.data_eq], h.left_le⟩

lemma WithinQuota.shrink {before' : Nat} (h : List.Forall₂ Shrunk ms ms')
    (hle : before' ≤ before) (hquota : WithinQuota bufferSize before ms) :
    WithinQuota bufferSize before' ms' := by
  induction h generalizing before before' with
  | nil => trivial
  | @cons m m' ms ms' hm _ ih =>
    obtain ⟨hfirst, hrest⟩ := hquota
    refine ⟨fun hqueued hasync => ?_, ih ?_ hrest⟩
    · obtain ⟨hq, ha, hsize, hleft⟩ := hm hqueued
      obtain hzero | hfits := hfirst hq (ha ▸ hasync)
      · exact .inl (hsize.trans hzero)
      · exact .inr (by omega)
    by_cases hqueued : m'.queued = true
    · obtain ⟨hq, _, _, hleft⟩ := hm hqueued
      rw [if_pos hqueued, if_pos hq]
      omega
    · rw [if_neg hqueued]
      omega

lemma WithinQuota.concat (h : WithinQuota bufferSize before ms)
    (hasync : m.async = true) : WithinQuota bufferSize before (ms ++ [m]) := by
  induction ms generalizing before with
  | nil =>
    refine ⟨fun _ hdone => ?_, trivial⟩
    rw [hasync] at hdone
    simp at hdone
  | cons n ms ih => exact ⟨h.1, ih h.2⟩

lemma wokenMessage_within {avail : Nat}
    (hdone : (wokenMessage nonblocking bufferSize avail m).async = false)
    (hqueued : (wokenMessage nonblocking bufferSize avail m).queued = true) :
    m.async = false ∨ m.size = 0 ∨ avail ≤ bufferSize := by
  unfold wokenMessage at hdone hqueued
  split at hdone
  · rename_i h
    exact .inr h.2.symm
  rename_i h
  rw [if_neg h] at hqueued
  split at hdone
  · rename_i hcut
    rw [if_pos hcut] at hqueued
    exact absurd hqueued (by simp [freeMessage])
  · exact .inl hdone

/-- Writes are woken within the quota. -/
theorem wakeWrites_within {avail : Nat} (hs : ∀ m ∈ ms, Sound bufferSize m)
    (hsmall : avail + queuedBytes ms < 4294967296) (hle : before ≤ avail)
    (hquota : WithinQuota bufferSize avail ms) :
    WithinQuota bufferSize before (wakeWrites nonblocking bufferSize ms avail) := by
  induction ms generalizing avail before with
  | nil => trivial
  | cons m ms ih =>
    have hsm := hs m mem_cons_self
    have hsms := fun m' hm' => hs m' (mem_cons_of_mem m hm')
    obtain ⟨hfirst, hrest⟩ := hquota
    rw [queuedBytes] at hsmall
    cases hqueued : m.queued with
    | false =>
      rw [hqueued, if_neg (by simp)] at hrest hsmall
      rw [wakeWrites_freed hqueued]
      refine ⟨fun h => ?_, ?_⟩
      · rw [hqueued] at h
        simp at h
      · rw [if_neg (by simp [hqueued])]
        exact ih hsms (by omega) (by omega) hrest
    | true =>
      rw [hqueued, if_pos rfl] at hrest hsmall
      have hwrap : wrap32 (avail + m.left) = avail + m.left := Nat.mod_eq_of_lt (by omega)
      have hwoken : Woken nonblocking bufferSize (avail + m.left) m
          (wokenMessage nonblocking bufferSize (avail + m.left) m) :=
        wokenMessage_woken hsm hqueued
      rw [wakeWrites_queued hsm hqueued, hwrap]
      refine ⟨fun hq hdone => ?_, ih hsms (by omega) ?_ hrest⟩
      · have hsize : (wokenMessage nonblocking bufferSize (avail + m.left) m).size = m.size := by
          rw [Message.size, Message.size, hwoken.data_eq]
        rw [hwoken.left_eq, hsize]
        obtain hold | hzero | hfits := wokenMessage_within hdone hq
        · obtain hzero | hfits := hfirst hqueued hold
          · exact .inl hzero
          · exact .inr (by omega)
        · exact .inl hzero
        · exact .inr (by omega)
      split
      · rw [hwoken.left_eq]
        omega
      · omega

lemma WithinQuota.at {i : Nat} (h : WithinQuota bufferSize before ms)
    (hget : ms[i]? = some m) (hqueued : m.queued = true) (hdone : m.async = false) :
    m.size = 0 ∨ before + queuedBytes (ms.take (i + 1)) ≤ bufferSize := by
  induction ms generalizing before i with
  | nil => simp at hget
  | cons n ms ih =>
    obtain ⟨hfirst, hrest⟩ := h
    rw [take_succ_cons, queuedBytes]
    cases i with
    | zero =>
      rw [getElem?_cons_zero, Option.some.injEq] at hget
      subst hget
      obtain hzero | hfits := hfirst hqueued hdone
      · exact .inl hzero
      · rw [take_zero, queuedBytes, if_pos hqueued]
        exact .inr (by omega)
    | succ i =>
      obtain hzero | hfits := ih hrest hget
      · exact .inl hzero
      · exact .inr (by omega)

end Within

end WineForge.NamedPipes
