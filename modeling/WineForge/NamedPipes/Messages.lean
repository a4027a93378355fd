import Mathlib.Data.List.Forall2
import Mathlib.Data.List.Infix
import WineForge.NamedPipes.State

/-!
# The message list of an end

What reading and waking do to the list of messages: the bytes that were taken out of it are a
prefix of the bytes of the accepted writes, and pending writes stand behind the others.
-/

namespace WineForge.NamedPipes

open Bool List

/-- The bytes of a write that the pipe took: all of them, unless the write was cut short. -/
def Message.accepted (m : Message) : List UInt8 :=
  match m.completion with
  | some (.cut readPos) => m.data.take readPos
  | _ => m.data

def Message.taken (m : Message) : List UInt8 := m.data.take m.readPos

def Message.Settled (m : Message) : Prop := m.taken = m.accepted

structure Sound (bufferSize : Nat) (m : Message) : Prop where
  readPos_le : m.readPos ≤ m.size
  pending : m.async = true → m.queued = true ∧ m.completion = none
  whole : m.queued = true → m.accepted = m.data
  read : ∀ size, m.completion = some (.read size) → size = m.size ∧ m.readPos = m.size
  fits : ∀ size avail, m.completion = some (.queued size avail) →
    size = m.size ∧ (avail ≤ bufferSize ∨ m.size = 0)
  cut : ∀ readPos, m.completion = some (.cut readPos) →
    readPos = m.readPos ∧ m.queued = false

def Ordered (ms : List Message) : Prop := ms.Pairwise fun m m' => 0 < m'.readPos → m.Settled

def Clear (ms : List Message) : Prop :=
  ms.Pairwise fun m m' => m.queued = false → m'.queued = true → m'.data ≠ [] → m.Settled

def Waiting (ms : List Message) : Prop :=
  ms.Pairwise fun m m' => m.async = true → m'.queued = true → m'.data ≠ [] → m'.async = true

/-- Messages that can be read in order, whether their writes are pending or not. -/
structure Readable (bufferSize : Nat) (ms : List Message) : Prop where
  sound : ∀ m ∈ ms, Sound bufferSize m
  ordered : Ordered ms
  clear : Clear ms
  waiting : Waiting ms

def queuedBytes : List Message → Nat
  | [] => 0
  | m :: ms => (if m.queued then m.left else 0) + queuedBytes ms

variable {ms : List Message} {bufferSize : Nat} {m : Message}

/-- In this order the bytes that were taken are a prefix of the accepted ones. -/
theorem Ordered.taken_begins (h : Ordered ms) (hle : ∀ m ∈ ms, m.taken <+: m.accepted) :
    ms.flatMap Message.taken <+: ms.flatMap Message.accepted := by
  induction ms with
  | nil => simp
  | cons m ms ih =>
    obtain ⟨hfirst, hrest⟩ := pairwise_cons.mp h
    rw [flatMap_cons, flatMap_cons]
    by_cases hsettled : m.Settled
    · rw [hsettled]
      exact (prefix_append_right_inj _).mpr (ih hrest fun m' hm' => hle m' (mem_cons_of_mem m hm'))
    -- nothing was taken behind a message that is not settled
    have hnone : ms.flatMap Message.taken = [] := by
      rw [flatMap_eq_nil_iff]
      intro m' hm'
      have hpos : m'.readPos = 0 := by
        by_contra hne
        exact hsettled (hfirst m' hm' (Nat.pos_of_ne_zero hne))
      rw [Message.taken, hpos, take_zero]
    rw [hnone, append_nil]
    exact (hle m mem_cons_self).trans (prefix_append _ _)

lemma Sound.taken_begins (h : Sound bufferSize m) : m.taken <+: m.accepted := by
  unfold Message.taken Message.accepted
  split
  · rename_i readPos hcut
    rw [(h.cut readPos hcut).1]
  · exact take_prefix _ _

lemma settled_of_readPos (hpos : m.readPos = m.size) (hwhole : m.accepted = m.data) :
    m.Settled := by
  rw [Message.Settled, Message.taken, hpos, hwhole, Message.size, take_length]

lemma Sound.readPos_of_settled (h : Sound bufferSize m)
    (hqueued : m.queued = true) (hsettled : m.Settled) : m.readPos = m.size := by
  have hlen := congrArg List.length hsettled
  rw [h.whole hqueued, Message.taken, length_take] at hlen
  have hle := h.readPos_le
  unfold Message.size at *
  omega

/-- What one read does to a message: it stays as it is, some of it is read, or the rest of it. -/
structure Advanced (m m' : Message) : Prop where
  data_eq : m'.data = m.data
  readPos_le : m.readPos ≤ m'.readPos
  queued : m'.queued = true → m.queued = true ∧ m'.async = m.async
  moved : m'.readPos = m.readPos ∨ (m.queued = true ∧ m.data ≠ [])
  freed : m.queued = true → m'.queued = false → m'.Settled
  kept : m.queued = false → m' = m

lemma Advanced.refl (m : Message) : Advanced m m where
  data_eq := rfl
  readPos_le := le_rfl
  queued h := ⟨h, rfl⟩
  moved := .inl rfl
  freed h h' := by simp [h] at h'
  kept _ := rfl

def consumed (m : Message) (writing : Nat) : Message :=
  let m' := { m with readPos := m.readPos + writing }
  if m'.readPos = m.size then freeMessage (wakeMessage m' (.read m.size)) else m'

lemma readLoop_cons (outSize writePos : Nat) (m : Message) (ms : List Message) :
    readLoop outSize (m :: ms) writePos =
      if m.queued then
        if writePos + min (outSize - writePos) m.left < outSize then
          (consumed m (min (outSize - writePos) m.left) ::
              (readLoop outSize ms (writePos + min (outSize - writePos) m.left)).1,
            (m.data.drop m.readPos).take (min (outSize - writePos) m.left) ++
              (readLoop outSize ms (writePos + min (outSize - writePos) m.left)).2)
        else (consumed m (min (outSize - writePos) m.left) :: ms,
          (m.data.drop m.readPos).take (min (outSize - writePos) m.left))
      else (m :: (readLoop outSize ms writePos).1, (readLoop outSize ms writePos).2) := rfl

section Consumed

variable {bufferSize writing : Nat} {m : Message}

lemma wakeMessage_readPos (m : Message) (c : Completion) :
    (wakeMessage m c).readPos = m.readPos := by
  unfold wakeMessage
  split <;> rfl

lemma wakeMessage_data (m : Message) (c : Completion) : (wakeMessage m c).data = m.data := by
  unfold wakeMessage
  split <;> rfl

lemma wakeMessage_queued (m : Message) (c : Completion) : (wakeMessage m c).queued = m.queued := by
  unfold wakeMessage
  split <;> rfl

lemma wakeMessage_async (m : Message) (c : Completion) : (wakeMessage m c).async = false := by
  unfold wakeMessage
  split
  · rfl
  · rename_i h
    simpa using h

lemma wakeMessage_completion {m : Message} (h : m.async = true → m.completion = none)
    (c : Completion) :
    (wakeMessage m c).completion = if m.async then some c else m.completion := by
  unfold wakeMessage
  split
  · rename_i hasync
    simp [h hasync]
  · rfl

lemma consumed_readPos : (consumed m writing).readPos = m.readPos + writing := by
  unfold consumed
  dsimp only
  split
  · simp [freeMessage, wakeMessage_readPos]
  · rfl

lemma consumed_data : (consumed m writing).data = m.data := by
  unfold consumed
  dsimp only
  split
  · simp [freeMessage, wakeMessage_data]
  · rfl

lemma consumed_taken :
    (consumed m writing).taken = m.taken ++ (m.data.drop m.readPos).take writing := by
  rw [Message.taken, consumed_readPos, consumed_data, take_add, Message.taken]

lemma consumed_of_ne (h : m.readPos + writing ≠ m.size) :
    consumed m writing = { m with readPos := m.readPos + writing } := by
  exact if_neg h

lemma consumed_whole (hs : Sound bufferSize m) (hqueued : m.queued = true)
    (h : m.readPos + writing = m.size) :
    (consumed m writing).queued = false ∧ (consumed m writing).async = false ∧
      (consumed m writing).completion = (if m.async then some (.read m.size) else m.completion) ∧
      (consumed m writing).accepted = m.data ∧ (consumed m writing).Settled := by
  have heq : consumed m writing =
      freeMessage (wakeMessage { m with readPos := m.readPos + writing } (.read m.size)) := by
    exact if_pos h
  have hcompletion : (consumed m writing).completion =
      if m.async then some (.read m.size) else m.completion := by
    rw [heq]
    exact wakeMessage_completion (m := { m with readPos := m.readPos + writing })
      (fun hasync => (hs.pending hasync).2) _
  have haccepted : (consumed m writing).accepted = m.data := by
    have hwhole := hs.whole hqueued
    unfold Message.accepted at hwhole ⊢
    rw [hcompletion, consumed_data]
    cases hasync : m.async with
    | true => rfl
    | false => simpa using hwhole
  refine ⟨by rw [heq]; rfl, by rw [heq]; exact wakeMessage_async _ _, hcompletion, haccepted, ?_⟩
  apply settled_of_readPos
  · rw [consumed_readPos, h, Message.size, Message.size, consumed_data]
  · rw [haccepted, consumed_data]

lemma consumed_sound (hs : Sound bufferSize m) (hqueued : m.queued = true)
    (hle : writing ≤ m.left) : Sound bufferSize (consumed m writing) := by
  have hpos := hs.readPos_le
  have hsize : (consumed m writing).size = m.size := by
    rw [Message.size, consumed_data, Message.size]
  by_cases hfull : m.readPos + writing = m.size
  · obtain ⟨hq, ha, hc, hacc, _⟩ := consumed_whole hs hqueued hfull
    have hcut : ∀ readPos, m.completion ≠ some (.cut readPos) := by
      intro readPos hcut
      have hnot := (hs.cut readPos hcut).2
      rw [hqueued] at hnot
      exact false_ne_true hnot.symm
    refine ⟨?_, by simp [ha], by simp [hq], ?_, ?_, ?_⟩
    · rw [consumed_readPos, hsize, hfull]
    · intro size hread
      rw [hc] at hread
      rw [consumed_readPos, hsize]
      cases hasync : m.async with
      | true =>
        simp only [hasync, if_true, Option.some.injEq, Completion.read.injEq] at hread
        exact ⟨hread.symm, hfull⟩
      | false =>
        simp only [hasync, false_eq_true, if_false] at hread
        exact ⟨(hs.read size hread).1, hfull⟩
    · intro size avail hfits
      rw [hc] at hfits
      rw [hsize]
      cases hasync : m.async with
      | true => simp [hasync] at hfits
      | false =>
        simp only [hasync, false_eq_true, if_false] at hfits
        exact hs.fits size avail hfits
    intro readPos hread
    rw [hc] at hread
    cases hasync : m.async with
    | true => simp [hasync] at hread
    | false =>
      simp only [hasync, false_eq_true, if_false] at hread
      exact absurd hread (hcut readPos)
  · have hlt : m.readPos + writing < m.size := by
      unfold Message.left at hle
      omega
    rw [consumed_of_ne hfull]
    refine ⟨hlt.le, hs.pending, hs.whole, ?_, hs.fits, ?_⟩
    · intro size hread
      have hend := (hs.read size hread).2
      omega
    intro readPos hcut
    have hnot := (hs.cut readPos hcut).2
    rw [hqueued] at hnot
    simp at hnot

lemma consumed_advanced (hs : Sound bufferSize m) (hqueued : m.queued = true)
    (hle : writing ≤ m.left) : Advanced m (consumed m writing) := by
  refine ⟨consumed_data, ?_, ?_, ?_, ?_, ?_⟩
  · rw [consumed_readPos]
    exact Nat.le_add_right _ _
  · intro hq
    by_cases hfull : m.readPos + writing = m.size
    · rw [(consumed_whole hs hqueued hfull).1] at hq
      simp at hq
    · rw [consumed_of_ne hfull]
      exact ⟨hqueued, rfl⟩
  · rw [consumed_readPos]
    by_cases hzero : writing = 0
    · exact .inl (by omega)
    right
    refine ⟨hqueued, ?_⟩
    intro hnil
    unfold Message.left Message.size at hle
    rw [hnil, length_nil] at hle
    omega
  · intro _ hq
    by_cases hfull : m.readPos + writing = m.size
    · exact (consumed_whole hs hqueued hfull).2.2.2.2
    · rw [consumed_of_ne hfull, hqueued] at hq
      simp at hq
  · intro hq
    rw [hqueued] at hq
    simp at hq

end Consumed

/-- What a read leaves behind. -/
structure ReadSpec (bufferSize : Nat) (ms ms' : List Message) (buf : List UInt8) : Prop where
  readable : Readable bufferSize ms'
  taken : ms'.flatMap Message.taken = ms.flatMap Message.taken ++ buf
  advanced : List.Forall₂ Advanced ms ms'

lemma forall₂_mem_right {α β : Type*} {R : α → β → Prop} {l : List α} {l' : List β}
    (h : List.Forall₂ R l l') {b : β} (hb : b ∈ l') : ∃ a ∈ l, R a b := by
  induction h with
  | nil => simp at hb
  | cons hab _ ih =>
    obtain rfl | hb := mem_cons.mp hb
    · exact ⟨_, mem_cons_self, hab⟩
    · obtain ⟨a, ha, hR⟩ := ih hb
      exact ⟨a, mem_cons_of_mem _ ha, hR⟩

lemma Ordered.taken_behind
    (ho : Ordered (m :: ms)) (hs : Sound bufferSize m) (hqueued : m.queued = true)
    (hleft : m.left ≠ 0) : ms.flatMap Message.taken = [] := by
  rw [flatMap_eq_nil_iff]
  intro m' hm'
  have hpos : m'.readPos = 0 := by
    by_contra hne
    have hsettled := (List.pairwise_cons.mp ho).1 m' hm' (Nat.pos_of_ne_zero hne)
    have hend := hs.readPos_of_settled hqueued hsettled
    unfold Message.left at hleft
    omega
  rw [Message.taken, hpos, take_zero]

lemma flatMap_taken_consumed {writing : Nat}
    (ho : Ordered (m :: ms)) (hs : Sound bufferSize m) (hqueued : m.queued = true)
    (hle : writing ≤ m.left) (buf : List UInt8) :
    (consumed m writing).taken ++ (ms.flatMap Message.taken ++ buf) =
      (m :: ms).flatMap Message.taken ++ ((m.data.drop m.readPos).take writing ++ buf) := by
  rw [consumed_taken, flatMap_cons]
  by_cases hleft : m.left = 0
  · have hzero : writing = 0 := by omega
    simp [hzero]
  · simp [ho.taken_behind hs hqueued hleft]

lemma readLoop_spec (outSize writePos : Nat) (h : Readable bufferSize ms) :
    ReadSpec bufferSize ms (readLoop outSize ms writePos).1 (readLoop outSize ms writePos).2 := by
  induction ms generalizing writePos with
  | nil => exact ⟨⟨by simp [readLoop], .nil, .nil, .nil⟩, by simp [readLoop], .nil⟩
  | cons m ms ih =>
    obtain ⟨hs, ho, hc, hw⟩ := h
    have hsm := hs m mem_cons_self
    have hsms := fun m' hm' => hs m' (mem_cons_of_mem m hm')
    obtain ⟨hom, homs⟩ := pairwise_cons.mp ho
    obtain ⟨hcm, hcms⟩ := pairwise_cons.mp hc
    obtain ⟨hwm, hwms⟩ := pairwise_cons.mp hw
    have htail : Readable bufferSize ms := ⟨hsms, homs, hcms, hwms⟩
    rw [readLoop_cons]
    by_cases hqueued : m.queued = true
    · rw [if_pos hqueued]
      set writing := min (outSize - writePos) m.left with hwriting
      have hle : writing ≤ m.left := min_le_right _ _
      have hadv := consumed_advanced hsm hqueued hle
      by_cases hmore : writePos + writing < outSize
      · -- the message is used up, and the loop goes on behind it
        have hfull : m.readPos + writing = m.size := by
          have hpos := hsm.readPos_le
          unfold Message.left at *
          omega
        obtain ⟨_, hasync, _, _, hsettled⟩ := consumed_whole hsm hqueued hfull
        have hrest := ih (writePos + writing) htail
        rw [if_pos hmore]
        refine ⟨⟨?_, ?_, ?_, ?_⟩, ?_, .cons hadv hrest.advanced⟩
        · exact forall_mem_cons.mpr ⟨consumed_sound hsm hqueued hle, hrest.readable.sound⟩
        · exact pairwise_cons.mpr ⟨fun _ _ _ => hsettled, hrest.readable.ordered⟩
        · exact pairwise_cons.mpr ⟨fun _ _ _ _ _ => hsettled, hrest.readable.clear⟩
        · refine pairwise_cons.mpr ⟨fun _ _ h => ?_, hrest.readable.waiting⟩
          rw [hasync] at h
          simp at h
        · rw [flatMap_cons, hrest.taken]
          exact flatMap_taken_consumed ho hsm hqueued hle _
      · rw [if_neg hmore]
        refine ⟨⟨?_, ?_, ?_, ?_⟩, ?_, .cons hadv (forall₂_same.mpr fun m' _ => .refl m')⟩
        · exact forall_mem_cons.mpr ⟨consumed_sound hsm hqueued hle, hsms⟩
        · refine pairwise_cons.mpr ⟨fun m' hm' hpos => ?_, homs⟩
          have hend := hsm.readPos_of_settled hqueued (hom m' hm' hpos)
          have hfull : m.readPos + writing = m.size := by
            unfold Message.left at hle
            omega
          exact (consumed_whole hsm hqueued hfull).2.2.2.2
        · exact pairwise_cons.mpr ⟨fun _ _ hfreed _ _ => hadv.freed hqueued hfreed, hcms⟩
        · refine pairwise_cons.mpr ⟨fun m' hm' hasync hq hne => ?_, hwms⟩
          by_cases hfull : m.readPos + writing = m.size
          · rw [(consumed_whole hsm hqueued hfull).2.1] at hasync
            simp at hasync
          · rw [consumed_of_ne hfull] at hasync
            exact hwm m' hm' hasync hq hne
        · have htaken := flatMap_taken_consumed ho hsm hqueued hle []
          simp only [append_nil] at htaken
          rw [flatMap_cons, htaken]
    · -- a message that was freed is passed over
      have hfree : m.queued = false := by simpa using hqueued
      have hrest := ih writePos htail
      rw [if_neg hqueued]
      refine ⟨⟨?_, ?_, ?_, ?_⟩, ?_, .cons (.refl m) hrest.advanced⟩
      · exact forall_mem_cons.mpr ⟨hsm, hrest.readable.sound⟩
      · refine pairwise_cons.mpr ⟨fun m' hm' hpos => ?_, hrest.readable.ordered⟩
        obtain ⟨m₀, hm₀, hadv⟩ := forall₂_mem_right hrest.advanced hm'
        obtain heq | ⟨hq, hne⟩ := hadv.moved
        · exact hom m₀ hm₀ (heq ▸ hpos)
        · exact hcm m₀ hm₀ hfree hq hne
      · refine pairwise_cons.mpr ⟨fun m' hm' _ hq hne => ?_, hrest.readable.clear⟩
        obtain ⟨m₀, hm₀, hadv⟩ := forall₂_mem_right hrest.advanced hm'
        exact hcm m₀ hm₀ hfree (hadv.queued hq).1 (hadv.data_eq ▸ hne)
      · refine pairwise_cons.mpr ⟨fun m' _ hasync => ?_, hrest.readable.waiting⟩
        rw [(hsm.pending hasync).1] at hfree
        simp at hfree
      · rw [flatMap_cons, flatMap_cons, hrest.taken, append_assoc]

lemma readWhole_eq {outSize : Nat} (hhead : (ms.getD (listHead ms) emptyMessage).readPos = 0 ∧
      (ms.getD (listHead ms) emptyMessage).size = outSize)
    (hqueue : queueEmpty ms = false) :
    readLoop outSize ms 0 =
      (readWhole ms, (ms.getD (listHead ms) emptyMessage).data.take outSize) := by
  induction ms with
  | nil => simp [queueEmpty] at hqueue
  | cons m ms ih =>
    rw [readLoop_cons, readWhole]
    cases hqueued : m.queued with
    | true =>
      have hpos : listHead (m :: ms) = 0 := by simp [listHead, findIdx_cons, hqueued]
      rw [hpos, getD_cons_zero] at hhead ⊢
      obtain ⟨hzero, hsize⟩ := hhead
      have hmin : min (outSize - 0) m.left = outSize := by
        unfold Message.left
        omega
      rw [if_pos rfl, hmin, if_neg (by omega), if_pos rfl, hzero, drop_zero]
      unfold consumed
      simp [hzero, hsize, hqueued]
    | false =>
      have hpos : listHead (m :: ms) = listHead ms + 1 := by
        simp [listHead, findIdx_cons, hqueued]
      rw [hpos, getD_cons_succ] at hhead ⊢
      have hqueue' : queueEmpty ms = false := by simpa [queueEmpty, hqueued] using hqueue
      rw [ih hhead hqueue', if_neg (by simp), if_neg (by simp)]

end WineForge.NamedPipes
