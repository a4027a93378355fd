import Mathlib.Data.Setoid.Basic
import WineForge.Library.Transition

/-!
# Thread inputs

Message queues, the thread input that each of them uses, and the attachment records that every
thread input keeps. A queue is identified by its address, which may be used again once the queue is
destroyed. All allocations succeed.
-/

namespace WineForge.ThreadInput

open Function List

variable {Q : Type} [DecidableEq Q]

structure Attachment (Q : Type) where
  queueFrom : Q
  queueTo : Q
  deriving DecidableEq, Repr

structure Session (Q : Type) where
  /-- The queues that are not destroyed. -/
  queues : List Q
  /-- `queue->input`. -/
  input : Q → Nat
  /-- `input->attachments`. -/
  attachments : Nat → List (Attachment Q)
  /-- The next thread input to be created. -/
  next : Nat

/-- `release_object` on a thread input, which is destroyed with its attachments when no queue uses it
and nobody holds a reference. -/
def releaseInput (s : Session Q) (held : Option Nat) (input : Nat) : Session Q :=
  if held = some input ∨ s.queues.any fun q => s.input q = input then s
  else { s with attachments := update s.attachments input [] }

def assignThreadInput (s : Session Q) (held : Option Nat) (queue : Q) (newInput : Nat) :
    Option (Session Q) :=
  if queue ∉ s.queues then none
  else if s.input queue = newInput then some s
  else
    some (releaseInput { s with input := update s.input queue newInput } held (s.input queue))

/-- The loop of `attach_thread_input` over the records of the old input. -/
def assignAll (held : Option Nat) (newInput : Nat) :
    List (Attachment Q) → Session Q → Option (Session Q)
  | [], s => some s
  | attach :: rest, s => do
    let s ← assignThreadInput s held attach.queueFrom newInput
    let s ← assignThreadInput s held attach.queueTo newInput
    assignAll held newInput rest s

def attachThreadInput (s : Session Q) (queueFrom queueTo : Q) : Option (Session Q) := do
  let newInput := s.input queueTo
  let oldInput := s.input queueFrom
  let s := { s with
    attachments := update s.attachments oldInput
      (s.attachments oldInput ++ [⟨queueFrom, queueTo⟩]) }
  let s ← assignAll (some oldInput) newInput (s.attachments oldInput) s
  let s :=
    if oldInput ≠ newInput then
      { s with
        attachments := update (update s.attachments newInput
            (s.attachments newInput ++ s.attachments oldInput)) oldInput [] }
    else s
  some (releaseInput s none oldInput)

/-- The records that `detach_thread_input` looks for. -/
def Attachment.joins (attach : Attachment Q) (queueFrom : Q) (queueTo : Option Q) : Bool :=
  (attach.queueFrom = queueFrom || some attach.queueFrom = queueTo) &&
    (attach.queueTo = queueFrom || some attach.queueTo = queueTo)

/-- The loop of `detach_thread_input`: the records that are left, and the count. -/
def detachRecords (queueFrom : Q) (queueTo : Option Q) :
    List (Attachment Q) → Nat → List (Attachment Q) × Nat
  | [], count => ([], count)
  | attach :: rest, count =>
    if ¬attach.joins queueFrom queueTo then
      let (left, count) := detachRecords queueFrom queueTo rest count
      (attach :: left, count)
    else if count ≠ 0 ∧ queueTo ≠ none then (attach :: rest, count + 1)
    else detachRecords queueFrom queueTo rest (count + 1)

def detachThreadInput (s : Session Q) (queueFrom : Q) (queueTo : Option Q) : Option (Session Q) :=
  let oldInput := s.input queueFrom
  let (left, count) := detachRecords queueFrom queueTo (s.attachments oldInput) 0
  let s := { s with attachments := update s.attachments oldInput left }
  if queueTo ≠ none ∧ (count = 0 ∨ count > 1) then some s
  else
    let newInput := s.next
    assignThreadInput
      { s with
        attachments := update s.attachments newInput []
        next := s.next + 1 }
      none queueFrom newInput

/-- `create_msg_queue` with a new thread input. -/
def createMsgQueue (s : Session Q) (queue : Q) : Session Q :=
  { queues := queue :: s.queues
    input := update s.input queue s.next
    attachments := update s.attachments s.next []
    next := s.next + 1 }

def msgQueueDestroy (s : Session Q) (queue : Q) : Session Q :=
  let input := s.input queue
  let left := (s.attachments input).filter fun attach =>
    attach.queueFrom ≠ queue ∧ attach.queueTo ≠ queue
  releaseInput
    { s with
      queues := s.queues.filter fun q => q ≠ queue
      attachments := update s.attachments input left }
    none input

inductive Op (Q : Type)
  | create (queue : Q)
  /-- `attach_thread_input`, from the request or from `set_parent`. -/
  | attach (queueFrom queueTo : Q)
  /-- `detach_thread_input`, from the request, from `set_parent` or, without a second queue, from a
  change of the desktop. -/
  | detach (queueFrom : Q) (queueTo : Option Q)
  | destroy (queue : Q)
  deriving DecidableEq, Repr

/-- The requests fail for threads without a queue and for a thread with itself. Without a result the
server has used a queue that was freed. -/
def step (s : Session Q) : Op Q → Option (Session Q)
  | .create queue => if queue ∈ s.queues then some s else some (createMsgQueue s queue)
  | .attach queueFrom queueTo =>
    if queueFrom ∈ s.queues ∧ queueTo ∈ s.queues ∧ queueFrom ≠ queueTo then
      attachThreadInput s queueFrom queueTo
    else some s
  | .detach queueFrom none =>
    if queueFrom ∈ s.queues then detachThreadInput s queueFrom none else some s
  | .detach queueFrom (some queueTo) =>
    if queueFrom ∈ s.queues ∧ queueTo ∈ s.queues ∧ queueFrom ≠ queueTo then
      detachThreadInput s queueFrom (some queueTo)
    else some s
  | .destroy queue => if queue ∈ s.queues then some (msgQueueDestroy s queue) else some s

def NoQueues (s : Session Q) : Prop := s.queues = [] ∧ ∀ input, s.attachments input = []

/-!
## The attachment graph

As long as no queue is moved to a new thread input while other records of it stay behind, every
record joins two live queues that use the thread input that keeps it. Queues that are joined by a
chain of records then share one thread input.
-/

open Library

variable {Q : Type} {s s' : Session Q}

/-- A record that belongs to the list of `input`. -/
def Attachment.Belongs (s : Session Q) (input : Nat) (attach : Attachment Q) : Prop :=
  attach.queueFrom ∈ s.queues ∧ attach.queueTo ∈ s.queues ∧
    s.input attach.queueFrom = input ∧ s.input attach.queueTo = input

structure Consistent (s : Session Q) : Prop where
  belongs : ∀ input, ∀ attach ∈ s.attachments input, attach.Belongs s input
  input_lt : ∀ queue ∈ s.queues, s.input queue < s.next

def Joined (s : Session Q) (q q' : Q) : Prop :=
  ∃ input, ⟨q, q'⟩ ∈ s.attachments input

/-- The chains of records stay inside one thread input. -/
theorem Consistent.input_eq (h : Consistent s) {q q' : Q}
    (hchain : Relation.EqvGen (Joined s) q q') : s.input q = s.input q' := by
  have hle : Relation.EqvGen.setoid (Joined s) ≤ Setoid.ker s.input := by
    apply Setoid.eqvGen_le
    rintro q q' ⟨input, hmem⟩
    obtain ⟨_, _, hfrom, hto⟩ := h.belongs input _ hmem
    exact hfrom.trans hto.symm
  exact hle hchain

lemma releaseInput_queues (s : Session Q) (held : Option Nat) (input : Nat) :
    (releaseInput s held input).queues = s.queues := by
  unfold releaseInput
  split <;> rfl

lemma releaseInput_input (s : Session Q) (held : Option Nat) (input : Nat) :
    (releaseInput s held input).input = s.input := by
  unfold releaseInput
  split <;> rfl

lemma releaseInput_next (s : Session Q) (held : Option Nat) (input : Nat) :
    (releaseInput s held input).next = s.next := by
  unfold releaseInput
  split <;> rfl

variable {s : Session Q}

lemma releaseInput_attachments {held : Option Nat} {input j : Nat}
    {attach : Attachment Q} (h : attach ∈ (releaseInput s held input).attachments j) :
    attach ∈ s.attachments j := by
  unfold releaseInput at h
  split at h
  · exact h
  by_cases hj : j = input
  · rw [hj] at h
    simp at h
  · simpa [update_of_ne hj] using h

lemma releaseInput_of_ne {held : Option Nat} {input j : Nat} (h : j = input → held = some j) :
    (releaseInput s held input).attachments j = s.attachments j := by
  unfold releaseInput
  split
  · rfl
  rename_i hfree
  have hj : j ≠ input := by
    rintro rfl
    exact hfree (.inl (h rfl))
  exact update_of_ne hj _ _

lemma Consistent.release (h : Consistent s) (held : Option Nat) (input : Nat) :
    Consistent (releaseInput s held input) := by
  refine ⟨fun j attach hmem => ?_, fun queue hqueue => ?_⟩
  · have hbelongs := h.belongs j attach (releaseInput_attachments hmem)
    unfold Attachment.Belongs at hbelongs ⊢
    rwa [releaseInput_queues, releaseInput_input]
  · rw [releaseInput_queues] at hqueue
    rw [releaseInput_input, releaseInput_next]
    exact h.input_lt queue hqueue

lemma Consistent.shrink (h : Consistent s) {input : Nat} {left : List (Attachment Q)}
    (hleft : ∀ attach ∈ left, attach ∈ s.attachments input) :
    Consistent { s with attachments := update s.attachments input left } := by
  refine ⟨fun j attach hmem => ?_, h.input_lt⟩
  dsimp only at hmem
  by_cases hj : j = input
  · rw [hj, update_self] at hmem
    rw [hj]
    exact h.belongs input attach (hleft attach hmem)
  · rw [update_of_ne hj] at hmem
    exact h.belongs j attach hmem

/-- What moving some queues to `newInput` does while `held` is in use. -/
structure Moved (held newInput : Nat) (moved : Q → Prop) (s s' : Session Q) : Prop where
  queues : s'.queues = s.queues
  next : s'.next = s.next
  input : ∀ q, moved q → s'.input q = newInput
  others : ∀ q, ¬moved q → s'.input q = s.input q
  attachments : ∀ j, ∀ attach ∈ s'.attachments j, attach ∈ s.attachments j
  kept : ∀ j, j = held ∨ j = newInput → s'.attachments j = s.attachments j

lemma Moved.trans {held newInput : Nat} {P P' : Q → Prop} {s'' : Session Q}
    (h : Moved held newInput P s s') (h' : Moved held newInput P' s' s'') :
    Moved held newInput (fun q => P q ∨ P' q) s s'' := by
  refine ⟨h'.queues.trans h.queues, h'.next.trans h.next, ?_, ?_, ?_, ?_⟩
  · intro q hq
    by_cases hq' : P' q
    · exact h'.input q hq'
    · rw [h'.others q hq']
      exact h.input q (hq.resolve_right hq')
  · intro q hq
    obtain ⟨hP, hP'⟩ := not_or.mp hq
    rw [h'.others q hP', h.others q hP]
  · exact fun j attach hmem => h.attachments j attach (h'.attachments j attach hmem)
  · exact fun j hj => (h'.kept j hj).trans (h.kept j hj)

variable [DecidableEq Q]

lemma assignThreadInput_moved (held newInput : Nat) {queue : Q} (hlive : queue ∈ s.queues) :
    ∃ s', assignThreadInput s (some held) queue newInput = some s' ∧
      Moved held newInput (fun q => q = queue) s s' := by
  unfold assignThreadInput
  rw [if_neg (not_not.mpr hlive)]
  by_cases hsame : s.input queue = newInput
  · refine ⟨s, if_pos hsame, rfl, rfl, ?_, fun _ _ => rfl, fun _ _ h => h, fun _ _ => rfl⟩
    rintro q rfl
    exact hsame
  refine ⟨_, if_neg hsame, ?_, ?_, ?_, ?_, ?_, ?_⟩
  · rw [releaseInput_queues]
  · rw [releaseInput_next]
  · rintro q rfl
    rw [releaseInput_input]
    exact update_self _ _ _
  · intro q hq
    rw [releaseInput_input]
    exact update_of_ne hq _ _
  · intro j attach hmem
    have hbefore := releaseInput_attachments hmem
    exact hbefore
  intro j hj
  apply releaseInput_of_ne
  intro hold
  obtain rfl | rfl := hj
  · rfl
  · exact absurd hold.symm hsame

def Named (attachments : List (Attachment Q)) (q : Q) : Prop :=
  ∃ attach ∈ attachments, attach.queueFrom = q ∨ attach.queueTo = q

lemma assignAll_moved (held newInput : Nat) {attachments : List (Attachment Q)}
    (hlive : ∀ q, Named attachments q → q ∈ s.queues) :
    ∃ s', assignAll (some held) newInput attachments s = some s' ∧
      Moved held newInput (Named attachments) s s' := by
  induction attachments generalizing s with
  | nil =>
    refine ⟨s, rfl, rfl, rfl, ?_, fun _ _ => rfl, fun _ _ h => h, fun _ _ => rfl⟩
    rintro q ⟨attach, hmem, _⟩
    simp at hmem
  | cons attach rest ih =>
    have hfrom := hlive attach.queueFrom ⟨attach, mem_cons_self, .inl rfl⟩
    obtain ⟨s₁, heq₁, hmoved₁⟩ := assignThreadInput_moved held newInput hfrom
    have hto : attach.queueTo ∈ s₁.queues := by
      rw [hmoved₁.queues]
      exact hlive attach.queueTo ⟨attach, mem_cons_self, .inr rfl⟩
    obtain ⟨s₂, heq₂, hmoved₂⟩ := assignThreadInput_moved held newInput hto
    have hrest : ∀ q, Named rest q → q ∈ s₂.queues := by
      rintro q ⟨a, ha, hq⟩
      rw [hmoved₂.queues, hmoved₁.queues]
      exact hlive q ⟨a, mem_cons_of_mem _ ha, hq⟩
    obtain ⟨s₃, heq₃, hmoved₃⟩ := ih hrest
    refine ⟨s₃, ?_, ?_⟩
    · rw [assignAll, heq₁, Option.bind_eq_bind, Option.bind_some, heq₂, Option.bind_some, heq₃]
    have hall := (hmoved₁.trans hmoved₂).trans hmoved₃
    have hnamed : (fun q => (q = attach.queueFrom ∨ q = attach.queueTo) ∨ Named rest q) =
        Named (attach :: rest) := by
      funext q
      simp only [Named, mem_cons, eq_iff_iff]
      constructor
      · rintro ((rfl | rfl) | ⟨a, ha, hq⟩)
        · exact ⟨attach, .inl rfl, .inl rfl⟩
        · exact ⟨attach, .inl rfl, .inr rfl⟩
        · exact ⟨a, .inr ha, hq⟩
      · rintro ⟨a, rfl | ha, hq⟩
        · exact .inl (hq.imp Eq.symm Eq.symm)
        · exact .inr ⟨a, ha, hq⟩
    rwa [hnamed] at hall

/-- Attaching keeps the records consistent, and only uses queues that are live. -/
theorem attachThreadInput_consistent {queueFrom queueTo : Q} (h : Consistent s)
    (hfrom : queueFrom ∈ s.queues) (hto : queueTo ∈ s.queues) :
    ∃ s', attachThreadInput s queueFrom queueTo = some s' ∧ Consistent s' := by
  set new := s.input queueTo with hnew
  set old := s.input queueFrom with hold
  set records := s.attachments old ++ [⟨queueFrom, queueTo⟩] with hrecords
  set s₁ : Session Q := { s with attachments := update s.attachments old records }
  have hlive : ∀ q, Named records q → q ∈ s₁.queues := by
    rintro q ⟨attach, hmem, hq⟩
    obtain hmem | hmem := mem_append.mp hmem
    · obtain ⟨hf, ht, _, _⟩ := h.belongs old attach hmem
      obtain rfl | rfl := hq
      · exact hf
      · exact ht
    rw [mem_singleton.mp hmem] at hq
    obtain rfl | rfl := hq
    · exact hfrom
    · exact hto
  -- the queues of the old records used the old input, and the new record joins it to the new one
  have hinput : ∀ q, Named records q → s.input q = old ∨ s.input q = new := by
    rintro q ⟨attach, hmem, hq⟩
    obtain hmem | hmem := mem_append.mp hmem
    · obtain ⟨_, _, hf, ht⟩ := h.belongs old attach hmem
      obtain rfl | rfl := hq
      · exact .inl hf
      · exact .inl ht
    rw [mem_singleton.mp hmem] at hq
    obtain rfl | rfl := hq
    · exact .inl rfl
    · exact .inr rfl
  obtain ⟨s₂, heq, hmoved⟩ := assignAll_moved old new hlive
  have hattach : s₁.attachments old = records := update_self _ _ _
  have hold₂ : s₂.attachments old = records := (hmoved.kept old (.inl rfl)).trans hattach
  have hsame : ∀ q, s.input q ≠ old → s₂.input q = s.input q := by
    intro q hq
    by_cases hnamed : Named records q
    · rw [hmoved.input q hnamed, (hinput q hnamed).resolve_left hq]
    · exact hmoved.others q hnamed
  -- the other lists keep their queues
  have hbelongs : ∀ j, j ≠ old → ∀ attach ∈ s₂.attachments j, attach.Belongs s₂ j := by
    intro j hj attach hmem
    have hmem₁ : attach ∈ update s.attachments old records j :=
      hmoved.attachments j attach hmem
    rw [update_of_ne hj] at hmem₁
    obtain ⟨hf, ht, hif, hit⟩ := h.belongs j attach hmem₁
    refine ⟨by rw [hmoved.queues]; exact hf, by rw [hmoved.queues]; exact ht, ?_, ?_⟩
    · rw [hsame _ (by rw [hif]; exact hj), hif]
    · rw [hsame _ (by rw [hit]; exact hj), hit]
  -- the records that were gone through belong to the new input
  have hrecords₂ : ∀ attach ∈ records, attach.Belongs s₂ new := by
    intro attach hmem
    have hf : Named records attach.queueFrom := ⟨attach, hmem, .inl rfl⟩
    have ht : Named records attach.queueTo := ⟨attach, hmem, .inr rfl⟩
    refine ⟨?_, ?_, hmoved.input _ hf, hmoved.input _ ht⟩
    · rw [hmoved.queues]
      exact hlive _ hf
    · rw [hmoved.queues]
      exact hlive _ ht
  have hlt : ∀ queue ∈ s₂.queues, s₂.input queue < s₂.next := by
    intro queue hqueue
    rw [hmoved.queues] at hqueue
    rw [hmoved.next]
    by_cases hnamed : Named records queue
    · rw [hmoved.input queue hnamed]
      exact h.input_lt queueTo hto
    · rw [hmoved.others queue hnamed]
      exact h.input_lt queue hqueue
  have hattached : attachThreadInput s queueFrom queueTo = some (releaseInput (if old ≠ new then
        { s₂ with
          attachments := update
            (update s₂.attachments new (s₂.attachments new ++ s₂.attachments old))
            old [] }
        else s₂) none old) := by
    change (assignAll _ _ (s₁.attachments old) s₁).bind _ = _
    rw [hattach, heq]
    rfl
  refine ⟨_, hattached, ?_⟩
  apply Consistent.release
  split
  · rename_i hne
    refine ⟨fun j attach hmem => ?_, hlt⟩
    by_cases hj : j = old
    · rw [hj] at hmem
      simp at hmem
    dsimp only at hmem
    rw [update_of_ne hj] at hmem
    by_cases hjn : j = new
    · rw [hjn, update_self, hold₂] at hmem
      rw [hjn]
      obtain hmem | hmem := mem_append.mp hmem
      · exact hbelongs new (Ne.symm hne) attach hmem
      · exact hrecords₂ attach hmem
    · rw [update_of_ne hjn] at hmem
      exact hbelongs j hj attach hmem
  · rename_i heqn
    have hon : old = new := not_not.mp heqn
    refine ⟨fun j attach hmem => ?_, hlt⟩
    by_cases hj : j = old
    · rw [hj, hold₂] at hmem
      rw [hj, hon]
      exact hrecords₂ attach hmem
    · exact hbelongs j hj attach hmem

section Detach

variable {queueFrom : Q} {queueTo : Option Q}

lemma detachRecords_left {records : List (Attachment Q)} {count : Nat} :
    ∀ attach ∈ (detachRecords queueFrom queueTo records count).1, attach ∈ records := by
  induction records generalizing count with
  | nil => simp [detachRecords]
  | cons attach rest ih =>
    intro a ha
    rw [detachRecords] at ha
    split at ha
    · obtain rfl | ha := mem_cons.mp ha
      · exact mem_cons_self
      · exact mem_cons_of_mem _ (ih a ha)
    · split at ha
      · exact ha
      · exact mem_cons_of_mem _ (ih a ha)

lemma detachRecords_eq {records : List (Attachment Q)} {count : Nat}
    (h : queueTo = none ∨ (detachRecords queueFrom queueTo records count).2 ≤ 1) :
    detachRecords queueFrom queueTo records count =
      (records.filter fun attach => !attach.joins queueFrom queueTo,
        count + (records.filter fun attach => attach.joins queueFrom queueTo).length) := by
  induction records generalizing count with
  | nil => rfl
  | cons attach rest ih =>
    rw [detachRecords] at h ⊢
    by_cases hjoins : attach.joins queueFrom queueTo = true
    · rw [if_neg (not_not.mpr hjoins)] at h ⊢
      by_cases hbreak : count ≠ 0 ∧ queueTo ≠ none
      · rw [if_pos hbreak] at h
        obtain hnone | hle := h
        · exact absurd hnone hbreak.2
        · exact absurd hle (by have := hbreak.1; dsimp only; omega)
      rw [if_neg hbreak] at h ⊢
      rw [ih h]
      simp only [filter_cons, hjoins, Bool.not_true, Bool.false_eq_true, if_false, if_true,
        length_cons]
      rw [Nat.add_right_comm, Nat.add_assoc]
    · rw [if_pos hjoins] at h ⊢
      have hrest := @ih count h
      rw [hrest]
      simp [hjoins]

lemma Consistent.move (h : Consistent s) {left : List (Attachment Q)} {queue : Q}
    (hqueue : queue ∈ s.queues)
    (hleft : ∀ attach ∈ left, attach ∈ s.attachments (s.input queue) ∧
      attach.queueFrom ≠ queue ∧ attach.queueTo ≠ queue) :
    ∃ s', assignThreadInput
        { s with
          attachments := update (update s.attachments (s.input queue) left) s.next []
          next := s.next + 1 } none queue s.next = some s' ∧ Consistent s' := by
  have hlt := h.input_lt queue hqueue
  unfold assignThreadInput
  rw [if_neg (not_not.mpr hqueue), if_neg hlt.ne]
  refine ⟨_, rfl, ?_⟩
  apply Consistent.release
  refine ⟨fun j attach hmem => ?_, fun q hq => ?_⟩
  · dsimp only at hmem
    by_cases hj : j = s.next
    · rw [hj] at hmem
      simp at hmem
    rw [update_of_ne hj] at hmem
    -- a record of the lists that are left names other queues only
    have hother : attach.Belongs s j ∧ attach.queueFrom ≠ queue ∧ attach.queueTo ≠ queue := by
      by_cases hold : j = s.input queue
      · rw [hold, update_self] at hmem
        obtain ⟨hmem, hne⟩ := hleft attach hmem
        rw [hold]
        exact ⟨h.belongs _ attach hmem, hne⟩
      rw [update_of_ne hold] at hmem
      have hbelongs := h.belongs j attach hmem
      refine ⟨hbelongs, ?_, ?_⟩
      · rintro heq
        exact hold (hbelongs.2.2.1.symm.trans (by rw [heq]))
      · rintro heq
        exact hold (hbelongs.2.2.2.symm.trans (by rw [heq]))
    obtain ⟨⟨hf, ht, hif, hit⟩, hnf, hnt⟩ := hother
    refine ⟨hf, ht, ?_, ?_⟩
    · exact (update_of_ne hnf _ _).trans hif
    · exact (update_of_ne hnt _ _).trans hit
  · dsimp only
    by_cases heq : q = queue
    · rw [heq, update_self]
      exact Nat.lt_succ_self _
    · rw [update_of_ne heq]
      exact Nat.lt_succ_of_lt (h.input_lt q hq)

/-- A record of `queueFrom` with a third queue. -/
def StaysBehind (s : Session Q) (queueFrom : Q) (queueTo : Option Q) : Prop :=
  ∃ attach ∈ s.attachments (s.input queueFrom), attach.joins queueFrom queueTo = false ∧
    (attach.queueFrom = queueFrom ∨ attach.queueTo = queueFrom)

/-- `detach_thread_input` moves the queue to a new input: it is not asked for another queue, or there
is exactly one record between the two. -/
def Moves (s : Session Q) (queueFrom : Q) (queueTo : Option Q) : Prop :=
  queueTo = none ∨ ((s.attachments (s.input queueFrom)).filter fun attach =>
    attach.joins queueFrom queueTo).length = 1

theorem detachThreadInput_consistent (h : Consistent s) (hqueue : queueFrom ∈ s.queues)
    (hclean : Moves s queueFrom queueTo → ¬StaysBehind s queueFrom queueTo) :
    ∃ s', detachThreadInput s queueFrom queueTo = some s' ∧ Consistent s' := by
  unfold detachThreadInput
  dsimp only
  set records := s.attachments (s.input queueFrom) with hrecords
  set result := detachRecords queueFrom queueTo records 0 with hresult
  by_cases hstay : queueTo ≠ none ∧ (result.2 = 0 ∨ result.2 > 1)
  · rw [if_pos hstay]
    exact ⟨_, rfl, h.shrink fun attach hmem => detachRecords_left attach hmem⟩
  rw [if_neg hstay]
  have hall : queueTo = none ∨ result.2 ≤ 1 := by
    by_contra hcon
    obtain ⟨hsome, hmany⟩ := not_or.mp hcon
    exact hstay ⟨hsome, .inr (Nat.lt_of_not_le hmany)⟩
  have heq := detachRecords_eq hall
  rw [Nat.zero_add] at heq
  have hleft := congrArg Prod.fst heq
  have hcount : result.2 = (records.filter fun attach => attach.joins queueFrom queueTo).length :=
    congrArg Prod.snd heq
  have hmoves : Moves s queueFrom queueTo := by
    by_cases hnone : queueTo = none
    · exact .inl hnone
    right
    rw [← hrecords, ← hcount]
    by_contra hne
    exact hstay ⟨hnone, by omega⟩
  apply h.move hqueue
  intro attach hmem
  rw [hresult, hleft, mem_filter] at hmem
  obtain ⟨hmem, hjoins⟩ := hmem
  refine ⟨hmem, ?_, ?_⟩
  · intro hf
    exact hclean hmoves ⟨attach, hmem, by simpa using hjoins, .inl hf⟩
  · intro ht
    exact hclean hmoves ⟨attach, hmem, by simpa using hjoins, .inr ht⟩

end Detach

lemma createMsgQueue_consistent {queue : Q} (h : Consistent s) (hnew : queue ∉ s.queues) :
    Consistent (createMsgQueue s queue) := by
  refine ⟨fun j attach hmem => ?_, fun q hq => ?_⟩
  · change attach ∈ update s.attachments s.next [] j at hmem
    by_cases hj : j = s.next
    · rw [hj, update_self] at hmem
      simp at hmem
    rw [update_of_ne hj] at hmem
    obtain ⟨hf, ht, hif, hit⟩ := h.belongs j attach hmem
    refine ⟨mem_cons_of_mem _ hf, mem_cons_of_mem _ ht, ?_, ?_⟩
    · refine (update_of_ne ?_ _ _).trans hif
      rintro rfl
      exact hnew hf
    · refine (update_of_ne ?_ _ _).trans hit
      rintro rfl
      exact hnew ht
  · rw [createMsgQueue]
    dsimp only
    by_cases heq : q = queue
    · rw [heq, update_self]
      exact Nat.lt_succ_self _
    · rw [update_of_ne heq]
      exact Nat.lt_succ_of_lt (h.input_lt q ((List.mem_cons.mp hq).resolve_left heq))

/-- All records of a queue are in the list of its thread input, so they go with it. -/
theorem msgQueueDestroy_consistent (queue : Q) (h : Consistent s) :
    Consistent (msgQueueDestroy s queue) := by
  apply Consistent.release
  refine ⟨fun j attach hmem => ?_, fun q hq => ?_⟩
  · dsimp only at hmem
    have hother : attach.Belongs s j ∧ attach.queueFrom ≠ queue ∧ attach.queueTo ≠ queue := by
      by_cases hj : j = s.input queue
      · rw [hj, update_self, mem_filter] at hmem
        rw [hj]
        exact ⟨h.belongs _ attach hmem.1, by simpa using hmem.2⟩
      rw [update_of_ne hj] at hmem
      have hbelongs := h.belongs j attach hmem
      refine ⟨hbelongs, ?_, ?_⟩
      · intro heq
        exact hj (hbelongs.2.2.1.symm.trans (by rw [heq]))
      · intro heq
        exact hj (hbelongs.2.2.2.symm.trans (by rw [heq]))
    obtain ⟨⟨hf, ht, hif, hit⟩, hnf, hnt⟩ := hother
    exact ⟨mem_filter.mpr ⟨hf, by simpa using hnf⟩,
      mem_filter.mpr ⟨ht, by simpa using hnt⟩, hif, hit⟩
  · exact h.input_lt q (mem_filter.mp hq).1

def LeavesNone (s : Session Q) : Op Q → Prop
  | .detach queueFrom queueTo => queueFrom ∈ s.queues → Moves s queueFrom queueTo →
      ¬StaysBehind s queueFrom queueTo
  | _ => True

/-- One step keeps the records consistent, and never uses a queue that was freed. -/
theorem step_consistent {op : Op Q} (h : Consistent s) (hclean : LeavesNone s op) :
    ∃ s', step s op = some s' ∧ Consistent s' := by
  cases op with
  | create queue =>
    rw [step]
    split
    · exact ⟨s, rfl, h⟩
    · rename_i hnew
      exact ⟨_, rfl, createMsgQueue_consistent h hnew⟩
  | attach queueFrom queueTo =>
    rw [step]
    split
    · rename_i hlive
      exact attachThreadInput_consistent h hlive.1 hlive.2.1
    · exact ⟨s, rfl, h⟩
  | detach queueFrom queueTo =>
    cases queueTo with
    | none =>
      rw [step]
      split
      · rename_i hlive
        exact detachThreadInput_consistent h hlive (hclean hlive)
      · exact ⟨s, rfl, h⟩
    | some queueTo =>
      rw [step]
      split
      · rename_i hlive
        exact detachThreadInput_consistent h hlive.1 (hclean hlive.1)
      · exact ⟨s, rfl, h⟩
  | destroy queue =>
    rw [step]
    split
    · exact ⟨_, rfl, msgQueueDestroy_consistent queue h⟩
    · exact ⟨s, rfl, h⟩

theorem consistent_of_reaches (h : Reaches step LeavesNone NoQueues s) : Consistent s := by
  apply h.invariant (P := Consistent)
  · intro s hs
    refine ⟨fun input attach hmem => ?_, fun queue hqueue => ?_⟩
    · rw [hs.2 input] at hmem
      simp at hmem
    · rw [hs.1] at hqueue
      simp at hqueue
  intro s op s' hs hclean hstep
  obtain ⟨s'', heq, hs''⟩ := step_consistent hs hclean
  rw [hstep, Option.some.injEq] at heq
  exact heq ▸ hs''

/-- In runs that leave no records behind, every record joins two live queues of the thread input that
keeps it, chains of records stay inside one thread input, and no freed queue is used. -/
theorem attachments_consistent (h : Reaches step LeavesNone NoQueues s) :
    (∀ input, ∀ attach ∈ s.attachments input,
      attach.queueFrom ∈ s.queues ∧ attach.queueTo ∈ s.queues ∧
        s.input attach.queueFrom = input ∧ s.input attach.queueTo = input) ∧
    (∀ q q', Relation.EqvGen (Joined s) q q' → s.input q = s.input q') ∧
    ∀ op, LeavesNone s op → ∃ s', step s op = some s' := by
  have hs := consistent_of_reaches h
  refine ⟨hs.belongs, fun q q' hchain => hs.input_eq hchain, fun op hclean => ?_⟩
  obtain ⟨s', heq, _⟩ := step_consistent hs hclean
  exact ⟨s', heq⟩

/-- Three queues, of which the first one is attached to both others, detached from one of them and
destroyed. -/
def detachOne : List (Op Nat) :=
  [.create 0, .create 1, .create 2, .attach 0 1, .attach 0 2, .detach 0 (some 1), .destroy 0]

def changeDesktop : List (Op Nat) :=
  [.create 0, .create 1, .attach 0 1, .detach 0 none, .destroy 0]

def noQueues : Session Nat := ⟨[], fun _ => 0, fun _ => [], 0⟩

theorem attachment_left_behind :
    (∃ s, run step noQueues detachOne = some s ∧ 0 ∉ s.queues ∧ ⟨0, 2⟩ ∈ s.attachments 2) ∧
    (∃ s, run step noQueues changeDesktop = some s ∧ 0 ∉ s.queues ∧ ⟨0, 1⟩ ∈ s.attachments 1) ∧
    run step noQueues (detachOne ++ [.attach 2 1]) = none := by
  refine ⟨⟨_, rfl, ?_, ?_⟩, ⟨_, rfl, ?_, ?_⟩, rfl⟩ <;> decide

def attached : Session Nat :=
  (run step noQueues [.create 0, .create 1, .attach 0 1]).getD noQueues

theorem attachments_consistent_attached :
    attached.attachments 1 = [⟨0, 1⟩] ∧ attached.input 0 = attached.input 1 := by
  have hreach : Reaches step LeavesNone NoQueues attached := by
    apply Reaches.run (s := noQueues) (.start ⟨rfl, fun _ => rfl⟩)
      [.create 0, .create 1, .attach 0 1]
    · exact ⟨trivial, trivial, trivial, trivial⟩
    · rfl
  have hmem : ⟨0, 1⟩ ∈ attached.attachments 1 := by decide
  exact ⟨by decide, (attachments_consistent hreach).2.1 0 1 (.rel _ _ ⟨1, hmem⟩)⟩

end WineForge.ThreadInput
