import WineForge.Library.Transition
import WineForge.WfuSync.State

/-!
# Zero-timeout waits

One call of `wfusync_wait_event`, `wfusync_wait_semaphore` or `wfusync_wait_mutex` with a zero
timeout, one access to the shared state after the other. Between any two of them the other
clients and the server may change the state.
-/

namespace WineForge.WfuSync

open Library

/-- `WFUSYNC_KIND_*`, as cached for a handle. -/
inductive HandleKind
  | unknown
  | unsupported
  | of (kind : WaitKind)
  deriving DecidableEq, Repr

/-- The cache entry of a handle. `isLocal` is the flag of the waited kind, `valid` stands for a
valid entry of this handle with a mapped state, and `synchronize` for the access right. -/
structure CacheEntry where
  isLocal : Bool
  valid : Bool
  type : SyncType
  synchronize : Bool
  signalUnsafe : Bool
  deriving DecidableEq, Repr

/-- What a call finds before it looks at the shared state. -/
structure WaitCall where
  kind : WaitKind
  tid : Int
  enabled : Bool
  handleKind : HandleKind
  alertable : Bool
  entry : Option CacheEntry
  addressWait : Bool
  deriving DecidableEq, Repr

/-- `get_local_event_state_locked` and its two siblings. -/
def getLocalStateLocked (kind : WaitKind) (entry : Option CacheEntry) : NtStatus :=
  match entry with
  | none => .notImplemented
  | some e =>
    if !e.isLocal || !e.valid then .notImplemented
    else if e.type ≠ kind.type then .objectTypeMismatch
    else if !e.synchronize then .accessDenied
    else .wait0

/-- `wfusync_entry_signal_hotpath_enabled`, which the wait for a mutex does not ask. -/
def WaitCall.hotpathEnabled (c : WaitCall) : Bool :=
  decide (c.kind = .mutex) || !(c.entry.any CacheEntry.signalUnsafe)

/-- The checks of a call that do not read the shared state; `none` if it goes on. -/
def WaitCall.refusal (c : WaitCall) : Option NtStatus :=
  if !c.enabled then some .notImplemented
  else if c.handleKind ≠ .unknown ∧ c.handleKind ≠ .of c.kind then some .notImplemented
  else if c.alertable then some .notImplemented
  else if getLocalStateLocked c.kind c.entry ≠ .wait0 then
    some (getLocalStateLocked c.kind c.entry)
  else if !c.hotpathEnabled then some .notImplemented
  else none

def WaitCall.result (c : WaitCall) (r : NtStatus) : NtStatus :=
  match c.kind with
  | .event | .semaphore => if r = .wait0 then .wait0 else .timeout
  | .mutex => r

/-- The next access of the call. -/
inductive PollPc
  | enter
  | flags
  /-- The load, the compare-exchange and the second load of `wfusync_lock_state`. -/
  | load
  | cas (seen : TypeWord)
  | recheck
  | refused
  /-- `consume_event_state` and `consume_auto_event_state`. -/
  | eventLow
  | eventHigh
  | autoLow
  | autoHigh
  | autoExchange
  /-- `consume_semaphore_state`. -/
  | count
  | decrement (count : Int)
  /-- `consume_mutex_state_locked`. -/
  | owner
  | depth (owner : Int)
  | take (owner count : Int)
  | unlock (r : NtStatus)
  | done (status : NtStatus)
  deriving DecidableEq, Repr

def WaitKind.consume : WaitKind → PollPc
  | .event => .eventLow
  | .semaphore => .count
  | .mutex => .owner

def access (c : WaitCall) (o : WfusyncState) : PollPc → Option (WfusyncState × PollPc)
  | .enter =>
    match c.refusal with
    | some status => some (o, .done status)
    | none => some (o, .flags)
  | .flags =>
    if wfusyncHasServerWaiters o || !c.addressWait then some (o, .done .notImplemented)
    else some (o, .load)
  | .load =>
    if o.word.type ≠ c.kind.type ∨ o.word.locked ∨ o.word.serverWaiters then some (o, .recheck)
    else some (o, .cas o.word)
  | .cas seen =>
    if o.word = seen then some ({ o with word := { o.word with locked := true } }, c.kind.consume)
    else some (o, .recheck)
  | .recheck =>
    if o.word.type ≠ c.kind.type ∨ o.word.serverWaiters then some (o, .refused)
    else some (o, .load)
  | .refused => some (o, .done (c.result .notImplemented))
  | .eventLow => some (o, if o.low = 0 then .unlock .timeout else .eventHigh)
  | .eventHigh => some (o, if o.high ≠ 0 then .unlock .wait0 else .autoLow)
  | .autoLow => some (o, if o.low = 0 then .unlock .timeout else .autoHigh)
  | .autoHigh => some (o, if o.high ≠ 0 then .unlock .notImplemented else .autoExchange)
  | .autoExchange =>
    if o.low = 1 then some ({ o with low := 0 }, .unlock .wait0)
    else some (o, .unlock .timeout)
  | .count => some (o, if o.low ≤ 0 then .unlock .timeout else .decrement o.low)
  | .decrement count =>
    if o.low = count then some ({ o with low := count - 1 }, .unlock .wait0)
    else some (o, .count)
  | .owner => some (o, .depth o.low)
  | .depth owner => some (o, .take owner o.high)
  | .take owner count =>
    if owner = c.tid then
      if count = intMax then some (o, .unlock .notImplemented)
      else some ({ o with high := count + 1 }, .unlock .wait0)
    else if owner = 0 then some ({ o with low := c.tid, high := 1 }, .unlock .wait0)
    else if owner < 0 then
      some ({ o with low := c.tid, high := 1, generation := nextGeneration o.generation },
        .unlock .abandonedWait0)
    else some (o, .unlock .timeout)
  | .unlock r =>
    some ({ o with word := { o.word with locked := false } }, .done (c.result r))
  | .done _ => none

/-- The object cannot be acquired by the caller at this instant. A mutex must belong to a
thread that is alive, unless the mutex itself is gone. -/
def Unavailable (c : WaitCall) (live : Int → Bool) (o : WfusyncState) : Prop :=
  match c.kind with
  | .event => o.low = 0
  | .semaphore => o.low ≤ 0
  | .mutex => 0 < o.low ∧ o.low ≠ c.tid ∧ (o.word.type = .mutex → live o.low = true)

instance (c : WaitCall) (live : Int → Bool) (o : WfusyncState) :
    Decidable (Unavailable c live o) := by
  unfold Unavailable
  cases c.kind <;> infer_instance

/-- A call under way. `saw` records that the object was unavailable at some instant since the
call began, and `refused` that `wfusync_lock_state` returned `FALSE`. -/
structure Poll where
  obj : WfusyncState
  live : Int → Bool
  pc : PollPc
  saw : Bool
  refused : Bool

inductive PollAct
  | access
  | others (obj : WfusyncState) (live : Int → Bool)

/-- What the others may do to the state at any time: whether an event is manual-reset never
changes, and a thread that ends leaves no mutex behind that it owns. -/
def OthersMay (c : WaitCall) (high : Int) (live : Int → Bool) (o : WfusyncState) : Prop :=
  match c.kind with
  | .event => o.high = high
  | .semaphore => True
  | .mutex => o.word.type = .mutex → 0 < o.low → o.low ≠ c.tid → live o.low = true

instance (c : WaitCall) (high : Int) (live : Int → Bool) (o : WfusyncState) :
    Decidable (OthersMay c high live o) := by
  unfold OthersMay
  cases c.kind <;> infer_instance

def pollStep (c : WaitCall) (s : Poll) : PollAct → Option Poll
  | .access =>
    (access c s.obj s.pc).map fun r =>
      { s with
        obj := r.1
        pc := r.2
        saw := s.saw || decide (Unavailable c s.live r.1)
        refused := s.refused || decide (r.2 = .refused) }
  | .others obj live =>
    if OthersMay c s.obj.high live obj then
      some { s with obj := obj, live := live, saw := s.saw || decide (Unavailable c live obj) }
    else none

def Poll.Begun (c : WaitCall) (s : Poll) : Prop :=
  s.pc = .enter ∧ s.saw = decide (Unavailable c s.live s.obj) ∧ s.refused = false ∧
    OthersMay c s.obj.high s.live s.obj

def Poll.Honest (s : Poll) : Prop :=
  ∀ status, s.pc = .done status →
    (status = .timeout → s.saw = true) ∧ (s.refused = true → status = .notImplemented)

/-- The lock of an event or a semaphore is not refused, and an auto-reset event that is about
to be consumed holds 0 or 1 unless it was unsignaled before. -/
def Poll.Benign (c : WaitCall) (s : Poll) : PollAct → Prop
  | .access =>
    (s.pc = .refused → c.kind = .mutex) ∧
      (s.pc = .autoExchange → s.obj.low = 0 ∨ s.obj.low = 1 ∨ s.saw = true)
  | .others _ _ => True

variable {c : WaitCall}

lemma WaitCall.refusal_ne_timeout {status : NtStatus} (h : c.refusal = some status) :
    status ≠ .timeout := by
  have hlocal : getLocalStateLocked c.kind c.entry ≠ .timeout := by
    unfold getLocalStateLocked
    split
    · simp
    · split_ifs <;> simp
  unfold WaitCall.refusal at h
  split_ifs at h <;> simp only [Option.some.injEq] at h <;> rw [← h]
  all_goals first | exact hlocal | simp

lemma WaitCall.result_of_section {r : NtStatus}
    (h : c.kind ≠ .mutex → r = .wait0 ∨ r = .timeout) : c.result r = r := by
  unfold WaitCall.result
  cases hkind : c.kind with
  | mutex => rfl
  | event | semaphore =>
    rcases h (by simp [hkind]) with rfl | rfl
    · rfl
    · rfl

def PollKnows (c : WaitCall) (s : Poll) : PollPc → Prop
  | .enter | .flags | .load | .cas _ | .recheck => s.refused = false
  | .refused => True
  | .eventLow | .eventHigh => s.refused = false ∧ c.kind = .event
  | .autoLow | .autoHigh | .autoExchange =>
    s.refused = false ∧ c.kind = .event ∧ s.obj.high = 0
  | .count | .decrement _ => s.refused = false ∧ c.kind = .semaphore
  | .owner => s.refused = false ∧ c.kind = .mutex
  | .depth owner | .take owner _ =>
    s.refused = false ∧ c.kind = .mutex ∧ (0 < owner → owner ≠ c.tid → s.saw = true)
  | .unlock r =>
    s.refused = false ∧ (r = .timeout → s.saw = true) ∧
      (c.kind ≠ .mutex → r = .wait0 ∨ r = .timeout)
  | .done status =>
    (status = .timeout → s.saw = true) ∧ (s.refused = true → status = .notImplemented)

structure PollInv (c : WaitCall) (s : Poll) : Prop where
  others : OthersMay c s.obj.high s.live s.obj
  observed : Unavailable c s.live s.obj → s.saw = true
  knows : PollKnows c s s.pc

variable {s : Poll}

lemma Poll.Begun.inv (h : s.Begun c) : PollInv c s := by
  obtain ⟨hpc, hsaw, href, hothers⟩ := h
  refine ⟨hothers, fun hu => ?_, ?_⟩
  · rw [hsaw]
    simpa using hu
  · rw [hpc]
    exact href

lemma PollInv.others_step {obj : WfusyncState} {live : Int → Bool}
    (h : PollInv c s) (hmay : OthersMay c s.obj.high live obj) :
    PollInv c { s with
      obj := obj, live := live, saw := s.saw || decide (Unavailable c live obj) } := by
  have hhigh : c.kind = .event → obj.high = s.obj.high := by
    intro hk
    simpa [OthersMay, hk] using hmay
  refine ⟨?_, fun hu => by simp [hu], ?_⟩
  · unfold OthersMay at hmay ⊢
    split at hmay <;> simp_all
  · have hknows := h.knows
    cases hpc : s.pc <;> rw [hpc] at hknows <;> simp only [PollKnows] at hknows ⊢
    all_goals grind

lemma PollInv.load (h : PollInv c s) : (c.kind = .event → s.obj.low = 0 → s.saw = true) ∧
      (c.kind = .semaphore → s.obj.low ≤ 0 → s.saw = true) ∧
      (c.kind = .mutex → 0 < s.obj.low → s.obj.low ≠ c.tid → s.saw = true) := by
  have hobs := h.observed
  have hothers := h.others
  simp only [Unavailable, OthersMay] at hobs hothers
  refine ⟨fun hk hl => ?_, fun hk hl => ?_, fun hk hpos hne => ?_⟩
  · exact hobs (by simpa [hk] using hl)
  · exact hobs (by simpa [hk] using hl)
  · simp only [hk] at hobs hothers
    exact hobs ⟨hpos, hne, fun ht => hothers ht hpos hne⟩

lemma PollInv.access_others {o : WfusyncState} {pc : PollPc} (h : PollInv c s)
    (hacc : access c s.obj s.pc = some (o, pc)) : OthersMay c o.high s.live o := by
  have hothers := h.others
  have hknows := h.knows
  cases hpc : s.pc <;> rw [hpc] at hacc hknows <;> simp only [access] at hacc <;>
    simp only [PollKnows] at hknows <;> simp only [OthersMay] at hothers ⊢ <;> grind

/-- Each result of a load is remembered in the next control state, and every `STATUS_TIMEOUT`
goes back to a load that saw the object unavailable. -/
lemma PollInv.access_knows {o : WfusyncState} {pc : PollPc} {saw : Bool}
    (h : PollInv c s) (hgood : s.Benign c .access) (hsaw : s.saw = true → saw = true)
    (hacc : access c s.obj s.pc = some (o, pc)) :
    PollKnows c { s with
      obj := o, pc := pc, saw := saw, refused := s.refused || decide (pc = .refused) } pc := by
  obtain ⟨hevent, hsemaphore, hmutex⟩ := h.load
  obtain ⟨hrefused, hexchange⟩ := hgood
  have hknows := h.knows
  cases hpc : s.pc with
  | enter =>
    rw [hpc] at hacc hknows
    simp only [access] at hacc
    split at hacc
    · rename_i status hstatus
      cases hacc
      have hne : status ≠ .timeout := WaitCall.refusal_ne_timeout hstatus
      simp only [PollKnows] at hknows ⊢
      exact ⟨fun h => absurd h hne, fun h => by simp [hknows] at h⟩
    · cases hacc
      simpa [PollKnows] using hknows
  | refused =>
    rw [hpc] at hacc
    cases hacc
    have hkind : c.kind = .mutex := hrefused hpc
    simp [PollKnows, WaitCall.result, hkind]
  | autoExchange =>
    rw [hpc] at hacc hknows
    simp only [access] at hacc
    obtain ⟨href, hkind, -⟩ := hknows
    split at hacc
    · cases hacc
      simp [PollKnows, href]
    -- The exchange fails on a value other than 1, which is 0 in a benign step.
    rename_i hne
    cases hacc
    have hseen : s.saw = true := by
      rcases hexchange hpc with h0 | h1 | hs
      · exact hevent hkind h0
      · exact absurd h1 hne
      · exact hs
    simp [PollKnows, href, hsaw hseen]
  | unlock r =>
    rw [hpc] at hacc hknows
    cases hacc
    obtain ⟨href, htimeout, hresult⟩ := hknows
    rw [WaitCall.result_of_section hresult]
    exact ⟨fun hr => hsaw (htimeout hr), fun hr => by simp [href] at hr⟩
  | cas seen =>
    rw [hpc] at hacc hknows
    simp only [access] at hacc
    simp only [PollKnows] at hknows
    split at hacc
    · cases hacc
      cases hkind : c.kind <;> simp [WaitKind.consume, PollKnows, hknows, hkind]
    · cases hacc
      simp [PollKnows, hknows]
  | _ =>
    simp only [access] at hacc
    simp only [PollKnows] at hknows ⊢
    grind

/-- Every step of a benign call keeps the invariant. -/
theorem PollInv.step {s s' : Poll} {a : PollAct} (h : PollInv c s) (hgood : s.Benign c a)
    (hstep : pollStep c s a = some s') : PollInv c s' := by
  cases a with
  | access =>
    obtain ⟨⟨o, pc⟩, hacc, rfl⟩ := Option.map_eq_some_iff.mp hstep
    exact ⟨h.access_others hacc, fun hu => by simp [hu],
      h.access_knows hgood (fun hs => by simp [hs]) hacc⟩
  | others obj live =>
    simp only [pollStep, Option.ite_none_right_eq_some, Option.some.injEq] at hstep
    obtain ⟨hmay, rfl⟩ := hstep
    exact h.others_step hmay

def pollEvent : WaitCall :=
  { kind := .event, tid := 7, enabled := true, handleKind := .of .event, alertable := false
    entry := some ⟨true, true, .event, true, false⟩, addressWait := true }

def autoEvent (low : Int) (locked serverWaiters : Bool) : WfusyncState :=
  ⟨low, 0, 0, ⟨.event, locked, false, serverWaiters⟩⟩

end WineForge.WfuSync
