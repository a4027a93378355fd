import WineForge.Library.Transition
import WineForge.WfuSync.LockState

/-!
# The count of a semaphore

Any number of client threads and the server release and consume one semaphore, one access to its
shared state after the other. Every operation leaves an event in a log, written at the access that
decides it.
-/

namespace WineForge.WfuSync

open Bool Function Library List

/-- `consume` is the loop of `consume_semaphore_state` and of `wfusync_semaphore_satisfied`. The
checks and the decrement of `try_wait_all_local` are `waitAll`, and those of `wfusync_try_wait_all`
are `tryWaitAll`. The callbacks that only read are `query`. -/
inductive SemaphoreOp
  | release (count : UInt32) (generation : ℕ)
  | consume
  | waitAll (generation : ℕ)
  | tryWaitAll (generation : ℕ)
  | query
  deriving DecidableEq

def SemaphoreOp.isRequest : SemaphoreOp → Bool
  | .release _ _ | .consume | .query => true
  | .waitAll _ | .tryWaitAll _ => false

abbrev SemaphoreRequest := { op : SemaphoreOp // op.isRequest = true }

/-- Where an operation is between its lock and its unlock. -/
inductive SemaphorePc
  | check
  | load
  | store (old : Int)
  | finished
  deriving DecidableEq

/-- What an operation has done, and the state before and after the access that decided it. -/
structure SemaphoreEvent where
  op : SemaphoreOp
  status : NtStatus
  previous : Int
  before : WfusyncState
  after : WfusyncState
  deriving DecidableEq

/-- The limit test of both `wfusync_release_semaphore` on the loaded count. -/
def exceedsLimit (old : Int) (count : UInt32) (high : Int) : Bool :=
  let sum := (toUnsigned old + count.toNat) % 4294967296
  sum < toUnsigned old || toUnsigned high < sum

def SemaphoreOp.access (op : SemaphoreOp) (o : WfusyncState) :
    SemaphorePc → WfusyncState × SemaphorePc × Option SemaphoreEvent
  | .check =>
    match op with
    | .release _ generation =>
      if o.generation ≠ generation ∨ wfusyncHasServerWaiters o then (o, .finished, none)
      else (o, .load, none)
    | .waitAll generation | .tryWaitAll generation =>
      if o.generation ≠ generation ∨ o.low ≤ 0 then (o, .finished, none) else (o, .load, none)
    | .consume | .query => (o, .load, none)
  | .load =>
    match op with
    | .release count _ =>
      if exceedsLimit o.low count o.high then
        (o, .finished, some ⟨op, .semaphoreLimitExceeded, 0, o, o⟩)
      else (o, .store o.low, none)
    | .consume | .tryWaitAll _ =>
      if o.low ≤ 0 then (o, .finished, some ⟨op, .timeout, 0, o, o⟩) else (o, .store o.low, none)
    | .waitAll _ => (o, .store o.low, none)
    | .query => (o, .finished, none)
  | .store old =>
    match op with
    | .release count _ =>
      if o.low = old then
        let o' := { o with low := toSigned (old + count.toNat) }
        (o', .finished, some ⟨op, .wait0, old, o, o'⟩)
      else (o, .load, none)
    | .consume =>
      if o.low = old then
        let o' := { o with low := old - 1 }
        (o', .finished, some ⟨op, .wait0, old, o, o'⟩)
      else (o, .load, none)
    -- `state->low--` is not atomic
    | .waitAll _ | .tryWaitAll _ =>
      let o' := { o with low := old - 1 }
      (o', .finished, some ⟨op, .wait0, old, o, o'⟩)
    | .query => (o, .finished, none)
  | .finished => (o, .finished, none)

inductive SemaphoreClient
  | outside
  | locking (op : SemaphoreOp) (pc : LockPc)
  | inside (op : SemaphoreOp) (pc : SemaphorePc)

/-- `wfusync_try_wait_all` sets the `SERVER_WAITERS` bit of an unlocked state instead of locking it. -/
inductive SemaphoreServer
  | idle
  | locking (op : SemaphoreRequest) (pc : ServerLockPc)
  | inside (op : SemaphoreOp) (pc : SemaphorePc)
  | guarding (generation : ℕ) (seen : TypeWord)
  | guarded (generation : ℕ) (pc : SemaphorePc)

structure SemaphoreState (ι : Type*) where
  obj : WfusyncState
  clients : ι → SemaphoreClient
  server : SemaphoreServer
  log : List SemaphoreEvent

inductive SemaphoreAct (ι : Type*)
  | call (t : ι) (op : SemaphoreOp)
  | client (t : ι)
  /-- A wait for all objects ends because of another object. -/
  | giveUp (t : ι)
  | request (op : SemaphoreRequest)
  | tryWaitAll (generation : ℕ)
  | server
  | serverGiveUp
  | setServerWaiters (flag : Bool)
  | setMultiWaiters (flag : Bool)
  | destroy (generation : ℕ)

def SemaphoreServer.isIdle : SemaphoreServer → Bool
  | .idle => true
  | _ => false

namespace SemaphoreState

variable {ι : Type*} [DecidableEq ι]

def record (s : SemaphoreState ι) (r : WfusyncState × SemaphorePc × Option SemaphoreEvent) :
    SemaphoreState ι :=
  { s with obj := r.1, log := r.2.2.toList ++ s.log }

def clientAccess (s : SemaphoreState ι) (t : ι) : Option (SemaphoreState ι) :=
  match s.clients t with
  | .outside => none
  | .locking op pc =>
    match wfusyncLockState .semaphore s.obj pc with
    | .spin pc => some { s with clients := update s.clients t (.locking op pc) }
    | .granted o =>
      some { s with obj := o, clients := update s.clients t (.inside op .check) }
    | .refused => some { s with clients := update s.clients t .outside }
  | .inside _ .finished =>
    some { s with obj := s.obj.unlock, clients := update s.clients t .outside }
  | .inside op pc =>
    let r := op.access s.obj pc
    some { s.record r with clients := update s.clients t (.inside op r.2.1) }

def serverAccess (s : SemaphoreState ι) : Option (SemaphoreState ι) :=
  match s.server with
  | .idle => none
  | .locking op pc =>
    match lockState .semaphore s.obj pc with
    | .spin pc => some { s with server := .locking op pc }
    -- the server looks at neither the generation nor its own waiters
    | .granted o => some { s with obj := o, server := .inside op.val .load }
    | .refused => some { s with server := .idle }
  | .inside _ .finished => some { s with obj := s.obj.unlock, server := .idle }
  | .inside op pc =>
    let r := op.access s.obj pc
    some { s.record r with server := .inside op r.2.1 }
  | .guarding generation seen =>
    if s.obj.word = seen ∧ seen.type = .semaphore ∧ seen.locked = false ∧ seen.serverWaiters = false ∧
        s.obj.generation = generation then
      some { s with
        obj := { s.obj with word := { s.obj.word with serverWaiters := true } }
        server := .guarded generation .check }
    else some { s with server := .idle }
  | .guarded _ .finished =>
    some { s with
      obj := { s.obj with word := { s.obj.word with serverWaiters := false } }
      server := .idle }
  | .guarded generation pc =>
    let r := (SemaphoreOp.tryWaitAll generation).access s.obj pc
    some { s.record r with server := .guarded generation r.2.1 }

end SemaphoreState

/-- Requests work on an object that exists, and the server destroys it between two requests. -/
def semaphoreStep {ι : Type*} [DecidableEq ι] (s : SemaphoreState ι) :
    SemaphoreAct ι → Option (SemaphoreState ι)
  | .call t op =>
    match s.clients t with
    | .outside => some { s with clients := update s.clients t (.locking op .load) }
    | _ => none
  | .client t => s.clientAccess t
  | .giveUp t =>
    match s.clients t with
    | .inside (.waitAll generation) .load =>
      some { s with
        clients := update s.clients t (.inside (.waitAll generation) .finished) }
    | _ => none
  | .request op =>
    if s.server.isIdle ∧ s.obj.word.type = .semaphore then
      some { s with server := .locking op .load }
    else none
  | .tryWaitAll generation =>
    if s.server.isIdle then some { s with server := .guarding generation s.obj.word } else none
  | .server => s.serverAccess
  | .serverGiveUp =>
    match s.server with
    | .guarded generation .check | .guarded generation .load =>
      some { s with server := .guarded generation .finished }
    | _ => none
  | .setServerWaiters flag =>
    if s.server.isIdle then
      some { s with obj := { s.obj with word := { s.obj.word with serverWaiters := flag } } }
    else none
  | .setMultiWaiters flag =>
    if s.server.isIdle then
      some { s with obj := { s.obj with word := { s.obj.word with multiWaiters := flag } } }
    else none
  | .destroy generation =>
    if s.server.isIdle then
      some { s with
        obj := { s.obj with generation := generation, word := ⟨.unknown, false, false, false⟩ } }
    else none

/-- `create_wfusync` for a semaphore with the counts that `NtCreateSemaphore` accepts. -/
def SemaphoreState.Created {ι : Type*} (initial max : Int) (s : SemaphoreState ι) : Prop :=
  (∃ generation, s.obj = ⟨initial, max, generation, ⟨.semaphore, false, false, false⟩⟩) ∧
    (∀ t, s.clients t = .outside) ∧ s.server = .idle ∧ s.log = []

def SemaphoreEvent.released (e : SemaphoreEvent) : Int :=
  match e.op with
  | .release count _ => if e.status = .wait0 then count.toNat else 0
  | _ => 0

def SemaphoreEvent.consumed (e : SemaphoreEvent) : Int :=
  match e.op with
  | .consume | .waitAll _ | .tryWaitAll _ => if e.status = .wait0 then 1 else 0
  | _ => 0

/-- A release fails exactly above the maximum and then changes nothing; otherwise it adds its count
and reports the count before. A consume takes a unit exactly when there is one. -/
def SemaphoreEvent.Right (max : Int) (e : SemaphoreEvent) : Prop :=
  match e.op with
  | .release count _ =>
    (e.status = .semaphoreLimitExceeded ↔ max < e.before.low + count.toNat) ∧
      (e.status = .semaphoreLimitExceeded → e.after = e.before) ∧
      (e.status ≠ .semaphoreLimitExceeded → e.status = .wait0 ∧ e.previous = e.before.low ∧
        e.after = { e.before with low := e.before.low + count.toNat })
  | _ =>
    (e.status = .wait0 ↔ 0 < e.before.low) ∧
      e.after = { e.before with low := e.before.low - e.consumed }

def SemaphorePc.Ok (op : SemaphoreOp) (o : WfusyncState) : SemaphorePc → Prop
  | .load =>
    match op with
    | .waitAll _ => 0 < o.low
    | _ => True
  | .store old =>
    match op with
    | .release count _ => exceedsLimit old count o.high = false
    | .consume => 0 < old
    | .waitAll _ | .tryWaitAll _ => old = o.low ∧ 0 < old
    | .query => True
  | _ => True

/-- The count is in its range. -/
structure WfusyncState.InRange (max : Int) (o : WfusyncState) : Prop where
  high : o.high = max
  nonneg : 0 ≤ o.low
  le : o.low ≤ max

lemma exceedsLimit_iff {old max : Int} (count : UInt32) (hold : 0 ≤ old) (hle : old ≤ max)
    (hmax : max ≤ intMax) : exceedsLimit old count max = true ↔ max < old + count.toNat := by
  have hcount := count.toNat_lt
  have hold' : toUnsigned old = old.toNat := toUnsigned_of_range hold (Int.le_trans hle hmax)
  have hmax' : toUnsigned max = max.toNat := toUnsigned_of_range (Int.le_trans hold hle) hmax
  rw [intMax] at hmax
  simp only [exceedsLimit, hold', hmax', or_eq_true, decide_eq_true_eq]
  omega

/-- What an access does to the state and the log. -/
structure AccessSpec (max : Int) (op : SemaphoreOp) (o : WfusyncState)
    (r : WfusyncState × SemaphorePc × Option SemaphoreEvent) : Prop where
  inRange : r.1.InRange max
  word : r.1.word = o.word
  ok : r.2.1.Ok op r.1
  balance : r.1.low = o.low + (r.2.2.toList.map SemaphoreEvent.released).sum -
    (r.2.2.toList.map SemaphoreEvent.consumed).sum
  right : ∀ e ∈ r.2.2.toList, e.Right max

section Access

variable {max : Int} {op : SemaphoreOp} {o : WfusyncState} {pc : SemaphorePc} {generation : ℕ}

lemma AccessSpec.quiet (h : o.InRange max) (hok : pc.Ok op o) :
    AccessSpec max op o (o, pc, none) where
  inRange := h
  word := rfl
  ok := hok
  balance := by simp
  right := by simp

lemma AccessSpec.event {e : SemaphoreEvent} {o' : WfusyncState} (h : o'.InRange max)
    (hword : o'.word = o.word) (hbalance : o'.low = o.low + e.released - e.consumed)
    (hright : e.Right max) : AccessSpec max op o (o', .finished, some e) where
  inRange := h
  word := hword
  ok := trivial
  balance := by simpa using hbalance
  right := by simpa using hright

section

variable (h : o.InRange max)

include h

lemma access_release {count : UInt32}
    (hmax : max ≤ intMax) (hok : pc.Ok (.release count generation) o) :
    AccessSpec max (.release count generation) o
      ((SemaphoreOp.release count generation).access o pc) := by
  have hlimit := exceedsLimit_iff count h.nonneg h.le hmax
  cases pc with
  | check =>
    simp only [SemaphoreOp.access]
    split
    · exact .quiet h trivial
    · exact .quiet h trivial
  | load =>
    simp only [SemaphoreOp.access]
    split
    · rename_i hexceeds
      rw [h.high] at hexceeds
      refine .event h rfl (by simp [SemaphoreEvent.released, SemaphoreEvent.consumed]) ?_
      exact ⟨iff_of_true rfl (hlimit.mp hexceeds), fun _ => rfl, fun hne => absurd rfl hne⟩
    · rename_i hfits
      exact .quiet h (eq_false_iff.mpr hfits)
  | store old =>
    simp only [SemaphoreOp.access]
    split
    · rename_i hsame
      have hfits : ¬ max < o.low + count.toNat := by
        rw [← hlimit, hsame, ← h.high, not_eq_true]
        exact hok
      have hnonneg := h.nonneg
      have hsigned : toSigned (old + count.toNat) = o.low + count.toNat := by
        rw [← hsame]
        exact toSigned_of_range (by omega) (by omega)
      rw [hsigned]
      refine .event ⟨h.high, by dsimp only; omega, by dsimp only; omega⟩ rfl
        (by simp [SemaphoreEvent.released, SemaphoreEvent.consumed]) ?_
      exact ⟨iff_of_false nofun hfits, nofun, fun _ => ⟨rfl, hsame.symm, rfl⟩⟩
    · exact .quiet h trivial
  | finished => exact .quiet h trivial

lemma AccessSpec.take {old : Int} (hold : o.low = old) (hpos : 0 < old)
    (hop : op = .consume ∨ ∃ generation, op = .waitAll generation ∨ op = .tryWaitAll generation) :
    AccessSpec max op o ({ o with low := old - 1 }, .finished,
      some ⟨op, .wait0, old, o, { o with low := old - 1 }⟩) := by
  have hle := h.le
  have hrange : WfusyncState.InRange max { o with low := old - 1 } :=
    ⟨h.high, by dsimp only; omega, by dsimp only; omega⟩
  have hpos' : 0 < o.low := hold ▸ hpos
  obtain rfl | ⟨generation, rfl | rfl⟩ := hop
  all_goals
    refine .event hrange rfl (by simp [SemaphoreEvent.released, SemaphoreEvent.consumed, hold]) ?_
    refine ⟨iff_of_true rfl hpos', ?_⟩
    simp [SemaphoreEvent.consumed, hold]

lemma AccessSpec.empty (hempty : o.low ≤ 0)
    (hop : op = .consume ∨ ∃ generation, op = .waitAll generation ∨ op = .tryWaitAll generation) :
    AccessSpec max op o (o, .finished, some ⟨op, .timeout, 0, o, o⟩) := by
  obtain rfl | ⟨generation, rfl | rfl⟩ := hop
  all_goals
    refine .event h rfl (by simp [SemaphoreEvent.released, SemaphoreEvent.consumed]) ?_
    refine ⟨iff_of_false nofun (by dsimp only; omega), ?_⟩
    simp [SemaphoreEvent.consumed]

lemma access_consume (hok : pc.Ok .consume o) :
    AccessSpec max .consume o (SemaphoreOp.consume.access o pc) := by
  cases pc with
  | check | finished => exact .quiet h trivial
  | load =>
    simp only [SemaphoreOp.access]
    split
    · rename_i hempty
      exact .empty h hempty (.inl rfl)
    · rename_i hsome
      exact .quiet h (Int.not_le.mp hsome)
  | store old =>
    simp only [SemaphoreOp.access]
    split
    · rename_i hsame
      exact .take h hsame hok (.inl rfl)
    · exact .quiet h trivial

lemma access_waitAll (hok : pc.Ok (.waitAll generation) o) :
    AccessSpec max (.waitAll generation) o ((SemaphoreOp.waitAll generation).access o pc) := by
  cases pc with
  | check =>
    simp only [SemaphoreOp.access]
    split
    · exact .quiet h trivial
    · rename_i hready
      exact .quiet h (Int.not_le.mp (not_or.mp hready).2)
  | load => exact .quiet h ⟨rfl, hok⟩
  | store old => exact .take h hok.1.symm hok.2 (.inr ⟨generation, .inl rfl⟩)
  | finished => exact .quiet h trivial

lemma access_tryWaitAll (hok : pc.Ok (.tryWaitAll generation) o) :
    AccessSpec max (.tryWaitAll generation) o ((SemaphoreOp.tryWaitAll generation).access o pc) := by
  cases pc with
  | check =>
    simp only [SemaphoreOp.access]
    split
    · exact .quiet h trivial
    · exact .quiet h trivial
  | load =>
    simp only [SemaphoreOp.access]
    split
    · rename_i hempty
      exact .empty h hempty (.inr ⟨generation, .inr rfl⟩)
    · rename_i hsome
      exact .quiet h ⟨rfl, Int.not_le.mp hsome⟩
  | store old => exact .take h hok.1.symm hok.2 (.inr ⟨generation, .inr rfl⟩)
  | finished => exact .quiet h trivial

lemma access_spec (hmax : max ≤ intMax) (hok : pc.Ok op o) :
    AccessSpec max op o (op.access o pc) := by
  cases op with
  | release count generation => exact access_release h hmax hok
  | consume => exact access_consume h hok
  | waitAll generation => exact access_waitAll h hok
  | tryWaitAll generation => exact access_tryWaitAll h hok
  | query => cases pc <;> exact .quiet h trivial

end

end Access

section Machine

variable {ι : Type*} {s s' : SemaphoreState ι} {initial max : Int}

def SemaphoreClient.position : SemaphoreClient → Option (SemaphoreOp × SemaphorePc)
  | .inside op pc => some (op, pc)
  | _ => none

def SemaphoreServer.position : SemaphoreServer → Option (SemaphoreOp × SemaphorePc)
  | .inside op pc => some (op, pc)
  | .guarded generation pc => some (.tryWaitAll generation, pc)
  | _ => none

def SemaphoreState.position (s : SemaphoreState ι) : Option ι → Option (SemaphoreOp × SemaphorePc)
  | some t => (s.clients t).position
  | none => s.server.position

/-- The count is what the log says, and whoever works on it is alone. -/
structure SemaphoreInv (initial max : Int) (s : SemaphoreState ι) : Prop where
  inRange : s.obj.InRange max
  balance : s.obj.low = initial + (s.log.map SemaphoreEvent.released).sum -
    (s.log.map SemaphoreEvent.consumed).sum
  right : ∀ e ∈ s.log, e.Right max
  alone : ∀ p q, (s.position p).isSome → (s.position q).isSome → p = q
  locked : ∀ t, (s.position (some t)).isSome →
    s.obj.word.type = .unknown ∨ s.obj.word.locked = true
  owned : (s.position none).isSome → s.obj.word.locked = true ∨ s.obj.word.serverWaiters = true
  ok : ∀ p op pc, s.position p = some (op, pc) → pc.Ok op s.obj

/-- What a step leaves as it is. -/
structure SameCount (s s' : SemaphoreState ι) : Prop where
  low : s'.obj.low = s.obj.low
  high : s'.obj.high = s.obj.high
  log : s'.log = s.log

lemma SemaphoreRequest.load_ok (op : SemaphoreRequest) (o : WfusyncState) :
    SemaphorePc.load.Ok op.val o := by
  obtain ⟨op, hop⟩ := op
  cases op with
  | waitAll generation => exact absurd hop false_ne_true
  | _ => trivial

lemma SemaphorePc.Ok.congr {op : SemaphoreOp} {pc : SemaphorePc} {o o' : WfusyncState}
    (h : pc.Ok op o) (hlow : o'.low = o.low) (hhigh : o'.high = o.high) : pc.Ok op o' := by
  cases pc with
  | check => trivial
  | finished => trivial
  | load =>
    cases op with
    | waitAll generation => exact (congrArg (0 < ·) hlow).mpr h
    | _ => trivial
  | store old =>
    cases op with
    | release count generation => exact (congrArg (exceedsLimit old count) hhigh).trans h
    | consume => exact h
    | waitAll generation | tryWaitAll generation => exact ⟨h.1.trans hlow.symm, h.2⟩
    | query => trivial

lemma WfusyncState.InRange.congr {o o' : WfusyncState} (h : o.InRange max) (hlow : o'.low = o.low)
    (hhigh : o'.high = o.high) : o'.InRange max :=
  ⟨hhigh.trans h.high, hlow ▸ h.nonneg, hlow ▸ h.le⟩

lemma SemaphoreInv.frame (h : SemaphoreInv initial max s) (hsame : SameCount s s')
    (hposition : ∀ p, (s'.position p).isSome → s'.position p = s.position p)
    (hlocked : ∀ t, (s'.position (some t)).isSome →
      s'.obj.word.type = .unknown ∨ s'.obj.word.locked = true)
    (howned : (s'.position none).isSome →
      s'.obj.word.locked = true ∨ s'.obj.word.serverWaiters = true) :
    SemaphoreInv initial max s' where
  inRange := h.inRange.congr hsame.low hsame.high
  balance := by rw [hsame.low, hsame.log, h.balance]
  right := hsame.log ▸ h.right
  alone p q hp hq := h.alone p q (hposition p hp ▸ hp) (hposition q hq ▸ hq)
  locked := hlocked
  owned := howned
  ok p op pc hp := by
    have hsome : (s'.position p).isSome = true := by rw [hp]; rfl
    exact (h.ok p op pc (hposition p hsome ▸ hp)).congr hsame.low hsame.high

lemma SemaphoreInv.enter (h : SemaphoreInv initial max s) (hsame : SameCount s s') (p : Option ι)
    (hempty : ∀ q, s.position q = none) (hothers : ∀ q ≠ p, s'.position q = s.position q)
    (hok : ∀ op pc, s'.position p = some (op, pc) → pc.Ok op s'.obj)
    (hlocked : ∀ t, p = some t → s'.obj.word.locked = true)
    (howned : p = none → s'.obj.word.locked = true ∨ s'.obj.word.serverWaiters = true) :
    SemaphoreInv initial max s' := by
  have honly : ∀ q, (s'.position q).isSome → q = p := by
    intro q hq
    by_contra hne
    rw [hothers q hne, hempty q] at hq
    exact absurd hq (by decide)
  refine ⟨h.inRange.congr hsame.low hsame.high, by rw [hsame.low, hsame.log, h.balance],
    hsame.log ▸ h.right, fun q q' hq hq' => (honly q hq).trans (honly q' hq').symm,
    fun t ht => .inr (hlocked t (honly _ ht).symm), fun hn => howned (honly _ hn).symm,
    fun q op pc hq => ?_⟩
  have hqp : q = p := honly q (by rw [hq]; rfl)
  rw [hqp] at hq
  exact hok op pc hq

variable {p : Option ι} {t : ι} {c : SemaphoreClient}

section

variable (h : SemaphoreInv initial max s)

include h

lemma SemaphoreInv.access (hmax : max ≤ intMax)
    {op : SemaphoreOp} {pc : SemaphorePc} (hp : s.position p = some (op, pc))
    (hobj : s'.obj = (op.access s.obj pc).1)
    (hlog : s'.log = (op.access s.obj pc).2.2.toList ++ s.log)
    (hp' : s'.position p = some (op, (op.access s.obj pc).2.1))
    (hothers : ∀ q ≠ p, s'.position q = s.position q) : SemaphoreInv initial max s' := by
  have hspec := access_spec h.inRange hmax (h.ok p op pc hp)
  have hsome : (s.position p).isSome = true := by rw [hp]; rfl
  have hsame : ∀ q, (s'.position q).isSome = (s.position q).isSome := by
    intro q
    by_cases hq : q = p
    · rw [hq, hp', hp]
      rfl
    · rw [hothers q hq]
  have hbalance := h.balance
  refine ⟨hobj ▸ hspec.inRange, ?_, fun e he => ?_, fun q q' hq hq' => ?_, fun t ht => ?_,
    fun hn => ?_, fun q op' pc' hq => ?_⟩
  · rw [hobj, hspec.balance, hlog, map_append, map_append, sum_append, sum_append]
    omega
  · rw [hlog, mem_append] at he
    exact he.elim (hspec.right e) (h.right e)
  · exact h.alone q q' (hsame q ▸ hq) (hsame q' ▸ hq')
  · rw [hobj, hspec.word]
    exact h.locked t (hsame _ ▸ ht)
  · rw [hobj, hspec.word]
    exact h.owned (hsame _ ▸ hn)
  have hqp : q = p := h.alone q p (by rw [← hsame, hq]; rfl) hsome
  rw [hqp, hp', Option.some.injEq, Prod.mk.injEq] at hq
  rw [hobj, ← hq.1, ← hq.2]
  exact hspec.ok

lemma SemaphoreInv.goto (hobj : s'.obj = s.obj) (hlog : s'.log = s.log) (hp : (s.position p).isSome)
    (hp' : ∃ op, s'.position p = some (op, .finished))
    (hothers : ∀ q ≠ p, s'.position q = s.position q) : SemaphoreInv initial max s' := by
  obtain ⟨op, hp'⟩ := hp'
  have hsome : ∀ q, (s'.position q).isSome → (s.position q).isSome := by
    intro q hq
    by_cases hqp : q = p
    · rwa [hqp]
    · rwa [← hothers q hqp]
  refine ⟨hobj ▸ h.inRange, by rw [hobj, hlog, h.balance], hlog ▸ h.right,
    fun q q' hq hq' => h.alone q q' (hsome q hq) (hsome q' hq'),
    fun t ht => hobj ▸ h.locked t (hsome _ ht), fun hn => hobj ▸ h.owned (hsome _ hn),
    fun q op' pc' hq => ?_⟩
  have hqp : q = p := h.alone q p (hsome q (by rw [hq]; rfl)) hp
  rw [hqp, hp', Option.some.injEq, Prod.mk.injEq] at hq
  rw [← hq.2]
  trivial

lemma SemaphoreInv.leave (hsame : SameCount s s')
    (hp : (s.position p).isSome) (hp' : s'.position p = none)
    (hothers : ∀ q ≠ p, s'.position q = s.position q) : SemaphoreInv initial max s' := by
  have hempty : ∀ q, ¬ (s'.position q).isSome = true := by
    intro q hq
    by_cases hqp : q = p
    · rw [hqp, hp'] at hq
      exact absurd hq (by decide)
    · rw [hothers q hqp] at hq
      exact hqp (h.alone q p hq hp)
  exact h.frame hsame (fun q hq => absurd hq (hempty q)) (fun t ht => absurd ht (hempty _))
    fun hn => absurd hn (hempty _)

lemma SemaphoreInv.client_none
    (htype : s.obj.word.type = .semaphore) (hlocked : s.obj.word.locked = false) (t : ι) :
    s.position (some t) = none := by
  rw [← Option.not_isSome_iff_eq_none]
  intro ht
  obtain htype' | hlocked' := h.locked t ht
  · rw [htype] at htype'
    exact absurd htype' (by decide)
  · rw [hlocked] at hlocked'
    exact absurd hlocked' (by decide)

lemma SemaphoreInv.server_none
    (hlocked : s.obj.word.locked = false) (hwaiters : s.obj.word.serverWaiters = false) :
    s.position none = none := by
  rw [← Option.not_isSome_iff_eq_none]
  intro hn
  obtain hlocked' | hwaiters' := h.owned hn
  · rw [hlocked] at hlocked'
    exact absurd hlocked' (by decide)
  · rw [hwaiters] at hwaiters'
    exact absurd hwaiters' (by decide)

end

lemma position_server (hclients : s'.clients = s.clients) (q : Option ι) (hq : q ≠ none) :
    s'.position q = s.position q := by
  cases q with
  | none => exact absurd rfl hq
  | some t => simp only [SemaphoreState.position, hclients]

variable [DecidableEq ι]

lemma position_client
    (hclients : s'.clients = update s.clients t c) (hserver : s'.server = s.server)
    (q : Option ι) (hq : q ≠ some t) : s'.position q = s.position q := by
  cases q with
  | none => simp only [SemaphoreState.position, hserver]
  | some u =>
    have hne : u ≠ t := fun heq => hq (congrArg some heq)
    simp only [SemaphoreState.position, hclients, update_of_ne hne]

lemma position_self (hclients : s'.clients = update s.clients t c) :
    s'.position (some t) = c.position := by
  simp only [SemaphoreState.position, hclients, update_self]

lemma SemaphoreInv.clientMoves (h : SemaphoreInv initial max s)
    (hobj : s'.obj = s.obj) (hlog : s'.log = s.log)
    (hclients : s'.clients = update s.clients t c) (hserver : s'.server = s.server)
    (hc : ∀ op pc, c ≠ .inside op pc) : SemaphoreInv initial max s' := by
  have hnone : s'.position (some t) = none := by
    rw [position_self hclients]
    cases c with
    | inside op pc => exact absurd rfl (hc op pc)
    | outside => rfl
    | locking op pc => rfl
  have hposition : ∀ p, (s'.position p).isSome → s'.position p = s.position p := by
    intro p hp
    refine position_client hclients hserver p fun heq => ?_
    rw [heq, hnone] at hp
    exact absurd hp (by decide)
  exact h.frame ⟨by rw [hobj], by rw [hobj], hlog⟩ hposition
    (fun t' ht' => hobj ▸ h.locked t' (hposition _ ht' ▸ ht'))
    fun hn => hobj ▸ h.owned (hposition _ hn ▸ hn)

lemma SemaphoreInv.client (h : SemaphoreInv initial max s) (hmax : max ≤ intMax)
    (hstep : s.clientAccess t = some s') : SemaphoreInv initial max s' := by
  unfold SemaphoreState.clientAccess at hstep
  split at hstep
  · simp at hstep
  · split at hstep
    · cases hstep
      exact h.clientMoves rfl rfl rfl rfl nofun
    · rename_i o hgranted
      obtain ⟨rfl, htype, hlocked, hwaiters⟩ := wfusyncLockState_granted hgranted
      cases hstep
      have hempty : ∀ q, s.position q = none := by
        intro q
        cases q with
        | none => exact h.server_none hlocked hwaiters
        | some u => exact h.client_none htype hlocked u
      refine h.enter ⟨rfl, rfl, rfl⟩ (some t) hempty (position_client rfl rfl) (fun op' pc' hp => ?_)
        (fun _ _ => rfl) nofun
      rw [position_self rfl, SemaphoreClient.position, Option.some.injEq, Prod.mk.injEq] at hp
      rw [← hp.2]
      trivial
    · cases hstep
      exact h.clientMoves rfl rfl rfl rfl nofun
  · rename_i op hc
    cases hstep
    have hp : (s.position (some t)).isSome = true := by
      rw [SemaphoreState.position, hc]
      rfl
    exact h.leave ⟨rfl, rfl, rfl⟩ hp (position_self (c := .outside) rfl) (position_client rfl rfl)
  · rename_i op pc _ hc
    cases hstep
    have hp : s.position (some t) = some (op, pc) := by
      rw [SemaphoreState.position, hc]
      rfl
    exact h.access hmax hp rfl rfl (position_self (c := .inside op _) rfl) (position_client rfl rfl)

omit [DecidableEq ι] in
lemma SemaphoreInv.serverMoves (h : SemaphoreInv initial max s) (hobj : s'.obj = s.obj)
    (hlog : s'.log = s.log) (hclients : s'.clients = s.clients) (hnone : s'.position none = none) :
    SemaphoreInv initial max s' := by
  have hposition : ∀ p, (s'.position p).isSome → s'.position p = s.position p := by
    intro p hp
    refine position_server hclients p fun heq => ?_
    rw [heq, hnone] at hp
    exact absurd hp (by decide)
  exact h.frame ⟨by rw [hobj], by rw [hobj], hlog⟩ hposition
    (fun t' ht' => hobj ▸ h.locked t' (hposition _ ht' ▸ ht'))
    fun hn => hobj ▸ h.owned (hposition _ hn ▸ hn)

omit [DecidableEq ι] in
lemma SemaphoreInv.server (h : SemaphoreInv initial max s) (hmax : max ≤ intMax)
    (hstep : s.serverAccess = some s') : SemaphoreInv initial max s' := by
  have hserver : s.position none = s.server.position := rfl
  unfold SemaphoreState.serverAccess at hstep
  split at hstep
  · simp at hstep
  · rename_i op pc hc
    rw [hc] at hserver
    split at hstep
    · cases hstep
      exact h.serverMoves rfl rfl rfl rfl
    · rename_i o hgranted
      obtain ⟨rfl, htype, hlocked⟩ := lockState_granted hgranted
      cases hstep
      have hempty : ∀ q, s.position q = none := by
        intro q
        cases q with
        | none => exact hserver
        | some u => exact h.client_none htype hlocked u
      refine h.enter ⟨rfl, rfl, rfl⟩ none hempty (position_server rfl) (fun op' pc' hp => ?_)
        nofun (fun _ => .inl rfl)
      cases hp
      exact SemaphoreRequest.load_ok op _
    · cases hstep
      exact h.serverMoves rfl rfl rfl rfl
  · rename_i op hc
    rw [hc] at hserver
    cases hstep
    have hp : (s.position none).isSome = true := by
      rw [hserver]
      rfl
    exact h.leave ⟨rfl, rfl, rfl⟩ hp rfl (position_server rfl)
  · rename_i op pc _ hc
    rw [hc] at hserver
    cases hstep
    exact h.access hmax hserver rfl rfl rfl (position_server rfl)
  · rename_i generation seen hc
    rw [hc] at hserver
    split at hstep
    · rename_i hfree
      obtain ⟨hword, htype, hlocked, _, _⟩ := hfree
      cases hstep
      have hempty : ∀ q, s.position q = none := by
        intro q
        cases q with
        | none => exact hserver
        | some u => exact h.client_none (hword ▸ htype) (hword ▸ hlocked) u
      refine h.enter ⟨rfl, rfl, rfl⟩ none hempty (position_server rfl) (fun op' pc' hp => ?_)
        nofun (fun _ => .inr rfl)
      cases hp
      trivial
    · cases hstep
      exact h.serverMoves rfl rfl rfl rfl
  · rename_i generation hc
    rw [hc] at hserver
    cases hstep
    have hp : (s.position none).isSome = true := by
      rw [hserver]
      rfl
    exact h.leave ⟨rfl, rfl, rfl⟩ hp rfl (position_server rfl)
  · rename_i generation pc _ hc
    rw [hc] at hserver
    cases hstep
    exact h.access hmax hserver rfl rfl rfl (position_server rfl)

omit [DecidableEq ι] in
lemma SemaphoreInv.flags (h : SemaphoreInv initial max s) {word : TypeWord} {generation : ℕ}
    (hserver : s.server.isIdle = true)
    (hlocked : word.type = .unknown ∨
      word.type = s.obj.word.type ∧ word.locked = s.obj.word.locked) :
    SemaphoreInv initial max
      { s with obj := { s.obj with generation := generation, word := word } } := by
  have hnone : s.position none = none := by
    cases hc : s.server with
    | idle => simp only [SemaphoreState.position, hc, SemaphoreServer.position]
    | _ =>
      rw [hc] at hserver
      exact absurd hserver false_ne_true
  refine h.frame ⟨rfl, rfl, rfl⟩ (fun p _ => by cases p <;> rfl) (fun t ht => ?_) fun hn => ?_
  · obtain hunknown | ⟨htype, hsame⟩ := hlocked
    · exact .inl hunknown
    · have ht := h.locked t ht
      rwa [← htype, ← hsame] at ht
  · have hn : (s.position none).isSome = true := hn
    rw [hnone] at hn
    exact absurd hn (by decide)

lemma SemaphoreInv.step (h : SemaphoreInv initial max s) (hmax : max ≤ intMax)
    {a : SemaphoreAct ι} (hstep : semaphoreStep s a = some s') : SemaphoreInv initial max s' := by
  cases a with
  | call t op =>
    simp only [semaphoreStep] at hstep
    split at hstep
    · cases hstep
      exact h.clientMoves rfl rfl rfl rfl nofun
    · simp at hstep
  | client t => exact h.client hmax hstep
  | giveUp t =>
    simp only [semaphoreStep] at hstep
    split at hstep
    · rename_i generation hc
      cases hstep
      have hp : (s.position (some t)).isSome = true := by
        rw [SemaphoreState.position, hc]
        rfl
      exact h.goto rfl rfl hp ⟨.waitAll generation, position_self (c := .inside _ _) rfl⟩
        (position_client rfl rfl)
    · simp at hstep
  | request op | tryWaitAll generation =>
    simp only [semaphoreStep] at hstep
    split at hstep
    · cases hstep
      exact h.serverMoves rfl rfl rfl rfl
    · simp at hstep
  | server => exact h.server hmax hstep
  | serverGiveUp =>
    simp only [semaphoreStep] at hstep
    split at hstep
    · rename_i generation hc
      cases hstep
      have hp : (s.position none).isSome = true := by
        rw [SemaphoreState.position, hc]
        rfl
      exact h.goto rfl rfl hp ⟨.tryWaitAll generation, rfl⟩ (position_server rfl)
    · rename_i generation hc
      cases hstep
      have hp : (s.position none).isSome = true := by
        rw [SemaphoreState.position, hc]
        rfl
      exact h.goto rfl rfl hp ⟨.tryWaitAll generation, rfl⟩ (position_server rfl)
    · simp at hstep
  | setServerWaiters flag | setMultiWaiters flag =>
    simp only [semaphoreStep] at hstep
    split at hstep
    · rename_i hidle
      cases hstep
      exact h.flags hidle (.inr ⟨rfl, rfl⟩)
    · simp at hstep
  | destroy generation =>
    simp only [semaphoreStep] at hstep
    split at hstep
    · rename_i hidle
      cases hstep
      exact h.flags hidle (.inl rfl)
    · simp at hstep

omit [DecidableEq ι] in
lemma SemaphoreInv.created (hinitial : 0 ≤ initial) (hle : initial ≤ max)
    (h : s.Created initial max) : SemaphoreInv initial max s := by
  obtain ⟨⟨generation, hobj⟩, hclients, hserver, hlog⟩ := h
  have hposition : ∀ p, s.position p = none := by
    intro p
    cases p with
    | none => rw [SemaphoreState.position, hserver]; rfl
    | some t => rw [SemaphoreState.position, hclients]; rfl
  have hempty : ∀ p, ¬ (s.position p).isSome = true := by
    intro p hp
    rw [hposition] at hp
    exact absurd hp (by decide)
  refine ⟨?_, ?_, ?_, fun p q hp => absurd hp (hempty p), fun t ht => absurd ht (hempty _),
    fun hn => absurd hn (hempty _), fun p op pc hp => ?_⟩
  · rw [hobj]
    exact ⟨rfl, hinitial, hle⟩
  · rw [hobj, hlog]
    simp
  · rw [hlog]
    simp
  · rw [hposition] at hp
    simp at hp

end Machine

def semaphoreCreated : SemaphoreState (Fin 2) :=
  ⟨⟨0, 2, 1, ⟨.semaphore, false, false, false⟩⟩, fun _ => .outside, .idle, []⟩

end WineForge.WfuSync
