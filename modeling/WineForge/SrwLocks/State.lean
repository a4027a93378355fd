import WineForge.AddressWaits.Futexes

/-!
# Slim reader/writer locks

The word of an `RTL_SRWLOCK` and the operations on it, one atomic step at a time. The loop of a
compare and exchange is one step on the word that it finds.
-/

namespace WineForge.SrwLocks

scoped instance neZeroTwo : NeZero 2 := ⟨by decide⟩

open AddressWaits BitVec List

structure SrwLock where
  /-- Bit 0: the lock is held exclusive. The other bits: the number of exclusive waiters. -/
  exclusiveWaiters : BitVec 16
  owners : BitVec 16
  deriving DecidableEq, Repr

/-- What a waiter waits on: `&u.s->owners`, or the whole word. -/
inductive Addr
  | owners | word
  deriving DecidableEq, Repr

inductive Mode
  | exclusive | shared
  deriving DecidableEq, Repr

/-- The address that `RtlAcquireSRWLockExclusive` or `RtlAcquireSRWLockShared` waits on. -/
def Mode.addr : Mode → Addr
  | .exclusive => .owners
  | .shared => .word

/-- The exclusive grab of `RtlAcquireSRWLockExclusive`, which is no longer a waiter then. -/
def SrwLock.grabExclusive (lock : SrwLock) : SrwLock :=
  { exclusiveWaiters := (lock.exclusiveWaiters - 2) ||| 1, owners := 1 }

/-- The exclusive grab of `RtlTryAcquireSRWLockExclusive`. -/
def SrwLock.tryGrabExclusive (lock : SrwLock) : SrwLock :=
  { exclusiveWaiters := lock.exclusiveWaiters ||| 1, owners := 1 }

def SrwLock.grabShared (lock : SrwLock) : SrwLock :=
  { lock with owners := lock.owners + 1 }

def SrwLock.releaseExclusive (lock : SrwLock) : SrwLock :=
  { exclusiveWaiters := lock.exclusiveWaiters &&& ~~~1, owners := 0 }

def SrwLock.releaseShared (lock : SrwLock) : SrwLock :=
  { lock with owners := lock.owners - 1 }

/-- The next step of a thread. -/
inductive Pc
  | idle
  /-- The grab of an acquire. -/
  | grab (mode : Mode)
  /-- The call of `RtlWaitOnAddress` with the word that the grab has found. -/
  | compare (mode : Mode) (found : SrwLock)
  /-- Inside `RtlWaitOnAddress`. -/
  | waiting (mode : Mode)
  /-- The call of `RtlWakeAddressSingle` or `RtlWakeAddressAll` after a release. -/
  | wakeSingle
  | wakeAll
  /-- Inside the wake, with alerts left to send. -/
  | waking
  deriving DecidableEq, Repr

structure State (T : Type) where
  lock : SrwLock
  futexes : Futexes T Addr
  pc : T → Pc
  /-- The acquisitions that were not released yet, with the threads that made them. -/
  held : List (T × Mode)
  /-- The threads in `RtlAcquireSRWLockExclusive`, from the count of the waiter on. -/
  acquiring : List T

variable {T : Type} [DecidableEq T]

def State.setPc (s : State T) (t : T) (pc : Pc) : State T :=
  { s with pc := Function.update s.pc t pc }

def grab (s : State T) (t : T) : Mode → State T
  | .exclusive =>
    if s.lock.owners = 0 then
      { s.setPc t .idle with
        lock := s.lock.grabExclusive
        held := (t, .exclusive) :: s.held
        acquiring := s.acquiring.erase t }
    else s.setPc t (.compare .exclusive s.lock)
  | .shared =>
    if s.lock.exclusiveWaiters = 0 then
      { s.setPc t .idle with lock := s.lock.grabShared, held := (t, .shared) :: s.held }
    else s.setPc t (.compare .shared s.lock)

/-- The comparison of `RtlWaitOnAddress`. -/
def unchanged (found lock : SrwLock) : Mode → Prop
  | .exclusive => lock.owners = found.owners
  | .shared => lock = found

instance (found lock : SrwLock) (mode : Mode) : Decidable (unchanged found lock mode) := by
  cases mode
  · exact inferInstanceAs (Decidable (lock.owners = found.owners))
  · exact inferInstanceAs (Decidable (lock = found))

def wake (s : State T) (t : T) (futexes : Futexes T Addr) : State T :=
  match futexes.phase t with
  | .alerting _ => { s.setPc t .waking with futexes := futexes }
  | _ => { s.setPc t .idle with futexes := futexes }

def next (s : State T) (t : T) : Option (State T) :=
  match s.pc t with
  | .idle => none
  | .grab mode => some (grab s t mode)
  | .compare mode found =>
    if unchanged found s.lock mode then
      some { s.setPc t (.waiting mode) with futexes := s.futexes.wait t mode.addr }
    else some (s.setPc t (.grab mode))
  | .waiting mode =>
    (s.futexes.resume t).map fun futexes =>
      match futexes.phase t with
      | .out => { s.setPc t (.grab mode) with futexes := futexes }
      | _ => { s with futexes := futexes }
  | .wakeSingle => some (wake s t (s.futexes.wakeSingle t .owners))
  | .wakeAll => some (wake s t (s.futexes.wakeAll t .word))
  | .waking => (s.futexes.alertNext t).map fun futexes => wake s t futexes

inductive Op (T : Type)
  | acquireExclusive (t : T)
  | acquireShared (t : T)
  | tryAcquireExclusive (t : T)
  | tryAcquireShared (t : T)
  /-- A thread releases an acquisition that it or another thread has made. -/
  | releaseExclusive (t owner : T)
  | releaseShared (t owner : T)
  | next (t : T)
  /-- An alert from elsewhere. -/
  | alert (t : T)
  deriving DecidableEq, Repr

def step (s : State T) : Op T → Option (State T)
  | .acquireExclusive t =>
    if s.pc t ≠ .idle then none
    else
      -- `InterlockedExchangeAdd16`
      some { s.setPc t (.grab .exclusive) with
        lock := { s.lock with exclusiveWaiters := s.lock.exclusiveWaiters + 2 }
        acquiring := t :: s.acquiring }
  | .acquireShared t => if s.pc t ≠ .idle then none else some (s.setPc t (.grab .shared))
  | .tryAcquireExclusive t =>
    if s.pc t ≠ .idle then none
    else if s.lock.owners = 0 then
      some { s with lock := s.lock.tryGrabExclusive, held := (t, .exclusive) :: s.held }
    else some s
  | .tryAcquireShared t =>
    if s.pc t ≠ .idle then none
    else if s.lock.exclusiveWaiters = 0 then
      some { s with lock := s.lock.grabShared, held := (t, .shared) :: s.held }
    else some s
  | .releaseExclusive t owner =>
    if s.pc t ≠ .idle ∨ (owner, .exclusive) ∉ s.held then none
    else
      let lock := s.lock.releaseExclusive
      some { s.setPc t (if lock.exclusiveWaiters ≠ 0 then .wakeSingle else .wakeAll) with
        lock := lock
        held := s.held.erase (owner, .exclusive) }
  | .releaseShared t owner =>
    if s.pc t ≠ .idle ∨ (owner, .shared) ∉ s.held then none
    else
      let lock := s.lock.releaseShared
      some { s.setPc t (if lock.owners = 0 then .wakeSingle else .idle) with
        lock := lock
        held := s.held.erase (owner, .shared) }
  | .next t => next s t
  | .alert t => some { s with futexes := s.futexes.alert t }

/-- After `RtlInitializeSRWLock`, with no thread in an operation. -/
def Initial (s : State T) : Prop :=
  s.lock = ⟨0, 0⟩ ∧ s.futexes.queue = [] ∧ (∀ t, s.futexes.phase t = .out) ∧
    (∀ t, s.pc t = .idle) ∧ s.held = [] ∧ s.acquiring = []

/-!
## The word of a slim reader/writer lock

`owners` counts the acquisitions that are held, and `exclusive_waiters` the threads that want to
acquire the lock exclusive, with the exclusive owner in bit 0.
-/

lemma toNat_or_one (x : BitVec 16) : (x ||| 1).toNat = 2 * (x.toNat / 2) + 1 := by
  apply Nat.eq_of_testBit_eq
  intro i
  cases i with
  | zero => simp [Nat.testBit_zero]
  | succ i => simp [Nat.testBit_succ, Nat.or_div_two, Nat.mul_add_div]

lemma toNat_and_not_one (x : BitVec 16) : (x &&& ~~~1).toNat = 2 * (x.toNat / 2) := by
  change x.toNat &&& 65534 = 2 * (x.toNat / 2)
  apply Nat.eq_of_testBit_eq
  intro i
  cases i with
  | zero => simp [Nat.testBit_zero]
  | succ i =>
    have hmask : 65534 / 2 = 2 ^ 15 - 1 := by decide
    rw [Nat.testBit_succ, Nat.testBit_succ, Nat.and_div_two, hmask,
      Nat.and_two_pow_sub_one_eq_mod, Nat.mod_eq_of_lt (by omega),
      Nat.mul_div_cancel_left _ (by decide)]

variable {T : Type}

def exclusiveHeld (held : List (T × Mode)) : Nat := held.countP (·.2 = .exclusive)

lemma exclusiveHeld_le (held : List (T × Mode)) : exclusiveHeld held ≤ held.length :=
  countP_le_length

/-- The counters are right, and an exclusive acquisition is the only one. -/
structure WordInv (lock : SrwLock) (held : List (T × Mode)) (acquiring : List T) : Prop where
  owners : lock.owners.toNat = held.length
  waiters : lock.exclusiveWaiters.toNat = 2 * acquiring.length + exclusiveHeld held
  alone : exclusiveHeld held ≠ 0 → held.length = 1

variable {lock : SrwLock} {held : List (T × Mode)} {acquiring : List T}

section

variable (h : WordInv lock held acquiring)

include h

lemma WordInv.free_iff : lock.owners = 0 ↔ held = [] := by
  rw [← length_eq_zero_iff, ← h.owners]
  exact toNat_inj.symm

lemma WordInv.quiet_iff : lock.exclusiveWaiters = 0 ↔ acquiring = [] ∧ exclusiveHeld held = 0 := by
  rw [← length_eq_zero_iff, ← toNat_inj, h.waiters]
  change 2 * acquiring.length + exclusiveHeld held = 0 ↔ _
  omega

lemma WordInv.count (hroom : acquiring.length < 32767) (t : T) :
    WordInv { lock with exclusiveWaiters := lock.exclusiveWaiters + 2 } held (t :: acquiring) := by
  have hle := exclusiveHeld_le held
  have halone := h.alone
  refine ⟨h.owners, ?_, h.alone⟩
  rw [toNat_add, h.waiters, length_cons]
  change (2 * acquiring.length + exclusiveHeld held + 2) % 65536 = _
  omega

lemma WordInv.grabExclusive [DecidableEq T] (hfree : lock.owners = 0) {t : T} (ht : t ∈ acquiring) :
    WordInv lock.grabExclusive ((t, .exclusive) :: held) (acquiring.erase t) := by
  have hheld := h.free_iff.mp hfree
  subst hheld
  have hpos := length_pos_of_mem ht
  have hwaiters : lock.exclusiveWaiters.toNat = 2 * acquiring.length := h.waiters
  refine ⟨rfl, ?_, fun _ => rfl⟩
  unfold SrwLock.grabExclusive
  rw [toNat_or_one, toNat_sub, hwaiters, length_erase_of_mem ht]
  change 2 * ((65536 - 2 + 2 * acquiring.length) % 65536 / 2) + 1 = 2 * (acquiring.length - 1) + 1
  omega

lemma WordInv.tryGrabExclusive (hfree : lock.owners = 0)
    (t : T) : WordInv lock.tryGrabExclusive ((t, .exclusive) :: held) acquiring := by
  have hheld := h.free_iff.mp hfree
  subst hheld
  have hwaiters : lock.exclusiveWaiters.toNat = 2 * acquiring.length := h.waiters
  refine ⟨rfl, ?_, fun _ => rfl⟩
  unfold SrwLock.tryGrabExclusive
  rw [toNat_or_one, hwaiters]
  change 2 * (2 * acquiring.length / 2) + 1 = 2 * acquiring.length + 1
  omega

lemma WordInv.grabShared (hquiet : lock.exclusiveWaiters = 0)
    (hroom : held.length < 65535) (t : T) :
    WordInv lock.grabShared ((t, .shared) :: held) acquiring := by
  obtain ⟨_, hnone⟩ := h.quiet_iff.mp hquiet
  have hcount : exclusiveHeld ((t, Mode.shared) :: held) = exclusiveHeld held := by
    unfold exclusiveHeld
    rw [countP_cons_of_neg (by simp)]
  refine ⟨?_, ?_, ?_⟩
  · unfold SrwLock.grabShared
    rw [toNat_add, h.owners, length_cons]
    change (held.length + 1) % 65536 = _
    omega
  · exact h.waiters
  · exact fun hne => absurd hnone hne

lemma WordInv.releaseExclusive [DecidableEq T] {owner : T} (howner : (owner, .exclusive) ∈ held) :
    WordInv lock.releaseExclusive (held.erase (owner, .exclusive)) acquiring ∧
      held.erase (owner, .exclusive) = [] := by
  have hpos : 0 < exclusiveHeld held := countP_pos_iff.mpr ⟨_, howner, by simp⟩
  have hone := h.alone (by omega)
  obtain ⟨p, rfl⟩ := length_eq_one_iff.mp hone
  obtain rfl : (owner, Mode.exclusive) = p := by simpa using howner
  have hempty : [(owner, Mode.exclusive)].erase (owner, Mode.exclusive) = [] := by simp
  have hwaiters : lock.exclusiveWaiters.toNat = 2 * acquiring.length + 1 := h.waiters
  rw [hempty]
  refine ⟨⟨rfl, ?_, fun hne => absurd rfl hne⟩, rfl⟩
  unfold SrwLock.releaseExclusive
  rw [toNat_and_not_one, hwaiters]
  change 2 * ((2 * acquiring.length + 1) / 2) = 2 * acquiring.length
  omega

lemma WordInv.releaseShared [DecidableEq T] {owner : T} (howner : (owner, .shared) ∈ held) :
    WordInv lock.releaseShared (held.erase (owner, .shared)) acquiring := by
  have hlength := length_erase_of_mem howner
  have hpos := length_pos_of_mem howner
  have howners := h.owners
  have hcount : exclusiveHeld (held.erase (owner, .shared)) = exclusiveHeld held := by
    unfold exclusiveHeld
    rw [(perm_cons_erase howner).countP_eq, countP_cons_of_neg (by simp)]
  have hnone : exclusiveHeld held = 0 := by
    by_contra hne
    obtain ⟨p, rfl⟩ := length_eq_one_iff.mp (h.alone hne)
    obtain rfl : (owner, Mode.shared) = p := by simpa using howner
    exact hne rfl
  refine ⟨?_, ?_, ?_⟩
  · unfold SrwLock.releaseShared
    rw [toNat_sub, howners, hlength]
    change (65536 - 1 + held.length) % 65536 = _
    omega
  · rw [hcount]
    exact h.waiters
  · rw [hcount]
    exact fun hne => absurd hnone hne

end

end WineForge.SrwLocks
