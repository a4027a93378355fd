import Mathlib.Algebra.Order.Ring.Int

/-!
# Relative timeouts

The deadline of a wait and the time that is left until it. Signed arithmetic that leaves its range
has no result; unsigned arithmetic wraps around.
-/

namespace WineForge.WfuSync

/-- What `gettimeofday` returns. -/
structure Timeval where
  tvSec : Int
  tvUsec : Int
  sec_range : -2 ^ 63 ≤ tvSec ∧ tvSec < 2 ^ 63
  usec_range : 0 ≤ tvUsec ∧ tvUsec < 1000000

structure Timespec where
  tvSec : Int
  tvNsec : Int
  deriving DecidableEq

/-- A result of type `LONGLONG` or `time_t`. -/
def signed (n : Int) : Option Int := if -2 ^ 63 ≤ n ∧ n < 2 ^ 63 then some n else none

def ticksPerSec : Int := 10000000

def getRelativeTimeoutAbs (timeout : Int) (now : Timeval) : Option Timespec := do
  let ticks ← signed (-timeout)
  let nsec ← signed (now.tvUsec * 1000 + ticks.tmod ticksPerSec * 100)
  let sec ← signed (now.tvSec + ticks.tdiv ticksPerSec)
  let sec ← signed (sec + nsec.tdiv 1000000000)
  some ⟨sec, nsec.tmod 1000000000⟩

def getNowAbs (tv : Timeval) : Timespec := ⟨tv.tvSec, tv.tvUsec * 1000⟩

def compareTimespec (left right : Timespec) : Int :=
  if left.tvSec ≠ right.tvSec then if left.tvSec < right.tvSec then -1 else 1
  else if left.tvNsec ≠ right.tvNsec then if left.tvNsec < right.tvNsec then -1 else 1
  else 0

/-- The result is an `unsigned long long`. -/
def timespecDiffNs (deadline start : Timespec) : Option Nat :=
  if compareTimespec deadline start ≤ 0 then some 0
  else do
    let sec ← signed (deadline.tvSec - start.tvSec)
    some ((sec * 1000000000 + deadline.tvNsec - start.tvNsec) % 2 ^ 64).toNat

def nsToTimespec (ns : Nat) : Timespec := ⟨ns / 1000000000, ns % 1000000000⟩

/-- How `wfusync_wait_address` waits: with `os_sync_wait_on_address_with_timeout`, or with
`__ulock_wait` where that is missing. -/
inductive AddressWait
  | osSync | ulock
  deriving DecidableEq

/-- The nanoseconds after which `wfusync_wait_address` may report `STATUS_TIMEOUT`, or nothing where
it leaves the wait to the server. -/
def waitAddressTimeout (path : AddressWait) (timeout : Timespec) : Option Nat :=
  match path with
  | .osSync => some ((timeout.tvSec * 1000000000 + timeout.tvNsec) % 2 ^ 64).toNat
  | .ulock =>
    let usec := ((timeout.tvSec * 1000000 + timeout.tvNsec.tdiv 1000) % 2 ^ 64).toNat
    if usec > 0xffffffff then none else some (usec * 1000)

/-- The time that is left of a wait with a relative timeout that began at `start`. -/
def remaining (timeout : Int) (start now : Timeval) : Option Nat := do
  let deadline ← getRelativeTimeoutAbs timeout start
  timespecDiffNs deadline (getNowAbs now)

/-- A turn of a wait loop: the time that passes after the clock was read until the wait may report
`STATUS_TIMEOUT`. -/
def timeoutAfter (path : AddressWait) (ns : Nat) : Option Nat :=
  if ns = 0 then some 0 else waitAddressTimeout path (nsToTimespec ns)

def Timeval.ns (tv : Timeval) : Int := tv.tvSec * 1000000000 + tv.tvUsec * 1000

def left (timeout : Int) (start now : Timeval) : Int :=
  max 0 (100 * -timeout - (now.ns - start.ns))

/-- The remaining time is exact, or not below the largest value where it does not fit. -/
def Exact (timeout : Int) (start now : Timeval) : Prop :=
  ∃ ns, remaining timeout start now = some ns ∧
    (left timeout start now < 2 ^ 64 → (ns : Int) = left timeout start now) ∧
    (2 ^ 64 ≤ left timeout start now → 2 ^ 64 - 1 ≤ ns)

/-- A turn of the loop that reads the clock at `now` reports no timeout before the deadline. -/
def Patient (path : AddressWait) (timeout : Int) (start now : Timeval) : Prop :=
  ∀ ns ∈ remaining timeout start now, ∀ slept ∈ timeoutAfter path ns,
    start.ns + 100 * -timeout ≤ now.ns + slept

/-- The timeout can be negated, the deadline is a time and the remaining time fits into 64 bits.
`__ulock_wait` counts whole microseconds. -/
def Representable (path : AddressWait) (timeout : Int) (start now : Timeval) : Prop :=
  timeout ≠ -2 ^ 63 ∧ start.ns + 100 * -timeout < 2 ^ 63 * 1000000000 ∧
    left timeout start now < 2 ^ 64 ∧
    (path = .ulock → left timeout start now % 1000 = 0 ∨
      0xffffffff < left timeout start now / 1000)

variable {timeout : Int} {start now : Timeval}

lemma signed_of_range {n : Int} (h : -2 ^ 63 ≤ n) (h' : n < 2 ^ 63) : signed n = some n :=
  if_pos ⟨h, h'⟩

lemma signed_eq_none {n : Int} (h : 2 ^ 63 ≤ n) : signed n = none :=
  if_neg fun hrange => absurd hrange.2 (not_lt.mpr h)

lemma getRelativeTimeoutAbs_eq (hlow : -2 ^ 63 < timeout) (hneg : timeout < 0) (start : Timeval) :
    getRelativeTimeoutAbs timeout start =
      if start.ns + 100 * -timeout < 2 ^ 63 * 1000000000 then
        some ⟨(start.ns + 100 * -timeout) / 1000000000, (start.ns + 100 * -timeout) % 1000000000⟩
      else none := by
  have hsec := start.sec_range
  have husec := start.usec_range
  have hticks : signed (-timeout) = some (-timeout) := signed_of_range (by omega) (by omega)
  have hdiv : (-timeout).tdiv ticksPerSec = -timeout / 10000000 :=
    Int.tdiv_eq_ediv_of_nonneg (by omega)
  have hmod : (-timeout).tmod ticksPerSec = -timeout % 10000000 :=
    Int.tmod_eq_emod_of_nonneg (by omega)
  have hnsec : signed (start.tvUsec * 1000 + -timeout % 10000000 * 100) =
      some (start.tvUsec * 1000 + -timeout % 10000000 * 100) :=
    signed_of_range (by omega) (by omega)
  have hcarry : (start.tvUsec * 1000 + -timeout % 10000000 * 100).tdiv 1000000000 =
      (start.tvUsec * 1000 + -timeout % 10000000 * 100) / 1000000000 :=
    Int.tdiv_eq_ediv_of_nonneg (by omega)
  have hrest : (start.tvUsec * 1000 + -timeout % 10000000 * 100).tmod 1000000000 =
      (start.tvUsec * 1000 + -timeout % 10000000 * 100) % 1000000000 :=
    Int.tmod_eq_emod_of_nonneg (by omega)
  have hns : start.ns = start.tvSec * 1000000000 + start.tvUsec * 1000 := rfl
  rw [getRelativeTimeoutAbs, hticks]
  simp only [Option.bind_eq_bind, Option.bind_some, hdiv, hmod, hnsec, hcarry, hrest]
  by_cases hfirst : start.tvSec + -timeout / 10000000 < 2 ^ 63
  · rw [signed_of_range (by omega) hfirst, Option.bind_some]
    by_cases hsecond : start.tvSec + -timeout / 10000000 +
        (start.tvUsec * 1000 + -timeout % 10000000 * 100) / 1000000000 < 2 ^ 63
    · rw [signed_of_range (by omega) hsecond, Option.bind_some, if_pos (by omega), Option.some.injEq,
        Timespec.mk.injEq]
      constructor
      · omega
      · omega
    · rw [signed_eq_none (by omega), Option.bind_none, if_neg (by omega)]
  · rw [signed_eq_none (by omega), Option.bind_none, if_neg (by omega)]

lemma timespecDiffNs_eq {deadline : Timespec} {now : Timeval}
    (hnsec : 0 ≤ deadline.tvNsec ∧ deadline.tvNsec < 1000000000)
    (hsec : deadline.tvSec - now.tvSec < 2 ^ 63) :
    timespecDiffNs deadline (getNowAbs now) =
      some (max 0 (deadline.tvSec * 1000000000 + deadline.tvNsec - now.ns) % 2 ^ 64).toNat := by
  have husec := now.usec_range
  have hns : now.ns = now.tvSec * 1000000000 + now.tvUsec * 1000 := rfl
  have hcompare : compareTimespec deadline (getNowAbs now) ≤ 0 ↔
      deadline.tvSec * 1000000000 + deadline.tvNsec ≤ now.ns := by
    simp only [compareTimespec, getNowAbs]
    split_ifs <;> omega
  rw [timespecDiffNs]
  by_cases hle : deadline.tvSec * 1000000000 + deadline.tvNsec ≤ now.ns
  · rw [if_pos (hcompare.mpr hle), max_eq_left (by omega)]
    rfl
  rw [if_neg (mt hcompare.mp hle), max_eq_right (by omega)]
  dsimp only [getNowAbs]
  rw [signed_of_range (by omega) hsec, Option.bind_eq_bind, Option.bind_some, hns]
  congr 3
  omega

lemma remaining_eq (hlow : -2 ^ 63 < timeout) (hneg : timeout < 0) (hlater : start.ns ≤ now.ns) :
    remaining timeout start now =
      if start.ns + 100 * -timeout < 2 ^ 63 * 1000000000 then
        some (left timeout start now % 2 ^ 64).toNat
      else none := by
  have husec' := now.usec_range
  have hns' : now.ns = now.tvSec * 1000000000 + now.tvUsec * 1000 := rfl
  rw [remaining, getRelativeTimeoutAbs_eq hlow hneg]
  by_cases hfits : start.ns + 100 * -timeout < 2 ^ 63 * 1000000000
  · rw [if_pos hfits, if_pos hfits, Option.bind_eq_bind, Option.bind_some,
      timespecDiffNs_eq (by constructor <;> dsimp only <;> omega) (by dsimp only; omega), left]
    congr 4
    dsimp only
    omega
  · rw [if_neg hfits, if_neg hfits]
    rfl

lemma remaining_lowest (h : timeout = -2 ^ 63) : remaining timeout start now = none := by
  have hticks : signed (-timeout) = none := signed_eq_none (by omega)
  rw [remaining, getRelativeTimeoutAbs, hticks]
  rfl

lemma timeoutAfter_osSync {ns : Nat} (h : ns < 2 ^ 64) : timeoutAfter .osSync ns = some ns := by
  unfold timeoutAfter
  split
  · rename_i hzero
    rw [hzero]
  · dsimp only [waitAddressTimeout, nsToTimespec]
    congr 1
    omega

lemma timeoutAfter_ulock {ns : Nat} (h : ns < 2 ^ 64) :
    timeoutAfter .ulock ns = if 0xffffffff < ns / 1000 then none else some (ns / 1000 * 1000) := by
  unfold timeoutAfter
  split
  · rename_i hzero
    rw [hzero]
    rfl
  have hnsec : ((ns : Int) % 1000000000).tdiv 1000 = (ns : Int) % 1000000000 / 1000 :=
    Int.tdiv_eq_ediv_of_nonneg (by omega)
  have husec : ((ns : Int) / 1000000000 * 1000000 + (ns : Int) % 1000000000 / 1000) % 2 ^ 64 =
      (ns / 1000 : Nat) := by omega
  dsimp only [waitAddressTimeout, nsToTimespec]
  rw [hnsec, husec, Int.toNat_natCast]

lemma left_spec (timeout : Int) (start now : Timeval) :
    0 ≤ left timeout start now ∧ left timeout start now % 100 = 0 ∧
      start.ns + 100 * -timeout ≤ now.ns + left timeout start now ∧
      (0 < left timeout start now →
        now.ns + left timeout start now = start.ns + 100 * -timeout) := by
  have hns : start.ns = start.tvSec * 1000000000 + start.tvUsec * 1000 := rfl
  have hns' : now.ns = now.tvSec * 1000000000 + now.tvUsec * 1000 := rfl
  unfold left
  omega

lemma wrapped_of_fits {l : Int} (h : 0 ≤ l) (h' : l < 2 ^ 64) :
    ((l % 2 ^ 64).toNat : Int) = l ∧ (l % 2 ^ 64).toNat < 2 ^ 64 := by
  omega

lemma wrapped_ne_max {l : Int} (h : l % 100 = 0) : ¬ 2 ^ 64 - 1 ≤ (l % 2 ^ 64).toNat := by
  omega

lemma patient_iff (path : AddressWait) {ns : Nat} (hns : remaining timeout start now = some ns)
    (hexact : (ns : Int) = left timeout start now) (hfits : ns < 2 ^ 64) :
    Patient path timeout start now ↔
      (path = .ulock → left timeout start now % 1000 = 0 ∨
        0xffffffff < left timeout start now / 1000) := by
  obtain ⟨hnonneg, _, hdeadline, hpositive⟩ := left_spec timeout start now
  rw [Patient, hns, ← hexact] at *
  cases path with
  | osSync =>
    refine iff_of_true (fun n hn slept hslept => ?_) nofun
    rw [Option.mem_some_iff] at hn
    rw [← hn, timeoutAfter_osSync hfits, Option.mem_some_iff] at hslept
    omega
  | ulock =>
    constructor
    · intro hpatient _
      by_contra hnot
      have hle : ¬ 0xffffffff < ns / 1000 := by omega
      have hafter := timeoutAfter_ulock hfits
      rw [if_neg hle] at hafter
      have hlate := hpatient ns rfl (ns / 1000 * 1000) hafter
      omega
    · intro hwhole n hn slept hslept
      have hwhole := hwhole rfl
      rw [Option.mem_some_iff] at hn
      rw [← hn, timeoutAfter_ulock hfits] at hslept
      split at hslept
      · simp at hslept
      · rw [Option.mem_some_iff] at hslept
        omega

/-- The remaining time is exact, and no wait times out early, exactly when the deadline and the
remaining time are representable. -/
theorem relative_timeout_exact (path : AddressWait) (hmin : -2 ^ 63 ≤ timeout) (hneg : timeout < 0)
    (hlater : start.ns ≤ now.ns) :
    Exact timeout start now ∧ Patient path timeout start now ↔
      Representable path timeout start now := by
  obtain ⟨hnonneg, hhundred, _, _⟩ := left_spec timeout start now
  by_cases hlowest : timeout = -2 ^ 63
  · refine iff_of_false (fun h => ?_) (fun h => h.1 hlowest)
    obtain ⟨⟨ns, hns, _⟩, _⟩ := h
    rw [remaining_lowest hlowest] at hns
    simp at hns
  have hremaining := remaining_eq (by omega) hneg hlater
  by_cases hdeadline : start.ns + 100 * -timeout < 2 ^ 63 * 1000000000
  · rw [if_pos hdeadline] at hremaining
    by_cases hfits : left timeout start now < 2 ^ 64
    · obtain ⟨hexact, hrange⟩ := wrapped_of_fits hnonneg hfits
      have hpatient := patient_iff path hremaining hexact hrange
      rw [hpatient]
      constructor
      · rintro ⟨-, hunit⟩
        exact ⟨hlowest, hdeadline, hfits, hunit⟩
      · rintro ⟨-, -, -, hunit⟩
        exact ⟨⟨_, hremaining, fun _ => hexact, fun hlarge => absurd hfits (not_lt.mpr hlarge)⟩, hunit⟩
    · refine iff_of_false (fun h => ?_) (fun h => hfits h.2.2.1)
      obtain ⟨⟨ns, hns, _, hsaturated⟩, _⟩ := h
      rw [hremaining, Option.some.injEq] at hns
      exact wrapped_ne_max hhundred (hns ▸ hsaturated (not_lt.mp hfits))
  · refine iff_of_false (fun h => ?_) (fun h => hdeadline h.2.1)
    obtain ⟨⟨ns, hns, _⟩, _⟩ := h
    rw [hremaining, if_neg hdeadline] at hns
    simp at hns

def clock (sec : Nat) (h : sec < 2 ^ 63) : Timeval where
  tvSec := sec
  tvUsec := 0
  sec_range := by omega
  usec_range := by decide

/-- A wait of one second, a second later. -/
theorem relative_timeout_exact_second : -2 ^ 63 ≤ (-10000000 : Int) ∧ (-10000000 : Int) < 0 ∧
      (clock 1700000000 (by decide)).ns ≤ (clock 1700000001 (by decide)).ns ∧
      (Exact (-10000000) (clock 1700000000 (by decide)) (clock 1700000001 (by decide)) ∧
          Patient .osSync (-10000000) (clock 1700000000 (by decide)) (clock 1700000001 (by decide)) ↔
        Representable .osSync (-10000000) (clock 1700000000 (by decide))
          (clock 1700000001 (by decide))) :=
  ⟨by decide, by decide, by decide,
    relative_timeout_exact .osSync (by decide) (by decide) (by decide)⟩

/-- 2^62 ticks are 25 * 2^64 nanoseconds: nothing is left at once. -/
theorem quasi_infinite_timeout : ∃ (timeout : Int) (start : Timeval),
    -2 ^ 63 ≤ timeout ∧ timeout < 0 ∧ remaining timeout start start = some 0 ∧
      2 ^ 64 ≤ left timeout start start ∧ ¬ Exact timeout start start := by
  have hzero : remaining (-2 ^ 62) (clock 1700000000 (by decide)) (clock 1700000000 (by decide)) =
      some 0 := by decide
  have hleft : 2 ^ 64 ≤ left (-2 ^ 62) (clock 1700000000 (by decide)) (clock 1700000000 (by decide)) := by
    decide
  refine ⟨-2 ^ 62, clock 1700000000 (by decide), by decide, by decide, hzero, hleft, ?_⟩
  rintro ⟨ns, hns, _, hsaturated⟩
  rw [hzero, Option.some.injEq] at hns
  omega

end WineForge.WfuSync
