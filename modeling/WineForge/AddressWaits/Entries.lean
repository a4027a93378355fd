import Mathlib.Data.List.Nodup
import WineForge.Library.Transition
import WineForge.AddressWaits.State

/-!
# Entries on the stacks of the waiters

Who holds the spin locks, and which entries are in a queue or in the hands of a wake: they all
belong to waits that have not returned.
-/

namespace WineForge.AddressWaits

open Function Library List Option

variable {T : Type} {s s' : State T} {t : T}

def Pc.locks : Pc T → Option Nat
  | .waitCompare addr _ _ _ | .waitChanged addr | .waitUnlock _ addr _ | .removeCheck _ addr _
  | .removeUnlock _ addr _ | .scan _ addr _ _ _ | .unlinked _ addr _ _ _ _ _
  | .flush addr _ _ _ _ | .wakeUnlock addr _ => some (getFutexQueue addr)
  | _ => none

def Pc.waits : Pc T → Option (Nat × Nat)
  | .waitUnlock entry addr _ | .sleeping entry addr _ | .checkAddr entry addr _
  | .removeLock entry addr _ | .removeCheck entry addr _ | .removeUnlock entry addr _ =>
    some (entry, addr)
  | _ => none

/-- The entry was taken out of the queue by its own thread, if a wake has not done so. -/
def Pc.removing : Pc T → Bool
  | .removeUnlock _ _ _ => true
  | _ => false

def Pc.unlinking : Pc T → Option (Nat × Nat)
  | .unlinked _ addr _ entry _ _ _ => some (entry, addr)
  | _ => none

def Pc.cursor : Pc T → Option (Nat × Nat)
  | .scan _ addr _ (some entry) _ | .unlinked _ addr _ _ _ (some entry) _
  | .flush addr _ _ (some entry) _ => some (getFutexQueue addr, entry)
  | _ => none

lemma nextIn_append {pre rest : List Nat} {entry : Nat} (h : entry ∉ pre) :
    nextIn (pre ++ entry :: rest) entry = rest.head? := by
  unfold nextIn
  rw [dropWhile_append_of_pos]
  · rw [dropWhile_cons_of_neg (by simp)]
    rfl
  intro i hi
  simp only [ne_eq, decide_not, Bool.not_eq_true', decide_eq_false_iff_not]
  rintro rfl
  exact h hi

variable {entry other : Nat} {queue : List Nat}

lemma mem_of_nextIn (h : nextIn queue entry = some other) : other ∈ queue := by
  have hmem := mem_of_mem_head? h
  exact (dropWhile_sublist _).subset (mem_of_mem_tail hmem)

lemma mem_of_prevIn (h : prevIn queue entry = some other) : other ∈ queue := by
  exact (takeWhile_sublist _).subset (mem_of_mem_getLast? h)

lemma mem_erase_of_nextIn (hnodup : queue.Nodup)
    (hmem : entry ∈ queue) (h : nextIn queue entry = some other) : other ∈ queue.erase entry := by
  rw [hnodup.mem_erase_iff]
  refine ⟨?_, mem_of_nextIn h⟩
  rintro rfl
  obtain ⟨pre, rest, rfl⟩ := append_of_mem hmem
  obtain ⟨_, hnodup', hdisjoint⟩ := nodup_append'.mp hnodup
  have hpre : other ∉ pre := fun hpre => hdisjoint hpre mem_cons_self
  rw [nextIn_append hpre] at h
  exact (nodup_cons.mp hnodup').1 (mem_of_mem_head? h)

def LockInv (s : State T) : Prop := ∀ t b, (s.pc t).locks = some b ↔ s.lock b = some t

lemma LockInv.unique (h : LockInv s) {u : T} {b : Nat} (ht : (s.pc t).locks = some b)
    (hu : (s.pc u).locks = some b) : t = u := by
  have hlock := (h t b).mp ht
  rw [(h u b).mp hu] at hlock
  exact (some.inj hlock).symm

section Steps

variable [DecidableEq T] {pc : Pc T} {b : Nat}

lemma LockInv.same (h : LockInv s) (hlock : s'.lock = s.lock)
    (hpc : s'.pc = update s.pc t pc) (hsame : pc.locks = (s.pc t).locks) :
    LockInv s' := by
  intro u b
  rw [hlock, hpc, ← h u b]
  by_cases heq : u = t
  · rw [heq, update_self, hsame]
  · rw [update_of_ne heq]

lemma LockInv.acquire (h : LockInv s) (hfree : s.lock b = none)
    (hlock : s'.lock = update s.lock b (some t))
    (hpc : s'.pc = update s.pc t pc) (hnone : (s.pc t).locks = none)
    (hlocks : pc.locks = some b) : LockInv s' := by
  intro u b'
  rw [hlock, hpc]
  by_cases hb : b' = b
  · rw [hb, update_self]
    by_cases heq : u = t
    · rw [heq, update_self]
      exact iff_of_true hlocks rfl
    · rw [update_of_ne heq, h u b, hfree]
      simp [Ne.symm heq]
  rw [update_of_ne hb, ← h u b']
  by_cases heq : u = t
  · rw [heq, update_self, hlocks, hnone]
    simp [Ne.symm hb]
  · rw [update_of_ne heq]

lemma LockInv.release (h : LockInv s) (hlock : s'.lock = update s.lock b none)
    (hpc : s'.pc = update s.pc t pc) (hlocks : (s.pc t).locks = some b)
    (hnone : pc.locks = none) : LockInv s' := by
  intro u b'
  rw [hlock, hpc]
  by_cases hb : b' = b
  · rw [hb, update_self]
    by_cases heq : u = t
    · rw [heq, update_self, hnone]
      exact iff_of_false (by simp) (by simp)
    · rw [update_of_ne heq]
      refine iff_of_false (fun hu => heq ?_) (by simp)
      exact h.unique hu hlocks
  rw [update_of_ne hb, ← h u b']
  by_cases heq : u = t
  · rw [heq, update_self, hlocks, hnone]
    simp [Ne.symm hb]
  · rw [update_of_ne heq]

omit [DecidableEq T] in
lemma spinLock_eq_some {addr : Nat} :
    spinLock s t addr = some s' ↔ s.lock (getFutexQueue addr) = none ∧
      s' = { s with lock := update s.lock (getFutexQueue addr) (some t) } := by
  unfold spinLock
  cases hlock : s.lock (getFutexQueue addr) with
  | some u => simp
  | none => simp [eq_comm]

lemma next_locks (h : LockInv s) (hnext : next s t = some s') : LockInv s' := by
  unfold next at hnext
  cases hpc : s.pc t <;> simp only [hpc, some.injEq, reduceCtorEq] at hnext
  case waitLock addr cmp size timed =>
    obtain ⟨s₁, hlock, rfl⟩ := map_eq_some_iff.mp hnext
    obtain ⟨hfree, rfl⟩ := spinLock_eq_some.mp hlock
    exact h.acquire hfree rfl rfl (by rw [hpc]; rfl) rfl
  case waitCompare addr cmp size timed =>
    rw [← hnext]
    split
    · exact h.same rfl rfl (by rw [hpc]; rfl)
    · exact h.same rfl rfl (by rw [hpc]; rfl)
  case waitChanged addr =>
    exact hnext ▸ h.release rfl rfl (by rw [hpc]; rfl) rfl
  case waitUnlock entry addr timed =>
    exact hnext ▸ h.release rfl rfl (by rw [hpc]; rfl) rfl
  case sleeping entry addr timed =>
    split at hnext
    · exact some.inj hnext ▸ h.same rfl rfl (by rw [hpc]; rfl)
    · simp at hnext
  case checkAddr entry addr ret =>
    rw [← hnext]
    split
    · exact h.same rfl rfl (by rw [hpc]; rfl)
    · exact h.same rfl rfl (by rw [hpc]; rfl)
  case removeLock entry addr ret =>
    obtain ⟨s₁, hlock, rfl⟩ := map_eq_some_iff.mp hnext
    obtain ⟨hfree, rfl⟩ := spinLock_eq_some.mp hlock
    exact h.acquire hfree rfl rfl (by rw [hpc]; rfl) rfl
  case removeCheck entry addr ret =>
    rw [← hnext]
    split
    · exact h.same rfl rfl (by rw [hpc]; rfl)
    · exact h.same rfl rfl (by rw [hpc]; rfl)
  case removeUnlock entry addr ret =>
    exact hnext ▸ h.release rfl rfl (by rw [hpc]; rfl) rfl
  case wakeIncrement all addr =>
    exact hnext ▸ h.same rfl rfl (by rw [hpc]; rfl)
  case wakeLock all addr =>
    obtain ⟨s₁, hlock, rfl⟩ := map_eq_some_iff.mp hnext
    obtain ⟨hfree, rfl⟩ := spinLock_eq_some.mp hlock
    exact h.acquire hfree rfl rfl (by rw [hpc]; rfl) rfl
  case scan all addr call cursor tids =>
    cases cursor with
    | none =>
      simp only [some.injEq] at hnext
      exact hnext ▸ h.same rfl rfl (by rw [hpc]; rfl)
    | some entry =>
      simp only [some.injEq] at hnext
      rw [← hnext]
      split
      · exact h.same rfl rfl (by rw [hpc]; rfl)
      · exact h.same rfl rfl (by rw [hpc]; rfl)
  case unlinked all addr call entry tid next tids =>
    rw [← hnext]
    split
    · exact h.same rfl rfl (by rw [hpc]; rfl)
    · split
      · exact h.same rfl rfl (by rw [hpc]; rfl)
      · exact h.same rfl rfl (by rw [hpc]; rfl)
  case flush addr call tid next tids =>
    cases tids with
    | nil | cons u tids =>
      simp only [some.injEq] at hnext
      exact hnext ▸ h.same rfl rfl (by rw [hpc]; rfl)
  case wakeUnlock addr tids =>
    exact hnext ▸ h.release rfl rfl (by rw [hpc]; rfl) rfl
  case alerting tids =>
    cases tids with
    | nil | cons u tids =>
      simp only [some.injEq] at hnext
      exact hnext ▸ h.same rfl rfl (by rw [hpc]; rfl)

end Steps

structure EntryInv (s : State T) : Prop where
  /-- A wait owns its entry, whose address a wake may have cleared. -/
  waits : ∀ t e addr, (s.pc t).waits = some (e, addr) →
    e < s.count ∧ s.tid e = t ∧ s.result e = none ∧ (s.addr e = some addr ∨ s.addr e = none)
  alive : ∀ e < s.count, s.result e = none → ∃ addr, (s.pc (s.tid e)).waits = some (e, addr)
  queued : ∀ b, ∀ e ∈ s.queue b, e < s.count ∧ s.result e = none ∧
    (s.pc (s.tid e)).removing = false ∧ ∃ addr, s.addr e = some addr ∧ getFutexQueue addr = b
  sorted : ∀ b, (s.queue b).Pairwise (· < ·)
  /-- An entry with an address is queued or on its way out of the queue. -/
  linked : ∀ e addr, e < s.count → s.result e = none → s.addr e = some addr →
    (s.pc (s.tid e)).removing = true ∨ e ∈ s.queue (getFutexQueue addr) ∨
      ∃ w, (s.pc w).unlinking = some (e, addr)
  unlinking : ∀ w e addr, (s.pc w).unlinking = some (e, addr) →
    e < s.count ∧ s.result e = none ∧ s.addr e = some addr ∧ (∀ b, e ∉ s.queue b) ∧
      (s.pc (s.tid e)).removing = false
  cursors : ∀ w b e, (s.pc w).cursor = some (b, e) → e ∈ s.queue b

lemma EntryInv.nodup (h : EntryInv s) (b : Nat) : (s.queue b).Nodup :=
  (h.sorted b).imp Nat.ne_of_lt

lemma Pc.locks_of_unlinking {pc : Pc T} {e addr : Nat} (h : pc.unlinking = some (e, addr)) :
    pc.locks = some (getFutexQueue addr) := by
  cases pc with
  | unlinked all a call entry tid next tids =>
    obtain ⟨_, rfl⟩ := Prod.mk.inj (some.inj h)
    rfl
  | _ => simp [Pc.unlinking] at h

lemma Pc.locks_of_cursor {pc : Pc T} {b e : Nat} (h : pc.cursor = some (b, e)) :
    pc.locks = some b := by
  unfold Pc.cursor at h
  split at h
  · obtain ⟨rfl, _⟩ := Prod.mk.inj (some.inj h)
    rfl
  · obtain ⟨rfl, _⟩ := Prod.mk.inj (some.inj h)
    rfl
  · obtain ⟨rfl, _⟩ := Prod.mk.inj (some.inj h)
    rfl
  · simp at h

lemma EntryInv.wait_unique (h : EntryInv s) {e addr : Nat} {t u : T}
    (ht : (s.pc t).waits = some (e, addr)) {addr' : Nat} (hu : (s.pc u).waits = some (e, addr')) :
    t = u := by
  rw [← (h.waits t e addr ht).2.1]
  exact (h.waits u e addr' hu).2.1

section EntrySteps

variable [DecidableEq T] {pc : Pc T}

lemma EntryInv.quiet (h : EntryInv s) (hpc : s'.pc = update s.pc t pc)
    (hwaits : pc.waits = (s.pc t).waits) (hremoving : pc.removing = (s.pc t).removing)
    (hunlinking : pc.unlinking = (s.pc t).unlinking)
    (hcursor : ∀ b e, pc.cursor = some (b, e) → e ∈ s.queue b)
    (hqueue : s'.queue = s.queue) (haddr : s'.addr = s.addr) (htid : s'.tid = s.tid)
    (hcount : s'.count = s.count) (hresult : s'.result = s.result) : EntryInv s' := by
  have hpcs : ∀ u, (s'.pc u).waits = (s.pc u).waits ∧ (s'.pc u).removing = (s.pc u).removing ∧
      (s'.pc u).unlinking = (s.pc u).unlinking := by
    intro u
    rw [hpc]
    by_cases heq : u = t
    · rw [heq, update_self]
      exact ⟨hwaits, hremoving, hunlinking⟩
    · rw [update_of_ne heq]
      exact ⟨rfl, rfl, rfl⟩
  constructor
  · intro u e addr hu
    rw [(hpcs u).1] at hu
    rw [hcount, htid, hresult, haddr]
    exact h.waits u e addr hu
  · intro e he hlive
    rw [hcount] at he
    rw [hresult] at hlive
    rw [htid, (hpcs _).1]
    exact h.alive e he hlive
  · intro b e he
    rw [hqueue] at he
    rw [hcount, hresult, htid, haddr, (hpcs _).2.1]
    exact h.queued b e he
  · rw [hqueue]
    exact h.sorted
  · intro e addr he hlive hsome
    rw [hcount] at he
    rw [hresult] at hlive
    rw [haddr] at hsome
    rw [htid, hqueue, (hpcs _).2.1]
    refine (h.linked e addr he hlive hsome).imp id (Or.imp id ?_)
    rintro ⟨w, hw⟩
    exact ⟨w, (hpcs w).2.2.trans hw⟩
  · intro w e addr hw
    rw [(hpcs w).2.2] at hw
    rw [hcount, hresult, haddr, hqueue, htid, (hpcs _).2.1]
    exact h.unlinking w e addr hw
  · intro w b e hw
    rw [hqueue]
    rw [hpc] at hw
    by_cases heq : w = t
    · rw [heq, update_self] at hw
      exact hcursor b e hw
    · rw [update_of_ne heq] at hw
      exact h.cursors w b e hw

lemma EntryInv.enqueue {addr : Nat} {timed : Bool} (h : EntryInv s)
    (hidle : (s.pc t).waits = none ∧ (s.pc t).removing = false ∧ (s.pc t).unlinking = none) :
    EntryInv ((enqueue s t addr).setPc t (.waitUnlock s.count addr timed)) := by
  have hold : ∀ {e}, e < s.count → e ≠ s.count := Nat.ne_of_lt
  have hother : ∀ {e addr'} {u : T}, (s.pc u).waits = some (e, addr') → u ≠ t := by
    rintro e addr' u hu rfl
    rw [hidle.1] at hu
    simp at hu
  have hqueue : ∀ b, ∀ e ∈ s.queue b, e ∈ (AddressWaits.enqueue s t addr).queue b := by
    intro b e he
    simp only [AddressWaits.enqueue, State.setQueue]
    by_cases hb : b = getFutexQueue addr
    · rw [hb, update_self]
      exact mem_append_left _ (hb ▸ he)
    · rw [update_of_ne hb]
      exact he
  have hmem : ∀ b e, e ∈ (AddressWaits.enqueue s t addr).queue b →
      e ∈ s.queue b ∨ e = s.count ∧ b = getFutexQueue addr := by
    intro b e he
    simp only [AddressWaits.enqueue, State.setQueue] at he
    by_cases hb : b = getFutexQueue addr
    · rw [hb, update_self] at he
      refine (mem_append.mp he).imp (fun he => hb ▸ he) fun he => ?_
      exact ⟨mem_singleton.mp he, hb⟩
    · rw [update_of_ne hb] at he
      exact .inl he
  -- the thread of an older entry is another one, and its step is the same
  have hthread : ∀ {e}, e < s.count → s.result e = none → s.tid e ≠ t := by
    intro e he hlive
    obtain ⟨addr', hwait⟩ := h.alive e he hlive
    exact hother hwait
  constructor
  · intro u e addr' hu
    simp only [State.setPc] at hu
    by_cases heq : u = t
    · rw [heq, update_self] at hu
      obtain ⟨rfl, rfl⟩ := Prod.mk.inj (some.inj hu)
      simp [AddressWaits.enqueue, State.setPc, heq]
    rw [update_of_ne heq] at hu
    obtain ⟨he, htid, hlive, haddr⟩ := h.waits u e addr' hu
    simp only [AddressWaits.enqueue, State.setPc, update_of_ne (hold he)]
    exact ⟨Nat.lt_succ_of_lt he, htid, hlive, haddr⟩
  · intro e he hlive
    simp only [AddressWaits.enqueue, State.setPc] at he hlive ⊢
    by_cases heq : e = s.count
    · rw [heq, update_self, update_self]
      exact ⟨addr, rfl⟩
    have he : e < s.count := by omega
    rw [update_of_ne heq] at hlive ⊢
    rw [update_of_ne (hthread he hlive)]
    exact h.alive e he hlive
  · intro b e he
    obtain he | ⟨rfl, rfl⟩ := hmem b e he
    · obtain ⟨hlt, hlive, hremoving, haddr⟩ := h.queued b e he
      simp only [AddressWaits.enqueue, State.setPc, update_of_ne (hold hlt),
        update_of_ne (hthread hlt hlive)]
      exact ⟨Nat.lt_succ_of_lt hlt, hlive, hremoving, haddr⟩
    · simp [AddressWaits.enqueue, State.setPc, Pc.removing]
  · intro b
    simp only [AddressWaits.enqueue, State.setPc, State.setQueue]
    by_cases hb : b = getFutexQueue addr
    · rw [hb, update_self, pairwise_append]
      refine ⟨h.sorted _, pairwise_singleton _ _, fun e he e' he' => ?_⟩
      rw [mem_singleton.mp he']
      exact (h.queued _ e he).1
    · rw [update_of_ne hb]
      exact h.sorted b
  · intro e addr' he hlive haddr
    by_cases heq : e = s.count
    · subst heq
      simp only [AddressWaits.enqueue, State.setPc, update_self, some.injEq] at haddr
      subst haddr
      refine .inr (.inl ?_)
      simp [AddressWaits.enqueue, State.setPc, State.setQueue]
    simp only [AddressWaits.enqueue, State.setPc, update_of_ne heq] at he hlive haddr
    have he : e < s.count := by omega
    have hne := hthread he hlive
    obtain hremoving | hin | ⟨w, hw⟩ := h.linked e addr' he hlive haddr
    · refine .inl ?_
      simp only [AddressWaits.enqueue, State.setPc, update_of_ne heq, update_of_ne hne]
      exact hremoving
    · exact .inr (.inl (hqueue _ _ hin))
    refine .inr (.inr ⟨w, ?_⟩)
    have hwt : w ≠ t := by
      rintro rfl
      rw [hidle.2.2] at hw
      simp at hw
    simp only [State.setPc, update_of_ne hwt]
    exact hw
  · intro w e addr' hw
    simp only [State.setPc] at hw
    have hwt : w ≠ t := by
      rintro rfl
      exact absurd hw (by simp [Pc.unlinking])
    rw [update_of_ne hwt] at hw
    obtain ⟨he, hlive, haddr, hout, hremoving⟩ := h.unlinking w e addr' hw
    simp only [AddressWaits.enqueue, State.setPc, update_of_ne (hold he),
      update_of_ne (hthread he hlive)]
    refine ⟨Nat.lt_succ_of_lt he, hlive, haddr, fun b hin => ?_, hremoving⟩
    obtain hin | ⟨heq, _⟩ := hmem b e hin
    · exact hout b hin
    · exact hold he heq
  · intro w b e hw
    simp only [State.setPc] at hw
    have hwt : w ≠ t := by
      rintro rfl
      exact absurd hw (by simp [Pc.cursor])
    rw [update_of_ne hwt] at hw
    exact hqueue b e (h.cursors w b e hw)

omit [DecidableEq T] in
lemma EntryInv.thread (h : EntryInv s) {e e' addr : Nat} (hwait : (s.pc t).waits = some (e, addr))
    (he' : e' < s.count) (hlive : s.result e' = none) (hne : e' ≠ e) : s.tid e' ≠ t := by
  intro htid
  obtain ⟨addr', hwait'⟩ := h.alive e' he' hlive
  rw [htid, hwait] at hwait'
  exact hne (Prod.mk.inj (some.inj hwait')).1.symm

omit [DecidableEq T] in
lemma EntryInv.cursor_ne (h : EntryInv s) (hlocks : LockInv s) {w : T} {e addr b e' : Nat}
    (haddr : s.addr e = some addr) (hlock : (s.pc t).locks = some (getFutexQueue addr))
    (hw : (s.pc w).cursor = some (b, e')) (hne : w ≠ t) : e' ≠ e := by
  rintro rfl
  obtain ⟨_, _, _, addr', haddr', rfl⟩ := h.queued b e' (h.cursors w b e' hw)
  obtain rfl : addr = addr' := some.inj (haddr.symm.trans haddr')
  exact hne (hlocks.unique (Pc.locks_of_cursor hw) hlock)

variable {entry addr : Nat}

lemma EntryInv.dequeue (h : EntryInv s) (hlocks : LockInv s) (hpc : s'.pc = update s.pc t pc)
    (hqueue : ∀ b, s'.queue b = (s.queue b).erase entry) (haddr : s'.addr = s.addr)
    (htid : s'.tid = s.tid) (hcount : s'.count = s.count) (hresult : s'.result = s.result)
    (hentry : entry < s.count ∧ s.result entry = none)
    (hlock : s.addr entry = some addr ∨ s.addr entry = none)
    (hholds : (s.pc t).locks = some (getFutexQueue addr))
    (hold : (s.pc t).unlinking = none ∧ (s.pc t).removing = false)
    (hwaits : pc.waits = (s.pc t).waits)
    (hnew : (pc.removing = true ∧ pc.unlinking = none ∧ (s.pc t).waits = some (entry, addr)) ∨
      pc.removing = false ∧ pc.unlinking = some (entry, addr) ∧ s.addr entry = some addr ∧
        (s.pc t).waits = none ∧ (s.pc (s.tid entry)).removing = false)
    (hcursor : ∀ b e, pc.cursor = some (b, e) → e ∈ (s.queue b).erase entry) : EntryInv s' := by
  have hother : ∀ u ≠ t, s'.pc u = s.pc u := by
    intro u hne
    rw [hpc, update_of_ne hne]
  have hself : s'.pc t = pc := by rw [hpc, update_self]
  have hwaits' : ∀ u, (s'.pc u).waits = (s.pc u).waits := by
    intro u
    by_cases heq : u = t
    · rw [heq, hself, hwaits]
    · rw [hother u heq]
  -- the threads of the other entries take no part
  have hthread : ∀ e, e < s.count → s.result e = none → e ≠ entry →
      (s'.pc (s.tid e)).removing = (s.pc (s.tid e)).removing := by
    intro e he hlive hne
    by_cases heq : s.tid e = t
    · obtain ⟨hremoving, _, hwait⟩ | ⟨hremoving, _⟩ := hnew
      · exact absurd heq (h.thread hwait he hlive hne)
      · rw [heq, hself, hremoving, hold.2]
    · rw [hother _ heq]
  have hunlinking : ∀ w, w ≠ t → ∀ e addr', (s.pc w).unlinking = some (e, addr') → e ≠ entry := by
    rintro w hne e addr' hw rfl
    obtain ⟨_, _, haddr', _⟩ := h.unlinking w e addr' hw
    obtain hsome | hnone := hlock
    · obtain rfl : addr = addr' := some.inj (hsome.symm.trans haddr')
      exact hne (hlocks.unique (Pc.locks_of_unlinking hw) hholds)
    · rw [hnone] at haddr'
      simp at haddr'
  constructor
  · intro u e addr' hu
    rw [hwaits'] at hu
    rw [hcount, htid, hresult, haddr]
    exact h.waits u e addr' hu
  · intro e he hlive
    rw [hcount] at he
    rw [hresult] at hlive
    rw [htid, hwaits']
    exact h.alive e he hlive
  · intro b e he
    rw [hqueue, (h.nodup b).mem_erase_iff] at he
    obtain ⟨hlt, hlive, hremoving, hsome⟩ := h.queued b e he.2
    rw [hcount, hresult, htid, haddr, hthread e hlt hlive he.1]
    exact ⟨hlt, hlive, hremoving, hsome⟩
  · intro b
    rw [hqueue]
    exact (h.sorted b).sublist erase_sublist
  · intro e addr' he hlive hsome
    rw [hcount] at he
    rw [hresult] at hlive
    rw [haddr] at hsome
    rw [htid, hqueue]
    by_cases heq : e = entry
    · subst heq
      obtain ⟨hremoving, _, hwait⟩ | ⟨_, hpc', haddr', _⟩ := hnew
      · rw [(h.waits t e addr hwait).2.1, hself]
        exact .inl hremoving
      · obtain rfl : addr = addr' := some.inj (haddr'.symm.trans hsome)
        exact .inr (.inr ⟨t, hself ▸ hpc'⟩)
    rw [hthread e he hlive heq]
    refine (h.linked e addr' he hlive hsome).imp id (Or.imp ?_ ?_)
    · exact (mem_erase_of_ne heq).mpr
    rintro ⟨w, hw⟩
    refine ⟨w, ?_⟩
    rw [hother w _]
    · exact hw
    · rintro rfl
      rw [hold.1] at hw
      simp at hw
  · intro w e addr' hw
    rw [hcount, hresult, haddr, htid]
    by_cases heq : w = t
    · rw [heq, hself] at hw
      obtain ⟨_, hpc', _⟩ | ⟨_, hpc', haddr', hwait, hremoving⟩ := hnew
      · rw [hpc'] at hw
        simp at hw
      rw [hpc'] at hw
      obtain ⟨rfl, rfl⟩ := Prod.mk.inj (some.inj hw)
      refine ⟨hentry.1, hentry.2, haddr', fun b hmem => ?_, ?_⟩
      · rw [hqueue, (h.nodup b).mem_erase_iff] at hmem
        exact hmem.1 rfl
      have hne : s.tid entry ≠ t := by
        obtain ⟨addr', hwait'⟩ := h.alive entry hentry.1 hentry.2
        intro htid'
        rw [htid', hwait] at hwait'
        simp at hwait'
      rw [hother _ hne]
      exact hremoving
    · rw [hother w heq] at hw
      obtain ⟨he, hlive, hsome, hout, hremoving⟩ := h.unlinking w e addr' hw
      refine ⟨he, hlive, hsome, fun b hmem => ?_, ?_⟩
      · rw [hqueue] at hmem
        exact hout b (mem_of_mem_erase hmem)
      · rw [hthread e he hlive (hunlinking w heq e addr' hw)]
        exact hremoving
  · intro w b e hw
    rw [hqueue]
    by_cases heq : w = t
    · rw [heq, hself] at hw
      exact hcursor b e hw
    rw [hother w heq] at hw
    have hmem := h.cursors w b e hw
    rw [(h.nodup b).mem_erase_iff]
    refine ⟨?_, hmem⟩
    obtain ⟨_, _, _, addr', haddr', rfl⟩ := h.queued b e hmem
    rintro rfl
    obtain hsome | hnone := hlock
    · exact h.cursor_ne hlocks hsome hholds hw heq rfl
    · rw [hnone] at haddr'
      simp at haddr'

omit [DecidableEq T] in
lemma EntryInv.queue_of_mem (h : EntryInv s) {e addr b : Nat} (haddr : s.addr e = some addr)
    (hmem : e ∈ s.queue b) : b = getFutexQueue addr := by
  obtain ⟨_, _, _, addr', haddr', rfl⟩ := h.queued b e hmem
  rw [some.inj (haddr.symm.trans haddr')]

omit [DecidableEq T] in
lemma EntryInv.unlink_queue (h : EntryInv s) {e addr : Nat} (haddr : s.addr e = some addr)
    (b : Nat) : (unlink s addr e).queue b = (s.queue b).erase e := by
  unfold unlink State.setQueue
  dsimp only
  by_cases hb : b = getFutexQueue addr
  · rw [hb, update_self]
  · rw [update_of_ne hb, erase_of_not_mem fun hmem => hb (h.queue_of_mem haddr hmem)]

lemma EntryInv.removeCheck {ret : Status} (h : EntryInv s) (hlocks : LockInv s)
    (hpc : s.pc t = .removeCheck entry addr ret) :
    EntryInv ((if s.addr entry = none then s else unlink s addr entry).setPc t
      (.removeUnlock entry addr ret)) := by
  have hwait : (s.pc t).waits = some (entry, addr) := by rw [hpc]; rfl
  obtain ⟨hlt, _, hlive, haddr⟩ := h.waits t entry addr hwait
  have hnew : (Pc.removeUnlock entry addr ret : Pc T).removing = true ∧
      (Pc.removeUnlock entry addr ret : Pc T).unlinking = none ∧
      (s.pc t).waits = some (entry, addr) := ⟨rfl, rfl, hwait⟩
  split
  · rename_i hnone
    refine @EntryInv.dequeue T s _ t _ (.removeUnlock entry addr ret) _ _ h hlocks rfl (fun b => ?_) rfl rfl rfl rfl
      ⟨hlt, hlive⟩ haddr (by rw [hpc]; rfl) (by rw [hpc]; exact ⟨rfl, rfl⟩) (by rw [hpc]; rfl)
      (.inl hnew) (by simp [Pc.cursor])
    refine (erase_of_not_mem fun hmem => ?_).symm
    obtain ⟨_, _, _, addr', haddr', _⟩ := h.queued b entry hmem
    rw [hnone] at haddr'
    simp at haddr'
  rename_i hsome
  have haddr' : s.addr entry = some addr := haddr.resolve_right hsome
  exact @EntryInv.dequeue T s _ t _ (.removeUnlock entry addr ret) _ _ h hlocks rfl (h.unlink_queue haddr') rfl rfl
    rfl rfl ⟨hlt, hlive⟩ haddr (by rw [hpc]; rfl) (by rw [hpc]; exact ⟨rfl, rfl⟩)
    (by rw [hpc]; rfl) (.inl hnew) (by simp [Pc.cursor])

lemma EntryInv.take {all : Bool} {addr call entry : Nat} {tids : List T} (h : EntryInv s)
    (hlocks : LockInv s) (hpc : s.pc t = .scan all addr call (some entry) tids)
    (haddr : s.addr entry = some addr) : EntryInv (take s t all addr call entry tids) := by
  have hmem := h.cursors t (getFutexQueue addr) entry (by rw [hpc]; rfl)
  obtain ⟨hlt, hlive, hremoving, _⟩ := h.queued _ entry hmem
  apply @EntryInv.dequeue T s (AddressWaits.take s t all addr call entry tids) t _ _ entry addr h
    hlocks rfl (h.unlink_queue haddr) rfl rfl rfl rfl ⟨hlt, hlive⟩ (.inl haddr)
    (by rw [hpc]; rfl) (by rw [hpc]; exact ⟨rfl, rfl⟩) (by rw [hpc]; rfl)
  · exact .inr ⟨rfl, rfl, haddr, by rw [hpc]; rfl, hremoving⟩
  intro b e hcursor
  cases hnext : nextIn (s.queue (getFutexQueue addr)) entry with
  | none =>
    rw [hnext] at hcursor
    exact absurd hcursor (by simp [Pc.cursor])
  | some other =>
    rw [hnext] at hcursor
    obtain ⟨rfl, rfl⟩ := Prod.mk.inj (some.inj hcursor)
    exact mem_erase_of_nextIn (h.nodup _) hmem hnext

lemma EntryInv.clear {all : Bool} {addr call entry : Nat} {tid : T} {next : Option Nat}
    {tids : List T} (h : EntryInv s) (hlocks : LockInv s)
    (hpc : s.pc t = .unlinked all addr call entry tid next tids)
    (hpc' : s'.pc = update s.pc t pc) (hqueue : s'.queue = s.queue)
    (haddr : s'.addr = update s.addr entry none) (htid : s'.tid = s.tid)
    (hcount : s'.count = s.count) (hresult : s'.result = s.result)
    (hnew : pc.waits = none ∧ pc.removing = false ∧ pc.unlinking = none)
    (hcursor : pc.cursor = none ∨ pc.cursor = (s.pc t).cursor) : EntryInv s' := by
  have hother : ∀ u ≠ t, s'.pc u = s.pc u := by
    intro u hne
    rw [hpc', update_of_ne hne]
  have hself : s'.pc t = pc := by rw [hpc', update_self]
  have hunlinking : (s.pc t).unlinking = some (entry, addr) := by rw [hpc]; rfl
  obtain ⟨_, _, hsome, hout, _⟩ := h.unlinking t entry addr hunlinking
  have hremoving : ∀ u, (s'.pc u).removing = (s.pc u).removing := by
    intro u
    by_cases heq : u = t
    · rw [heq, hself, hnew.2.1, hpc]
      rfl
    · rw [hother u heq]
  have hwaits : ∀ u, (s'.pc u).waits = (s.pc u).waits := by
    intro u
    by_cases heq : u = t
    · rw [heq, hself, hnew.1, hpc]
      rfl
    · rw [hother u heq]
  constructor
  · intro u e addr' hu
    rw [hwaits] at hu
    obtain ⟨hlt, htid', hlive, haddr'⟩ := h.waits u e addr' hu
    rw [hcount, htid, hresult, haddr]
    refine ⟨hlt, htid', hlive, ?_⟩
    by_cases heq : e = entry
    · rw [heq, update_self]
      exact .inr rfl
    · rw [update_of_ne heq]
      exact haddr'
  · intro e he hlive
    rw [hcount] at he
    rw [hresult] at hlive
    rw [htid, hwaits]
    exact h.alive e he hlive
  · intro b e he
    rw [hqueue] at he
    have hne : e ≠ entry := by
      rintro rfl
      exact hout b he
    rw [hcount, hresult, htid, hremoving, haddr, update_of_ne hne]
    exact h.queued b e he
  · rw [hqueue]
    exact h.sorted
  · intro e addr' he hlive hsome'
    rw [hcount] at he
    rw [hresult] at hlive
    rw [haddr] at hsome'
    have hne : e ≠ entry := by
      rintro rfl
      simp at hsome'
    rw [update_of_ne hne] at hsome'
    rw [htid, hqueue, hremoving]
    refine (h.linked e addr' he hlive hsome').imp id (Or.imp id ?_)
    rintro ⟨w, hw⟩
    refine ⟨w, ?_⟩
    rw [hother w _]
    · exact hw
    · rintro rfl
      rw [hunlinking] at hw
      exact hne (Prod.mk.inj (some.inj hw)).1.symm
  · intro w e addr' hw
    by_cases heq : w = t
    · rw [heq, hself, hnew.2.2] at hw
      simp at hw
    rw [hother w heq] at hw
    obtain ⟨he, hlive, hsome', hout', hremoving'⟩ := h.unlinking w e addr' hw
    have hne : e ≠ entry := by
      rintro rfl
      obtain rfl : addr = addr' := some.inj (hsome.symm.trans hsome')
      exact heq (hlocks.unique (Pc.locks_of_unlinking hw) (Pc.locks_of_unlinking hunlinking))
    rw [hcount, hresult, haddr, hqueue, htid, hremoving, update_of_ne hne]
    exact ⟨he, hlive, hsome', hout', hremoving'⟩
  · intro w b e hw
    rw [hqueue]
    by_cases heq : w = t
    · rw [heq, hself] at hw
      obtain hnone | hsame := hcursor
      · rw [hnone] at hw
        simp at hw
      · exact h.cursors t b e (hsame ▸ hw)
    · rw [hother w heq] at hw
      exact h.cursors w b e hw

lemma EntryInv.finish {ret : Status} (h : EntryInv s) (hwait : (s.pc t).waits = some (entry, addr))
    (hout : s.addr entry = none ∨ (s.pc t).removing = true)
    (hpc : s'.pc = update s.pc t .idle) (hqueue : s'.queue = s.queue)
    (haddr : s'.addr = s.addr) (htid : s'.tid = s.tid) (hcount : s'.count = s.count)
    (hresult : s'.result = update s.result entry (some ret)) : EntryInv s' := by
  obtain ⟨_, htid', _, _⟩ := h.waits t entry addr hwait
  have hother : ∀ u ≠ t, s'.pc u = s.pc u := by
    intro u hne
    rw [hpc, update_of_ne hne]
  have hself : s'.pc t = .idle := by rw [hpc, update_self]
  have hqueued : ∀ b, ∀ e ∈ s.queue b, e ≠ entry := by
    rintro b e hmem rfl
    obtain ⟨_, _, hremoving, addr', hsome, _⟩ := h.queued b e hmem
    obtain hnone | hremoving' := hout
    · rw [hnone] at hsome
      simp at hsome
    · rw [htid', hremoving'] at hremoving
      simp at hremoving
  have hunlinking : ∀ w e addr', (s.pc w).unlinking = some (e, addr') → e ≠ entry := by
    rintro w e addr' hw rfl
    obtain ⟨_, _, hsome, _, hremoving⟩ := h.unlinking w e addr' hw
    obtain hnone | hremoving' := hout
    · rw [hnone] at hsome
      simp at hsome
    · rw [htid', hremoving'] at hremoving
      simp at hremoving
  have hunlinking_t : (s.pc t).unlinking = none := by
    cases hstep : s.pc t with
    | unlinked => simp [hstep, Pc.waits] at hwait
    | _ => rfl
  constructor
  · intro u e addr' hu
    by_cases heq : u = t
    · rw [heq, hself] at hu
      exact absurd hu (by simp [Pc.waits])
    rw [hother u heq] at hu
    have hne : e ≠ entry := by
      rintro rfl
      exact heq (h.wait_unique hu hwait)
    rw [hcount, htid, hresult, haddr, update_of_ne hne]
    exact h.waits u e addr' hu
  · intro e he hlive
    rw [hcount] at he
    rw [hresult] at hlive
    have hne : e ≠ entry := by
      rintro rfl
      simp at hlive
    rw [update_of_ne hne] at hlive
    rw [htid, hother _ (h.thread hwait he hlive hne)]
    exact h.alive e he hlive
  · intro b e he
    rw [hqueue] at he
    have hne := hqueued b e he
    obtain ⟨hlt, hlive, hrest⟩ := h.queued b e he
    rw [hcount, hresult, htid, haddr, update_of_ne hne, hother _ (h.thread hwait hlt hlive hne)]
    exact ⟨hlt, hlive, hrest⟩
  · rw [hqueue]
    exact h.sorted
  · intro e addr' he hlive hsome
    rw [hcount] at he
    rw [hresult] at hlive
    rw [haddr] at hsome
    have hne : e ≠ entry := by
      rintro rfl
      simp at hlive
    rw [update_of_ne hne] at hlive
    rw [htid, hqueue, hother _ (h.thread hwait he hlive hne)]
    refine (h.linked e addr' he hlive hsome).imp id (Or.imp id ?_)
    rintro ⟨w, hw⟩
    refine ⟨w, ?_⟩
    rw [hother w _]
    · exact hw
    · rintro rfl
      rw [hunlinking_t] at hw
      simp at hw
  · intro w e addr' hw
    have hwt : w ≠ t := by
      rintro rfl
      rw [hself] at hw
      exact absurd hw (by simp [Pc.unlinking])
    rw [hother w hwt] at hw
    have hne := hunlinking w e addr' hw
    obtain ⟨he, hlive, hrest⟩ := h.unlinking w e addr' hw
    rw [hcount, hresult, haddr, hqueue, htid, update_of_ne hne,
      hother _ (h.thread hwait he hlive hne)]
    exact ⟨he, hlive, hrest⟩
  · intro w b e hw
    have hwt : w ≠ t := by
      rintro rfl
      rw [hself] at hw
      exact absurd hw (by simp [Pc.cursor])
    rw [hqueue]
    rw [hother w hwt] at hw
    exact h.cursors w b e hw

end EntrySteps

end WineForge.AddressWaits
