import Mathlib.Data.List.Nodup
import Mathlib.Algebra.Order.Ring.Int

/-!
# Address waits

`RtlWaitOnAddress` and `RtlWakeAddressSingle` / `RtlWakeAddressAll` as the locks use them. What is
done under the spin lock of a queue is one step here; the alert that a waiter sleeps for is sent
after the lock is released, and may also come from elsewhere.
-/

namespace WineForge.AddressWaits

open Function List Option

/-- Where a thread is inside the calls. -/
inductive Phase (T A : Type)
  | out
  /-- In `NtWaitForAlertByThreadId`. -/
  | asleep (addr : A)
  /-- The alert wait has returned; the entry may still be queued. -/
  | woken (addr : A)
  /-- The entries of these threads were removed, and the threads are still to be alerted. -/
  | alerting (tids : List T)
  deriving DecidableEq, Repr

structure Futexes (T A : Type) where
  /-- The queued entries, each one with its thread and its address. -/
  queue : List (T × A)
  /-- The alert that `NtWaitForAlertByThreadId` waits for and consumes. -/
  alerted : T → Bool
  phase : T → Phase T A

variable {T A : Type} {f f' : Futexes T A} {t u : T} {addr a : A}

namespace Futexes

def Asleep (f : Futexes T A) (t : T) : Prop :=
  (∃ addr, f.phase t = .asleep addr) ∧ f.alerted t = false

/-- The entries belong to waiters, and a sleeper without an entry is alerted. -/
structure Inv (f : Futexes T A) : Prop where
  nodup : (f.queue.map (·.1)).Nodup
  queued : ∀ t addr, (t, addr) ∈ f.queue → f.phase t = .asleep addr ∨ f.phase t = .woken addr
  sleeper : ∀ t addr, f.phase t = .asleep addr →
    (t, addr) ∈ f.queue ∨ f.alerted t = true ∨
      ∃ u tids, f.phase u = .alerting tids ∧ t ∈ tids

def Dormant (f : Futexes T A) (t : T) (addr : A) : Prop :=
  (t, addr) ∈ f.queue ∧ f.phase t = .asleep addr

lemma Inv.not_queued (h : f.Inv) (hout : ∀ addr, f.phase t ≠ .asleep addr ∧ f.phase t ≠ .woken addr)
    : (t, addr) ∉ f.queue := by
  intro hmem
  obtain hasleep | hwoken := h.queued t addr hmem
  · exact (hout addr).1 hasleep
  · exact (hout addr).2 hwoken

lemma Inv.of_phase (h : f.Inv) (hqueue : ∀ p, p ∈ f'.queue → p ∈ f.queue)
    (hnodup : (f'.queue.map (·.1)).Nodup)
    (hothers : ∀ u ≠ t, f'.phase u = f.phase u ∧ (f.alerted u = true → f'.alerted u = true) ∧
      ∀ a, (u, a) ∈ f.queue → (u, a) ∈ f'.queue)
    (hself : ∀ a, (t, a) ∈ f'.queue → f'.phase t = .woken a)
    (hphase : ∀ a, f'.phase t ≠ .asleep a)
    (hold : ∀ tids, f.phase t ≠ .alerting tids) : f'.Inv := by
  refine ⟨hnodup, fun u a hmem => ?_, fun u a hasleep => ?_⟩
  · by_cases heq : u = t
    · subst heq
      exact .inr (hself a hmem)
    · rw [(hothers u heq).1]
      exact h.queued u a (hqueue _ hmem)
  by_cases heq : u = t
  · subst heq
    exact absurd hasleep (hphase a)
  obtain ⟨hkeep, halert, hentry⟩ := hothers u heq
  rw [hkeep] at hasleep
  refine (h.sleeper u a hasleep).imp (hentry a) (Or.imp halert ?_)
  rintro ⟨v, tids, hv, hmem⟩
  refine ⟨v, tids, ?_, hmem⟩
  rw [(hothers v _).1]
  · exact hv
  · rintro rfl
    exact hold tids hv

variable [DecidableEq T]

def remove (f : Futexes T A) (t : T) : List (T × A) := f.queue.filter (·.1 ≠ t)

/-- The locked part of `RtlWaitOnAddress` after the comparison. -/
def wait (f : Futexes T A) (t : T) (addr : A) : Futexes T A :=
  { f with
    queue := f.queue ++ [(t, addr)]
    phase := update f.phase t (.asleep addr) }

/-- The next step of a thread inside `RtlWaitOnAddress`. -/
def resume (f : Futexes T A) (t : T) : Option (Futexes T A) :=
  match f.phase t with
  | .asleep addr =>
    if f.alerted t then
      some { f with
        alerted := update f.alerted t false
        phase := update f.phase t (.woken addr) }
    else none
  | .woken _ => some { f with queue := f.remove t, phase := update f.phase t .out }
  | _ => none

def timeout (f : Futexes T A) (t : T) : Option (Futexes T A) :=
  match f.phase t with
  | .asleep addr => some { f with phase := update f.phase t (.woken addr) }
  | _ => none

/-- The locked part of `RtlWakeAddressSingle`. -/
def wakeSingle [DecidableEq A] (f : Futexes T A) (t : T) (addr : A) : Futexes T A :=
  match f.queue.find? (·.2 = addr) with
  | none => f
  | some (u, _) =>
    { f with queue := f.remove u, phase := update f.phase t (.alerting [u]) }

/-- The locked part of `RtlWakeAddressAll`. -/
def wakeAll [DecidableEq A] (f : Futexes T A) (t : T) (addr : A) : Futexes T A :=
  { f with
    queue := f.queue.filter (·.2 ≠ addr)
    phase := update f.phase t (.alerting ((f.queue.filter (·.2 = addr)).map (·.1))) }

def alert (f : Futexes T A) (t : T) : Futexes T A :=
  { f with alerted := update f.alerted t true }

def alertNext (f : Futexes T A) (t : T) : Option (Futexes T A) :=
  match f.phase t with
  | .alerting [] => some { f with phase := update f.phase t .out }
  | .alerting (u :: tids) =>
    some { f.alert u with phase := update f.phase t (.alerting tids) }
  | _ => none

lemma mem_remove {p : T × A} : p ∈ f.remove t ↔ p ∈ f.queue ∧ p.1 ≠ t := by
  unfold remove
  rw [mem_filter, decide_eq_true_iff]

lemma Inv.wait (h : f.Inv) (hout : f.phase t = .out) : (f.wait t addr).Inv := by
  have hnew : ∀ a, (t, a) ∉ f.queue := fun a => h.not_queued fun _ => by simp [hout]
  constructor
  · unfold Futexes.wait
    rw [map_append, nodup_append']
    refine ⟨h.nodup, nodup_singleton _, ?_⟩
    intro x hx hx'
    obtain ⟨⟨y, b⟩, hmem, rfl⟩ := mem_map.mp hx
    obtain rfl : y = t := by simpa using hx'
    exact hnew b hmem
  · intro u b hmem
    unfold Futexes.wait at hmem ⊢
    dsimp only at hmem ⊢
    obtain hold | hadded := mem_append.mp hmem
    · have hne : u ≠ t := by
        rintro rfl
        exact hnew b hold
      rw [update_of_ne hne]
      exact h.queued u b hold
    · obtain ⟨rfl, rfl⟩ : u = t ∧ b = addr := by simpa using hadded
      exact .inl (update_self _ _ _)
  · intro u b hasleep
    unfold Futexes.wait at hasleep ⊢
    dsimp only at hasleep ⊢
    by_cases heq : u = t
    · rw [heq, update_self] at hasleep
      obtain rfl : addr = b := by simpa using hasleep
      rw [heq]
      exact .inl (mem_append_right _ mem_cons_self)
    rw [update_of_ne heq] at hasleep
    refine (h.sleeper u b hasleep).imp (mem_append_left _) (Or.imp_right ?_)
    rintro ⟨v, tids, hv, hmem⟩
    refine ⟨v, tids, ?_, hmem⟩
    rw [update_of_ne _]
    · exact hv
    · rintro rfl
      simp [hout] at hv

variable {b : A}

lemma dormant_wait (hdormant : (f.wait t addr).Dormant u b) : f.Dormant u b ∨ u = t ∧ b = addr := by
  obtain ⟨hmem, hasleep⟩ := hdormant
  unfold Futexes.wait at hmem hasleep
  dsimp only at hmem hasleep
  by_cases heq : u = t
  · rw [heq, update_self] at hasleep
    exact .inr ⟨heq, by simpa using hasleep.symm⟩
  · rw [update_of_ne heq] at hasleep
    refine .inl ⟨?_, hasleep⟩
    simpa [heq] using hmem

lemma resume_cases (h : f.resume t = some f') :
    (∃ addr, f.phase t = .asleep addr ∧ f.alerted t = true ∧
      f' = { f with
        alerted := update f.alerted t false
        phase := update f.phase t (.woken addr) }) ∨
    ∃ addr, f.phase t = .woken addr ∧
      f' = { f with queue := f.remove t, phase := update f.phase t .out } := by
  unfold resume at h
  split at h
  · rename_i addr hphase
    split at h
    · rename_i halert
      exact .inl ⟨addr, hphase, halert, (some.inj h).symm⟩
    · simp at h
  · rename_i addr hphase
    exact .inr ⟨addr, hphase, (some.inj h).symm⟩
  · simp at h

lemma Inv.awake {alerted : T → Bool} (h : f.Inv) (hphase : f.phase t = .asleep addr)
    (hothers : ∀ u ≠ t, alerted u = f.alerted u) :
    Inv { f with phase := update f.phase t (.woken addr), alerted := alerted } := by
  refine h.of_phase (t := t) (fun p hp => hp) h.nodup ?_ ?_ ?_ ?_
  · intro u hne
    dsimp only
    rw [update_of_ne hne, hothers u hne]
    exact ⟨rfl, id, fun _ hmem => hmem⟩
  · intro a hmem
    dsimp only at hmem ⊢
    rw [update_self]
    obtain hasleep | hwoken := h.queued t a hmem
    · rw [hphase] at hasleep
      simpa using hasleep
    · rw [hphase] at hwoken
      simp at hwoken
  · intro a
    dsimp only
    rw [update_self]
    simp
  · simp [hphase]

lemma Inv.resume (h : f.Inv) (hresume : f.resume t = some f') : f'.Inv := by
  obtain ⟨addr, hphase, halert, rfl⟩ | ⟨addr, hphase, rfl⟩ := resume_cases hresume
  · exact h.awake hphase fun u hne => update_of_ne hne _ _
  refine h.of_phase (t := t) ?_ ?_ ?_ ?_ ?_ ?_
  · intro p hp
    exact (mem_remove.mp hp).1
  · exact h.nodup.sublist (filter_sublist.map _)
  · intro u hne
    dsimp only
    rw [update_of_ne hne]
    exact ⟨rfl, id, fun a hmem => mem_remove.mpr ⟨hmem, hne⟩⟩
  · intro a hmem
    exact absurd rfl (mem_remove.mp hmem).2
  · intro a
    dsimp only
    rw [update_self]
    simp
  · simp [hphase]

lemma timeout_eq_some : f.timeout t = some f' ↔ ∃ addr, f.phase t = .asleep addr ∧
      f' = { f with phase := update f.phase t (.woken addr) } := by
  unfold timeout
  cases hphase : f.phase t with
  | asleep addr =>
    constructor
    · intro h
      exact ⟨addr, rfl, (some.inj h).symm⟩
    · rintro ⟨b, hb, rfl⟩
      obtain rfl : addr = b := by simpa using hb
      rfl
  | _ => simp

lemma Inv.timeout (h : f.Inv) (htimeout : f.timeout t = some f') : f'.Inv := by
  obtain ⟨addr, hphase, rfl⟩ := timeout_eq_some.mp htimeout
  exact h.awake hphase fun _ _ => rfl

lemma dormant_resume (hresume : f.resume t = some f') (hdormant : f'.Dormant u b) :
    f.Dormant u b ∧ u ≠ t := by
  obtain ⟨hmem, hasleep⟩ := hdormant
  obtain ⟨addr, _, _, rfl⟩ | ⟨addr, _, rfl⟩ := resume_cases hresume
  · dsimp only at hmem hasleep
    by_cases heq : u = t
    · rw [heq, update_self] at hasleep
      simp at hasleep
    · rw [update_of_ne heq] at hasleep
      exact ⟨⟨hmem, hasleep⟩, heq⟩
  dsimp only at hmem hasleep
  obtain ⟨hmem, heq⟩ := mem_remove.mp hmem
  rw [update_of_ne heq] at hasleep
  exact ⟨⟨hmem, hasleep⟩, heq⟩

omit [DecidableEq T] in
lemma Inv.of_wake {tids : List T} (h : f.Inv) (hout : f.phase t = .out)
    (hqueue : f'.queue.Sublist f.queue) (halerted : f'.alerted = f.alerted)
    (hothers : ∀ u ≠ t, f'.phase u = f.phase u) (hself : f'.phase t = .alerting tids)
    (htaken : ∀ p ∈ f.queue, p ∈ f'.queue ∨ p.1 ∈ tids) : f'.Inv := by
  refine ⟨h.nodup.sublist (hqueue.map _), fun u a hmem => ?_, fun u a hasleep => ?_⟩
  · have hold := h.queued u a (hqueue.subset hmem)
    have hne : u ≠ t := by
      rintro rfl
      simp [hout] at hold
    rw [hothers u hne]
    exact hold
  have hne : u ≠ t := by
    rintro rfl
    simp [hself] at hasleep
  rw [hothers u hne] at hasleep
  rw [halerted]
  obtain hmem | halert | ⟨v, tids', hv, hmem⟩ := h.sleeper u a hasleep
  · exact (htaken _ hmem).imp id fun hmem => .inr ⟨t, tids, hself, hmem⟩
  · exact .inr (.inl halert)
  refine .inr (.inr ⟨v, tids', ?_, hmem⟩)
  rw [hothers v _]
  · exact hv
  · rintro rfl
    simp [hout] at hv

lemma wakeSingle_cases [DecidableEq A] (f : Futexes T A) (t : T) (addr : A) :
    (f.wakeSingle t addr = f ∧ ∀ u, (u, addr) ∉ f.queue) ∨
    ∃ u, (u, addr) ∈ f.queue ∧ f.wakeSingle t addr =
      { f with queue := f.remove u, phase := update f.phase t (.alerting [u]) } := by
  unfold wakeSingle
  cases hfind : f.queue.find? (·.2 = addr) with
  | none =>
    refine .inl ⟨rfl, fun u hmem => ?_⟩
    simpa using find?_eq_none.mp hfind _ hmem
  | some p =>
    obtain ⟨u, b⟩ := p
    have hmem := mem_of_find?_eq_some hfind
    have haddr : b = addr := by simpa using find?_some hfind
    exact .inr ⟨u, haddr ▸ hmem, rfl⟩

lemma Inv.wakeSingle [DecidableEq A] (h : f.Inv) (hout : f.phase t = .out) (addr : A) :
    (f.wakeSingle t addr).Inv := by
  obtain ⟨heq, _⟩ | ⟨u, _, heq⟩ := wakeSingle_cases f t addr
  · rw [heq]
    exact h
  rw [heq]
  refine @of_wake T A f _ t [u] h hout ?_ rfl ?_ ?_ ?_
  · exact filter_sublist
  · intro v hne
    exact update_of_ne hne _ _
  · exact update_self _ _ _
  intro p hp
  by_cases hu : p.1 = u
  · exact .inr (mem_singleton.mpr hu)
  · exact .inl (mem_remove.mpr ⟨hp, hu⟩)

lemma dormant_wakeSingle [DecidableEq A] (hdormant : (f.wakeSingle t addr).Dormant u b) :
    f.Dormant u b ∧
      (b = addr → ∃ v, (v, addr) ∈ f.queue ∧ (v, addr) ∉ (f.wakeSingle t addr).queue) := by
  obtain ⟨heq, hnone⟩ | ⟨v, hv, heq⟩ := wakeSingle_cases f t addr
  · rw [heq] at hdormant
    exact ⟨hdormant, fun hb => absurd (hb ▸ hdormant.1) (hnone u)⟩
  rw [heq] at hdormant ⊢
  obtain ⟨hmem, hasleep⟩ := hdormant
  obtain ⟨hmem, _⟩ := mem_remove.mp hmem
  refine ⟨⟨hmem, ?_⟩, fun _ => ⟨v, hv, fun hv' => (mem_remove.mp hv').2 rfl⟩⟩
  dsimp only at hasleep
  by_cases htu : u = t
  · rw [htu, update_self] at hasleep
    simp at hasleep
  · rw [update_of_ne htu] at hasleep
    exact hasleep

lemma Inv.wakeAll [DecidableEq A] (h : f.Inv) (hout : f.phase t = .out) (addr : A) :
    (f.wakeAll t addr).Inv := by
  refine h.of_wake hout filter_sublist rfl (t := t)
    (fun v hne => update_of_ne hne _ _) (update_self _ _ _) ?_
  intro p hp
  by_cases haddr : p.2 = addr
  · refine .inr (mem_map.mpr ⟨p, mem_filter.mpr ⟨hp, ?_⟩, rfl⟩)
    exact decide_eq_true haddr
  · exact .inl (mem_filter.mpr ⟨hp, decide_eq_true haddr⟩)

lemma dormant_wakeAll [DecidableEq A] (hdormant : (f.wakeAll t addr).Dormant u b) :
    f.Dormant u b ∧ b ≠ addr := by
  obtain ⟨hmem, hasleep⟩ := hdormant
  unfold Futexes.wakeAll at hmem hasleep
  dsimp only at hmem hasleep
  obtain ⟨hmem, hb⟩ := mem_filter.mp hmem
  have hne : u ≠ t := by
    rintro rfl
    simp at hasleep
  rw [update_of_ne hne] at hasleep
  exact ⟨⟨hmem, hasleep⟩, of_decide_eq_true hb⟩

lemma Inv.alert (h : f.Inv) (t : T) : (f.alert t).Inv := by
  refine ⟨h.nodup, h.queued, fun u a hasleep => ?_⟩
  refine (h.sleeper u a hasleep).imp id (Or.imp_left fun halert => ?_)
  unfold Futexes.alert
  dsimp only
  by_cases heq : u = t
  · rw [heq, update_self]
  · rw [update_of_ne heq]
    exact halert

lemma alertNext_cases (h : f.alertNext t = some f') :
    (f.phase t = .alerting [] ∧ f' = { f with phase := update f.phase t .out }) ∨
    ∃ u tids, f.phase t = .alerting (u :: tids) ∧
      f' = { f.alert u with phase := update f.phase t (.alerting tids) } := by
  unfold alertNext at h
  split at h
  · rename_i hphase
    exact .inl ⟨hphase, (some.inj h).symm⟩
  · rename_i u tids hphase
    exact .inr ⟨u, tids, hphase, (some.inj h).symm⟩
  · simp at h

lemma Inv.alertNext (h : f.Inv) (halertNext : f.alertNext t = some f') : f'.Inv := by
  have hqueued : ∀ {phase : Phase T A} {tids : List T}, f.phase t = .alerting tids →
      ∀ u a, (u, a) ∈ f.queue → update f.phase t phase u = .asleep a ∨
        update f.phase t phase u = .woken a := by
    intro phase tids hphase u a hmem
    have hold := h.queued u a hmem
    rw [update_of_ne _]
    · exact hold
    · rintro rfl
      simp [hphase] at hold
  obtain ⟨hphase, rfl⟩ | ⟨v, tids, hphase, rfl⟩ := alertNext_cases halertNext
  · refine ⟨h.nodup, hqueued hphase, fun u a hasleep => ?_⟩
    dsimp only at hasleep ⊢
    have hne : u ≠ t := by
      rintro rfl
      simp at hasleep
    rw [update_of_ne hne] at hasleep
    refine (h.sleeper u a hasleep).imp id (Or.imp_right ?_)
    rintro ⟨w, tids, hw, hmem⟩
    refine ⟨w, tids, ?_, hmem⟩
    rw [update_of_ne _]
    · exact hw
    rintro rfl
    rw [hphase] at hw
    obtain rfl : [] = tids := by simpa using hw
    simp at hmem
  · refine ⟨h.nodup, hqueued hphase, fun u a hasleep => ?_⟩
    dsimp only at hasleep ⊢
    have hne : u ≠ t := by
      rintro rfl
      simp at hasleep
    rw [update_of_ne hne] at hasleep
    obtain hmem | halert | ⟨w, tids', hw, hmem⟩ := (h.alert v).sleeper u a hasleep
    · exact .inl hmem
    · exact .inr (.inl halert)
    have hw : f.phase w = .alerting tids' := hw
    by_cases hwt : w = t
    · subst hwt
      rw [hphase] at hw
      obtain rfl : v :: tids = tids' := by simpa using hw
      obtain rfl | hmem := mem_cons.mp hmem
      · exact .inr (.inl (update_self _ _ _))
      · exact .inr (.inr ⟨w, tids, update_self _ _ _, hmem⟩)
    · exact .inr (.inr ⟨w, tids', (update_of_ne hwt _ _).trans hw, hmem⟩)

lemma dormant_alertNext (halertNext : f.alertNext t = some f')
    (hdormant : f'.Dormant u b) : f.Dormant u b := by
  obtain ⟨hmem, hasleep⟩ := hdormant
  obtain ⟨_, rfl⟩ | ⟨v, tids, _, rfl⟩ := alertNext_cases halertNext
  · dsimp only at hmem hasleep
    have hne : u ≠ t := by
      rintro rfl
      simp at hasleep
    rw [update_of_ne hne] at hasleep
    exact ⟨hmem, hasleep⟩
  dsimp only at hmem hasleep
  have hne : u ≠ t := by
    rintro rfl
    simp at hasleep
  rw [update_of_ne hne] at hasleep
  exact ⟨hmem, hasleep⟩

omit [DecidableEq T] in
lemma Inv.rest (h : f.Inv) (hrest : ∀ u, f.phase u = .out ∨ f.Asleep u)
    (hasleep : f.phase t = .asleep addr) : f.Dormant t addr := by
  refine ⟨?_, hasleep⟩
  obtain hmem | halert | ⟨u, tids, hu, _⟩ := h.sleeper t addr hasleep
  · exact hmem
  · obtain hout | hasleep' := hrest t
    · simp [hasleep] at hout
    · exact absurd hasleep'.2 (by simp [halert])
  · obtain hout | ⟨⟨a, ha⟩, _⟩ := hrest u
    · simp [hu] at hout
    · simp [hu] at ha

end Futexes

end WineForge.AddressWaits
