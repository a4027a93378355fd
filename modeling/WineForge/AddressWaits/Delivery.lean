import WineForge.AddressWaits.Wakes

/-!
# Address waits and wakes

Which wakes reach a waiter in every interleaving, and the run in which a wake is lost.
-/

namespace WineForge.AddressWaits

open Function Library

variable {T : Type} [DecidableEq T] {s s' : State T} {t : T}

/-- No alert wait returns `STATUS_TIMEOUT` after a wake has taken its entry, and no wake takes an
entry whose alert wait has returned `STATUS_TIMEOUT`. -/
def Fair (s : State T) : Op T → Prop
  | .next t => FairNext s t
  | .timeout t => ∀ entry addr timed, s.pc t = .sleeping entry addr timed →
      entry ∈ s.queue (getFutexQueue addr)
  | _ => True

variable {op : Op T}

lemma Outside.calls (hstep : Outside s op s') (h : CallInv s) : CallInv s' := by
  cases hstep with
  | begin _ t pc hpc hkind =>
    apply h.quiet rfl (by rw [hpc]; rfl)
    · obtain ⟨_, _, _, _, rfl⟩ | ⟨_, _, rfl | rfl⟩ := hkind <;> rfl
    · rfl
    · exact fun _ _ _ => rfl
    · rfl
    · rfl
    · rfl
  | timeout t entry addr hpc =>
    exact h.quiet rfl (by rw [hpc]; rfl) rfl rfl (fun _ _ _ => rfl) rfl rfl rfl
  | alert t | write _ mem => exact ⟨h.scans, h.distinct, h.records, h.unfinished⟩

lemma Outside.taken (hstep : Outside s op s') (h : TakenInv s) (hcalls : CallInv s)
    (hfair : Fair s op) : TakenInv s' := by
  cases hstep with
  | begin _ t pc hpc hkind =>
    have hwaits : pc.waits = none := by
      obtain ⟨_, _, _, _, rfl⟩ | ⟨_, _, rfl | rfl⟩ := hkind <;> rfl
    have hdozing : pc.dozing = none := by
      obtain ⟨_, _, _, _, rfl⟩ | ⟨_, _, rfl | rfl⟩ := hkind <;> rfl
    apply h.quiet hcalls.records rfl (.inl hwaits) (.inr (.inr hwaits)) (.inl hdozing)
    · intro u hu
      rw [hpc] at hu
      exact absurd hu (by simp [Pc.alerts])
    · exact fun _ _ => id
    · rfl
    · rfl
    · exact fun c hc => .inl ⟨hc, rfl⟩
  | timeout t entry addr hpc =>
    have hqueued := hfair entry addr true hpc
    have hpc' : (s.setPc t (.checkAddr entry addr .timeout)).pc =
        update s.pc t (.checkAddr entry addr .timeout) := rfl
    apply h.of_step hcalls.records hpc' (fun _ _ => rfl) (fun _ _ => .inl rfl)
    · intro u _ hdue
      apply hdue.step hpc' id
      intro hu
      rw [hpc] at hu
      exact absurd hu (by simp [Pc.alerts])
    · -- a queued entry has not been taken
      intro e addr' hwait
      obtain ⟨rfl, _⟩ := Prod.mk.inj (Option.some.inj hwait)
      exact .inl fun c hc hmem => (hcalls.records.taken c hc _ hmem).2 _ hqueued
    · exact fun c hc e he => .inl ⟨hc, he⟩
  | alert t =>
    have hpc' : (alertThread s t).pc = update s.pc t (s.pc t) :=
      (update_eq_self t s.pc).symm
    apply h.quiet hcalls.records hpc' (.inr rfl) (.inl rfl) (.inr rfl) (fun u hu => .inl hu)
    · intro u _ halerted
      by_cases heq : u = t
      · rw [heq]
        exact update_self _ _ _
      · exact (update_of_ne heq _ _).trans halerted
    · rfl
    · rfl
    · exact fun c hc => .inl ⟨hc, rfl⟩
  | write _ mem =>
    intro c hc e he
    have hold := h c hc e he
    exact ⟨hold.result, hold.ret, hold.due⟩

omit [DecidableEq T] in
lemma Initial.calls (h : Initial s) : CallInv s := by
  obtain ⟨_, _, hpc, _, hcount⟩ := h
  constructor
  · intro w
    rw [hpc]
    trivial
  · intro w w' c hw
    rw [hpc] at hw
    exact absurd hw (by simp [Pc.call])
  · constructor <;> (intro c hc; omega)
  · intro c hc
    omega

omit [DecidableEq T] in
lemma Initial.taken (h : Initial s) : TakenInv s := by
  intro c hc
  have hcount := h.2.2.2.2
  omega

structure Inv (s : State T) : Prop where
  locks : LockInv s
  entries : EntryInv s
  calls : CallInv s

lemma step_inv (h : Inv s) (hstep : step s op = some s') : Inv s' := by
  obtain ⟨t, rfl, hnext⟩ | houtside := step_cases hstep
  · exact ⟨next_locks h.locks hnext, next_entries h.entries h.locks hnext,
      next_calls h.calls h.entries h.locks hnext⟩
  · exact ⟨houtside.locks h.locks, houtside.entries h.entries, houtside.calls h.calls⟩

lemma Inv.step_taken (h : Inv s) (htaken : TakenInv s) (hfair : Fair s op)
    (hstep : step s op = some s') : TakenInv s' := by
  obtain ⟨t, rfl, hnext⟩ | houtside := step_cases hstep
  · exact next_taken htaken h.calls h.entries hfair hnext
  · exact houtside.taken htaken h.calls hfair

lemma inv_of_reachable (hs : Reachable step Initial s) : Inv s := by
  apply Reaches.invariant _ _ hs
  · exact fun s h => ⟨h.locks, h.entries, h.calls⟩
  · exact fun s op s' h _ hstep => step_inv h hstep

lemma wakes_taken (hs : Reachable step Initial s) :
    (∀ t, ∀ e ∈ accesses s t, e < s.count ∧ s.result e = none) ∧
      (∀ c < s.callCount, ((s.calls c).finished = true → (s.calls c).took =
          if (s.calls c).all then (s.calls c).seen else (s.calls c).seen.take 1) ∧
        (s.calls c).seen.Pairwise (· < ·) ∧
        ((s.calls c).finished = true ∨ ∃ w, (s.pc w).call = some c)) ∧
      ∀ c < s.callCount, ∀ c' < s.callCount, ∀ e ∈ (s.calls c).took, e ∈ (s.calls c').took →
        c = c' := by
  have h := inv_of_reachable hs
  refine ⟨fun t => h.entries.accesses, fun c hc => ⟨?_, ?_, ?_⟩, h.calls.records.disjoint⟩
  · exact h.calls.records.finished c hc
  · exact h.calls.records.sorted c hc
  · exact h.calls.unfinished c hc

/-- Wakes reach the waits whose entries they take, in every run in which no alert wait times out
while its entry is taken. -/
theorem address_wakes_delivered (s : State T) (hs : Reaches step Fair Initial s) :
    (∀ c < s.callCount, ((s.calls c).finished = true → (s.calls c).took =
        if (s.calls c).all then (s.calls c).seen else (s.calls c).seen.take 1) ∧
      (s.calls c).seen.Pairwise (· < ·) ∧
      ((s.calls c).finished = true ∨ ∃ w, (s.pc w).call = some c)) ∧
    (∀ c < s.callCount, ∀ c' < s.callCount, ∀ e ∈ (s.calls c).took, e ∈ (s.calls c').took →
      c = c') ∧
    (∀ c < s.callCount, ∀ e ∈ (s.calls c).took, (s.result e = none ∨ s.result e = some .success) ∧
      (∀ addr timed, s.pc (s.tid e) = .sleeping e addr timed → Due s (s.tid e))) ∧
    (∀ e, s.result e = some .timeout → ∀ c < s.callCount, e ∉ (s.calls c).took) ∧
    ∀ t, ∀ e ∈ accesses s t, e < s.count ∧ s.result e = none := by
  have htaken : TakenInv s := by
    apply Reaches.invariant_with (fun s hs => inv_of_reachable hs.reachable) _ _ hs
    · exact fun s h => h.taken
    · exact fun s op s' h htaken hfair hstep => h.step_taken htaken hfair hstep
  obtain ⟨haccess, hcalls, honce⟩ := wakes_taken hs.reachable
  refine ⟨hcalls, honce, fun c hc e he => ⟨?_, fun addr timed hpc => ?_⟩, ?_, haccess⟩
  · have hresult := (htaken c hc e he).result
    cases hret : s.result e with
    | none => exact .inl rfl
    | some ret =>
      cases ret with
      | success => exact .inr rfl
      | timeout => exact absurd hret hresult
  · exact (htaken c hc e he).due (by rw [hpc]; rfl)
  · intro e hresult c hc he
    exact (htaken c hc e he).result hresult

def quiescent {n : Nat} : State (Fin (n + 1)) where
  mem _ := 0
  addr _ := none
  tid _ := 0
  count := 0
  queue _ := []
  lock _ := none
  alerted _ := false
  pc _ := .idle
  result _ := none
  calls _ := ⟨false, 0, [], [], true⟩
  callCount := 0

lemma quiescent_initial {n : Nat} : Initial (@quiescent n) :=
  ⟨fun _ => rfl, fun _ => rfl, fun _ => rfl, rfl, rfl⟩

omit [DecidableEq T] in
lemma fairNext_of_ret (h : ∀ u, (s.pc u).ret ≠ some .timeout) : FairNext s t :=
  fun _ _ _ entry _ _ _ => h (s.tid entry)

def waitAndWake : List (Op (Fin 2)) :=
  [.waitOnAddress 0 16 0 4 true, .next 0, .next 0, .next 0, .wakeAddress 1 false 16, .next 1,
    .next 1, .next 1, .next 1, .next 1, .next 1, .next 0, .next 0]

theorem address_wakes_delivered_waiter :
    ∃ s, run step quiescent waitAndWake = some s ∧ (s.calls 0).took = [0] ∧
      s.result 0 = some .success := by
  have hrun : (run step quiescent waitAndWake).map
      (fun s => (s.callCount, (s.calls 0).took, (s.result 0).isSome)) = some (1, [0], true) := by
    decide
  obtain ⟨s, hs, hfields⟩ := Option.map_eq_some_iff.mp hrun
  obtain ⟨hcount, htook, hreturned⟩ : s.callCount = 1 ∧ (s.calls 0).took = [0] ∧
      (s.result 0).isSome = true := by simpa using hfields
  have hreach : Reaches step Fair Initial s := by
    apply (Reaches.start quiescent_initial).run waitAndWake _ hs
    have hfair : ∀ {s : State (Fin 2)} {t : Fin 2}, (∀ u, (s.pc u).ret ≠ some .timeout) →
        Fair s (.next t) := fun h => fairNext_of_ret h
    exact ⟨trivial, hfair (by decide), hfair (by decide), hfair (by decide), trivial,
      hfair (by decide), hfair (by decide), hfair (by decide), hfair (by decide),
      hfair (by decide), hfair (by decide), hfair (by decide), hfair (by decide), trivial⟩
  obtain ⟨_, _, hdelivered, _⟩ := address_wakes_delivered s hreach
  obtain ⟨hresult, _⟩ := hdelivered 0 (by omega) 0 (by rw [htook]; exact List.mem_cons_self)
  refine ⟨s, hs, htook, hresult.resolve_left ?_⟩
  intro hnone
  rw [hnone] at hreturned
  simp at hreturned

/-- Two threads wait. The alert wait of the first one times out, and then the third thread takes
its entry and clears it, so that the first one returns without a look at the queue. -/
def wakeAfterTimeout : List (Op (Fin 3)) :=
  [.waitOnAddress 0 16 0 4 true, .next 0, .next 0, .next 0, .waitOnAddress 1 16 0 4 true, .next 1,
    .next 1, .next 1, .timeout 0, .wakeAddress 2 false 16, .next 2, .next 2, .next 2, .next 0,
    .next 2, .next 2, .next 2]

/-- A single wake takes the entry of a thread that returns `STATUS_TIMEOUT`, and the other thread
that was queued sleeps on. -/
theorem address_wake_lost :
    ∃ s, Reachable step (Initial (T := Fin 3)) s ∧ (s.calls 0).finished = true ∧
      (s.calls 0).all = false ∧ (s.calls 0).seen = [0, 1] ∧ (s.calls 0).took = [0] ∧
      s.result 0 = some .timeout ∧ s.pc 1 = .sleeping 1 16 true ∧ s.alerted 1 = false ∧
      s.pc 2 = .idle := by
  have hrun : (run step quiescent wakeAfterTimeout).map (fun s => (s.calls 0, s.result 0, s.pc 1,
      s.alerted 1, s.pc 2)) =
      some (⟨false, 16, [0, 1], [0], true⟩, some .timeout, .sleeping 1 16 true, false, .idle) := by
    decide
  obtain ⟨s, hs, hfields⟩ := Option.map_eq_some_iff.mp hrun
  simp only [Prod.mk.injEq] at hfields
  obtain ⟨hcall, hresult, hpc, halerted, hidle⟩ := hfields
  refine ⟨s, reachable_of_run (.start quiescent_initial) _ hs, ?_, ?_, ?_, ?_, hresult, hpc,
    halerted, hidle⟩
  all_goals rw [hcall]

end WineForge.AddressWaits
