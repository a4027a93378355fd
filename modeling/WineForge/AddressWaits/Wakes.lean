import WineForge.AddressWaits.Calls

/-!
# Where the wakes go

The wait whose entry a wake has taken returns `STATUS_SUCCESS`, as long as no alert wait times out
while its entry changes hands.
-/

namespace WineForge.AddressWaits

open Function Library List Option

variable {T : Type} {s s' : State T} {t : T}

def Pc.ret : Pc T → Option Status
  | .checkAddr _ _ ret | .removeLock _ _ ret | .removeCheck _ _ ret | .removeUnlock _ _ ret =>
    some ret
  | _ => none

def Pc.dozing : Pc T → Option Nat
  | .waitUnlock entry _ _ | .sleeping entry _ _ => some entry
  | _ => none

def Pc.alerts : Pc T → List T
  | .scan _ _ _ _ tids | .wakeUnlock _ tids | .alerting tids => tids
  | .unlinked _ _ _ _ tid _ tids => tids ++ [tid]
  | .flush _ _ tid _ tids => tid :: tids
  | _ => []

def Due (s : State T) (u : T) : Prop := s.alerted u = true ∨ ∃ w, u ∈ (s.pc w).alerts

/-- The wait whose entry was taken returns success: it has not timed out, and an alert is due if it
needs one. -/
structure Settled (s : State T) (e : Nat) : Prop where
  result : s.result e ≠ some .timeout
  ret : ∀ addr, (s.pc (s.tid e)).waits = some (e, addr) → (s.pc (s.tid e)).ret ≠ some .timeout
  due : (s.pc (s.tid e)).dozing = some e → Due s (s.tid e)

def TakenInv (s : State T) : Prop :=
  ∀ c < s.callCount, ∀ e ∈ (s.calls c).took, Settled s e

section Steps

variable [DecidableEq T] {pc : Pc T}

lemma Due.step {u : T} (h : Due s u) (hpc : s'.pc = update s.pc t pc)
    (halerted : s.alerted u = true → s'.alerted u = true)
    (halerts : u ∈ (s.pc t).alerts → u ∈ pc.alerts ∨ s'.alerted u = true) : Due s' u := by
  obtain hold | ⟨w, hw⟩ := h
  · exact .inl (halerted hold)
  by_cases heq : w = t
  · subst heq
    obtain hmem | hnew := halerts hw
    · refine .inr ⟨w, ?_⟩
      rw [hpc, update_self]
      exact hmem
    · exact .inl hnew
  · refine .inr ⟨w, ?_⟩
    rw [hpc, update_of_ne heq]
    exact hw

omit [DecidableEq T] in
lemma Pc.waits_of_dozing {pc : Pc T} {e : Nat} (h : pc.dozing = some e) :
    ∃ addr, pc.waits = some (e, addr) := by
  cases pc with
  | waitUnlock entry addr timed | sleeping entry addr timed =>
    obtain rfl := some.inj h
    exact ⟨addr, rfl⟩
  | _ => simp [Pc.dozing] at h

lemma TakenInv.of_step (h : TakenInv s) (hrecords : Records s.calls s.callCount s.count s.queue)
    (hpc : s'.pc = update s.pc t pc) (htid : ∀ e < s.count, s'.tid e = s.tid e)
    (hresult : ∀ e < s.count, s'.result e = s.result e ∨
      s.tid e = t ∧ (∃ addr, (s.pc t).waits = some (e, addr)) ∧ s'.result e = (s.pc t).ret)
    (hdue : ∀ u, (u = t → pc.dozing ≠ none) → Due s u → Due s' u)
    (hself : ∀ e addr, pc.waits = some (e, addr) → (∀ c < s.callCount, e ∉ (s.calls c).took) ∨
      (s.pc t).waits = some (e, addr) ∧ (pc.ret = (s.pc t).ret ∨ pc.ret = some .success) ∧
        (pc.dozing = none ∨ (s.pc t).dozing = pc.dozing))
    (htook : ∀ c < s'.callCount, ∀ e ∈ (s'.calls c).took,
      (c < s.callCount ∧ e ∈ (s.calls c).took) ∨ Settled s' e) : TakenInv s' := by
  intro c hc e he
  obtain ⟨hlt, hmem⟩ | hsettled := htook c hc e he
  swap
  · exact hsettled
  have hold := h c hlt e hmem
  have hcount := (hrecords.taken c hlt e hmem).1
  have htid := htid e hcount
  -- what the thread of the entry does, if it is the one that moves
  have hmoved : s.tid e = t → ∀ addr, pc.waits = some (e, addr) →
      (s.pc t).waits = some (e, addr) ∧ (pc.ret = (s.pc t).ret ∨ pc.ret = some .success) ∧
        (pc.dozing = none ∨ (s.pc t).dozing = pc.dozing) := by
    intro _ addr hwait
    exact (hself e addr hwait).resolve_left fun hnot => hnot c hlt hmem
  constructor
  · obtain hsame | ⟨heq, ⟨addr, hwait⟩, hret⟩ := hresult e hcount
    · rw [hsame]
      exact hold.result
    · rw [hret, ← heq]
      exact hold.ret addr (heq ▸ hwait)
  · intro addr hwait
    rw [htid, hpc] at hwait ⊢
    by_cases heq : s.tid e = t
    · rw [heq, update_self] at hwait ⊢
      obtain ⟨hwait', hret, _⟩ := hmoved heq addr hwait
      obtain hret | hret := hret
      · rw [hret, ← heq]
        exact hold.ret addr (heq ▸ hwait')
      · rw [hret]
        simp
    · rw [update_of_ne heq] at hwait ⊢
      exact hold.ret addr hwait
  · intro hdozing
    rw [htid, hpc] at hdozing
    rw [htid]
    by_cases heq : s.tid e = t
    · rw [heq, update_self] at hdozing
      obtain ⟨addr, hwait⟩ := Pc.waits_of_dozing hdozing
      obtain ⟨_, _, hsame⟩ := hmoved heq addr hwait
      rw [hdozing] at hsame
      have hdozing' := hsame.resolve_left (by simp)
      apply hdue
      · intro _
        rw [hdozing]
        simp
      · exact hold.due (heq ▸ hdozing')
    · rw [update_of_ne heq] at hdozing
      exact hdue _ (fun h => absurd h heq) (hold.due hdozing)

lemma TakenInv.quiet (h : TakenInv s) (hrecords : Records s.calls s.callCount s.count s.queue)
    (hpc : s'.pc = update s.pc t pc) (hwaits : pc.waits = none ∨ pc.waits = (s.pc t).waits)
    (hret : pc.ret = (s.pc t).ret ∨ pc.ret = some .success ∨ pc.waits = none)
    (hdozing : pc.dozing = none ∨ (s.pc t).dozing = pc.dozing)
    (halerts : ∀ u ∈ (s.pc t).alerts, u ∈ pc.alerts ∨ s'.alerted u = true)
    (halerted : ∀ u, (u = t → pc.dozing ≠ none) → s.alerted u = true → s'.alerted u = true)
    (htid : s'.tid = s.tid) (hresult : s'.result = s.result)
    (htook : ∀ c < s'.callCount, c < s.callCount ∧ (s'.calls c).took = (s.calls c).took ∨
      (s'.calls c).took = []) : TakenInv s' := by
  apply h.of_step hrecords hpc (fun e _ => by rw [htid]) (fun e _ => .inl (by rw [hresult]))
  · intro u hu hdue
    exact hdue.step hpc (halerted u hu) (halerts u)
  · intro e addr hwait
    have hwaits := hwaits.resolve_left (by rw [hwait]; simp)
    refine .inr ⟨hwaits ▸ hwait, ?_, hdozing⟩
    obtain hret | hret | hret := hret
    · exact .inl hret
    · exact .inr hret
    · rw [hwait] at hret
      simp at hret
  intro c hc e he
  obtain ⟨hlt, hsame⟩ | hnone := htook c hc
  · exact .inl ⟨hlt, hsame ▸ he⟩
  · rw [hnone] at he
    simp at he

lemma TakenInv.finish {entry addr : Nat} {ret : Status} (h : TakenInv s)
    (hrecords : Records s.calls s.callCount s.count s.queue) (hentries : EntryInv s)
    (hwait : (s.pc t).waits = some (entry, addr)) (hret : (s.pc t).ret = some ret)
    (halerts : (s.pc t).alerts = []) (lock : Nat → Option T) :
    TakenInv (finish { s with lock := lock } t entry ret) := by
  apply @TakenInv.of_step T s (AddressWaits.finish { s with lock := lock } t entry ret) t _ .idle h
    hrecords rfl (fun _ _ => rfl)
  · intro e _
    by_cases heq : e = entry
    · subst heq
      refine .inr ⟨(hentries.waits t e addr hwait).2.1, ⟨addr, hwait⟩, ?_⟩
      rw [hret]
      exact update_self _ _ _
    · exact .inl (update_of_ne heq _ _)
  · intro u _ hdue
    refine @Due.step T s _ t _ .idle u hdue rfl id fun hu => ?_
    rw [halerts] at hu
    simp at hu
  · intro e addr' hwait'
    exact absurd hwait' (by simp [Pc.waits])
  · exact fun c hc e he => .inl ⟨hc, he⟩

lemma TakenInv.take {all : Bool} {addr call entry : Nat} {tids : List T} (h : TakenInv s)
    (hrecords : Records s.calls s.callCount s.count s.queue) (hentries : EntryInv s)
    (hpc : s.pc t = .scan all addr call (some entry) tids)
    (hfair : (s.pc (s.tid entry)).ret ≠ some .timeout) :
    TakenInv (AddressWaits.take s t all addr call entry tids) := by
  have hmem := hentries.cursors t (getFutexQueue addr) entry (by rw [hpc]; rfl)
  obtain ⟨hlt, hlive, _⟩ := hentries.queued _ entry hmem
  -- the thread that takes the entry is not the one that waits with it
  have hne : s.tid entry ≠ t := by
    obtain ⟨addr', hwait⟩ := hentries.alive entry hlt hlive
    intro heq
    rw [heq, hpc] at hwait
    exact absurd hwait (by simp [Pc.waits])
  have hother : (AddressWaits.take s t all addr call entry tids).pc (s.tid entry) =
      s.pc (s.tid entry) := update_of_ne hne _ _
  apply @TakenInv.of_step T s (AddressWaits.take s t all addr call entry tids) t _ _ h hrecords rfl
    (fun _ _ => rfl) (fun _ _ => .inl rfl)
  · intro u _ hdue
    refine hdue.step (t := t) rfl id fun hu => .inl ?_
    rw [hpc] at hu
    exact mem_append_left _ hu
  · intro e addr' hwait
    exact absurd hwait (by simp [Pc.waits])
  intro c hc e he
  by_cases hold : e ∈ (s.calls c).took
  · exact .inl ⟨hc, hold⟩
  have heq : e = entry := by
    by_cases hcall : c = call
    · subst hcall
      have he : e ∈ (s.calls c).took ++ [entry] := by
        simpa [AddressWaits.take, State.setPc, State.setCall] using he
      exact mem_singleton.mp ((mem_append.mp he).resolve_left hold)
    have he : e ∈ (s.calls c).took := by
      simpa [AddressWaits.take, State.setPc, State.setCall, hcall, unlink, State.setQueue]
        using he
    exact absurd he hold
  subst heq
  refine .inr ⟨?_, fun addr' _ => ?_, fun _ => .inr ⟨t, ?_⟩⟩
  · change s.result e ≠ _
    rw [hlive]
    simp
  · change ((AddressWaits.take s t all addr call e tids).pc (s.tid e)).ret ≠ _
    rw [hother]
    exact hfair
  have hself : (AddressWaits.take s t all addr call e tids).pc t =
      .unlinked all addr call e (s.tid e) (nextIn (s.queue (getFutexQueue addr)) e) tids :=
    update_self _ _ _
  rw [hself]
  exact mem_append_right _ mem_cons_self

omit [DecidableEq T] in
lemma took_update {calls : Nat → Call} {c c' : Nat} :
    (update calls c { calls c with finished := true } c').took = (calls c').took := by
  by_cases heq : c' = c
  · rw [heq, update_self]
  · rw [update_of_ne heq]

def FairNext (s : State T) (t : T) : Prop :=
  ∀ all addr call entry tids, s.pc t = .scan all addr call (some entry) tids →
    s.addr entry = some addr → (s.pc (s.tid entry)).ret ≠ some .timeout

lemma next_taken (h : TakenInv s) (hcalls : CallInv s) (hentries : EntryInv s)
    (hfair : FairNext s t) (hnext : next s t = some s') : TakenInv s' := by
  have hrec := hcalls.records
  have hsame : ∀ {s' : State T}, s'.callCount = s.callCount →
      (∀ c, (s'.calls c).took = (s.calls c).took) →
      ∀ c < s'.callCount, c < s.callCount ∧ (s'.calls c).took = (s.calls c).took ∨
        (s'.calls c).took = [] := by
    intro s' hcount htook c hc
    exact .inl ⟨hcount ▸ hc, htook c⟩
  unfold next at hnext
  cases hpc : s.pc t <;> simp only [hpc, Option.some.injEq, reduceCtorEq] at hnext
  case waitLock addr cmp size timed =>
    obtain ⟨s₁, hlock, rfl⟩ := Option.map_eq_some_iff.mp hnext
    obtain ⟨_, rfl⟩ := spinLock_eq_some.mp hlock
    exact h.quiet hrec rfl (.inl rfl) (.inr (.inr rfl)) (.inl rfl)
      (by simp [hpc, Pc.alerts]) (fun _ _ => id) rfl rfl (hsame rfl fun _ => rfl)
  case waitCompare addr cmp size timed =>
    rw [← hnext]
    split
    · apply h.of_step hrec (t := t) rfl
      · intro e he
        exact update_of_ne (Nat.ne_of_lt he) _ _
      · intro e he
        exact .inl (update_of_ne (Nat.ne_of_lt he) _ _)
      · intro u _ hdue
        exact hdue.step (t := t) rfl id (by simp [hpc, Pc.alerts])
      · intro e addr' hwait
        obtain ⟨rfl, _⟩ := Prod.mk.inj (some.inj hwait)
        exact .inl fun c hc hmem => Nat.lt_irrefl _ (hrec.taken c hc _ hmem).1
      · exact fun c hc e he => .inl ⟨hc, he⟩
    · exact h.quiet hrec rfl (.inl rfl) (.inr (.inr rfl)) (.inl rfl)
        (by simp [hpc, Pc.alerts]) (fun _ _ => id) rfl rfl (hsame rfl fun _ => rfl)
  case waitChanged addr =>
    exact hnext ▸ h.quiet hrec rfl (.inl rfl) (.inr (.inr rfl)) (.inl rfl)
      (by simp [hpc, Pc.alerts]) (fun _ _ => id) rfl rfl (hsame rfl fun _ => rfl)
  case waitUnlock entry addr timed =>
    exact hnext ▸ h.quiet hrec rfl (.inr (by rw [hpc]; rfl)) (.inl (by rw [hpc]; rfl))
      (.inr (by rw [hpc]; rfl)) (by simp [hpc, Pc.alerts]) (fun _ _ => id) rfl rfl
      (hsame rfl fun _ => rfl)
  case sleeping entry addr timed =>
    split at hnext
    · refine some.inj hnext ▸ h.quiet hrec rfl (.inr (by rw [hpc]; rfl))
        (.inr (.inl rfl)) (.inl rfl) (by simp [hpc, Pc.alerts]) (fun u hu halert => ?_) rfl
        rfl (hsame rfl fun _ => rfl)
      have hne : u ≠ t := fun heq => hu heq rfl
      dsimp only
      rw [update_of_ne hne]
      exact halert
    · exact absurd hnext (by simp)
  case checkAddr entry addr ret =>
    rw [← hnext]
    split
    · exact h.finish hrec hentries (by rw [hpc]; rfl) (by rw [hpc]; rfl) (by rw [hpc]; rfl) s.lock
    · exact h.quiet hrec rfl (.inr (by rw [hpc]; rfl)) (.inl (by rw [hpc]; rfl)) (.inl rfl)
        (by simp [hpc, Pc.alerts]) (fun _ _ => id) rfl rfl (hsame rfl fun _ => rfl)
  case removeLock entry addr ret =>
    obtain ⟨s₁, hlock, rfl⟩ := Option.map_eq_some_iff.mp hnext
    obtain ⟨_, rfl⟩ := spinLock_eq_some.mp hlock
    exact h.quiet hrec rfl (.inr (by rw [hpc]; rfl)) (.inl (by rw [hpc]; rfl)) (.inl rfl)
      (by simp [hpc, Pc.alerts]) (fun _ _ => id) rfl rfl (hsame rfl fun _ => rfl)
  case removeCheck entry addr ret =>
    rw [← hnext]
    split
    · exact h.quiet hrec rfl (.inr (by rw [hpc]; rfl)) (.inl (by rw [hpc]; rfl)) (.inl rfl)
        (by simp [hpc, Pc.alerts]) (fun _ _ => id) rfl rfl (hsame rfl fun _ => rfl)
    · exact h.quiet hrec rfl (.inr (by rw [hpc]; rfl)) (.inl (by rw [hpc]; rfl)) (.inl rfl)
        (by simp [hpc, Pc.alerts]) (fun _ _ => id) rfl rfl (hsame rfl fun _ => rfl)
  case removeUnlock entry addr ret =>
    exact hnext ▸ h.finish hrec hentries (by rw [hpc]; rfl) (by rw [hpc]; rfl) (by rw [hpc]; rfl) _
  case wakeIncrement all addr =>
    exact hnext ▸ h.quiet hrec rfl (.inl rfl) (.inr (.inr rfl)) (.inl rfl)
      (by simp [hpc, Pc.alerts]) (fun _ _ => id) rfl rfl (hsame rfl fun _ => rfl)
  case wakeLock all addr =>
    obtain ⟨s₁, hlock, rfl⟩ := Option.map_eq_some_iff.mp hnext
    obtain ⟨_, rfl⟩ := spinLock_eq_some.mp hlock
    refine h.quiet hrec rfl (.inl rfl) (.inr (.inr rfl)) (.inl rfl)
      (by simp [hpc, Pc.alerts]) (fun _ _ => id) rfl rfl fun c hc => ?_
    have hc : c < s.callCount + 1 := hc
    by_cases heq : c = s.callCount
    · subst heq
      refine .inr ?_
      simp [beginScan, State.setPc, State.setCall]
    · refine .inl ⟨by omega, ?_⟩
      simp [beginScan, State.setPc, State.setCall, heq]
  case scan all addr call cursor tids =>
    cases cursor with
    | none =>
      simp only [Option.some.injEq] at hnext
      exact hnext ▸ h.quiet hrec rfl (.inl rfl) (.inr (.inr rfl)) (.inl rfl)
        (fun u hu => .inl (by rw [hpc] at hu; exact hu)) (fun _ _ => id) rfl rfl
        (hsame rfl fun _ => took_update)
    | some entry =>
      simp only [Option.some.injEq] at hnext
      rw [← hnext]
      split
      · rename_i haddr
        exact h.take hrec hentries hpc (hfair all addr call entry tids hpc haddr)
      · exact h.quiet hrec rfl (.inl rfl) (.inr (.inr rfl)) (.inl rfl)
          (fun u hu => .inl (by rw [hpc] at hu; exact hu)) (fun _ _ => id) rfl rfl
          (hsame rfl fun _ => rfl)
  case unlinked all addr call entry tid next tids =>
    have hself := hcalls.scans t
    rw [hpc] at hself
    rw [← hnext]
    cases all with
    | false =>
      have htids := (hself.2 rfl).2
      exact h.quiet hrec rfl (.inl rfl) (.inr (.inr rfl)) (.inl rfl)
        (fun u hu => .inl (by rw [hpc, htids] at hu; exact hu)) (fun _ _ => id) rfl rfl
        (hsame rfl fun _ => took_update)
    | true =>
      rw [if_neg (by simp)]
      split
      · refine h.quiet hrec rfl (.inl rfl) (.inr (.inr rfl)) (.inl rfl)
          (fun u hu => .inl ?_) (fun _ _ => id) rfl rfl (hsame rfl fun _ => rfl)
        rw [hpc] at hu
        obtain hu | hu := List.mem_append.mp hu
        · exact mem_cons_of_mem _ hu
        · exact List.mem_cons.mpr (.inl (List.mem_singleton.mp hu))
      · exact h.quiet hrec rfl (.inl rfl) (.inr (.inr rfl)) (.inl rfl)
          (fun u hu => .inl (by rw [hpc] at hu; exact hu)) (fun _ _ => id) rfl rfl
          (hsame rfl fun _ => rfl)
  case flush addr call tid next tids =>
    cases tids with
    | nil =>
      simp only [Option.some.injEq] at hnext
      exact hnext ▸ h.quiet hrec rfl (.inl rfl) (.inr (.inr rfl)) (.inl rfl)
        (fun u hu => .inl (by rw [hpc] at hu; exact hu)) (fun _ _ => id) rfl rfl
        (hsame rfl fun _ => rfl)
    | cons v tids =>
      simp only [Option.some.injEq] at hnext
      rw [← hnext]
      refine h.quiet hrec rfl (.inl rfl) (.inr (.inr rfl)) (.inl rfl)
        (fun u hu => ?_) (fun u _ halert => ?_) rfl rfl (hsame rfl fun _ => rfl)
      · rw [hpc] at hu
        obtain rfl | hu := List.mem_cons.mp hu
        · exact .inl mem_cons_self
        · obtain rfl | hu := List.mem_cons.mp hu
          · exact .inr (update_self _ _ _)
          · exact .inl (mem_cons_of_mem _ hu)
      by_cases heq : u = v
      · rw [heq]
        exact update_self _ _ _
      · exact (update_of_ne heq _ _).trans halert
  case wakeUnlock addr tids =>
    exact hnext ▸ h.quiet hrec rfl (.inl rfl) (.inr (.inr rfl)) (.inl rfl)
      (fun u hu => .inl (by rw [hpc] at hu; exact hu)) (fun _ _ => id) rfl rfl
      (hsame rfl fun _ => rfl)
  case alerting tids =>
    cases tids with
    | nil =>
      simp only [Option.some.injEq] at hnext
      exact hnext ▸ h.quiet hrec rfl (.inl rfl) (.inr (.inr rfl)) (.inl rfl)
        (by simp [hpc, Pc.alerts]) (fun _ _ => id) rfl rfl (hsame rfl fun _ => rfl)
    | cons v tids =>
      simp only [Option.some.injEq] at hnext
      rw [← hnext]
      refine h.quiet hrec rfl (.inl rfl) (.inr (.inr rfl)) (.inl rfl)
        (fun u hu => ?_) (fun u _ halert => ?_) rfl rfl (hsame rfl fun _ => rfl)
      · rw [hpc] at hu
        obtain rfl | hu := List.mem_cons.mp hu
        · exact .inr (update_self _ _ _)
        · exact .inl hu
      by_cases heq : u = v
      · rw [heq]
        exact update_self _ _ _
      · exact (update_of_ne heq _ _).trans halert

end Steps

end WineForge.AddressWaits
