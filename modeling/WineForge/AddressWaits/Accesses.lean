import WineForge.AddressWaits.Entries

/-!
# Accesses to the entries

Every step accesses entries of waits only that have not returned.
-/

namespace WineForge.AddressWaits

open Library List Option

variable {T : Type} [DecidableEq T] {s s' : State T} {t : T}

lemma next_entries (h : EntryInv s) (hlocks : LockInv s) (hnext : next s t = some s') :
    EntryInv s' := by
  unfold next at hnext
  cases hpc : s.pc t <;> simp only [hpc, some.injEq, reduceCtorEq] at hnext
  case waitLock addr cmp size timed =>
    obtain ⟨s₁, hlock, rfl⟩ := map_eq_some_iff.mp hnext
    obtain ⟨_, rfl⟩ := spinLock_eq_some.mp hlock
    exact h.quiet rfl (by rw [hpc]; rfl) (by rw [hpc]; rfl) (by rw [hpc]; rfl)
      (by simp [Pc.cursor]) rfl rfl rfl rfl rfl
  case waitCompare addr cmp size timed =>
    rw [← hnext]
    split
    · exact h.enqueue (by rw [hpc]; exact ⟨rfl, rfl, rfl⟩)
    · exact h.quiet rfl (by rw [hpc]; rfl) (by rw [hpc]; rfl) (by rw [hpc]; rfl)
        (by simp [Pc.cursor]) rfl rfl rfl rfl rfl
  case waitChanged addr =>
    exact hnext ▸ h.quiet rfl (by rw [hpc]; rfl) (by rw [hpc]; rfl) (by rw [hpc]; rfl)
      (by simp [Pc.cursor]) rfl rfl rfl rfl rfl
  case waitUnlock entry addr timed =>
    exact hnext ▸ h.quiet rfl (by rw [hpc]; rfl) (by rw [hpc]; rfl) (by rw [hpc]; rfl)
      (by simp [Pc.cursor]) rfl rfl rfl rfl rfl
  case sleeping entry addr timed =>
    split at hnext
    · exact some.inj hnext ▸ h.quiet rfl (by rw [hpc]; rfl) (by rw [hpc]; rfl)
        (by rw [hpc]; rfl) (by simp [Pc.cursor]) rfl rfl rfl rfl rfl
    · simp at hnext
  case checkAddr entry addr ret =>
    rw [← hnext]
    split
    · rename_i hnone
      exact h.finish (by rw [hpc]; rfl) (.inl hnone) rfl rfl rfl rfl rfl rfl
    · exact h.quiet rfl (by rw [hpc]; rfl) (by rw [hpc]; rfl) (by rw [hpc]; rfl)
        (by simp [Pc.cursor]) rfl rfl rfl rfl rfl
  case removeLock entry addr ret =>
    obtain ⟨s₁, hlock, rfl⟩ := map_eq_some_iff.mp hnext
    obtain ⟨_, rfl⟩ := spinLock_eq_some.mp hlock
    exact h.quiet rfl (by rw [hpc]; rfl) (by rw [hpc]; rfl) (by rw [hpc]; rfl)
      (by simp [Pc.cursor]) rfl rfl rfl rfl rfl
  case removeCheck entry addr ret =>
    exact hnext ▸ h.removeCheck hlocks hpc
  case removeUnlock entry addr ret =>
    exact hnext ▸ h.finish (by rw [hpc]; rfl) (.inr (by rw [hpc]; rfl)) rfl rfl rfl rfl rfl rfl
  case wakeIncrement all addr =>
    exact hnext ▸ h.quiet rfl (by rw [hpc]; rfl) (by rw [hpc]; rfl) (by rw [hpc]; rfl)
      (by simp [Pc.cursor]) rfl rfl rfl rfl rfl
  case wakeLock all addr =>
    obtain ⟨s₁, hlock, rfl⟩ := map_eq_some_iff.mp hnext
    obtain ⟨_, rfl⟩ := spinLock_eq_some.mp hlock
    refine h.quiet rfl (by rw [hpc]; rfl) (by rw [hpc]; rfl) (by rw [hpc]; rfl)
      (fun b e hcursor => ?_) rfl rfl rfl rfl rfl
    cases hhead : (s.queue (getFutexQueue addr)).head? with
    | none =>
      rw [hhead] at hcursor
      exact absurd hcursor (by simp [Pc.cursor])
    | some entry =>
      rw [hhead] at hcursor
      obtain ⟨rfl, rfl⟩ := Prod.mk.inj (some.inj hcursor)
      exact mem_of_mem_head? hhead
  case scan all addr call cursor tids =>
    cases cursor with
    | none =>
      simp only [some.injEq] at hnext
      exact hnext ▸ h.quiet rfl (by rw [hpc]; rfl) (by rw [hpc]; rfl) (by rw [hpc]; rfl)
        (by simp [Pc.cursor]) rfl rfl rfl rfl rfl
    | some entry =>
      simp only [some.injEq] at hnext
      rw [← hnext]
      split
      · rename_i haddr
        exact h.take hlocks hpc haddr
      refine h.quiet rfl (by rw [hpc]; rfl) (by rw [hpc]; rfl) (by rw [hpc]; rfl)
        (fun b e hcursor => ?_) rfl rfl rfl rfl rfl
      cases hnextIn : nextIn (s.queue (getFutexQueue addr)) entry with
      | none =>
        rw [hnextIn] at hcursor
        exact absurd hcursor (by simp [Pc.cursor])
      | some other =>
        rw [hnextIn] at hcursor
        obtain ⟨rfl, rfl⟩ := Prod.mk.inj (some.inj hcursor)
        exact mem_of_nextIn hnextIn
  case unlinked all addr call entry tid next tids =>
    rw [← hnext]
    split
    · exact h.clear hlocks hpc rfl rfl rfl rfl rfl rfl ⟨rfl, rfl, rfl⟩ (.inl rfl)
    split
    · refine h.clear hlocks hpc rfl rfl rfl rfl rfl rfl ⟨rfl, rfl, rfl⟩ (.inr ?_)
      rw [hpc]
      cases next <;> rfl
    · refine h.clear hlocks hpc rfl rfl rfl rfl rfl rfl ⟨rfl, rfl, rfl⟩ (.inr ?_)
      rw [hpc]
      cases next <;> rfl
  case flush addr call tid next tids =>
    have hcursor : ∀ b e, (s.pc t).cursor = some (b, e) → e ∈ s.queue b := h.cursors t
    rw [hpc] at hcursor
    cases tids with
    | nil | cons u tids =>
      simp only [some.injEq] at hnext
      refine hnext ▸ h.quiet rfl (by rw [hpc]; rfl) (by rw [hpc]; rfl) (by rw [hpc]; rfl) ?_
        rfl rfl rfl rfl rfl
      cases next with
      | none => simp [Pc.cursor]
      | some entry => exact hcursor
  case wakeUnlock addr tids =>
    exact hnext ▸ h.quiet rfl (by rw [hpc]; rfl) (by rw [hpc]; rfl) (by rw [hpc]; rfl)
      (by simp [Pc.cursor]) rfl rfl rfl rfl rfl
  case alerting tids =>
    cases tids with
    | nil | cons u tids =>
      simp only [some.injEq] at hnext
      exact hnext ▸ h.quiet rfl (by rw [hpc]; rfl) (by rw [hpc]; rfl) (by rw [hpc]; rfl)
        (by simp [Pc.cursor]) rfl rfl rfl rfl rfl

/-- A step that takes no part in the address waits: a call begins, an alert wait times out, or an
alert or a value comes from elsewhere. -/
inductive Outside (s : State T) : Op T → State T → Prop
  | begin (op : Op T) (t : T) (pc : Pc T) : s.pc t = .idle →
      (∃ addr cmp size timed, pc = .waitLock addr cmp size timed) ∨
        (∃ all addr, pc = .wakeLock all addr ∨ pc = .wakeIncrement all addr) →
      Outside s op (s.setPc t pc)
  | timeout (t : T) (entry addr : Nat) : s.pc t = .sleeping entry addr true →
      Outside s (.timeout t) (s.setPc t (.checkAddr entry addr .timeout))
  | alert (t : T) : Outside s (.alert t) (alertThread s t)
  | write (op : Op T) (mem : Nat → Nat) : Outside s op { s with mem := mem }

lemma step_cases {op : Op T} (hstep : step s op = some s') :
    (∃ t, op = .next t ∧ next s t = some s') ∨ Outside s op s' := by
  cases op with
  | next t => exact .inl ⟨t, rfl, hstep⟩
  | waitOnAddress t addr cmp size timed =>
    rw [step] at hstep
    split at hstep
    · simp at hstep
    rename_i hpc
    split at hstep
    · exact .inr (some.inj hstep ▸ .write _ s.mem)
    · exact .inr (some.inj hstep ▸
        .begin _ t _ (not_not.mp hpc) (.inl ⟨addr, cmp, size, timed, rfl⟩))
  | sleepConditionVariable t addr timed =>
    rw [step] at hstep
    split at hstep
    · simp at hstep
    · rename_i hpc
      exact .inr (some.inj hstep ▸ .begin _ t _ (not_not.mp hpc) (.inl ⟨addr, _, 4, timed, rfl⟩))
  | wakeAddress t all addr =>
    rw [step] at hstep
    split at hstep
    · simp at hstep
    rename_i hpc
    split at hstep
    · exact .inr (some.inj hstep ▸ .write _ s.mem)
    · exact .inr (some.inj hstep ▸ .begin _ t _ (not_not.mp hpc) (.inr ⟨all, addr, .inl rfl⟩))
  | wakeConditionVariable t all addr =>
    rw [step] at hstep
    split at hstep
    · simp at hstep
    · rename_i hpc
      exact .inr (some.inj hstep ▸
        .begin _ t _ (not_not.mp (not_or.mp hpc).1) (.inr ⟨all, addr, .inr rfl⟩))
  | timeout t =>
    simp only [step] at hstep
    split at hstep
    · rename_i entry addr hpc
      exact .inr (some.inj hstep ▸ .timeout t entry addr hpc)
    · simp at hstep
  | alert t => exact .inr (some.inj hstep ▸ .alert t)
  | write addr value => exact .inr (some.inj hstep ▸ .write _ _)

lemma Outside.locks {op : Op T} (hstep : Outside s op s') (h : LockInv s) : LockInv s' := by
  cases hstep with
  | begin _ t pc hpc hkind =>
    refine h.same rfl rfl ?_
    rw [hpc]
    obtain ⟨_, _, _, _, rfl⟩ | ⟨_, _, rfl | rfl⟩ := hkind <;> rfl
  | timeout t entry addr hpc => exact h.same rfl rfl (by rw [hpc]; rfl)
  | alert t => exact h
  | write _ mem => exact h

lemma Outside.entries {op : Op T} (hstep : Outside s op s') (h : EntryInv s) : EntryInv s' := by
  cases hstep with
  | begin _ t pc hpc hkind =>
    refine h.quiet rfl ?_ ?_ ?_ ?_ rfl rfl rfl rfl rfl
    · rw [hpc]
      obtain ⟨_, _, _, _, rfl⟩ | ⟨_, _, rfl | rfl⟩ := hkind <;> rfl
    · rw [hpc]
      obtain ⟨_, _, _, _, rfl⟩ | ⟨_, _, rfl | rfl⟩ := hkind <;> rfl
    · rw [hpc]
      obtain ⟨_, _, _, _, rfl⟩ | ⟨_, _, rfl | rfl⟩ := hkind <;> rfl
    · obtain ⟨_, _, _, _, rfl⟩ | ⟨_, _, rfl | rfl⟩ := hkind <;> simp [Pc.cursor]
  | timeout t entry addr hpc =>
    exact h.quiet rfl (by rw [hpc]; rfl) (by rw [hpc]; rfl) (by rw [hpc]; rfl)
      (by simp [Pc.cursor]) rfl rfl rfl rfl rfl
  | alert t | write _ mem =>
    exact ⟨h.waits, h.alive, h.queued, h.sorted, h.linked, h.unlinking, h.cursors⟩

omit [DecidableEq T] in
lemma Initial.locks (h : Initial s) : LockInv s := by
  obtain ⟨_, hlock, hpc, _⟩ := h
  intro t b
  rw [hpc, hlock]
  exact iff_of_false (by simp [Pc.locks]) (by simp)

omit [DecidableEq T] in
lemma Initial.entries (h : Initial s) : EntryInv s := by
  obtain ⟨hqueue, _, hpc, hcount, _⟩ := h
  constructor
  · intro t e addr hwait
    rw [hpc] at hwait
    exact absurd hwait (by simp [Pc.waits])
  · intro e he
    omega
  · intro b e he
    rw [hqueue] at he
    simp at he
  · intro b
    rw [hqueue]
    exact List.Pairwise.nil
  · intro e addr he
    omega
  · intro w e addr hw
    rw [hpc] at hw
    exact absurd hw (by simp [Pc.unlinking])
  · intro w b e hw
    rw [hpc] at hw
    exact absurd hw (by simp [Pc.cursor])

omit [DecidableEq T] in
lemma EntryInv.accesses (h : EntryInv s) : ∀ e ∈ accesses s t, e < s.count ∧ s.result e = none := by
  have hqueued : ∀ b, ∀ e ∈ s.queue b, e < s.count ∧ s.result e = none := by
    intro b e hmem
    obtain ⟨hlt, hlive, _⟩ := h.queued b e hmem
    exact ⟨hlt, hlive⟩
  have haround : ∀ b entry, entry < s.count ∧ s.result entry = none →
      ∀ e ∈ entry :: ((prevIn (s.queue b) entry).toList ++ (nextIn (s.queue b) entry).toList),
        e < s.count ∧ s.result e = none := by
    intro b entry hentry e hmem
    obtain rfl | hmem := mem_cons.mp hmem
    · exact hentry
    · obtain hmem | hmem := mem_append.mp hmem
      · exact hqueued b e (mem_of_prevIn (mem_toList.mp hmem))
      · exact hqueued b e (mem_of_nextIn (mem_toList.mp hmem))
  have hwait : ∀ e addr, (s.pc t).waits = some (e, addr) → e < s.count ∧ s.result e = none := by
    intro e addr hwait
    obtain ⟨hlt, _, hlive, _⟩ := h.waits t e addr hwait
    exact ⟨hlt, hlive⟩
  intro e hmem
  unfold AddressWaits.accesses at hmem
  cases hpc : s.pc t with
  | waitCompare addr cmp size timed =>
    simp only [hpc] at hmem
    exact hqueued _ e (mem_of_mem_getLast? (mem_toList.mp hmem))
  | checkAddr entry addr ret =>
    simp only [hpc] at hmem
    rw [mem_singleton.mp hmem]
    exact hwait entry addr (by rw [hpc]; rfl)
  | removeCheck entry addr ret =>
    simp only [hpc] at hmem
    have hentry := hwait entry addr (by rw [hpc]; rfl)
    split at hmem
    · rw [mem_singleton.mp hmem]
      exact hentry
    · exact haround _ entry hentry e hmem
  | scan all addr call cursor tids =>
    cases cursor with
    | none => simp [hpc] at hmem
    | some entry =>
      simp only [hpc] at hmem
      have hentry := hqueued _ entry (h.cursors t (getFutexQueue addr) entry (by rw [hpc]; rfl))
      split at hmem
      · exact haround _ entry hentry e hmem
      · rw [mem_singleton.mp hmem]
        exact hentry
  | unlinked all addr call entry tid next tids =>
    simp only [hpc] at hmem
    rw [mem_singleton.mp hmem]
    obtain ⟨hlt, hlive, _⟩ := h.unlinking t entry addr (by rw [hpc]; rfl)
    exact ⟨hlt, hlive⟩
  | _ => simp [hpc] at hmem

end WineForge.AddressWaits
