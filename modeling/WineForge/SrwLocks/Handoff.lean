import WineForge.Library.Transition
import WineForge.SrwLocks.State

/-!
# Hand-off of a slim reader/writer lock

A lock that is free has a wake on its way to whoever sleeps in an acquire.
-/

namespace WineForge.SrwLocks

open AddressWaits Function Library List Option

variable {T : Type} {s s' : State T} {t : T}

def Linked : Pc → Phase T Addr → Prop
  | .waiting mode, phase => phase = .asleep mode.addr ∨ phase = .woken mode.addr
  | .waking, phase => ∃ tids, phase = .alerting tids
  | _, phase => phase = .out

/-- The thread is in `RtlAcquireSRWLockExclusive`. -/
def Pc.Exclusive : Pc → Prop
  | .grab .exclusive => True
  | .compare .exclusive _ => True
  | .waiting .exclusive => True
  | _ => False

def Blocks (lock : SrwLock) : Mode → Prop
  | .exclusive => lock.owners ≠ 0
  | .shared => lock.exclusiveWaiters ≠ 0

structure Inv (s : State T) : Prop where
  word : WordInv s.lock s.held s.acquiring
  futexes : s.futexes.Inv
  linked : ∀ t, Linked (s.pc t) (s.futexes.phase t)
  acquiring : ∀ t, t ∈ s.acquiring ↔ (s.pc t).Exclusive
  nodup : s.acquiring.Nodup
  compared : ∀ t mode found, s.pc t = .compare mode found → Blocks found mode
  /-- A free lock has a wake on its way to the exclusive sleepers, or a thread that will grab it. -/
  exclusiveWake : s.held = [] → ∀ v, s.futexes.Dormant v .owners →
    ∃ u, s.pc u = .wakeSingle ∨ u ∈ s.acquiring ∧ ¬s.futexes.Dormant u .owners
  /-- Without exclusive waiters there is a wake on its way to the shared sleepers. -/
  sharedWake : s.lock.exclusiveWaiters = 0 → ∀ v, s.futexes.Dormant v .word →
    ∃ u, s.pc u = .wakeAll

lemma Initial.inv (h : Initial s) : Inv s := by
  obtain ⟨hlock, hqueue, hphase, hpc, hheld, hacquiring⟩ := h
  have hnot : ∀ v addr, ¬s.futexes.Dormant v addr := by
    intro v addr hdormant
    have hmem := hdormant.1
    rw [hqueue] at hmem
    simp at hmem
  constructor
  · rw [hlock, hheld, hacquiring]
    exact ⟨rfl, rfl, fun hne => absurd rfl hne⟩
  · refine ⟨?_, ?_, ?_⟩
    · rw [hqueue]
      exact nodup_nil
    · intro t addr hmem
      rw [hqueue] at hmem
      simp at hmem
    · intro t addr hasleep
      rw [hphase] at hasleep
      simp at hasleep
  · intro t
    rw [hpc, hphase]
    rfl
  · intro t
    rw [hacquiring, hpc]
    simp [Pc.Exclusive]
  · rw [hacquiring]
    exact nodup_nil
  · intro t mode found hcompare
    rw [hpc] at hcompare
    simp at hcompare
  · exact fun _ v hdormant => absurd hdormant (hnot v _)
  · exact fun _ v hdormant => absurd hdormant (hnot v _)

lemma Inv.queued_acquiring (h : Inv s) (hmem : (t, .owners) ∈ s.futexes.queue) :
    t ∈ s.acquiring := by
  have hphase := h.futexes.queued t .owners hmem
  have hlinked := h.linked t
  rw [h.acquiring]
  cases hpc : s.pc t with
  | waiting mode =>
    cases mode with
    | exclusive => trivial
    | shared =>
      rw [hpc] at hlinked
      obtain hasleep | hwoken := hlinked
      · simp [hasleep, Mode.addr] at hphase
      · simp [hwoken, Mode.addr] at hphase
  | waking =>
    rw [hpc] at hlinked
    obtain ⟨tids, htids⟩ := hlinked
    simp [htids] at hphase
  | _ =>
    rw [hpc] at hlinked
    have hout : s.futexes.phase t = .out := hlinked
    simp [hout] at hphase

section Steps

variable [DecidableEq T]

lemma Inv.of_futexes {pc : Pc} {futexes : Futexes T Addr} (h : Inv s) (hinv : futexes.Inv)
    (hothers : ∀ u ≠ t, futexes.phase u = s.futexes.phase u)
    (hlinked : Linked pc (futexes.phase t)) (hmode : pc.Exclusive ↔ (s.pc t).Exclusive)
    (hcompared : ∀ mode found, pc = .compare mode found → Blocks found mode)
    (hexclusive : s.held = [] → ∀ v, futexes.Dormant v .owners → s.futexes.Dormant v .owners)
    (hshared : s.lock.exclusiveWaiters = 0 → ∀ v, futexes.Dormant v .word →
      s.futexes.Dormant v .word)
    (hsingle : s.pc t = .wakeSingle → ∀ v, futexes.Dormant v .owners →
      ∃ u ∈ s.acquiring, ¬futexes.Dormant u .owners)
    (hall : s.pc t = .wakeAll → ∀ v, ¬futexes.Dormant v .word) :
    Inv { s.setPc t pc with futexes := futexes } := by
  refine ⟨h.word, hinv, fun u => ?_, fun u => ?_, h.nodup, fun u mode found hu => ?_,
    fun hheld v hv => ?_, fun hquiet v hv => ?_⟩
  · by_cases heq : u = t
    · rw [heq]
      simpa [State.setPc] using hlinked
    · simpa [State.setPc, heq, hothers u heq] using h.linked u
  · by_cases heq : u = t
    · rw [heq]
      simpa [State.setPc, hmode] using h.acquiring t
    · simpa [State.setPc, heq] using h.acquiring u
  · by_cases heq : u = t
    · rw [heq] at hu
      exact hcompared mode found (by simpa [State.setPc] using hu)
    · exact h.compared u mode found (by simpa [State.setPc, heq] using hu)
  · obtain ⟨u, hu | ⟨hmem, hactive⟩⟩ := h.exclusiveWake hheld v (hexclusive hheld v hv)
    · by_cases heq : u = t
      · rw [heq] at hu
        obtain ⟨w, hmem, hactive⟩ := hsingle hu v hv
        exact ⟨w, .inr ⟨hmem, hactive⟩⟩
      · exact ⟨u, .inl (by simpa [State.setPc, heq] using hu)⟩
    · exact ⟨u, .inr ⟨hmem, fun hdormant => hactive (hexclusive hheld u hdormant)⟩⟩
  obtain ⟨u, hu⟩ := h.sharedWake hquiet v (hshared hquiet v hv)
  by_cases heq : u = t
  · rw [heq] at hu
    exact absurd hv (hall hu v)
  · exact ⟨u, by simpa [State.setPc, heq] using hu⟩

lemma Inv.of_lock {pc : Pc} {lock : SrwLock} {held : List (T × Mode)} {acquiring : List T}
    (h : Inv s) (hout : s.futexes.phase t = .out)
    (hlinked : Linked pc (.out : Phase T Addr))
    (hcompared : ∀ mode found, pc ≠ .compare mode found)
    (hword : WordInv lock held acquiring) (hnodup : acquiring.Nodup)
    (hself : t ∈ acquiring ↔ pc.Exclusive)
    (hothers : ∀ u ≠ t, u ∈ acquiring ↔ u ∈ s.acquiring)
    (hexclusive : held = [] → ∀ v, s.futexes.Dormant v .owners →
      pc = .wakeSingle ∨ t ∈ acquiring)
    (hshared : lock.exclusiveWaiters = 0 → ∀ v, s.futexes.Dormant v .word →
      pc = .wakeAll ∨ ∃ u ≠ t, s.pc u = .wakeAll) :
    Inv { s.setPc t pc with lock := lock, held := held, acquiring := acquiring } := by
  refine ⟨hword, h.futexes, fun u => ?_, fun u => ?_, hnodup, fun u mode found hu => ?_,
    fun hheld v hv => ⟨t, ?_⟩, fun hquiet v hv => ?_⟩
  · by_cases heq : u = t
    · rw [heq]
      simpa [State.setPc, hout] using hlinked
    · simpa [State.setPc, heq] using h.linked u
  · by_cases heq : u = t
    · rw [heq]
      simpa [State.setPc] using hself
    · simpa [State.setPc, heq, hothers u heq] using h.acquiring u
  · by_cases heq : u = t
    · rw [heq] at hu
      exact absurd (by simpa [State.setPc] using hu) (hcompared mode found)
    · exact h.compared u mode found (by simpa [State.setPc, heq] using hu)
  · refine (hexclusive hheld v hv).imp (fun hpc => ?_) fun hmem => ⟨hmem, fun hdormant => ?_⟩
    · simpa [State.setPc] using hpc
    · have hasleep := hdormant.2
      change s.futexes.phase t = _ at hasleep
      simp [hout] at hasleep
  · obtain hpc | ⟨u, hne, hu⟩ := hshared hquiet v hv
    · exact ⟨t, by simpa [State.setPc] using hpc⟩
    · exact ⟨u, by simpa [State.setPc, hne] using hu⟩

/-- At most `2^16 - 1` acquisitions are held at a time, and at most `2^15 - 1` threads are in
`RtlAcquireSRWLockExclusive`. -/
def Fair (s : State T) : Op T → Prop
  | .acquireExclusive _ => s.acquiring.length < 32767
  | .tryAcquireShared _ => s.held.length < 65535
  | .next t => s.pc t = .grab .shared → s.held.length < 65535
  | _ => True

omit [DecidableEq T] in
lemma Inv.out_of_pc (h : Inv s) (hwaiting : ∀ mode, s.pc t ≠ .waiting mode)
    (hwaking : s.pc t ≠ .waking) : s.futexes.phase t = .out := by
  have hlinked := h.linked t
  cases hpc : s.pc t with
  | waiting mode => exact absurd hpc (hwaiting mode)
  | waking => exact absurd hpc hwaking
  | _ =>
    rw [hpc] at hlinked
    exact hlinked

section

variable (h : Inv s)

include h

lemma Inv.grabShared (hquiet : s.lock.exclusiveWaiters = 0)
    (hroom : s.held.length < 65535) (hpc : s.pc t = .idle ∨ s.pc t = .grab .shared) :
    Inv { s.setPc t .idle with lock := s.lock.grabShared, held := (t, .shared) :: s.held } := by
  apply @Inv.of_lock T s t _ _ _ _ s.acquiring h
  · apply h.out_of_pc
    · obtain hpc | hpc := hpc <;> simp [hpc]
    · obtain hpc | hpc := hpc <;> simp [hpc]
  · rfl
  · simp
  · exact h.word.grabShared hquiet hroom t
  · exact h.nodup
  · rw [h.acquiring]
    obtain hpc | hpc := hpc <;> simp [hpc, Pc.Exclusive]
  · exact fun u _ => Iff.rfl
  · simp
  intro _ v hv
  obtain ⟨u, hu⟩ := h.sharedWake hquiet v hv
  refine .inr ⟨u, ?_, hu⟩
  rintro rfl
  obtain hpc | hpc := hpc <;> simp [hpc] at hu

lemma Inv.grab {mode : Mode} (hpc : s.pc t = .grab mode)
    (hroom : mode = .shared → s.held.length < 65535) : Inv (grab s t mode) := by
  have hout : s.futexes.phase t = .out := h.out_of_pc (by simp [hpc]) (by simp [hpc])
  cases mode with
  | exclusive =>
    have hmem : t ∈ s.acquiring := by simp [h.acquiring, hpc, Pc.Exclusive]
    unfold SrwLocks.grab
    dsimp only
    split
    · rename_i hfree
      apply h.of_lock hout
      · rfl
      · simp
      · exact h.word.grabExclusive hfree hmem
      · exact h.nodup.erase t
      · simp [h.nodup.mem_erase_iff, Pc.Exclusive]
      · intro u hne
        simp [h.nodup.mem_erase_iff, hne]
      · simp
      intro hquiet
      have hword := h.word.grabExclusive hfree hmem
      have hheld := (hword.quiet_iff.mp hquiet).2
      simp [exclusiveHeld] at hheld
    · rename_i hbusy
      apply h.of_futexes h.futexes (fun _ _ => rfl)
      · exact hout
      · simp [hpc, Pc.Exclusive]
      · intro mode found hcompare
        obtain ⟨rfl, rfl⟩ := hcompare
        exact hbusy
      · exact fun _ _ => id
      · exact fun _ _ => id
      · simp [hpc]
      · simp [hpc]
  | shared =>
    unfold SrwLocks.grab
    dsimp only
    split
    · rename_i hquiet
      exact h.grabShared hquiet (hroom rfl) (.inr hpc)
    rename_i hbusy
    apply h.of_futexes h.futexes (fun _ _ => rfl)
    · exact hout
    · simp [hpc, Pc.Exclusive]
    · intro mode found hcompare
      obtain ⟨rfl, rfl⟩ := hcompare
      exact hbusy
    · exact fun _ _ => id
    · exact fun _ _ => id
    · simp [hpc]
    · simp [hpc]

lemma Inv.sleep {mode : Mode} {found : SrwLock} (hpc : s.pc t = .compare mode found)
    (hsame : unchanged found s.lock mode) :
    Inv { s.setPc t (.waiting mode) with futexes := s.futexes.wait t mode.addr } := by
  have hout : s.futexes.phase t = .out := h.out_of_pc (by simp [hpc]) (by simp [hpc])
  have hblocks := h.compared t mode found hpc
  apply h.of_futexes (h.futexes.wait hout)
  · intro u hne
    exact update_of_ne hne _ _
  · exact .inl (update_self _ _ _)
  · rw [hpc]
    cases mode <;> simp [Pc.Exclusive]
  · simp
  · intro hheld v hv
    refine (Futexes.dormant_wait hv).resolve_right ?_
    rintro ⟨_, haddr⟩
    cases mode with
    | shared => simp [Mode.addr] at haddr
    | exclusive =>
      have hfree := h.word.free_iff.mpr hheld
      exact hblocks (hsame.symm.trans hfree)
  · intro hquiet v hv
    refine (Futexes.dormant_wait hv).resolve_right ?_
    rintro ⟨_, haddr⟩
    cases mode with
    | exclusive => simp [Mode.addr] at haddr
    | shared =>
      have hword : s.lock = found := hsame
      exact hblocks (hword ▸ hquiet)
  · simp [hpc]
  · simp [hpc]

lemma Inv.resume {mode : Mode} {futexes : Futexes T Addr}
    (hpc : s.pc t = .waiting mode) (hresume : s.futexes.resume t = some futexes) :
    Inv (match futexes.phase t with
      | .out => { s.setPc t (.grab mode) with futexes := futexes }
      | _ => { s with futexes := futexes }) := by
  have hsub : ∀ v addr, futexes.Dormant v addr → s.futexes.Dormant v addr :=
    fun v addr hv => (Futexes.dormant_resume hresume hv).1
  have hlinked := h.linked t
  rw [hpc] at hlinked
  have hinv := h.futexes.resume hresume
  obtain ⟨addr, hphase, _, rfl⟩ | ⟨addr, _, rfl⟩ := Futexes.resume_cases hresume
  · dsimp only
    rw [update_self]
    have hself : s.setPc t (s.pc t) = s := by simp [State.setPc]
    have hresult := @Inv.of_futexes T s t _ (s.pc t) _ h hinv
      (fun u hne => update_of_ne hne _ _) ?_ Iff.rfl ?_ (fun _ v => hsub v _)
      (fun _ v => hsub v _) ?_ ?_
    · rw [hself] at hresult
      exact hresult
    · rw [hpc]
      refine .inr ?_
      rw [hphase] at hlinked
      simp [Linked] at hlinked
      simp [hlinked]
    · simp [hpc]
    · simp [hpc]
    · simp [hpc]
  · dsimp only
    rw [update_self]
    apply h.of_futexes hinv (fun u hne => update_of_ne hne _ _)
    · exact update_self _ _ _
    · rw [hpc]
      cases mode <;> simp [Pc.Exclusive]
    · simp
    · exact fun _ v => hsub v _
    · exact fun _ v => hsub v _
    · simp [hpc]
    · simp [hpc]

lemma Inv.wake {futexes : Futexes T Addr} (hinv : futexes.Inv)
    (hpc : s.pc t = .wakeSingle ∨ s.pc t = .wakeAll ∨ s.pc t = .waking)
    (hothers : ∀ u ≠ t, futexes.phase u = s.futexes.phase u)
    (hself : futexes.phase t = .out ∨ ∃ tids, futexes.phase t = .alerting tids)
    (hsub : ∀ v addr, futexes.Dormant v addr → s.futexes.Dormant v addr)
    (hsingle : s.pc t = .wakeSingle → ∀ v, futexes.Dormant v .owners →
      ∃ u ∈ s.acquiring, ¬futexes.Dormant u .owners)
    (hall : s.pc t = .wakeAll → ∀ v, ¬futexes.Dormant v .word) : Inv (wake s t futexes) := by
  have hmode : ¬(s.pc t).Exclusive := by
    obtain hpc | hpc | hpc := hpc <;> simp [hpc, Pc.Exclusive]
  unfold SrwLocks.wake
  obtain hout | ⟨tids, halerting⟩ := hself
  · rw [hout]
    refine h.of_futexes hinv hothers hout (iff_of_false id hmode) (by simp)
      (fun _ v => hsub v _) (fun _ v => hsub v _) hsingle hall
  · rw [halerting]
    refine h.of_futexes hinv hothers ⟨tids, halerting⟩ (iff_of_false id hmode) (by simp)
      (fun _ v => hsub v _) (fun _ v => hsub v _) hsingle hall

lemma next_inv (hroom : s.pc t = .grab .shared → s.held.length < 65535)
    (hnext : next s t = some s') : Inv s' := by
  unfold next at hnext
  cases hpc : s.pc t <;> simp only [hpc, some.injEq, reduceCtorEq] at hnext
  case grab mode =>
    rw [← hnext]
    exact h.grab hpc fun hmode => hroom (hmode ▸ hpc)
  case compare mode found =>
    split at hnext
    · rename_i hsame
      exact some.inj hnext ▸ h.sleep hpc hsame
    rw [← some.inj hnext]
    have hout : s.futexes.phase t = .out := h.out_of_pc (by simp [hpc]) (by simp [hpc])
    apply h.of_futexes h.futexes (fun _ _ => rfl)
    · exact hout
    · rw [hpc]
      cases mode <;> simp [Pc.Exclusive]
    · simp
    · exact fun _ _ => id
    · exact fun _ _ => id
    · simp [hpc]
    · simp [hpc]
  case waiting mode =>
    obtain ⟨futexes, hresume, rfl⟩ := map_eq_some_iff.mp hnext
    exact h.resume hpc hresume
  case wakeSingle =>
    rw [← hnext]
    have hout : s.futexes.phase t = .out := h.out_of_pc (by simp [hpc]) (by simp [hpc])
    apply h.wake (h.futexes.wakeSingle hout .owners) (.inl hpc)
    · intro u hne
      obtain ⟨heq, _⟩ | ⟨w, _, heq⟩ := Futexes.wakeSingle_cases s.futexes t .owners
      · rw [heq]
      · rw [heq]
        exact update_of_ne hne _ _
    · obtain ⟨heq, _⟩ | ⟨w, _, heq⟩ := Futexes.wakeSingle_cases s.futexes t .owners
      · rw [heq]
        exact .inl hout
      · rw [heq]
        exact .inr ⟨[w], update_self _ _ _⟩
    · exact fun v addr hv => (Futexes.dormant_wakeSingle hv).1
    · intro _ v hv
      obtain ⟨w, hmem, hgone⟩ := (Futexes.dormant_wakeSingle hv).2 rfl
      exact ⟨w, h.queued_acquiring hmem, fun hdormant => hgone hdormant.1⟩
    · simp [hpc]
  case wakeAll =>
    rw [← hnext]
    have hout : s.futexes.phase t = .out := h.out_of_pc (by simp [hpc]) (by simp [hpc])
    apply h.wake (h.futexes.wakeAll hout .word) (.inr (.inl hpc))
    · exact fun u hne => update_of_ne hne _ _
    · exact .inr ⟨_, update_self _ _ _⟩
    · exact fun v addr hv => (Futexes.dormant_wakeAll hv).1
    · simp [hpc]
    · exact fun _ v hv => (Futexes.dormant_wakeAll hv).2 rfl
  case waking =>
    obtain ⟨futexes, halert, rfl⟩ := map_eq_some_iff.mp hnext
    apply h.wake (h.futexes.alertNext halert) (.inr (.inr hpc))
    · intro u hne
      obtain ⟨_, rfl⟩ | ⟨w, tids, _, rfl⟩ := Futexes.alertNext_cases halert
      · exact update_of_ne hne _ _
      · exact update_of_ne hne _ _
    · obtain ⟨_, rfl⟩ | ⟨w, tids, _, rfl⟩ := Futexes.alertNext_cases halert
      · exact .inl (update_self _ _ _)
      · exact .inr ⟨tids, update_self _ _ _⟩
    · exact fun v addr hv => Futexes.dormant_alertNext halert hv
    · simp [hpc]
    · simp [hpc]

lemma Inv.acquireExclusive (hpc : s.pc t = .idle) (hroom : s.acquiring.length < 32767) :
    Inv { s.setPc t (.grab .exclusive) with
      lock := { s.lock with exclusiveWaiters := s.lock.exclusiveWaiters + 2 }
      acquiring := t :: s.acquiring } := by
  have hword := h.word.count hroom t
  have hnew : t ∉ s.acquiring := by simp [h.acquiring, hpc, Pc.Exclusive]
  apply @Inv.of_lock T s t _ _ _ s.held _ h
  · exact h.out_of_pc (by simp [hpc]) (by simp [hpc])
  · rfl
  · simp
  · exact hword
  · exact nodup_cons.mpr ⟨hnew, h.nodup⟩
  · simp [Pc.Exclusive]
  · intro u hne
    simp [hne]
  · exact fun _ _ _ => .inr mem_cons_self
  · intro hquiet
    have hnone := (hword.quiet_iff.mp hquiet).1
    simp at hnone

lemma Inv.tryAcquireExclusive (hpc : s.pc t = .idle) (hfree : s.lock.owners = 0) :
    Inv { s with lock := s.lock.tryGrabExclusive, held := (t, .exclusive) :: s.held } := by
  have hword := h.word.tryGrabExclusive hfree t
  have hself : s.setPc t .idle = s := by simp [State.setPc, ← hpc]
  have hresult := @Inv.of_lock T s t _ .idle _ _ s.acquiring h
    (h.out_of_pc (by simp [hpc]) (by simp [hpc])) rfl (by simp) hword h.nodup
    (by simp [h.acquiring, hpc]) (fun _ _ => Iff.rfl) (by simp) ?_
  · rw [hself] at hresult
    exact hresult
  · intro hquiet
    have hheld := (hword.quiet_iff.mp hquiet).2
    simp [exclusiveHeld] at hheld

lemma Inv.releaseExclusive {owner : T} (hpc : s.pc t = .idle)
    (howner : (owner, .exclusive) ∈ s.held) :
    let lock := s.lock.releaseExclusive
    Inv { s.setPc t (if lock.exclusiveWaiters ≠ 0 then .wakeSingle else .wakeAll) with
      lock := lock
      held := s.held.erase (owner, .exclusive) } := by
  obtain ⟨hword, _⟩ := h.word.releaseExclusive howner
  apply @Inv.of_lock T s t _ _ _ _ s.acquiring h
  · exact h.out_of_pc (by simp [hpc]) (by simp [hpc])
  · split <;> rfl
  · intro mode found
    split <;> simp
  · exact hword
  · exact h.nodup
  · rw [h.acquiring, hpc]
    split <;> simp [Pc.Exclusive]
  · exact fun _ _ => Iff.rfl
  · intro _ v hv
    by_cases hquiet : s.lock.releaseExclusive.exclusiveWaiters = 0
    · have hmem := h.queued_acquiring hv.1
      rw [(hword.quiet_iff.mp hquiet).1] at hmem
      simp at hmem
    · exact .inl (if_pos hquiet)
  · exact fun hquiet _ _ => .inl (if_neg (not_not.mpr hquiet))

lemma Inv.releaseShared {owner : T} (hpc : s.pc t = .idle) (howner : (owner, .shared) ∈ s.held) :
    let lock := s.lock.releaseShared
    Inv { s.setPc t (if lock.owners = 0 then .wakeSingle else .idle) with
      lock := lock
      held := s.held.erase (owner, .shared) } := by
  have hword := h.word.releaseShared howner
  apply @Inv.of_lock T s t _ _ _ _ s.acquiring h
  · exact h.out_of_pc (by simp [hpc]) (by simp [hpc])
  · split <;> rfl
  · intro mode found
    split <;> simp
  · exact hword
  · exact h.nodup
  · rw [h.acquiring, hpc]
    split <;> simp [Pc.Exclusive]
  · exact fun _ _ => Iff.rfl
  · exact fun hheld _ _ => .inl (if_pos (hword.free_iff.mpr hheld))
  intro hquiet v hv
  obtain ⟨u, hu⟩ := h.sharedWake hquiet v hv
  refine .inr ⟨u, ?_, hu⟩
  rintro rfl
  simp [hpc] at hu

lemma step_inv {op : Op T} (hfair : Fair s op) (hstep : step s op = some s') : Inv s' := by
  cases op with
  | next t => exact next_inv h hfair hstep
  | alert t =>
    rw [← some.inj hstep]
    exact { h with futexes := h.futexes.alert t }
  | acquireExclusive t =>
    rw [step] at hstep
    split at hstep
    · simp at hstep
    · rename_i hpc
      exact some.inj hstep ▸ h.acquireExclusive (not_not.mp hpc) hfair
  | acquireShared t =>
    rw [step] at hstep
    split at hstep
    · simp at hstep
    rename_i hpc
    have hpc := not_not.mp hpc
    rw [← some.inj hstep]
    apply h.of_futexes h.futexes (fun _ _ => rfl)
    · exact h.out_of_pc (by simp [hpc]) (by simp [hpc])
    · simp [hpc, Pc.Exclusive]
    · simp
    · exact fun _ _ => id
    · exact fun _ _ => id
    · simp [hpc]
    · simp [hpc]
  | tryAcquireExclusive t =>
    rw [step] at hstep
    split at hstep
    · simp at hstep
    rename_i hpc
    split at hstep
    · rename_i hfree
      exact some.inj hstep ▸ h.tryAcquireExclusive (not_not.mp hpc) hfree
    · exact some.inj hstep ▸ h
  | tryAcquireShared t =>
    rw [step] at hstep
    split at hstep
    · simp at hstep
    rename_i hpc
    have hpc := not_not.mp hpc
    split at hstep
    · rename_i hquiet
      have hself : s.setPc t .idle = s := by simp [State.setPc, ← hpc]
      have hresult := h.grabShared hquiet hfair (.inl hpc)
      rw [hself] at hresult
      exact some.inj hstep ▸ hresult
    · exact some.inj hstep ▸ h
  | releaseExclusive t owner =>
    rw [step] at hstep
    split at hstep
    · simp at hstep
    · rename_i hmatched
      have hmatched := not_or.mp hmatched
      exact some.inj hstep ▸ h.releaseExclusive (not_not.mp hmatched.1) (not_not.mp hmatched.2)
  | releaseShared t owner =>
    rw [step] at hstep
    split at hstep
    · simp at hstep
    · rename_i hmatched
      have hmatched := not_or.mp hmatched
      exact some.inj hstep ▸ h.releaseShared (not_not.mp hmatched.1) (not_not.mp hmatched.2)

end

end Steps

def Sleeping (s : State T) (t : T) : Prop :=
  (∃ mode, s.pc t = .waiting mode) ∧ s.futexes.Asleep t

lemma Inv.rest (h : Inv s) (hfree : s.held = [])
    (hrest : ∀ t, s.pc t = .idle ∨ Sleeping s t) (t : T) : s.pc t = .idle := by
  have hphase : ∀ u, s.futexes.phase u = .out ∨ s.futexes.Asleep u := by
    intro u
    obtain hpc | hsleeping := hrest u
    · exact .inl (h.out_of_pc (by simp [hpc]) (by simp [hpc]))
    · exact .inr hsleeping.2
  have hdormant : ∀ u mode, s.pc u = .waiting mode → s.futexes.Dormant u mode.addr := by
    intro u mode hpc
    apply h.futexes.rest hphase
    have hlinked := h.linked u
    rw [hpc] at hlinked
    obtain hasleep | hwoken := hlinked
    · exact hasleep
    · obtain hout | ⟨⟨addr, hasleep⟩, _⟩ := hphase u
      · simp [hwoken] at hout
      · simp [hwoken] at hasleep
  have hnone : s.acquiring = [] := by
    rw [eq_nil_iff_forall_not_mem]
    intro u hu
    have hmode := (h.acquiring u).mp hu
    obtain hpc | ⟨⟨mode, hpc⟩, _⟩ := hrest u
    · simp [hpc, Pc.Exclusive] at hmode
    cases mode with
    | shared => simp [hpc, Pc.Exclusive] at hmode
    | exclusive =>
      obtain ⟨v, hv | ⟨hv, hactive⟩⟩ := h.exclusiveWake hfree u (hdormant u _ hpc)
      · obtain hpc' | ⟨⟨mode, hpc'⟩, _⟩ := hrest v
        · simp [hv] at hpc'
        · simp [hv] at hpc'
      have hmode' := (h.acquiring v).mp hv
      obtain hpc' | ⟨⟨mode, hpc'⟩, _⟩ := hrest v
      · simp [hpc', Pc.Exclusive] at hmode'
      · cases mode with
        | shared => simp [hpc', Pc.Exclusive] at hmode'
        | exclusive => exact hactive (hdormant v _ hpc')
  obtain hpc | ⟨⟨mode, hpc⟩, _⟩ := hrest t
  · exact hpc
  cases mode with
  | exclusive =>
    have hmem : t ∈ s.acquiring := by simp [h.acquiring, hpc, Pc.Exclusive]
    simp [hnone] at hmem
  | shared =>
    have hquiet : s.lock.exclusiveWaiters = 0 :=
      h.word.quiet_iff.mpr ⟨hnone, by rw [hfree]; rfl⟩
    obtain ⟨v, hv⟩ := h.sharedWake hquiet t (hdormant t _ hpc)
    obtain hpc' | ⟨⟨mode, hpc'⟩, _⟩ := hrest v
    · simp [hv] at hpc'
    · simp [hv] at hpc'

/-- An exclusive owner is alone, `owners` counts the acquisitions and bit 0 of `exclusive_waiters`
tells whether one of them is exclusive, and no sleeper is left beside a free lock. -/
theorem srw_locks_hand_off [DecidableEq T] (s : State T) (hs : Reaches step Fair Initial s) :
    (∀ t, (t, .exclusive) ∈ s.held → s.held = [(t, .exclusive)]) ∧
    (s.lock.owners.toNat = s.held.length ∧
      (s.lock.exclusiveWaiters.toNat % 2 = 1 ↔ ∃ t, (t, .exclusive) ∈ s.held) ∧
      s.lock.exclusiveWaiters.toNat / 2 = s.acquiring.length) ∧
    (s.held = [] → (∀ t, s.pc t = .idle ∨ Sleeping s t) → ∀ t, ¬Sleeping s t) := by
  have hinv : Inv s := hs.invariant (fun _ => Initial.inv) fun _ _ _ h hfair => step_inv h hfair
  have hle := exclusiveHeld_le s.held
  have hwaiters := hinv.word.waiters
  have hone : exclusiveHeld s.held ≤ 1 := by
    have halone := hinv.word.alone
    omega
  have hheld : (∃ t, (t, Mode.exclusive) ∈ s.held) ↔ 0 < exclusiveHeld s.held := by
    unfold exclusiveHeld
    rw [countP_pos_iff]
    constructor
    · rintro ⟨t, hmem⟩
      exact ⟨_, hmem, by simp⟩
    · rintro ⟨⟨t, mode⟩, hmem, hmode⟩
      obtain rfl : mode = .exclusive := by simpa using hmode
      exact ⟨t, hmem⟩
  refine ⟨fun t hmem => ?_, ⟨hinv.word.owners, ?_, by omega⟩, fun hfree hrest t hsleeping => ?_⟩
  · have hpos := hheld.mp ⟨t, hmem⟩
    obtain ⟨p, hp⟩ := length_eq_one_iff.mp (hinv.word.alone (by omega))
    rw [hp] at hmem ⊢
    rw [mem_singleton.mp hmem]
  · rw [hheld]
    omega
  · obtain ⟨mode, hpc⟩ := hsleeping.1
    have hidle := hinv.rest hfree hrest t
    simp [hpc] at hidle

def unlocked (T : Type) : State T where
  lock := ⟨0, 0⟩
  futexes := ⟨[], fun _ => false, fun _ => .out⟩
  pc _ := .idle
  held := []
  acquiring := []

lemma unlocked_initial (T : Type) : Initial (unlocked T) :=
  ⟨rfl, rfl, fun _ => rfl, fun _ => rfl, rfl, rfl⟩

def readerThenWriter : List (Op (Fin 2)) :=
  [.acquireShared 0, .next 0, .acquireExclusive 1, .next 1, .next 1, .releaseShared 0 0,
    .next 0, .next 0, .next 0, .next 1, .next 1, .next 1]

theorem srw_locks_hand_off_writer : ∃ s, run step (unlocked (Fin 2)) readerThenWriter = some s ∧
      (1, .exclusive) ∈ s.held ∧ s.held = [(1, .exclusive)] := by
  have hrun : (run step (unlocked (Fin 2)) readerThenWriter).isSome = true := by decide
  obtain ⟨s, hs⟩ := isSome_iff_exists.mp hrun
  have hheld : (run step (unlocked (Fin 2)) readerThenWriter).map (·.held) =
      some [(1, .exclusive)] := by decide
  have hmem : (1, Mode.exclusive) ∈ s.held := by
    rw [hs] at hheld
    have hheld : s.held = [(1, .exclusive)] := some.inj hheld
    rw [hheld]
    exact mem_cons_self
  have hreach : Reaches step Fair Initial s := by
    apply (Reaches.start (unlocked_initial (Fin 2))).run readerThenWriter _ hs
    refine ⟨trivial, fun _ => by decide, Nat.zero_lt_succ _, fun _ => by decide,
      fun _ => by decide, trivial, fun _ => by decide, fun _ => by decide, fun _ => by decide, fun _ => by decide,
      fun _ => by decide, fun _ => by decide, trivial⟩
  exact ⟨s, hs, hmem, (srw_locks_hand_off s hreach).1 1 hmem⟩

lemma shared_acquisitions (n : Nat) :
    ∃ s, Reachable step (Initial (T := Nat)) s ∧ s.lock = ⟨0, BitVec.ofNat 16 n⟩ ∧
      s.held = List.replicate n (0, .shared) ∧ ∀ t, s.pc t = .idle := by
  induction n with
  | zero => exact ⟨unlocked Nat, .start (unlocked_initial Nat), rfl, rfl, fun _ => rfl⟩
  | succ n ih =>
    obtain ⟨s, hreach, hlock, hheld, hidle⟩ := ih
    have hstep : step s (.tryAcquireShared 0) =
        some { s with lock := s.lock.grabShared, held := (0, .shared) :: s.held } := by
      rw [step, if_neg (not_not.mpr (hidle 0)), if_pos (by rw [hlock])]
    refine ⟨_, .next hreach trivial hstep, ?_, ?_, hidle⟩
    · rw [hlock, BitVec.ofNat_add]
      rfl
    · rw [hheld]
      rfl

/-- The threads `1` to `n` sleep while thread `0` holds the lock exclusive. -/
structure Crowd (n : Nat) (s : State Nat) : Prop where
  waiters : s.lock.exclusiveWaiters = BitVec.ofNat 16 (2 * n + 1)
  owners : s.lock.owners = 1
  held : s.held = [(0, .exclusive)]
  queue : ∀ p ∈ s.futexes.queue, p.2 = .owners
  alerted : ∀ t, s.futexes.alerted t = false
  outside : ∀ t, t = 0 ∨ n < t → s.pc t = .idle ∧ s.futexes.phase t = .out
  asleep : ∀ t, t ≠ 0 → t ≤ n →
    s.pc t = .waiting .exclusive ∧ s.futexes.phase t = .asleep .owners

lemma crowd_reachable (n : Nat) : ∃ s, Reachable step (Initial (T := Nat)) s ∧ Crowd n s := by
  induction n with
  | zero =>
    have hstep : step (unlocked Nat) (.tryAcquireExclusive 0) =
        some { unlocked Nat with lock := ⟨1, 1⟩, held := [(0, .exclusive)] } := rfl
    refine ⟨_, .next (.start (unlocked_initial Nat)) trivial hstep, ⟨rfl, rfl, rfl, ?_, ?_, ?_, ?_⟩⟩
    · intro p hp
      exact absurd hp (by simp [unlocked])
    · exact fun _ => rfl
    · exact fun _ _ => ⟨rfl, rfl⟩
    · intro t hne hle
      omega
  | succ n ih =>
    obtain ⟨s, hreach, hcrowd⟩ := ih
    have hidle := (hcrowd.outside (n + 1) (.inr (Nat.lt_succ_self n))).1
    let s₁ : State Nat := { s.setPc (n + 1) (.grab .exclusive) with
      lock := { s.lock with exclusiveWaiters := s.lock.exclusiveWaiters + 2 }
      acquiring := (n + 1) :: s.acquiring }
    have hpc₁ : s₁.pc (n + 1) = .grab .exclusive := update_self _ _ _
    have howners : ¬s₁.lock.owners = 0 := by
      rw [hcrowd.owners]
      decide
    have hstep₁ : step s (.acquireExclusive (n + 1)) = some s₁ := by
      rw [step, if_neg (not_not.mpr hidle)]
    have hstep₂ : step s₁ (.next (n + 1)) =
        some (s₁.setPc (n + 1) (.compare .exclusive s₁.lock)) := by
      rw [step, next, hpc₁]
      dsimp only
      rw [grab, if_neg howners]
    have hpc₂ : (s₁.setPc (n + 1) (.compare .exclusive s₁.lock)).pc (n + 1) =
        .compare .exclusive s₁.lock := update_self _ _ _
    have hstep₃ : step (s₁.setPc (n + 1) (.compare .exclusive s₁.lock)) (.next (n + 1)) =
        some { (s₁.setPc (n + 1) (.compare .exclusive s₁.lock)).setPc (n + 1)
            (.waiting .exclusive) with futexes := s.futexes.wait (n + 1) .owners } := by
      rw [step, next, hpc₂]
      exact if_pos (show unchanged s₁.lock s₁.lock .exclusive from rfl)
    refine ⟨_, .next (.next (.next hreach trivial hstep₁) trivial hstep₂) trivial hstep₃, ?_⟩
    refine ⟨?_, hcrowd.owners, hcrowd.held, ?_, hcrowd.alerted, ?_, ?_⟩
    · change s.lock.exclusiveWaiters + 2 = _
      rw [hcrowd.waiters]
      exact (BitVec.ofNat_add _ _).symm
    · intro p hp
      obtain hp | hp := mem_append.mp hp
      · exact hcrowd.queue p hp
      · rw [mem_singleton.mp hp]
    · intro t ht
      have hne : t ≠ n + 1 := by omega
      have hold := hcrowd.outside t (by omega)
      simpa [State.setPc, Futexes.wait, s₁, hne] using hold
    intro t hne hle
    by_cases heq : t = n + 1
    · subst heq
      exact ⟨update_self _ _ _, update_self _ _ _⟩
    · have hold := hcrowd.asleep t hne (by omega)
      simpa [State.setPc, Futexes.wait, s₁, heq] using hold

/-- With `2^16` shared acquisitions the lock looks free, and an exclusive acquire succeeds. With
`2^15` exclusive waiters there seem to be none, and the release leaves them asleep. -/
theorem srw_counters_wrap : (∃ s, Reachable step (Initial (T := Nat)) s ∧ (1, .exclusive) ∈ s.held ∧
      (0, .shared) ∈ s.held) ∧
    ∃ s, Reachable step (Initial (T := Nat)) s ∧ s.held = [] ∧
      (∀ t, s.pc t = .idle ∨ Sleeping s t) ∧ Sleeping s 1 := by
  constructor
  · obtain ⟨s, hreach, hlock, hheld, hidle⟩ := shared_acquisitions (2 ^ 16)
    have hstep : step s (.tryAcquireExclusive 1) =
        some { s with lock := s.lock.tryGrabExclusive, held := (1, .exclusive) :: s.held } := by
      rw [step, if_neg (not_not.mpr (hidle 1)), if_pos (by rw [hlock]; rfl)]
    refine ⟨_, .next hreach trivial hstep, mem_cons_self, mem_cons_of_mem _ ?_⟩
    rw [hheld]
    exact mem_replicate.mpr ⟨by decide, rfl⟩
  · obtain ⟨s, hreach, hcrowd⟩ := crowd_reachable (2 ^ 15)
    obtain ⟨hidle, hout⟩ := hcrowd.outside 0 (.inl rfl)
    let s₁ : State Nat := { s.setPc 0 .wakeAll with
      lock := s.lock.releaseExclusive, held := s.held.erase (0, .exclusive) }
    have hquiet : s.lock.releaseExclusive.exclusiveWaiters = 0 := by
      unfold SrwLock.releaseExclusive
      rw [hcrowd.waiters]
      decide
    have hmem : (0, Mode.exclusive) ∈ s.held := by
      rw [hcrowd.held]
      exact mem_cons_self
    have hstep₁ : step s (.releaseExclusive 0 0) = some s₁ := by
      rw [step, if_neg (not_or.mpr ⟨not_not.mpr hidle, not_not.mpr hmem⟩)]
      dsimp only
      rw [if_neg (not_not.mpr hquiet)]
    have hnone : s.futexes.queue.filter (·.2 = .word) = [] := by
      rw [filter_eq_nil_iff]
      intro p hp
      rw [hcrowd.queue p hp]
      decide
    have hpc₁ : s₁.pc 0 = .wakeAll := by simp [s₁, State.setPc]
    let s₂ : State Nat := { s₁.setPc 0 .waking with futexes := s.futexes.wakeAll 0 .word }
    have hphase₂ : s₂.futexes.phase 0 = .alerting [] := by
      simp only [s₂, Futexes.wakeAll, update_self]
      rw [hnone]
      rfl
    have hstep₂ : step s₁ (.next 0) = some s₂ := by
      have hphase : (s₁.futexes.wakeAll 0 .word).phase 0 = .alerting [] := hphase₂
      rw [step, next, hpc₁]
      unfold wake
      dsimp only
      rw [hphase]
      rfl
    have hpc₂ : s₂.pc 0 = .waking := by simp [s₂, State.setPc]
    let s₃ : State Nat := { s₂.setPc 0 .idle with
      futexes := { s₂.futexes with phase := update s₂.futexes.phase 0 .out } }
    have hstep₃ : step s₂ (.next 0) = some s₃ := by
      rw [step, next, hpc₂]
      unfold Futexes.alertNext
      rw [hphase₂]
      dsimp only [map_some]
      unfold wake
      dsimp only
      rw [update_self]
    have hsleeping : ∀ t, t ≠ 0 → t ≤ 2 ^ 15 → Sleeping s₃ t := by
      intro t hne hle
      obtain ⟨hpc, hphase⟩ := hcrowd.asleep t hne hle
      refine ⟨⟨.exclusive, ?_⟩, ⟨.owners, ?_⟩, hcrowd.alerted t⟩
      · simpa [s₃, s₂, s₁, State.setPc, hne] using hpc
      · simpa [s₃, s₂, s₁, Futexes.wakeAll, State.setPc, hne] using hphase
    refine ⟨s₃, .next (.next (.next hreach trivial hstep₁) trivial hstep₂) trivial hstep₃, ?_,
      ?_, hsleeping 1 (by decide) (by decide)⟩
    · change s.held.erase (0, .exclusive) = []
      rw [hcrowd.held]
      rfl
    · intro t
      by_cases heq : t = 0
      · subst heq
        exact .inl (by simp [s₃, State.setPc])
      · by_cases hle : t ≤ 2 ^ 15
        · exact .inr (hsleeping t heq hle)
        · have hold := (hcrowd.outside t (.inr (by omega))).1
          refine .inl ?_
          simpa [s₃, s₂, s₁, State.setPc, heq] using hold

end WineForge.SrwLocks
