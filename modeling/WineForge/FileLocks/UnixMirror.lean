import WineForge.FileLocks.SharingRules

/-!
# The Unix locks mirror the server locks

On a file system with locks, the bytes that the server holds through `fcntl` are those of the
locks of the inode, up to the largest offset. Removing a lock releases the holes, which are the
bytes that no other lock covers.
-/

namespace WineForge.FileLocks

open Library List

/-- `fcntl` answers as on a file system with locks: clearing works, and setting may only meet a
foreign lock or a descriptor without the access. -/
structure Supported (env : UnixEnv) : Prop where
  unlock : ∀ start limit, env.fcntl .unlock start limit = .ok
  set : ∀ type start limit, env.fcntl type start limit = .ok ∨
    env.fcntl type start limit = .conflict ∨ env.fcntl type start limit = .badf

/-- No fd has given up on Unix locks, and the limit is that of `off_t`. -/
structure UnixState.Ready (u : UnixState) : Prop where
  maxOffset : u.maxOffset = offTMax
  fsLocks : ∀ fd, u.fsLocks fd = true

lemma offTMax_toNat : offTMax.toNat = 9223372036854775807 := rfl

variable {start stop : FilePos}

lemma flockBytes_iff (h : start.toNat < endNat stop) (byte : ℕ) :
    flockBytes start stop offTMax byte = true ↔
      (start.toNat ≤ byte ∧ byte < endNat stop) ∧ byte ≤ offTMax.toNat := by
  unfold flockBytes
  by_cases hzero : stop = 0
  · have hend : endNat stop = 18446744073709551616 := if_pos hzero
    rw [if_pos (.inl hzero), hend, decide_eq_true_eq, offTMax_toNat]
    omega
  have hend : endNat stop = stop.toNat := if_neg hzero
  have hle : start ≤ stop := by
    rw [UInt64.le_iff_toNat_le]
    omega
  by_cases hlimit : offTMax < stop
  · rw [if_pos (.inr hlimit), hend, decide_eq_true_eq]
    rw [UInt64.lt_iff_toNat_lt] at hlimit
    omega
  have hno : ¬ (stop = 0 ∨ offTMax < stop) := not_or.mpr ⟨hzero, hlimit⟩
  rw [if_neg hno, if_pos hle, hend, decide_eq_true_eq]
  rw [UInt64.lt_iff_toNat_lt] at hlimit
  omega

variable {env : UnixEnv} {u : UnixState}

lemma setUnixLock_unlock (henv : Supported env) (hu : u.Ready) (fd : ℕ) (start stop : FilePos) :
    setUnixLock env fd start stop .unlock u =
      (none, if start = stop ∨ offTMax < start then u else u.setBytes start stop .unlock) := by
  unfold setUnixLock
  rw [if_pos (hu.fsLocks fd), setUnixLockLoop, hu.maxOffset, henv.unlock]
  by_cases hempty : start = stop
  · rw [if_pos hempty, if_pos (.inl hempty)]
  · by_cases hlarge : offTMax < start
    · rw [if_neg hempty, if_pos hlarge, if_pos (.inr hlarge)]
    · rw [if_neg hempty, if_neg hlarge, if_neg (not_or.mpr ⟨hempty, hlarge⟩)]

lemma UnixState.Ready.setBytes (hu : u.Ready) (start stop : FilePos)
    (type : UnixLockType) : (u.setBytes start stop type).Ready :=
  ⟨hu.maxOffset, hu.fsLocks⟩

lemma setUnixLock_clears (henv : Supported env) (hu : u.Ready)
    (fd : ℕ) (hne : start ≠ stop) (h : start.toNat < endNat stop) :
    (setUnixLock env fd start stop .unlock u).2.Ready ∧
      ∀ byte ≤ offTMax.toNat, (setUnixLock env fd start stop .unlock u).2.held byte =
        if start.toNat ≤ byte ∧ byte < endNat stop then .unlock else u.held byte := by
  rw [setUnixLock_unlock henv hu]
  by_cases hlarge : offTMax < start
  · rw [if_pos (.inr hlarge)]
    refine ⟨hu, fun byte hbyte => ?_⟩
    rw [UInt64.lt_iff_toNat_lt] at hlarge
    rw [if_neg (by omega)]
  rw [if_neg (not_or.mpr ⟨hne, hlarge⟩)]
  refine ⟨hu.setBytes start stop .unlock, fun byte hbyte => ?_⟩
  have hiff := flockBytes_iff h byte
  simp only [UnixState.setBytes, hu.maxOffset]
  by_cases hin : start.toNat ≤ byte ∧ byte < endNat stop
  · rw [if_pos hin, if_pos (hiff.mpr ⟨hin, hbyte⟩)]
  · rw [if_neg hin, if_neg (fun hb => hin (hiff.mp hb).1)]

lemma endNat_of_lt (h : start.toNat < stop.toNat) : start ≠ stop ∧ endNat stop = stop.toNat := by
  have hne : start ≠ stop := fun heq => lt_irrefl _ (heq ▸ h)
  have hzero : stop ≠ 0 := by
    intro heq
    rw [heq] at h
    exact Nat.not_lt_zero _ h
  exact ⟨hne, if_neg hzero⟩

lemma clearHoles_clears (henv : Supported env) (fd : ℕ) {holes : List Hole} :
    ∀ {u : UnixState}, u.Ready → (∀ h ∈ holes, h.start.toNat < h.stop.toNat) →
      (clearHoles env fd holes u).Ready ∧
        ∀ byte ≤ offTMax.toNat, ((byte ∈ gapPoints (holes.map Hole.gap) →
            (clearHoles env fd holes u).held byte = .unlock) ∧
          (byte ∉ gapPoints (holes.map Hole.gap) →
            (clearHoles env fd holes u).held byte = u.held byte)) := by
  induction holes with
  | nil =>
    intro u hu _
    exact ⟨hu, fun byte _ => ⟨fun h => (by simp at h), fun _ => rfl⟩⟩
  | cons h holes ih =>
    intro u hu hlt
    obtain ⟨hne, hend⟩ := endNat_of_lt (hlt h mem_cons_self)
    have hh : h.start.toNat < endNat h.stop := hend ▸ hlt h mem_cons_self
    obtain ⟨hready, hbytes⟩ := setUnixLock_clears henv hu fd hne hh
    obtain ⟨hready', hbytes'⟩ := ih hready fun h' hh' => hlt h' (mem_cons_of_mem h hh')
    refine ⟨hready', fun byte hbyte => ?_⟩
    obtain ⟨hin, hout⟩ := hbytes' byte hbyte
    rw [map_cons, mem_gapPoints_cons]
    simp only [clearHoles]
    have hset := hbytes byte hbyte
    rw [hend] at hset
    by_cases hlater : byte ∈ gapPoints (holes.map Hole.gap)
    · exact ⟨fun _ => hin hlater, fun hno => absurd (.inr hlater) hno⟩
    rw [hout hlater, hset]
    constructor
    · rintro (hfirst | hrest)
      · exact if_pos hfirst
      · exact absurd hrest hlater
    · intro hno
      exact if_neg fun hfirst => hno (.inl hfirst)

def FileLock.Locks (lock : FileLock) (byte : ℕ) : Prop :=
  lock.start ≠ lock.stop ∧ lock.covers byte

/-- The holes of the area can be cleared: memory is available, and no hole is removed from the
list while its link back is wrong. -/
def Releasable (env : UnixEnv) (locks : List FileLock) (start stop : FilePos) : Prop :=
  start ≤ offTMax → touching locks start (clippedStop offTMax stop) ≠ [] →
    env.alloc = true ∧ keepsLinks (touching locks start (clippedStop offTMax stop)) start
      (clippedStop offTMax stop) = true

lemma clippedStop_spec (stop : FilePos) :
    endNat (clippedStop offTMax stop) = min (endNat stop) (offTMax.toNat + 1) ∧
      clippedStop offTMax stop ≠ 0 := by
  have hmax : (offTMax + 1).toNat = 9223372036854775808 := rfl
  have hne : offTMax + 1 ≠ 0 := by decide
  unfold clippedStop
  by_cases hlarge : stop = 0 ∨ offTMax < stop
  · rw [if_pos hlarge]
    have hend : endNat (offTMax + 1) = 9223372036854775808 := by
      unfold endNat
      rw [if_neg hne, hmax]
    refine ⟨?_, hne⟩
    rw [hend, offTMax_toNat]
    unfold endNat
    rcases hlarge with hzero | hlt
    · rw [if_pos hzero]
      rfl
    · rw [UInt64.lt_iff_toNat_lt, offTMax_toNat] at hlt
      split <;> omega
  · rw [if_neg hlarge]
    rw [not_or, UInt64.not_lt, UInt64.le_iff_toNat_le, offTMax_toNat] at hlarge
    have hend : endNat stop = stop.toNat := if_neg hlarge.1
    refine ⟨?_, hlarge.1⟩
    rw [hend, offTMax_toNat]
    omega

variable {locks : List FileLock}

lemma mem_touching {lock : FileLock} :
    lock ∈ touching locks start stop ↔ lock ∈ locks ∧ lock.start ≠ lock.stop ∧
      start.toNat < endNat lock.stop ∧ lock.start.toNat < endNat stop := by
  unfold touching
  rw [mem_filter, Bool.and_eq_true, decide_eq_true_eq, lockOverlaps_eq]

lemma touching_proper (h : ∀ lock ∈ locks, lock.Straight)
    (start stop : FilePos) : ∀ lock ∈ touching locks start stop, lock.Proper := by
  intro lock hlock
  obtain ⟨hmem, hne, -⟩ := mem_touching.mp hlock
  rcases h lock hmem with hzero | hle
  · exact .inl hzero
  refine .inr (UInt64.lt_iff_toNat_lt.mpr ?_)
  have hne' : lock.start.toNat ≠ lock.stop.toNat := fun heq => hne (UInt64.toNat_inj.mp heq)
  rw [UInt64.le_iff_toNat_le] at hle
  omega

lemma not_covered_iff {byte : ℕ} (hlow : start.toNat ≤ byte) (hhigh : byte < endNat stop) :
    (∀ lock ∈ touching locks start stop, ¬ lock.covers byte) ↔
      ∀ lock ∈ locks, ¬ lock.Locks byte := by
  constructor
  · intro h lock hlock hbyte
    obtain ⟨hne, hstart, hend⟩ := hbyte
    exact h lock (mem_touching.mpr ⟨hlock, hne, by omega, by omega⟩) ⟨hstart, hend⟩
  · intro h lock hlock hbyte
    obtain ⟨hmem, hne, -⟩ := mem_touching.mp hlock
    exact h lock hmem ⟨hne, hbyte⟩

/-- Only the held bytes may change. -/
structure Released (s s' : InodeState) : Prop where
  locks : s'.locks = s.locks
  ready : s'.unix.Ready
  pending : s'.pending = s.pending

/-- `remove_unix_locks` clears the bytes of the area that no lock needs. -/
lemma removeUnixLocks_clears (henv : Supported env) {s : InodeState}
    (hu : s.unix.Ready) (hs : ∀ lock ∈ s.locks, lock.Straight) (fd : ℕ)
    (hne : start ≠ stop) (hlt : start.toNat < endNat stop)
    (hrel : Releasable env s.locks start stop) :
    Released s (removeUnixLocks env fd start stop s) ∧
      ∀ byte ≤ offTMax.toNat,
        ((start.toNat ≤ byte ∧ byte < endNat stop) ∧ (∀ lock ∈ s.locks, ¬ lock.Locks byte) →
          (removeUnixLocks env fd start stop s).unix.held byte = .unlock) ∧
        (¬ ((start.toNat ≤ byte ∧ byte < endNat stop) ∧ ∀ lock ∈ s.locks, ¬ lock.Locks byte) →
          (removeUnixLocks env fd start stop s).unix.held byte = s.unix.held byte) := by
  obtain ⟨hend, hzero⟩ := clippedStop_spec stop
  unfold removeUnixLocks
  rw [hu.fsLocks fd, hu.maxOffset]
  simp only [Bool.not_true, Bool.false_eq_true, if_false]
  by_cases hlarge : offTMax < start
  · rw [if_pos (.inr hlarge)]
    refine ⟨⟨rfl, hu, rfl⟩, fun byte hbyte => ⟨fun hin => ?_, fun _ => rfl⟩⟩
    rw [UInt64.lt_iff_toNat_lt] at hlarge
    omega
  have hstart : start ≤ offTMax := UInt64.not_lt.mp hlarge
  have hstart' : start.toNat ≤ offTMax.toNat := UInt64.le_iff_toNat_le.mp hstart
  have hclip : start.toNat < endNat (clippedStop offTMax stop) := by omega
  have hne' : start ≠ clippedStop offTMax stop := by
    intro heq
    have hnat : endNat (clippedStop offTMax stop) = (clippedStop offTMax stop).toNat := if_neg hzero
    rw [hnat, ← heq] at hclip
    exact lt_irrefl _ hclip
  have harea : ∀ byte ≤ offTMax.toNat, (start.toNat ≤ byte ∧ byte < endNat stop) ↔
      (start.toNat ≤ byte ∧ byte < endNat (clippedStop offTMax stop)) := by
    intro byte hbyte
    omega
  rw [if_neg (not_or.mpr ⟨hne, hlarge⟩)]
  by_cases hnone : touching s.locks start (clippedStop offTMax stop) = []
  · rw [if_pos hnone]
    obtain ⟨hready, hbytes⟩ := setUnixLock_clears henv hu fd hne' hclip
    refine ⟨⟨rfl, hready, rfl⟩, fun byte hbyte => ?_⟩
    have hset := hbytes byte hbyte
    by_cases hin : start.toNat ≤ byte ∧ byte < endNat (clippedStop offTMax stop)
    · have hfree : ∀ lock ∈ s.locks, ¬ lock.Locks byte := by
        rw [← not_covered_iff hin.1 hin.2, hnone]
        exact fun lock hlock => (by cases hlock)
      rw [if_pos hin] at hset
      exact ⟨fun _ => hset, fun hno => absurd ⟨(harea byte hbyte).mpr hin, hfree⟩ hno⟩
    · rw [if_neg hin] at hset
      exact ⟨fun hyes => absurd ((harea byte hbyte).mp hyes.1) hin, fun _ => hset⟩
  · rw [if_neg hnone]
    obtain ⟨halloc, hlinks⟩ := hrel hstart hnone
    rw [halloc]
    have hproper := touching_proper hs start (clippedStop offTMax stop)
    obtain ⟨holes, hholes⟩ := unlockedHoles_ok hproper start (clippedStop offTMax stop)
    have hlt' : start < clippedStop offTMax stop := by
      have hnat : endNat (clippedStop offTMax stop) = (clippedStop offTMax stop).toNat := if_neg hzero
      rw [UInt64.lt_iff_toNat_lt, ← hnat]
      exact hclip
    obtain ⟨hsep, hbytes⟩ := unlockedHoles_bytes hproper hlt' hlinks hholes
    rw [hholes]
    have hnonempty : ∀ h ∈ holes, h.start.toNat < h.stop.toNat :=
      fun h hh => hsep.nonempty h.gap (mem_map_of_mem hh)
    obtain ⟨hready, hcleared⟩ := clearHoles_clears henv fd hu hnonempty
    refine ⟨⟨rfl, hready, rfl⟩, fun byte hbyte => ?_⟩
    obtain ⟨hin, hout⟩ := hcleared byte hbyte
    have hnat : endNat (clippedStop offTMax stop) = (clippedStop offTMax stop).toNat := if_neg hzero
    have hiff : byte ∈ gapPoints (holes.map Hole.gap) ↔
        (start.toNat ≤ byte ∧ byte < endNat stop) ∧ ∀ lock ∈ s.locks, ¬ lock.Locks byte := by
      rw [hbytes, ← hnat, harea byte hbyte]
      constructor
      · rintro ⟨hb, hfree⟩
        exact ⟨hb, (not_covered_iff hb.1 hb.2).mp hfree⟩
      · rintro ⟨hb, hfree⟩
        exact ⟨hb, (not_covered_iff hb.1 hb.2).mpr hfree⟩
    exact ⟨fun h => hin (hiff.mpr h), fun h => hout (mt hiff.mp h)⟩

/-- The held bytes are those of the locks, and the bytes of exclusive locks are held for
writing. -/
structure Mirrored (s : InodeState) : Prop where
  bytes : ∀ byte ≤ offTMax.toNat, s.unix.held byte = .unlock ↔ ∀ lock ∈ s.locks, ¬ lock.Locks byte
  strength : ∀ lock ∈ s.locks, lock.shared = false → ∀ byte ≤ offTMax.toNat,
    lock.Locks byte → s.unix.held byte = .write

structure MirrorInv (s : InodeState) : Prop where
  ready : s.unix.Ready
  mirrored : Mirrored s

lemma MirrorInv.closed {s : InodeState} (hready : s.unix.Ready) (hlocks : s.locks = []) :
    MirrorInv { s with unix := s.unix.close } where
  ready := ⟨hready.maxOffset, hready.fsLocks⟩
  mirrored := by
    refine ⟨fun byte _ => iff_of_true rfl fun lock hlock => ?_, fun lock hlock => ?_⟩
    · rw [hlocks] at hlock
      cases hlock
    · rw [hlocks] at hlock
      cases hlock

lemma MirrorInv.closePending {s : InodeState} (h : MirrorInv s) (hlocks : s.locks = []) :
    MirrorInv (inodeClosePending s) := by
  unfold inodeClosePending
  split
  · exact h
  · have hclosed := MirrorInv.closed h.ready hlocks
    exact ⟨hclosed.ready, hclosed.mirrored.bytes, hclosed.mirrored.strength⟩

variable {s s' : InodeState}

lemma Mirrored.release (h : Mirrored s) (hsub : ∀ lock ∈ s'.locks, lock ∈ s.locks) (area : ℕ → Prop)
    (harea : ∀ lock ∈ s.locks, lock ∉ s'.locks → ∀ byte ≤ offTMax.toNat, lock.Locks byte →
      area byte ∨ ∃ l ∈ s'.locks, l.Locks byte)
    (hheld : ∀ byte ≤ offTMax.toNat,
      (area byte ∧ (∀ lock ∈ s'.locks, ¬ lock.Locks byte) → s'.unix.held byte = .unlock) ∧
      (¬ (area byte ∧ ∀ lock ∈ s'.locks, ¬ lock.Locks byte) →
        s'.unix.held byte = s.unix.held byte)) : Mirrored s' := by
  refine ⟨fun byte hbyte => ?_, fun lock hlock hshared byte hbyte hlocks => ?_⟩
  · obtain ⟨hin, hout⟩ := hheld byte hbyte
    have hold := h.bytes byte hbyte
    constructor
    · intro hunlock
      by_cases hfree : area byte ∧ ∀ lock ∈ s'.locks, ¬ lock.Locks byte
      · exact hfree.2
      · rw [hout hfree, hold] at hunlock
        exact fun lock hlock => hunlock lock (hsub lock hlock)
    · intro hfree
      by_cases hbytes : area byte
      · exact hin ⟨hbytes, hfree⟩
      rw [hout fun hno => hbytes hno.1, hold]
      intro lock hlock hlocks
      by_cases hkept : lock ∈ s'.locks
      · exact hfree lock hkept hlocks
      · rcases harea lock hlock hkept byte hbyte hlocks with hb | ⟨l, hl, hbl⟩
        · exact hbytes hb
        · exact hfree l hl hbl
  · have hkept := (hheld byte hbyte).2 fun hno => hno.2 lock hlock hlocks
    rw [hkept]
    exact h.strength lock (hsub lock hlock) hshared byte hbyte hlocks

def RemoveSafe (env : UnixEnv) (p : FileLock → Bool) (locks : List FileLock) : Prop :=
  ∀ lock, locks.find? p = some lock → lock.start ≠ lock.stop →
    Releasable env (locks.eraseP p) lock.start lock.stop

variable {p : FileLock → Bool}

lemma find?_eraseP {lock : FileLock} (h : locks.find? p = some lock) :
    ∃ before after, locks = before ++ lock :: after ∧ locks.eraseP p = before ++ after := by
  obtain ⟨hp, before, after, rfl, hbefore⟩ := find?_eq_some_iff_append.mp h
  refine ⟨before, after, rfl, ?_⟩
  have hnot : ∀ l ∈ before, ¬ p l = true := by
    intro l hl hpl
    have hfalse := hbefore l hl
    rw [hpl] at hfalse
    cases hfalse
  rw [eraseP_append_right _ hnot, eraseP_cons_of_pos hp]

lemma MirrorInv.removeLock (henv : Supported env) {s : InodeState}
    (h : MirrorInv s) (hinv : LocksInv s) (p : FileLock → Bool)
    (hsafe : RemoveSafe env p s.locks) : MirrorInv (removeLock env true p s) := by
  unfold FileLocks.removeLock
  split
  · exact h
  rename_i lock hfind
  simp only [if_true]
  have hlock : lock ∈ s.locks := mem_of_find?_eq_some hfind
  have hsub : ∀ l ∈ s.locks.eraseP p, l ∈ s.locks := fun l hl => mem_of_mem_eraseP hl
  have hgone : ∀ l ∈ s.locks, l ∉ s.locks.eraseP p → l = lock := by
    intro l hl hno
    obtain ⟨before, after, hsplit, herase⟩ := find?_eraseP hfind
    rw [herase, mem_append, not_or] at hno
    rw [hsplit] at hl
    rcases mem_append.mp hl with hb | ha
    · exact absurd hb hno.1
    · rcases mem_cons.mp ha with heq | ha
      · exact heq
      · exact absurd ha hno.2
  have hrest : ∀ l ∈ s.locks.eraseP p, l.Straight := fun l hl => hinv.straight l (hsub l hl)
  have hafter : MirrorInv (removeUnixLocks env lock.fd lock.start lock.stop
      { s with locks := s.locks.eraseP p }) := by
    by_cases hne : lock.start = lock.stop
    · -- A lock without bytes has no Unix lock.
      have hsame : removeUnixLocks env lock.fd lock.start lock.stop
          { s with locks := s.locks.eraseP p } = { s with locks := s.locks.eraseP p } := by
        unfold removeUnixLocks
        split
        · rfl
        · rw [if_pos (.inl hne)]
      rw [hsame]
      refine ⟨h.ready, h.mirrored.release hsub (fun _ => False) ?_ fun byte _ => ?_⟩
      · intro l hl hno byte _ hbytes
        rw [hgone l hl hno] at hbytes
        exact absurd hne hbytes.1
      · exact ⟨fun hyes => hyes.1.elim, fun _ => rfl⟩
    · have hlt : lock.start.toNat < endNat lock.stop := by
        have hle := (hinv.straight lock hlock).le
        have hneq : lock.start.toNat ≠ endNat lock.stop := by
          unfold endNat
          have hbound := lock.start.toNat_lt
          split
          · omega
          · exact fun heq => hne (UInt64.toNat_inj.mp heq)
        omega
      obtain ⟨hreleased, hbytes⟩ := removeUnixLocks_clears (s := { s with locks := s.locks.eraseP p })
        henv h.ready hrest lock.fd hne hlt (hsafe lock hfind hne)
      refine ⟨hreleased.ready, ?_⟩
      refine h.mirrored.release (by rw [hreleased.locks]; exact hsub)
        (fun byte => lock.start.toNat ≤ byte ∧ byte < endNat lock.stop) ?_ ?_
      · rw [hreleased.locks]
        intro l hl hno byte _ hb
        rw [hgone l hl hno] at hb
        exact .inl hb.2
      · rw [hreleased.locks]
        exact hbytes
  split
  · rename_i hempty
    exact hafter.closePending hempty
  · exact hafter

def ExitSafe (env : UnixEnv) (process : ℕ) : ℕ → List FileLock → Prop
  | 0, _ => True
  | n + 1, locks => RemoveSafe env (·.process == process) locks ∧
      ExitSafe env process n (locks.eraseP (·.process == process))

lemma LocksInv.removeLock {s : InodeState} (h : LocksInv s) (env : UnixEnv) (removeUnix : Bool)
    (p : FileLock → Bool) : LocksInv (removeLock env removeUnix p s) := by
  apply h.sublist
  rw [removeLock_locks]
  exact eraseP_sublist

lemma MirrorInv.exitProcess (henv : Supported env) (process : ℕ) :
    ∀ (n : ℕ) {s : InodeState}, MirrorInv s → LocksInv s → ExitSafe env process n s.locks →
      MirrorInv (removeProcessLocks env process n s) := by
  intro n
  induction n with
  | zero => exact fun h _ _ => h
  | succ n ih =>
    intro s h hinv hsafe
    apply ih (h.removeLock henv hinv _ hsafe.1) (hinv.removeLock env true _)
    rw [removeLock_locks]
    exact hsafe.2

/-- The range that `remove_fd_locks` collects, with an inclusive end. -/
def extendHull (range : FilePos × FilePos) (lock : FileLock) : FilePos × FilePos :=
  (if lock.start < range.1 then lock.start else range.1,
    if lock.stop = 0 ∨ range.2 < lock.stop then lock.stop - 1 else range.2)

def fdHull (fd : ℕ) (locks : List FileLock) : FilePos × FilePos :=
  (locks.filter (·.fd == fd)).foldl extendHull (-1, 0)

def otherLocks (fd : ℕ) (locks : List FileLock) : List FileLock :=
  locks.filter fun lock => !(lock.fd == fd)

/-- An fd is closed safely when no lock remains, when the bytes between the first and the last
one of its locks can be released, or when they need not be. -/
def DestroySafe (env : UnixEnv) (fd : ℕ) (locks : List FileLock) : Prop :=
  otherLocks fd locks = [] ∨
    if (fdHull fd locks).1 < (fdHull fd locks).2 ∧ (fdHull fd locks).1 ≠ (fdHull fd locks).2 + 1 then
      Releasable env (otherLocks fd locks) (fdHull fd locks).1 ((fdHull fd locks).2 + 1)
    else ∀ lock ∈ locks, lock.fd = fd → ∀ byte ≤ offTMax.toNat, lock.Locks byte →
      ∃ l ∈ otherLocks fd locks, l.Locks byte

lemma filter_eraseP {lock : FileLock} (h : locks.find? p = some lock) :
    locks.filter p = lock :: (locks.eraseP p).filter p ∧
      (locks.eraseP p).filter (fun l => !p l) = locks.filter fun l => !p l := by
  induction locks with
  | nil => cases h
  | cons l locks ih =>
    by_cases hp : p l = true
    · rw [find?_cons_of_pos hp] at h
      cases h
      simp [hp]
    · rw [find?_cons_of_neg hp] at h
      obtain ⟨hin, hout⟩ := ih h
      simp [hp, hin, hout]

/-- What the loop of `remove_fd_locks` leaves. As long as a lock remains, nothing is closed. -/
structure FdLocksGone (s s' : InodeState) (fd : ℕ) : Prop where
  locks : s'.locks = otherLocks fd s.locks
  ready : s.unix.Ready → s'.unix.Ready
  held : s'.locks ≠ [] → s'.unix = s.unix ∧ s'.pending = s.pending
  fault : s'.fault = s.fault

lemma removeLock_quiet {s : InodeState} : ((removeLock env false p s).locks ≠ [] →
      (removeLock env false p s).unix = s.unix ∧ (removeLock env false p s).pending = s.pending) ∧
    (s.unix.Ready → (removeLock env false p s).unix.Ready) ∧
    (removeLock env false p s).fault = s.fault := by
  have hlocks := removeLock_locks env false p s
  unfold removeLock at hlocks ⊢
  split
  · exact ⟨fun _ => ⟨rfl, rfl⟩, id, rfl⟩
  simp only [Bool.false_eq_true, if_false]
  split
  · rename_i hempty
    refine ⟨fun hne => absurd ?_ hne, fun hready => ?_, ?_⟩
    · rw [inodeClosePending_locks]
      exact hempty
    · unfold inodeClosePending
      split
      · exact hready
      · exact ⟨hready.maxOffset, hready.fsLocks⟩
    · unfold inodeClosePending
      split <;> rfl
  · exact ⟨fun _ => ⟨rfl, rfl⟩, id, rfl⟩

variable {fd : ℕ}

lemma FdLocksGone.none {s : InodeState} (h : s.locks.filter (·.fd == fd) = []) :
    FdLocksGone s s fd where
  locks := by
    rw [filter_eq_nil_iff] at h
    rw [otherLocks, filter_eq_self.mpr]
    intro lock hlock
    have hne := h lock hlock
    rw [Bool.not_eq_true] at hne
    rw [hne]
    rfl
  ready := id
  held _ := ⟨rfl, rfl⟩
  fault := rfl

lemma removeFdLocksLoop_spec (env : UnixEnv) (fd : ℕ) :
    ∀ (n : ℕ) (range : FilePos × FilePos) (s : InodeState),
      (s.locks.filter (·.fd == fd)).length ≤ n →
      (removeFdLocksLoop env fd n range s).1 =
          (s.locks.filter (·.fd == fd)).foldl extendHull range ∧
        FdLocksGone s (removeFdLocksLoop env fd n range s).2 fd := by
  intro n
  induction n with
  | zero =>
    intro range s hn
    have hnone := length_eq_zero_iff.mp (Nat.le_zero.mp hn)
    refine ⟨?_, .none hnone⟩
    rw [hnone]
    rfl
  | succ n ih =>
    intro range s hn
    obtain ⟨start, stop⟩ := range
    simp only [removeFdLocksLoop]
    split
    · rename_i hfind
      have hnone : s.locks.filter (·.fd == fd) = [] := by
        rw [filter_eq_nil_iff]
        exact find?_eq_none.mp hfind
      refine ⟨?_, .none hnone⟩
      rw [hnone]
      rfl
    rename_i lock hfind
    obtain ⟨hcons, hothers⟩ := filter_eraseP hfind
    have hlocks := removeLock_locks env false (·.fd == fd) s
    have hlength : ((removeLock env false (·.fd == fd) s).locks.filter (·.fd == fd)).length ≤ n := by
      rw [hlocks]
      rw [hcons, length_cons] at hn
      omega
    obtain ⟨hrange, hgone⟩ := ih (extendHull (start, stop) lock) _ hlength
    obtain ⟨hquiet, hready, hfault⟩ := @removeLock_quiet env (·.fd == fd) s
    have hgoneLocks : (removeFdLocksLoop env fd n (extendHull (start, stop) lock)
        (removeLock env false (·.fd == fd) s)).2.locks = otherLocks fd s.locks := by
      rw [hgone.locks, hlocks]
      exact hothers
    refine ⟨?_, hgoneLocks, fun hr => hgone.ready (hready hr), fun hne => ?_, ?_⟩
    · rw [hcons, foldl_cons, ← hlocks]
      exact hrange
    · obtain ⟨hunix, hpending⟩ := hgone.held hne
      have hmid : (removeLock env false (·.fd == fd) s).locks ≠ [] := by
        intro hempty
        apply hne
        change (removeFdLocksLoop env fd n (extendHull (start, stop) lock)
          (removeLock env false (·.fd == fd) s)).2.locks = []
        rw [hgone.locks, hempty]
        rfl
      obtain ⟨hunix', hpending'⟩ := hquiet hmid
      exact ⟨hunix.trans hunix', hpending.trans hpending'⟩
    · exact hgone.fault.trans hfault

lemma toNat_pred_end (stop : FilePos) : (stop - 1).toNat + 1 = endNat stop := by
  unfold endNat
  by_cases hzero : stop = 0
  · rw [if_pos hzero, hzero]
    rfl
  rw [if_neg hzero]
  have hpos : stop.toNat ≠ 0 := fun h => hzero (UInt64.toNat_inj.mp h)
  have hone : (1 : FilePos).toNat = 1 := rfl
  have hle : (1 : FilePos) ≤ stop := by
    rw [UInt64.le_iff_toNat_le, hone]
    omega
  rw [UInt64.toNat_sub_of_le _ _ hle, hone]
  omega

lemma endNat_succ (pos : FilePos) : endNat (pos + 1) = pos.toNat + 1 := by
  have hpred := toNat_pred_end (pos + 1)
  rw [UInt64.add_sub_cancel] at hpred
  exact hpred.symm

lemma extendHull_grows (range : FilePos × FilePos) (lock : FileLock) :
    (extendHull range lock).1.toNat ≤ range.1.toNat ∧
      range.2.toNat ≤ (extendHull range lock).2.toNat ∧
      (extendHull range lock).1.toNat ≤ lock.start.toNat ∧
      endNat lock.stop ≤ (extendHull range lock).2.toNat + 1 := by
  have hpred := toNat_pred_end lock.stop
  have hlate := (end_compare range.2 lock.stop).2.2.2
  unfold extendHull
  refine ⟨?_, ?_, ?_, ?_⟩
  · split
    · rename_i hlt
      exact (UInt64.lt_iff_toNat_lt.mp hlt).le
    · exact le_rfl
  · simp only
    split
    · rename_i hgrow
      have hlt := hlate.mp hgrow
      omega
    · exact le_rfl
  · split
    · exact le_rfl
    · rename_i hnot
      exact UInt64.le_iff_toNat_le.mp (UInt64.not_lt.mp hnot)
  simp only
  split
  · omega
  · rename_i hnot
    have hle := mt hlate.mpr hnot
    omega

lemma hull_covers (range : FilePos × FilePos) :
    ((locks.foldl extendHull range).1.toNat ≤ range.1.toNat ∧
      range.2.toNat ≤ (locks.foldl extendHull range).2.toNat) ∧
    ∀ lock ∈ locks, (locks.foldl extendHull range).1.toNat ≤ lock.start.toNat ∧
      endNat lock.stop ≤ (locks.foldl extendHull range).2.toNat + 1 := by
  induction locks generalizing range with
  | nil => exact ⟨⟨le_rfl, le_rfl⟩, fun lock hlock => (by cases hlock)⟩
  | cons l locks ih =>
    obtain ⟨⟨hlow, hhigh⟩, hrest⟩ := ih (extendHull range l)
    obtain ⟨hlow', hhigh', hstart, hstop⟩ := extendHull_grows range l
    refine ⟨⟨hlow.trans hlow', hhigh'.trans hhigh⟩, fun lock hlock => ?_⟩
    rcases mem_cons.mp hlock with heq | hlock
    · rw [heq]
      exact ⟨hlow.trans hstart, hstop.trans (Nat.succ_le_succ hhigh)⟩
    · exact hrest lock hlock

lemma fdHull_covers {lock : FileLock} (hlock : lock ∈ locks)
    (hfd : lock.fd = fd) {byte : ℕ} (hbyte : lock.Locks byte) :
    (fdHull fd locks).1.toNat ≤ byte ∧ byte < (fdHull fd locks).2.toNat + 1 := by
  have hmem : lock ∈ locks.filter (·.fd == fd) := by
    rw [mem_filter]
    exact ⟨hlock, beq_iff_eq.mpr hfd⟩
  obtain ⟨hlow, hhigh⟩ := (hull_covers (-1, 0)).2 lock hmem
  obtain ⟨-, hstart, hstop⟩ := hbyte
  exact ⟨hlow.trans hstart, hstop.trans_le hhigh⟩

lemma mem_otherLocks {lock : FileLock} :
    lock ∈ otherLocks fd locks ↔ lock ∈ locks ∧ lock.fd ≠ fd := by
  simp [otherLocks]

/-- `remove_fd_locks`, while other locks remain. -/
lemma MirrorInv.removeFdLocks (henv : Supported env) {s : InodeState}
    (h : MirrorInv s) (hinv : LocksInv s) (fd : ℕ) (hsafe : DestroySafe env fd s.locks)
    (hne : otherLocks fd s.locks ≠ []) : MirrorInv (removeFdLocks env fd s) := by
  obtain ⟨hrange, hgone⟩ := removeFdLocksLoop_spec env fd s.locks.length (-1, 0) s
    (length_filter_le _ _)
  have hrange' : (removeFdLocksLoop env fd s.locks.length (-1, 0) s).1 = fdHull fd s.locks := hrange
  have hsafe' := hsafe.resolve_left hne
  unfold FileLocks.removeFdLocks
  simp only [hrange']
  generalize (removeFdLocksLoop env fd s.locks.length (-1, 0) s).2 = s₁ at hgone
  obtain ⟨hlocks, hready, hheld, -⟩ := hgone
  have hunix : s₁.unix = s.unix := (hheld (by rw [hlocks]; exact hne)).1
  have hsub : ∀ lock ∈ s₁.locks, lock ∈ s.locks := by
    intro lock hlock
    rw [hlocks] at hlock
    exact (mem_otherLocks.mp hlock).1
  have hfd : ∀ lock ∈ s.locks, lock ∉ s₁.locks → lock.fd = fd := by
    intro lock hlock hno
    by_contra hfd
    apply hno
    rw [hlocks]
    exact mem_otherLocks.mpr ⟨hlock, hfd⟩
  have hstraight : ∀ lock ∈ s₁.locks, lock.Straight := fun l hl => hinv.straight l (hsub l hl)
  -- Nothing is released when the bytes are needed by other locks.
  have hkeep : (∀ lock ∈ s.locks, lock.fd = fd → ∀ byte ≤ offTMax.toNat, lock.Locks byte →
      ∃ l ∈ otherLocks fd s.locks, l.Locks byte) → MirrorInv s₁ := by
    intro hcovered
    refine ⟨hready h.ready, h.mirrored.release hsub (fun _ => False) ?_ fun byte _ => ?_⟩
    · intro lock hlock hno byte hbyte hbytes
      right
      rw [hlocks]
      exact hcovered lock hlock (hfd lock hlock hno) byte hbyte hbytes
    · rw [hunix]
      exact ⟨fun hyes => hyes.1.elim, fun _ => rfl⟩
  split
  · rename_i hlt
    by_cases hwrap : (fdHull fd s.locks).1 = (fdHull fd s.locks).2 + 1
    · rw [if_neg (fun hno => hno.2 hwrap)] at hsafe'
      have hsame : removeUnixLocks env fd (fdHull fd s.locks).1 ((fdHull fd s.locks).2 + 1) s₁ =
          s₁ := by
        unfold removeUnixLocks
        split
        · rfl
        · rw [if_pos (.inl hwrap)]
      rw [hsame]
      exact hkeep hsafe'
    rw [if_pos ⟨hlt, hwrap⟩, ← hlocks] at hsafe'
    have harea : (fdHull fd s.locks).1.toNat < endNat ((fdHull fd s.locks).2 + 1) := by
      rw [endNat_succ]
      rw [UInt64.lt_iff_toNat_lt] at hlt
      omega
    obtain ⟨hreleased, hbytes⟩ :=
      removeUnixLocks_clears henv (hready h.ready) hstraight fd hwrap harea hsafe'
    refine ⟨hreleased.ready, ?_⟩
    rw [endNat_succ] at hbytes
    refine h.mirrored.release (by rw [hreleased.locks]; exact hsub) (fun byte =>
      (fdHull fd s.locks).1.toNat ≤ byte ∧ byte < (fdHull fd s.locks).2.toNat + 1) ?_ ?_
    · rw [hreleased.locks]
      intro lock hlock hno byte _ hb
      exact .inl (fdHull_covers hlock (hfd lock hlock hno) hb)
    · rw [hreleased.locks, ← hunix]
      exact hbytes
  · rename_i hnot
    rw [if_neg (fun hno => hnot hno.1)] at hsafe'
    exact hkeep hsafe'

lemma removeFdLocks_locks (env : UnixEnv) (fd : ℕ) (s : InodeState) :
    (removeFdLocks env fd s).locks = otherLocks fd s.locks := by
  obtain ⟨-, hgone⟩ := removeFdLocksLoop_spec env fd s.locks.length (-1, 0) s (length_filter_le _ _)
  unfold removeFdLocks
  simp only
  split
  · rw [removeUnixLocks_locks, hgone.locks]
  · exact hgone.locks

lemma clearHoles_ready (henv : Supported env) (fd : ℕ) (holes : List Hole) :
    ∀ {u : UnixState}, u.Ready → (clearHoles env fd holes u).Ready := by
  induction holes with
  | nil => exact fun hu => hu
  | cons h holes ih =>
    intro u hu
    apply ih
    rw [setUnixLock_unlock henv hu]
    split
    · exact hu
    · exact hu.setBytes ..

lemma removeUnixLocks_ready (henv : Supported env) (fd : ℕ)
    (start stop : FilePos) {s : InodeState} (hu : s.unix.Ready) :
    (removeUnixLocks env fd start stop s).unix.Ready := by
  unfold removeUnixLocks
  split
  · exact hu
  split
  · exact hu
  simp only
  split
  · rw [setUnixLock_unlock henv hu]
    split
    · exact hu
    · exact hu.setBytes ..
  split
  · exact hu
  · split
    · exact clearHoles_ready henv fd _ hu
    · exact hu

lemma MirrorInv.destroy (henv : Supported env) {s : InodeState}
    (h : MirrorInv s) (hinv : LocksInv s) (fd : ℕ) (hsafe : DestroySafe env fd s.locks) :
    MirrorInv (destroyFd env fd s) := by
  have hlocks := removeFdLocks_locks env fd s
  unfold destroyFd
  simp only
  split
  · rename_i hempty
    apply MirrorInv.closed _ hempty
    obtain ⟨-, hgone⟩ := removeFdLocksLoop_spec env fd s.locks.length (-1, 0) s
      (length_filter_le _ _)
    unfold FileLocks.removeFdLocks
    simp only
    split
    · exact removeUnixLocks_ready henv fd _ _ (hgone.ready h.ready)
    · exact hgone.ready h.ready
  rename_i hne
  rw [hlocks] at hne
  have hafter := h.removeFdLocks henv hinv fd hsafe hne
  exact ⟨hafter.ready, hafter.mirrored.bytes, hafter.mirrored.strength⟩

lemma setUnixLock_sets (henv : Supported env) (hu : u.Ready)
    {lock : FileLock} (hlock : lock.Straight)
    (hwrite : lock.shared = false → ∀ start limit, env.fcntl .write start limit ≠ .badf) :
    let type := if lock.shared then UnixLockType.read else .write
    let r := setUnixLock env lock.fd lock.start lock.stop type u
    r.2.Ready ∧ (r.1 ≠ none → r.2 = u) ∧
      (r.1 = none → ∀ byte ≤ offTMax.toNat, (lock.Locks byte → r.2.held byte = type) ∧
        (¬ lock.Locks byte → r.2.held byte = u.held byte)) := by
  intro type r
  have hbadf : type = .write → lock.shared = false := by
    intro heq
    by_contra hno
    rw [Bool.not_eq_false] at hno
    have hread : type = .read := if_pos hno
    rw [heq] at hread
    cases hread
  have hr : r = setUnixLockLoop env lock.fd lock.start lock.stop 3 type u := by
    change setUnixLock env lock.fd lock.start lock.stop type u = _
    unfold setUnixLock
    rw [if_pos (hu.fsLocks lock.fd)]
  rw [setUnixLockLoop, hu.maxOffset] at hr
  by_cases hempty : lock.start = lock.stop
  · rw [if_pos hempty] at hr
    rw [hr]
    exact ⟨hu, fun h => absurd rfl h, fun _ byte _ => ⟨fun h => absurd hempty h.1, fun _ => rfl⟩⟩
  rw [if_neg hempty] at hr
  by_cases hlarge : offTMax < lock.start
  · rw [if_pos hlarge] at hr
    rw [hr]
    refine ⟨hu, fun h => absurd rfl h, fun _ byte hbyte => ⟨fun h => ?_, fun _ => rfl⟩⟩
    have hstart := h.2.1
    rw [UInt64.lt_iff_toNat_lt] at hlarge
    omega
  rw [if_neg hlarge] at hr
  have hlt : lock.start.toNat < endNat lock.stop := by
    have hle := hlock.le
    have hbound := lock.start.toNat_lt
    have hne : lock.start.toNat ≠ lock.stop.toNat := fun heq => hempty (UInt64.toNat_inj.mp heq)
    unfold endNat at hle ⊢
    split at hle
    · rename_i hzero
      rw [if_pos hzero]
      exact hbound
    · rename_i hzero
      rw [if_neg hzero]
      omega
  rcases henv.set type lock.start offTMax with hok | hconflict | hbad
  · rw [hok] at hr
    rw [hr]
    refine ⟨hu.setBytes _ _ _, fun h => absurd rfl h, fun _ byte hbyte => ?_⟩
    have hiff := flockBytes_iff hlt byte
    simp only [UnixState.setBytes, hu.maxOffset]
    constructor
    · intro hb
      rw [if_pos (hiff.mpr ⟨hb.2, hbyte⟩)]
    · intro hb
      rw [if_neg fun hflock => hb ⟨hempty, (hiff.mp hflock).1⟩]
  · rw [hconflict] at hr
    rw [hr]
    exact ⟨hu, fun _ => rfl, fun h => (by cases h)⟩
  rw [hbad] at hr
  by_cases hw : type = .write
  · rw [hw] at hbad
    exact absurd hbad (hwrite (hbadf hw) _ _)
  · rw [if_neg hw] at hr
    rw [hr]
    exact ⟨hu, fun _ => rfl, fun h => (by cases h)⟩

/-- A request is safe when an exclusive lock really gets a write lock, and when a shared lock does
not take the write lock from an exclusive lock of the same fd. -/
def LockSafe (env : UnixEnv) (fd process : ℕ) (start count : FilePos) (shared : Bool)
    (locks : List FileLock) : Prop :=
  (shared = false → ∀ pos limit, env.fcntl .write pos limit ≠ .badf) ∧
    (shared = true → (∃ lock ∈ locks, blocks fd shared start (start + count) lock = true) ∨
      ∀ lock ∈ locks, lock.shared = false → ∀ byte ≤ offTMax.toNat, lock.Locks byte →
        ¬ (requested fd process shared start count).Locks byte)

lemma Mirrored.append {s : InodeState} (h : Mirrored s) {new : FileLock}
    (hset : ∀ byte ≤ offTMax.toNat,
      (new.Locks byte → u.held byte = if new.shared then UnixLockType.read else .write) ∧
      (¬ new.Locks byte → u.held byte = s.unix.held byte))
    (hdisjoint : ∀ lock ∈ s.locks, lock.shared = false → ∀ byte ≤ offTMax.toNat,
      lock.Locks byte → ¬ new.Locks byte) :
    Mirrored { s with locks := s.locks ++ [new], unix := u } := by
  refine ⟨fun byte hbyte => ?_, fun lock hlock hshared byte hbyte hlocks => ?_⟩
  · obtain ⟨hin, hout⟩ := hset byte hbyte
    simp only [forall_mem_append, forall_mem_singleton]
    by_cases hnew : new.Locks byte
    · refine iff_of_false ?_ fun hno => hno.2 hnew
      rw [hin hnew]
      split <;> exact fun heq => (by cases heq)
    · rw [hout hnew, h.bytes byte hbyte]
      exact ⟨fun hold => ⟨hold, hnew⟩, fun hall => hall.1⟩
  obtain ⟨hin, hout⟩ := hset byte hbyte
  rcases mem_append.mp hlock with hold | hnew
  · have hno := hdisjoint lock hold hshared byte hbyte hlocks
    exact (hout hno).trans (h.strength lock hold hshared byte hbyte hlocks)
  rw [mem_singleton.mp hnew] at hshared hlocks
  have hheld := hin hlocks
  rw [hshared] at hheld
  exact hheld

lemma MirrorInv.lock (henv : Supported env) {s : InodeState} (h : MirrorInv s)
    (hinv : LocksInv s) {fd process : ℕ} {start count : FilePos} {shared wait : Bool}
    (hsafe : LockSafe env fd process start count shared s.locks) :
    MirrorInv (lockFd env fd process start count shared wait s).2 := by
  by_cases hstraight : start.toNat + count.toNat ≤ 18446744073709551616
  swap
  · rw [(lockFd_refused env process wait (.inl (not_le.mp hstraight))).2]
    exact h
  by_cases hfree : s.locks.find? (blocks fd shared start (start + count)) = none
  swap
  · rw [(lockFd_refused env process wait (.inr hfree)).2]
    exact h
  rw [(lockFd_free env process wait hstraight hfree).2]
  have hnew : (requested fd process shared start count).Straight := requested_straight hstraight
  have hset := setUnixLock_sets henv h.ready hnew hsafe.1
  unfold addLock
  split
  · exact h
  simp only at hset ⊢
  generalize setUnixLock env (requested fd process shared start count).fd
    (requested fd process shared start count).start (requested fd process shared start count).stop
    (if (requested fd process shared start count).shared = true then .read else .write) s.unix = r
    at hset ⊢
  obtain ⟨hready, hrefused, hset⟩ := hset
  by_cases hgranted : r.1 = none
  · rw [if_pos hgranted]
    refine ⟨hready, h.mirrored.append (hset hgranted) fun lock hlock hexcl byte hbyte hb hb' => ?_⟩
    rw [find?_eq_none] at hfree
    by_cases hs : shared = true
    · rcases hsafe.2 hs with ⟨l, hl, hblock⟩ | hdisjoint
      · exact hfree l hl hblock
      · exact hdisjoint lock hlock hexcl byte hbyte hb hb'
    -- An exclusive request has no byte in common with any lock.
    apply hfree lock hlock
    rw [blocks_iff (hinv.straight lock hlock) process hstraight]
    exact ⟨.inl ⟨byte, hb.2, hb'.2⟩, fun hno => hs hno.1⟩
  · rw [if_neg hgranted, hrefused hgranted]
    exact h

lemma removeUnixLocks_fault {s : InodeState} (hs : ∀ lock ∈ s.locks, lock.Straight) :
    (removeUnixLocks env fd start stop s).fault = s.fault := by
  unfold removeUnixLocks
  split
  · rfl
  split
  · rfl
  simp only
  split
  · rfl
  split
  · rfl
  · obtain ⟨holes, hholes⟩ := unlockedHoles_ok (touching_proper hs start
      (clippedStop s.unix.maxOffset stop)) start (clippedStop s.unix.maxOffset stop)
    rw [hholes]

lemma inodeClosePending_fault (s : InodeState) : (inodeClosePending s).fault = s.fault := by
  unfold inodeClosePending
  split <;> rfl

lemma removeLock_fault {removeUnix : Bool} {s : InodeState}
    (hs : ∀ lock ∈ s.locks, lock.Straight) : (removeLock env removeUnix p s).fault = s.fault := by
  have hfinish : ∀ s' : InodeState, s'.fault = s.fault →
      (if s'.locks = [] then inodeClosePending s' else s').fault = s.fault := by
    intro s' hs'
    split
    · rw [inodeClosePending_fault, hs']
    · exact hs'
  unfold removeLock
  split
  · rfl
  apply hfinish
  split
  · exact removeUnixLocks_fault fun l hl => hs l (mem_of_mem_eraseP hl)
  · rfl

lemma addLock_fault (env : UnixEnv) (lock : FileLock) (s : InodeState) :
    (addLock env lock s).2.fault = s.fault := by
  unfold addLock
  by_cases halloc : env.alloc = true
  · by_cases hunix : (setUnixLock env lock.fd lock.start lock.stop
        (if lock.shared then .read else .write) s.unix).1 = none
    · simp [halloc, hunix]
    · simp [halloc, hunix]
  · simp [halloc]

lemma fault_step {a : LockAct} (hinv : LocksInv s)
    (hstep : lockStep s a = some s') : s'.fault = s.fault := by
  cases a with
  | lock env fd process start count shared wait =>
    cases hstep
    by_cases hstraight : start.toNat + count.toNat ≤ 18446744073709551616
    swap
    · rw [(lockFd_refused env process wait (.inl (not_le.mp hstraight))).2]
    by_cases hfree : s.locks.find? (blocks fd shared start (start + count)) = none
    swap
    · rw [(lockFd_refused env process wait (.inr hfree)).2]
    rw [(lockFd_free env process wait hstraight hfree).2]
    exact addLock_fault env _ s
  | unlock env fd start count =>
    cases hstep
    unfold unlockFd
    simp only
    split
    · exact removeLock_fault hinv.straight
    · rfl
  | exitProcess env process =>
    cases hstep
    have hexit : ∀ (n : ℕ) (u : InodeState), LocksInv u →
        (removeProcessLocks env process n u).fault = u.fault := by
      intro n
      induction n with
      | zero => exact fun _ _ => rfl
      | succ n ih =>
        intro u hu
        rw [removeProcessLocks, ih _ (hu.removeLock env true _), removeLock_fault hu.straight]
    exact hexit _ s hinv
  | destroy env fd =>
    cases hstep
    obtain ⟨-, hgone⟩ := removeFdLocksLoop_spec env fd s.locks.length (-1, 0) s
      (length_filter_le _ _)
    have hstraight : ∀ lock ∈ (removeFdLocksLoop env fd s.locks.length (-1, 0) s).2.locks,
        lock.Straight := by
      intro lock hlock
      rw [hgone.locks] at hlock
      exact hinv.straight lock (mem_otherLocks.mp hlock).1
    have hfd : (removeFdLocks env fd s).fault = s.fault := by
      unfold removeFdLocks
      simp only
      split
      · rw [removeUnixLocks_fault hstraight, hgone.fault]
      · exact hgone.fault
    unfold destroyFd
    simp only
    split <;> exact hfd

def MirrorSafe (s : InodeState) : LockAct → Prop
  | .lock env fd process start count shared _ =>
    Supported env ∧ LockSafe env fd process start count shared s.locks
  | .unlock env fd start count =>
    Supported env ∧ RemoveSafe env (sameRange fd start (start + count)) s.locks
  | .exitProcess env process => Supported env ∧ ExitSafe env process s.locks.length s.locks
  | .destroy env fd => Supported env ∧ DestroySafe env fd s.locks

lemma MirrorInv.step {a : LockAct} (h : MirrorInv s) (hinv : LocksInv s)
    (hsafe : MirrorSafe s a) (hstep : lockStep s a = some s') : MirrorInv s' := by
  cases a with
  | lock env fd process start count shared wait =>
    cases hstep
    exact h.lock hsafe.1 hinv hsafe.2
  | unlock env fd start count =>
    cases hstep
    unfold unlockFd
    simp only
    split
    · exact h.removeLock hsafe.1 hinv _ hsafe.2
    · exact h
  | exitProcess env process =>
    cases hstep
    exact MirrorInv.exitProcess hsafe.1 process _ h hinv hsafe.2
  | destroy env fd =>
    cases hstep
    exact h.destroy hsafe.1 hinv fd hsafe.2

lemma InodeState.Initial.mirrorInv {s : InodeState} (h : s.Initial) : MirrorInv s := by
  obtain ⟨hlocks, hheld, hmax, hfs, -, -⟩ := h
  refine ⟨⟨hmax, hfs⟩, fun byte _ => iff_of_true (by rw [hheld]) fun lock hlock => ?_,
    fun lock hlock => ?_⟩
  · rw [hlocks] at hlock
    cases hlock
  · rw [hlocks] at hlock
    cases hlock

/-- The hole list never leaves its buffer, fails an assertion or loops. And in a run whose steps
are all safe, the bytes that the server holds through `fcntl` are those of the locks of the
inode, with write locks where a lock is exclusive. -/
theorem unix_locks_mirror (s : InodeState) :
    (Reachable lockStep InodeState.Initial s → s.fault = none) ∧
      (Reaches lockStep MirrorSafe InodeState.Initial s → Mirrored s) := by
  constructor
  · intro hs
    apply hs.invariant_with (P := fun u => u.fault = none) (Q := LocksInv)
    · exact fun u hu => locks_inv hu
    · exact fun u hu => hu.2.2.2.2.2
    · intro u a u' hinv hnone _ hstep
      rw [fault_step hinv hstep, hnone]
  · intro hs
    refine (hs.invariant_with (P := MirrorInv) (Q := LocksInv) ?_ ?_ ?_).mirrored
    · exact fun u hu => locks_inv hu.reachable
    · exact fun u hu => hu.mirrorInv
    · exact fun u a u' hinv hu hsafe hstep => hu.step hinv hsafe hstep

lemma quietEnv_supported : Supported quietEnv :=
  ⟨fun _ _ => rfl, fun _ _ _ => .inl rfl⟩

def nestedActs : List LockAct :=
  [.lock quietEnv 1 1 0 100 true false, .lock quietEnv 2 1 50 10 true false,
    .unlock quietEnv 1 0 100]

theorem unix_locks_mirror_nested : ∃ s, run lockStep newInode nestedActs = some s ∧ Mirrored s ∧
      s.unix.held 55 = .read ∧ s.unix.held 60 = .unlock := by
  have hgood : Guarded lockStep MirrorSafe newInode nestedActs := by
    refine ⟨⟨quietEnv_supported, fun h => (by cases h), fun _ => .inr fun l hl => (by cases hl)⟩,
      ⟨quietEnv_supported, fun h => (by cases h), fun _ => .inr fun l hl => ?_⟩,
      ⟨quietEnv_supported, fun l hl _ _ _ => ?_⟩, trivial⟩
    · intro hshared
      rw [mem_singleton.mp hl] at hshared
      cases hshared
    · cases hl
      exact ⟨rfl, by decide⟩
  have hreach : Reaches lockStep MirrorSafe InodeState.Initial newInode :=
    .start newInode_initial
  refine ⟨_, rfl, ?_, by decide, by decide⟩
  exact (unix_locks_mirror _).2 (Reaches.run hreach nestedActs hgood rfl)

def singleByteActs : List LockAct :=
  [.lock quietEnv 1 1 5 1 false false, .lock quietEnv 2 1 10 10 false false, .destroy quietEnv 1]

/-- The byte stays locked although no lock covers it. -/
theorem single_byte_stays_locked :
    ¬ ∀ s : InodeState, Reachable lockStep InodeState.Initial s → Mirrored s := by
  intro hall
  have hreach : Reachable lockStep InodeState.Initial newInode := .start newInode_initial
  have hmirrored := hall _ (reachable_of_run hreach singleByteActs rfl)
  have hfree := (hmirrored.bytes 5 (by decide)).mpr fun lock hlock hbyte => by
    rw [mem_singleton.mp hlock] at hbyte
    exact absurd hbyte.2.1 (by decide)
  revert hfree
  decide

end WineForge.FileLocks
