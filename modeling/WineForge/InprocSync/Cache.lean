import WineForge.InprocSync.Lookups

/-!
# The cache is a map with reference counts

In every interleaving a lookup returns the object that its handle stands for, a reference keeps the
file descriptor of its entry, and the thread that drops the last reference closes it.
-/

namespace WineForge.InprocSync

open BitVec Function Library

variable {T : Type} [DecidableEq T] {s s' : State T} {t : T}

/-! ### What a step can do to a count and to a file -/

inductive CountStep (s : State T) (t : T) (s' : State T) : Prop
  | same : s'.refcount = s.refcount → CountStep s t s'
  | acquire (idx : Nat) : s.refcount idx ≠ 0 →
      s'.refcount = update s.refcount idx (s.refcount idx + 1) → CountStep s t s'
  | publish (req : Request) (sync : Sync) : s.pc t = .publish req sync →
      s'.refcount = update s.refcount (handleToIndex req.handle) 2 → CountStep s t s'
  | release (idx fd : Nat) (after : After) : s.pc t = .releaseDec idx fd after →
      s' = (s.setRefcount idx (s.refcount idx - 1)).setPc t
        (if s.refcount idx - 1 = 0 then .releaseClose fd after else after.pc) → CountStep s t s'

lemma next_count (hcounts : CountInv s) (hnext : next s t = some s') : CountStep s t s' := by
  have hpcs : PcInv s (s.pc t) := hcounts.pcs t
  unfold next at hnext
  cases hpc : s.pc t <;> simp only [hpc, Option.some.injEq, reduceCtorEq] at hnext
  case lockGet | lockClose =>
    obtain ⟨_, rfl⟩ := enterSection_eq_some.mp hnext
    exact .same rfl
  case cas c val =>
    rw [hpc] at hpcs
    rw [← hnext]
    split
    · rename_i hval
      subst hval
      exact .acquire _ hpcs rfl
    · exact .same rfl
  case cache | checkAccess =>
    rw [← hnext]
    split <;> exact .same rfl
  case publish req sync =>
    exact hnext ▸ .publish req sync hpc rfl
  case unlock req grant =>
    rw [← hnext]
    cases grant <;> exact .same rfl
  case releaseFd ref after =>
    cases ref <;> simp only [Option.some.injEq] at hnext <;> exact hnext ▸ .same rfl
  case releaseDec idx fd after =>
    exact .release idx fd after hpc hnext.symm
  case releaseClose fd after =>
    rw [closeFd_frame] at hnext
    exact hnext ▸ .same rfl
  all_goals exact hnext ▸ .same rfl

lemma next_closes (hnext : next s t = some s') : s'.closes = s.closes ∨
    ∃ fd after, s.pc t = .releaseClose fd after ∧ s'.closes = (closeFd s fd).closes := by
  unfold next at hnext
  cases hpc : s.pc t <;> simp only [hpc, Option.some.injEq, reduceCtorEq] at hnext
  case lockGet | lockClose =>
    obtain ⟨_, rfl⟩ := enterSection_eq_some.mp hnext
    exact .inl rfl
  case cas | cache | checkAccess =>
    rw [← hnext]
    split <;> exact .inl rfl
  case unlock req grant =>
    rw [← hnext]
    cases grant <;> exact .inl rfl
  case releaseFd ref after =>
    cases ref <;> simp only [Option.some.injEq] at hnext <;> exact hnext ▸ .inl rfl
  case releaseClose fd after =>
    exact hnext ▸ .inr ⟨fd, after, rfl, rfl⟩
  all_goals exact hnext ▸ .inl rfl

lemma Outside.refcount (hstep : Outside s s') : s'.refcount = s.refcount := by
  cases hstep with
  | closeOther fd file _ _ => rw [closeFd_frame]
  | _ => rfl

omit [DecidableEq T] in
lemma closeFd_closes {fd file : Nat} (h : s.closes file < (closeFd s fd).closes file) :
    s.fds fd = some file := by
  unfold closeFd at h
  split at h
  · exact absurd h (lt_irrefl _)
  rename_i file' hfile
  by_cases heq : file = file'
  · rw [heq]
    exact hfile
  · simp only [ne_eq, heq, not_false_eq_true, update_of_ne, lt_irrefl] at h

lemma Outside.closes {file object : Nat} (hstep : Outside s s')
    (hobject : s.object file = some object) : s'.closes file ≤ s.closes file := by
  cases hstep with
  | closeOther fd file' hfile hnone =>
    by_contra hlt
    have hclosed := closeFd_closes (Nat.lt_of_not_le hlt)
    rw [hfile] at hclosed
    obtain rfl := Option.some.inj hclosed
    rw [hnone] at hobject
    simp at hobject
  | _ => exact le_refl _

structure Inv (s : State T) : Prop where
  mutex : MutexInv s
  counts : CountInv s
  fds : FdInv s
  names : NameInv s

lemma inv_of_reachable (hs : Reachable step Initial s) : Inv s := by
  apply Reaches.invariant _ _ hs
  · exact fun s h => ⟨h.mutex, h.counts, h.fds, h.names⟩
  intro s op s' h _ hstep
  obtain ⟨t, _, hnext⟩ | ⟨_, houtside⟩ := step_cases hstep
  · exact ⟨next_mutex h.mutex hnext, next_counts h.counts h.mutex hnext,
      next_fds h.fds h.counts hnext, next_names h.names h.counts h.fds hnext⟩
  · exact ⟨houtside.mutex h.mutex, houtside.counts h.counts h.mutex, houtside.fds h.fds,
      houtside.names h.names h.counts h.mutex h.fds⟩

lemma Inv.raised (h : Inv s) {op : Op T} (hstep : step s op = some s') {i : Nat}
    (hzero : s.refcount i = 0) (hpos : s'.refcount i ≠ 0) :
    ∃ t req sync, op = .next t ∧ s.pc t = .publish req sync ∧ handleToIndex req.handle = i := by
  obtain ⟨t, rfl, hnext⟩ | ⟨_, houtside⟩ := step_cases hstep
  · obtain hsame | ⟨idx, hnonzero, hcount⟩ | ⟨req, sync, hpc, hcount⟩ | ⟨idx, fd, after, hpc, rfl⟩ :=
      next_count h.counts hnext
    · exact absurd (hsame ▸ hzero) hpos
    · have hne : i ≠ idx := by
        rintro rfl
        exact hnonzero hzero
      rw [hcount, update_of_ne hne] at hpos
      exact absurd hzero hpos
    · refine ⟨t, req, sync, rfl, hpc, ?_⟩
      by_contra hne
      rw [hcount, update_of_ne (Ne.symm hne)] at hpos
      exact hpos hzero
    have hne : i ≠ idx := by
      rintro rfl
      have hheld : 0 < s.refcount i := by
        apply (h.counts.counted i).pos (t := t)
        simp only [State.refs, hpc, Pc.refs, if_true]
        omega
      omega
    exact absurd ((update_of_ne hne _ _).trans hzero) hpos
  · rw [houtside.refcount] at hpos
    exact absurd hzero hpos

lemma Inv.dropped (h : Inv s) {op : Op T} (hstep : step s op = some s') {i : Nat}
    (hpos : s.refcount i ≠ 0) (hzero : s'.refcount i = 0) :
    ∃ t after, op = .next t ∧ s'.pc t = .releaseClose (s.sync i).fd after := by
  obtain ⟨t, rfl, hnext⟩ | ⟨_, houtside⟩ := step_cases hstep
  · obtain hsame | ⟨idx, hnonzero, hcount⟩ | ⟨req, sync, hpc, hcount⟩ | ⟨idx, fd, after, hpc, rfl⟩ :=
      next_count h.counts hnext
    · exact absurd (hsame ▸ hzero) hpos
    · by_cases heq : i = idx
      · subst heq
        have hnonneg := (h.counts.counted i).nonneg
        rw [hcount, update_self] at hzero
        omega
      · rw [hcount, update_of_ne heq] at hzero
        exact absurd hzero hpos
    · by_cases heq : i = handleToIndex req.handle
      · rw [hcount, heq, update_self] at hzero
        exact absurd hzero (by decide)
      · rw [hcount, update_of_ne heq] at hzero
        exact absurd hzero hpos
    have heq : i = idx := by
      by_contra hne
      exact hpos ((update_of_ne hne _ _).symm.trans hzero)
    subst heq
    have hlast : s.refcount i - 1 = 0 := (update_self _ _ _).symm.trans hzero
    have hpcs := h.counts.pcs t
    rw [hpc] at hpcs
    refine ⟨t, after, rfl, ?_⟩
    rw [if_pos hlast, hpcs.1]
    exact update_self _ _ _
  · rw [houtside.refcount] at hzero
    exact absurd hzero hpos

lemma Inv.closing (h : Inv s) {op : Op T} (hstep : step s op = some s') {file object : Nat}
    (hobject : s.object file = some object) (hlt : s.closes file < s'.closes file) :
    ∃ t fd after, op = .next t ∧ s.pc t = .releaseClose fd after ∧ s.fds fd = some file ∧
      ∀ i, s.refcount i ≠ 0 → (s.sync i).fd ≠ fd := by
  obtain ⟨t, rfl, hnext⟩ | ⟨_, houtside⟩ := step_cases hstep
  · obtain hsame | ⟨fd, after, hpc, hcloses⟩ := next_closes hnext
    · rw [hsame] at hlt
      exact absurd hlt (lt_irrefl _)
    rw [hcloses] at hlt
    refine ⟨t, fd, after, rfl, hpc, closeFd_closes hlt, fun i hi => ?_⟩
    apply h.fds.entry_ne (t := t) _ hi
    simp only [State.owns, hpc, Pc.owns, if_true]
    omega
  · exact absurd hlt (Nat.not_lt_of_le (houtside.closes hobject))

lemma handleToIndex_eq_iff (handle handle' : BitVec 64) :
    handleToIndex handle = handleToIndex handle' ↔
      objHandle handle >>> 2 = objHandle handle' >>> 2 := by
  unfold handleToIndex
  constructor
  · intro h
    have hsub := eq_of_toNat_eq h
    rw [sub_eq_iff_eq_add, sub_add_cancel] at hsub
    exact hsub
  · intro h
    rw [h]

/-- The cache is a correct map with reference counts in every interleaving. -/
theorem inproc_sync_cache (s : State T) (hs : Reachable step Initial s) :
    (∀ handle handle' : BitVec 64, handleToIndex handle = handleToIndex handle' ↔
      objHandle handle >>> 2 = objHandle handle' >>> 2) ∧
    (∀ t c, s.pc t = .checkClosed c → (s.sync (handleToIndex c.handle)).closed = false →
      0 < s.refcount (handleToIndex c.handle) ∧
        Named s (handleToIndex c.handle) (s.sync (handleToIndex c.handle))) ∧
    (∀ t grant, s.Holds t grant →
      Valid s grant ∧ ∀ idx, grant.ref = .cache idx → 0 < s.refcount idx) ∧
    (∀ i, Counted s i) ∧
    (∀ file < s.count, (s.closes file = 0 ∧ ∃ fd, s.fds fd = some file) ∨
      (s.closes file = 1 ∧ ∀ fd, s.fds fd ≠ some file)) ∧
    (∀ fd file object, s.fds fd = some file → s.object file = some object →
      ∃ owner, ∀ other, s.owns fd other = if other = owner then 1 else 0) ∧
    ∀ op s', step s op = some s' →
      (∀ i, s.refcount i = 0 → s'.refcount i ≠ 0 → ∃ t req sync,
        op = .next t ∧ s.pc t = .publish req sync ∧ handleToIndex req.handle = i) ∧
      (∀ i, s.refcount i ≠ 0 → s'.refcount i = 0 → (∀ u, s'.refs i u = 0) ∧
        ∃ t after, op = .next t ∧ s'.pc t = .releaseClose (s.sync i).fd after) ∧
      ∀ file object, s.object file = some object → s.closes file < s'.closes file →
        ∃ t fd after, op = .next t ∧ s.pc t = .releaseClose fd after ∧ s.fds fd = some file ∧
          ∀ i, s.refcount i ≠ 0 → (s.sync i).fd ≠ fd := by
  have h := inv_of_reachable hs
  refine ⟨handleToIndex_eq_iff, fun t c hpc hopen => ?_,
    fun t grant hholds => ⟨h.names.grants t grant hholds, ?_⟩, h.counts.counted,
    fun file hlt => ?_, fun fd file object hfile hobject => ?_, ?_⟩
  · have hpos : 0 < s.refcount (handleToIndex c.handle) := by
      apply (h.counts.counted _).pos (t := t)
      simp only [State.refs, hpc, Pc.refs, if_true]
      omega
    exact ⟨hpos, h.names.entries _ (Int.ne_of_gt hpos) hopen⟩
  · intro idx href
    exact (h.counts.counted idx).pos (refs_of_holds hholds href)
  · obtain ⟨hzero, hopen⟩ | ⟨hone, _, hgone⟩ := h.fds.files.closes file
    · exact .inl ⟨hzero, hopen hlt⟩
    · exact .inr ⟨hone, hgone⟩
  · have hsent : s.sent fd = 1 := by simp [State.sent, hfile, hobject]
    obtain ⟨owner, howner⟩ := (h.fds.owned fd).exists_pos (by omega)
    refine ⟨owner, fun other => ?_⟩
    have hone : s.owns fd other ≤ 1 := h.fds.owns_le_one other
    split
    · rename_i heq
      rw [heq] at hone ⊢
      omega
    · rename_i hne
      by_contra hpos
      exact hne (h.fds.unique (pos_of_ne_zero hpos) howner)
  · intro op s' hstep
    refine ⟨fun i => h.raised hstep, fun i hpos hzero => ⟨fun u => ?_, ?_⟩, fun file object => ?_⟩
    · obtain ⟨n, htally, hn⟩ := (inv_of_reachable (hs.next trivial hstep)).counts.counted i
      have hn : n = 0 := by omega
      exact (hn ▸ htally).eq_zero u
    · exact h.dropped hstep hpos hzero
    · exact h.closing hstep

def empty (T : Type) : State T where
  block _ := false
  refcount _ := 0
  sync _ := ⟨0, 0, .internal, false⟩
  mutex := none
  pc _ := .idle
  held _ := []
  handles _ := none
  fds _ := none
  count := 0
  object _ := none
  closes _ := 0

def firstLookup : List (Op Unit) :=
  [.create 0 ⟨7, 0x1f0003#32, some .event⟩, .getInprocSync () ⟨4#64, some .event, 2#32⟩, .next (),
    .next (), .next (), .received () 5, .next (), .next (), .next (), .next (), .next (), .next (),
    .next (), .next (), .next (), .next ()]

theorem inproc_sync_cache_first_lookup :
    ∃ s, run step (empty Unit) firstLookup = some s ∧ s.refcount 0 = 2 ∧
      ∃ grant, s.Holds () grant ∧ grant.ref = .cache 0 ∧ Valid s grant := by
  have hrun : (run step (empty Unit) firstLookup).map
      (fun s => (s.refcount 0, (s.held ()).map (·.ref))) = some (2, [.cache 0]) := by
    decide +kernel
  obtain ⟨s, hs, hfields⟩ := Option.map_eq_some_iff.mp hrun
  obtain ⟨hcount, hheld⟩ := Prod.mk.inj hfields
  have hinitial : Initial (empty Unit) :=
    ⟨fun _ => rfl, fun _ => rfl, rfl, fun _ => rfl, fun _ => rfl, fun _ => rfl, rfl, fun _ => rfl⟩
  obtain ⟨grant, hmem, href⟩ := List.mem_map.mp (hheld ▸ List.mem_singleton_self (Ref.cache 0))
  obtain ⟨_, _, hvalid, _⟩ := inproc_sync_cache s (reachable_of_run (.start hinitial) _ hs)
  exact ⟨s, hs, hcount, grant, .inl hmem, href, (hvalid () grant (.inl hmem)).1⟩

end WineForge.InprocSync
