import WineForge.InprocSync.Descriptors

/-!
# What a lookup returns

An entry that is open stands for the object that its handle has on the server, and a reference
keeps the descriptor of its entry.
-/

namespace WineForge.InprocSync

open Function Library List Option

variable {T : Type} {s s' : State T} {t : T}

def Named (s : State T) (idx : Nat) (sync : Sync) : Prop :=
  ∃ file object, s.handles idx = some ⟨object, sync.access, some sync.type⟩ ∧
    s.fds sync.fd = some file ∧ s.object file = some object

/-- The descriptor is still the file that it was when it was looked up, of the object that the
handle had on the server at that time. -/
def Valid (s : State T) (grant : Grant) : Prop :=
  ∃ file object, grant.file = some file ∧
    grant.named = some ⟨object, (s.syncOf grant.ref).access, some (s.syncOf grant.ref).type⟩ ∧
    s.fds (s.syncOf grant.ref).fd = some file ∧ s.object file = some object ∧
    ∀ idx, grant.ref = .cache idx → idx = handleToIndex grant.handle

def Pc.grant : Pc → Option Grant
  | unlock _ grant => grant
  | checkType _ grant | checkAccess _ grant => some grant
  | _ => none

def Pc.fresh : Pc → Option (Request × Sync)
  | cache req sync | cacheCheck req sync | storeFd req sync | storeAccess req sync
  | storeType req sync | storeClosed req sync | publish req sync => some (req, sync)
  | _ => none

/-- The thread has the reference, or `get_inproc_sync` is about to return it. -/
def State.Holds (s : State T) (t : T) (grant : Grant) : Prop :=
  grant ∈ s.held t ∨ (s.pc t).grant = some grant

structure NameInv (s : State T) : Prop where
  entries : ∀ i, s.refcount i ≠ 0 → (s.sync i).closed = false → Named s i (s.sync i)
  fresh : ∀ t req sync, (s.pc t).fresh = some (req, sync) →
    Named s (handleToIndex req.handle) sync
  grants : ∀ t grant, s.Holds t grant → Valid s grant

variable {grant : Grant} {sync : Sync}

lemma refs_of_holds {idx : Nat} (h : s.Holds t grant)
    (href : grant.ref = .cache idx) : 0 < s.refs idx t := by
  obtain hmem | hpc := h
  · have hsum := sum_map_erase (fun g : Grant => g.ref.refs idx) hmem
    have hself : grant.ref.refs idx = 1 := by rw [href]; exact if_pos rfl
    rw [State.refs]
    omega
  have hrefs : (s.pc t).refs idx = 1 := by
    cases hcall : s.pc t with
    | unlock req g =>
      rw [hcall] at hpc
      obtain rfl : g = some grant := hpc
      simp [Pc.refs, href, Ref.refs]
    | checkType req g | checkAccess req g =>
      rw [hcall] at hpc
      obtain rfl := some.inj hpc
      simp [Pc.refs, href, Ref.refs]
    | _ =>
      rw [hcall] at hpc
      simp [Pc.grant] at hpc
  rw [State.refs, hrefs]
  omega

lemma owns_of_holds (h : s.Holds t grant)
    (href : grant.ref = .stack sync) : 0 < s.owns sync.fd (.inr t) := by
  obtain hmem | hpc := h
  · have hsum := sum_map_erase (fun g : Grant => g.ref.owns sync.fd) hmem
    have hself : grant.ref.owns sync.fd = 1 := by rw [href]; exact if_pos rfl
    simp only [State.owns]
    omega
  have howns : (s.pc t).owns sync.fd = 1 := by
    cases hcall : s.pc t with
    | unlock req g =>
      rw [hcall] at hpc
      obtain rfl : g = some grant := hpc
      simp [Pc.owns, href, Ref.owns]
    | checkType req g | checkAccess req g =>
      rw [hcall] at hpc
      obtain rfl := some.inj hpc
      simp [Pc.owns, href, Ref.owns]
    | _ =>
      rw [hcall] at hpc
      simp [Pc.grant] at hpc
  simp only [State.owns, howns]
  omega

lemma Pc.owns_of_fresh {pc : Pc} {req : Request} (h : pc.fresh = some (req, sync)) :
    pc.owns sync.fd = 1 := by
  cases pc with
  | cache | cacheCheck | storeFd | storeAccess | storeType | storeClosed | publish =>
    obtain ⟨_, rfl⟩ := Prod.mk.inj (some.inj h)
    simp [Pc.owns]
  | _ => simp [Pc.fresh] at h

lemma Pc.locked_of_fresh {pc : Pc} {req : Request}
    (h : pc.fresh = some (req, sync)) : pc.locked = true := by
  cases pc with
  | cache | cacheCheck | storeFd | storeAccess | storeType | storeClosed | publish => rfl
  | _ => simp [Pc.fresh] at h

def Sync.Same (sync sync' : Sync) : Prop :=
  sync'.fd = sync.fd ∧ sync'.access = sync.access ∧ sync'.type = sync.type

lemma Named.same {idx : Nat} {sync' : Sync} (h : Named s idx sync) (hsame : sync.Same sync')
    (hhandles : s'.handles = s.handles) (hfds : s'.fds = s.fds) (hobject : s'.object = s.object) :
    Named s' idx sync' := by
  obtain ⟨hfd, haccess, htype⟩ := hsame
  unfold Named
  rw [hhandles, hfds, hobject, hfd, haccess, htype]
  exact h

lemma Valid.same (h : Valid s grant)
    (hsame : (s.syncOf grant.ref).Same (s'.syncOf grant.ref)) (hfds : s'.fds = s.fds)
    (hobject : s'.object = s.object) : Valid s' grant := by
  obtain ⟨hfd, haccess, htype⟩ := hsame
  unfold Valid
  rw [hfds, hobject, hfd, haccess, htype]
  exact h

section Steps

variable [DecidableEq T] {pc : Pc}

lemma NameInv.of_step (h : NameInv s) (hcounts : CountInv s)
    (hpc : s'.pc = update s.pc t pc) (hheld : ∀ u ≠ t, s'.held u = s.held u)
    (hgrants : ∀ grant, grant ∈ s'.held t ∨ pc.grant = some grant →
      s.Holds t grant ∨ Valid s' grant)
    (hfresh : ∀ p, pc.fresh = some p → (s.pc t).fresh = some p)
    (hcount : ∀ i, s'.refcount i ≠ 0 → s.refcount i ≠ 0 ∨ Named s' i (s'.sync i))
    (hsync : ∀ i, s.refcount i ≠ 0 → (s.sync i).Same (s'.sync i) ∧
      ((s'.sync i).closed = false → (s.sync i).closed = false))
    (hhandles : s'.handles = s.handles) (hfds : s'.fds = s.fds) (hobject : s'.object = s.object) :
    NameInv s' := by
  refine ⟨fun i hi hopen => ?_, fun w req sync hw => ?_, fun w grant hw => ?_⟩
  · obtain hold | hnamed := hcount i hi
    · obtain ⟨hsame, hopen'⟩ := hsync i hold
      exact (h.entries i hold (hopen' hopen)).same hsame hhandles hfds hobject
    · exact hnamed
  · have hw' : (s.pc w).fresh = some (req, sync) := by
      rw [hpc] at hw
      by_cases heq : w = t
      · rw [heq, update_self] at hw
        rw [heq]
        exact hfresh _ hw
      · rw [update_of_ne heq] at hw
        exact hw
    exact (h.fresh w req sync hw').same ⟨rfl, rfl, rfl⟩ hhandles hfds hobject
  have hold : s.Holds w grant ∨ Valid s' grant := by
    unfold State.Holds at hw
    rw [hpc] at hw
    by_cases heq : w = t
    · subst heq
      rw [update_self] at hw
      exact hgrants grant hw
    · rw [hheld w heq, update_of_ne heq] at hw
      exact .inl hw
  obtain hold | hvalid := hold
  · refine (h.grants w grant hold).same ?_ hfds hobject
    cases href : grant.ref with
    | cache idx =>
      have hpos := (hcounts.counted idx).pos (refs_of_holds hold href)
      exact (hsync idx (by omega)).1
    | stack sync => exact ⟨rfl, rfl, rfl⟩
  · exact hvalid

lemma NameInv.quiet (h : NameInv s) (hcounts : CountInv s)
    (hpc : s'.pc = update s.pc t pc) (hheld : s'.held = s.held)
    (hgrants : ∀ grant, pc.grant = some grant → (s.pc t).grant = some grant ∨ Valid s grant)
    (hfresh : ∀ p, pc.fresh = some p → (s.pc t).fresh = some p)
    (hcount : ∀ i, s'.refcount i ≠ 0 → s.refcount i ≠ 0)
    (hsync : s'.sync = s.sync) (hhandles : s'.handles = s.handles) (hfds : s'.fds = s.fds)
    (hobject : s'.object = s.object) : NameInv s' := by
  apply h.of_step hcounts hpc
  · intro u _
    rw [hheld]
  · intro grant hgrant
    rw [hheld] at hgrant
    obtain hmem | hself := hgrant
    · exact .inl (.inl hmem)
    obtain hold | hvalid := hgrants grant hself
    · exact .inl (.inr hold)
    refine .inr (hvalid.same ?_ hfds hobject)
    unfold State.syncOf
    rw [hsync]
    exact ⟨rfl, rfl, rfl⟩
  · exact hfresh
  · exact fun i hi => .inl (hcount i hi)
  · intro i _
    rw [hsync]
    exact ⟨⟨rfl, rfl, rfl⟩, id⟩
  · exact hhandles
  · exact hfds
  · exact hobject

lemma NameInv.call {mutex : Option T} {block : Nat → Bool} (h : NameInv s) (hcounts : CountInv s)
    (hgrants : ∀ grant, pc.grant = some grant → (s.pc t).grant = some grant ∨ Valid s grant)
    (hfresh : ∀ p, pc.fresh = some p → (s.pc t).fresh = some p) :
    NameInv { s with pc := update s.pc t pc, mutex, block } :=
  h.quiet hcounts rfl rfl hgrants hfresh (fun _ => id) rfl rfl rfl rfl

lemma NameInv.blank {mutex : Option T} {block : Nat → Bool} (h : NameInv s) (hcounts : CountInv s)
    (hgrant : pc.grant = none) (hfresh : pc.fresh = none) :
    NameInv { s with pc := update s.pc t pc, mutex, block } :=
  h.call hcounts (by simp [hgrant]) (by simp [hfresh])

lemma NameInv.granted {grant : Grant} (h : NameInv s) (hcounts : CountInv s)
    (hgrant : pc.grant = some grant) (hfresh : pc.fresh = none) (hvalid : Valid s grant) :
    NameInv (s.setPc t pc) := by
  refine h.call hcounts (fun grant' hgrant' => .inr ?_) (by simp [hfresh])
  rw [hgrant] at hgrant'
  exact some.inj hgrant' ▸ hvalid

omit [DecidableEq T] in
lemma NameInv.valid_entry (h : NameInv s) {handle : BitVec 64}
    (hcount : s.refcount (handleToIndex handle) ≠ 0)
    (hopen : (s.sync (handleToIndex handle)).closed = false) :
    Valid s (s.grant (.cache (handleToIndex handle)) handle) := by
  obtain ⟨file, object, hnamed, hfile, hobject⟩ := h.entries _ hcount hopen
  refine ⟨file, object, hfile, hnamed, hfile, hobject, fun idx hidx => ?_⟩
  exact (Ref.cache.inj hidx).symm

omit [DecidableEq T] in
lemma Named.valid {handle : BitVec 64} {sync : Sync}
    (h : Named s (handleToIndex handle) sync) : Valid s (s.grant (.stack sync) handle) := by
  obtain ⟨file, object, hnamed, hfile, hobject⟩ := h
  exact ⟨file, object, hfile, hnamed, hfile, hobject, fun idx hidx => by simp [State.grant] at hidx⟩

omit [DecidableEq T] in
@[simp] lemma miss_grant (c : Caller) : c.miss.grant = none := by cases c <;> rfl

@[simp] lemma miss_fresh (c : Caller) : c.miss.fresh = none := by cases c <;> rfl

@[simp] lemma after_grant (after : After) : after.pc.grant = none := by
  cases after with
  | miss c => exact miss_grant c
  | _ => rfl

@[simp] lemma after_fresh (after : After) : after.pc.fresh = none := by
  cases after with
  | miss c => exact miss_fresh c
  | _ => rfl

lemma NameInv.store {idx : Nat} {sync : Sync} (h : NameInv s) (hcounts : CountInv s)
    (hzero : s.refcount idx = 0) (hgrant : pc.grant = none)
    (hfresh : ∀ p, pc.fresh = some p → (s.pc t).fresh = some p) :
    NameInv ((s.setSync idx sync).setPc t pc) := by
  refine h.of_step hcounts rfl (fun _ _ => rfl) (fun grant hmem => ?_) hfresh
    (fun _ hi => .inl hi) (fun i hi => ?_) rfl rfl rfl
  · obtain hmem | hself := hmem
    · exact .inl (.inl hmem)
    · rw [hgrant] at hself
      simp at hself
  change (s.sync i).Same (update s.sync _ _ i) ∧
    ((update s.sync _ _ i).closed = false → _)
  rw [setSync_of_vacant hzero hi]
  exact ⟨⟨rfl, rfl, rfl⟩, id⟩

variable {fd : Nat}

omit [DecidableEq T] in
lemma closeFd_fds_of_ne {fd' : Nat} (hne : fd' ≠ fd) : (closeFd s fd).fds fd' = s.fds fd' := by
  unfold closeFd
  split
  · rfl
  · exact update_of_ne hne _ _

lemma FdInv.entry_ne {i : Nat} (h : FdInv s) (howns : 0 < s.owns fd (.inr t))
    (hi : s.refcount i ≠ 0) : (s.sync i).fd ≠ fd := by
  rintro rfl
  have hentry : 0 < s.owns (s.sync i).fd (.inl i) := by
    simp [State.owns, hi]
  exact absurd (h.unique hentry howns) (by simp)

lemma NameInv.close {after : After} (h : NameInv s) (hcounts : CountInv s)
    (hfds : FdInv s) (hpc : s.pc t = .releaseClose fd after) :
    NameInv ((closeFd s fd).setPc t after.pc) := by
  have howns : 0 < s.owns fd (.inr t) := by
    simp only [State.owns, hpc, Pc.owns, if_true]
    omega
  have hclosed : NameInv (closeFd s fd) := by
    have hframe := closeFd_frame s fd
    refine ⟨fun i hi hopen => ?_, fun w req sync hw => ?_, fun w grant hw => ?_⟩
    · rw [hframe] at hi hopen
      obtain ⟨file, object, hentry, hfile, hobject⟩ := h.entries i hi hopen
      refine ⟨file, object, ?_, ?_, ?_⟩
      · rw [hframe]
        exact hentry
      · have hne := hfds.entry_ne howns hi
        rw [closeFd_fds_of_ne (by rw [hframe]; exact hne), hframe]
        exact hfile
      · rw [hframe]
        exact hobject
    · rw [hframe] at hw
      obtain ⟨file, object, hentry, hfile, hobject⟩ := h.fresh w req sync hw
      have hne : sync.fd ≠ fd := by
        intro heq
        have hown : 0 < s.owns fd (.inr w) := by
          simp only [State.owns, ← heq, Pc.owns_of_fresh hw]
          omega
        obtain rfl := Sum.inr.inj (hfds.unique hown howns)
        rw [hpc] at hw
        exact absurd hw (by simp [Pc.fresh])
      refine ⟨file, object, ?_, ?_, ?_⟩
      · rw [hframe]
        exact hentry
      · rw [closeFd_fds_of_ne hne]
        exact hfile
      · rw [hframe]
        exact hobject
    · have hheld : s.Holds w grant := by
        rw [hframe] at hw
        exact hw
      have hsync : (closeFd s fd).syncOf grant.ref = s.syncOf grant.ref := by
        rw [hframe]
        rfl
      have hne : (s.syncOf grant.ref).fd ≠ fd := by
        cases href : grant.ref with
        | cache idx =>
          have hpos := (hcounts.counted idx).pos (refs_of_holds hheld href)
          exact hfds.entry_ne howns (by omega)
        | stack sync =>
          intro heq
          have hown : 0 < s.owns fd (.inr w) := heq ▸ owns_of_holds hheld href
          obtain rfl := Sum.inr.inj (hfds.unique hown howns)
          -- the thread would own the descriptor twice
          have hmem : grant ∈ s.held w := by
            refine hheld.resolve_right ?_
            rw [hpc]
            simp [Pc.grant]
          have hsum := sum_map_erase (fun g : Grant => g.ref.owns fd) hmem
          have hself : grant.ref.owns fd = 1 := by rw [href]; exact if_pos heq
          have hone : s.owns fd (.inr w) ≤ 1 := hfds.owns_le_one _
          simp only [State.owns, hpc, Pc.owns, if_true] at hone
          omega
      obtain ⟨file, object, hgrant, hnamed, hfile, hobject, hidx⟩ := h.grants w grant hheld
      refine ⟨file, object, hgrant, ?_, ?_, ?_, hidx⟩
      · rw [hsync]
        exact hnamed
      · rw [hsync, closeFd_fds_of_ne hne]
        exact hfile
      · rw [hframe]
        exact hobject
  have hcounts' : CountInv (closeFd s fd) := by
    rw [closeFd_frame]
    exact ⟨hcounts.counted, hcounts.slots, hcounts.pcs⟩
  exact hclosed.quiet hcounts' rfl rfl (by simp) (by simp) (fun _ => id) rfl rfl rfl rfl

lemma next_names (h : NameInv s) (hcounts : CountInv s) (hfds : FdInv s)
    (hnext : next s t = some s') : NameInv s' := by
  have hpcs : PcInv s (s.pc t) := hcounts.pcs t
  have hnamed : ∀ req sync, (s.pc t).fresh = some (req, sync) →
      Named s (handleToIndex req.handle) sync := h.fresh t
  unfold next at hnext
  cases hpc : s.pc t <;> simp only [hpc, some.injEq, reduceCtorEq] at hnext <;>
    rw [hpc] at hpcs hnamed
  case lockGet | lockClose =>
    obtain ⟨_, rfl⟩ := enterSection_eq_some.mp hnext
    exact h.blank hcounts rfl rfl
  case lookup c | load c =>
    rw [← hnext]
    split
    · exact h.blank hcounts (miss_grant c) (miss_fresh c)
    · exact h.blank hcounts rfl rfl
  case cas c val =>
    rw [← hnext]
    split
    · rename_i hval
      refine h.quiet hcounts rfl rfl (by simp [Pc.grant]) (by simp [Pc.fresh]) (fun i hi => ?_) rfl
        rfl rfl rfl
      by_cases heq : i = handleToIndex c.handle
      · rw [heq, hval]
        exact hpcs
      · intro hzero
        exact hi ((update_of_ne heq _ _).trans hzero)
    · split
      · exact h.blank hcounts (miss_grant c) (miss_fresh c)
      · exact h.blank hcounts rfl rfl
  case checkClosed c =>
    rw [← hnext]
    have hpos : 0 < s.refcount (handleToIndex c.handle) := by
      apply (hcounts.counted _).pos (t := t)
      simp only [State.refs, hpc, Pc.refs, if_true]
      omega
    split
    · exact h.blank hcounts rfl rfl
    rename_i hopen
    have hopen := Bool.eq_false_iff.mpr hopen
    cases c with
    | get | getLocked =>
      exact h.granted hcounts rfl rfl (h.valid_entry (Int.ne_of_gt hpos) hopen)
    | close => exact h.blank hcounts rfl rfl
  case cache | cacheCheck =>
    rw [← hnext]
    split
    · exact h.granted hcounts rfl rfl (hnamed _ _ rfl).valid
    · exact h.call hcounts (by simp [Pc.grant]) fun _ hp => by rw [hpc]; exact hp
  case storeFd =>
    exact hnext ▸ h.store hcounts hpcs.2.2 rfl fun _ hp => by rw [hpc]; exact hp
  case storeAccess | storeType | storeClosed =>
    exact hnext ▸ h.store hcounts hpcs.1.2.2 rfl fun _ hp => by rw [hpc]; exact hp
  case publish req sync =>
    have hnamed := hnamed req sync rfl
    obtain ⟨_, hfilled⟩ := hpcs
    rw [← hnext]
    have hgrant : Valid s (s.grant (.cache (handleToIndex req.handle)) req.handle) := by
      obtain ⟨file, object, hentry, hfile, hobject⟩ := hnamed
      refine ⟨file, object, ?_, ?_, ?_, hobject, fun idx hidx => (Ref.cache.inj hidx).symm⟩
      · simp [State.grant, hfilled, hfile]
      · simp [State.grant, State.syncOf, hfilled, hentry]
      · simp [State.grant, State.syncOf, hfilled, hfile]
    refine h.of_step hcounts rfl (fun _ _ => rfl) (fun grant hgrant' => ?_) (by simp [Pc.fresh])
      (fun i hi => ?_) (fun _ _ => ⟨⟨rfl, rfl, rfl⟩, id⟩) rfl rfl rfl
    · obtain hmem | hself := hgrant'
      · exact .inl (.inl hmem)
      · rw [← some.inj hself]
        exact .inr hgrant
    by_cases heq : i = handleToIndex req.handle
    · subst heq
      change s.refcount _ ≠ 0 ∨ Named s _ (s.sync _)
      rw [hfilled]
      exact .inr hnamed
    · exact .inl fun hzero => hi ((update_of_ne heq _ _).trans hzero)
  case unlock req grant =>
    rw [← hnext]
    cases grant <;>
      exact h.call hcounts (fun _ hg => .inl (by rw [hpc]; exact hg)) (by simp [Pc.fresh])
  case checkType =>
    rw [← hnext]
    split
    · exact h.call hcounts (fun _ hg => .inl (by rw [hpc]; exact hg)) (by simp [Pc.fresh])
    · split
      · exact h.blank hcounts rfl rfl
      · exact h.call hcounts (fun _ hg => .inl (by rw [hpc]; exact hg)) (by simp [Pc.fresh])
  case checkAccess req grant =>
    rw [← hnext]
    split
    · exact h.blank hcounts rfl rfl
    refine h.of_step hcounts rfl (fun u hu => update_of_ne hu _ _)
      (fun grant' hgrant => .inl ?_) (by simp [Pc.fresh]) (fun _ hi => .inl hi)
      (fun _ _ => ⟨⟨rfl, rfl, rfl⟩, id⟩) rfl rfl rfl
    obtain hmem | hnone := hgrant
    · dsimp only at hmem
      rw [update_self] at hmem
      obtain hmem | hself := mem_append.mp hmem
      · exact .inl hmem
      · rw [mem_singleton.mp hself]
        exact .inr (by rw [hpc]; rfl)
    · cases hnone
  case releaseFd ref after =>
    cases ref <;> simp only [some.injEq] at hnext <;> exact hnext ▸ h.blank hcounts rfl rfl
  case releaseDec idx fd after =>
    have hpos : 0 < s.refcount idx := by
      apply (hcounts.counted idx).pos (t := t)
      simp only [State.refs, hpc, Pc.refs, if_true]
      omega
    have hcount : ∀ i, update s.refcount idx (s.refcount idx - 1) i ≠ 0 →
        s.refcount i ≠ 0 := by
      intro i hi
      by_cases heq : i = idx
      · rw [heq]
        omega
      · rw [update_of_ne heq] at hi
        exact hi
    rw [← hnext]
    split
    · exact h.quiet hcounts rfl rfl (by simp [Pc.grant]) (by simp [Pc.fresh]) hcount rfl rfl rfl rfl
    · exact h.quiet hcounts rfl rfl (by simp) (by simp) hcount rfl rfl rfl rfl
  case releaseClose =>
    exact hnext ▸ h.close hcounts hfds hpc
  case setClosed handle =>
    refine hnext ▸ h.of_step hcounts rfl (fun _ _ => rfl) (fun grant hgrant => ?_)
      (by simp [Pc.fresh]) (fun _ hi => .inl hi) (fun i _ => ?_) rfl rfl rfl
    · obtain hmem | hnone := hgrant
      · exact .inl (.inl hmem)
      · cases hnone
    change (s.sync i).Same (update s.sync _ _ i) ∧
      ((update s.sync _ _ i).closed = false → _)
    by_cases heq : i = handleToIndex handle
    · subst heq
      rw [update_self]
      exact ⟨⟨rfl, rfl, rfl⟩, by simp⟩
    · rw [update_of_ne heq]
      exact ⟨⟨rfl, rfl, rfl⟩, id⟩
  case closeUnlock =>
    exact hnext ▸ h.blank hcounts rfl rfl

omit [DecidableEq T] in
lemma NameInv.openFd (h : NameInv s) (hfiles : FileInv s) (hfree : s.fds fd = none)
    (object : Option Nat) : NameInv (openFd s fd object) := by
  have hkept : ∀ fd' file object', s.fds fd' = some file → s.object file = some object' →
      (InprocSync.openFd s fd object).fds fd' = some file ∧
        (InprocSync.openFd s fd object).object file = some object' := by
    intro fd' file object' hfile hobject
    have hne : fd' ≠ fd := by
      rintro rfl
      rw [hfree] at hfile
      simp at hfile
    refine ⟨(update_of_ne hne _ _).trans hfile, ?_⟩
    have hlt := hfiles.bound fd' file hfile
    exact (update_of_ne (ne_of_lt hlt) _ _).trans hobject
  refine ⟨fun i hi hopen => ?_, fun w req sync hw => ?_, fun w grant hw => ?_⟩
  · obtain ⟨file, object', hentry, hfile, hobject⟩ := h.entries i hi hopen
    exact ⟨file, object', hentry, hkept _ file object' hfile hobject⟩
  · obtain ⟨file, object', hentry, hfile, hobject⟩ := h.fresh w req sync hw
    exact ⟨file, object', hentry, hkept _ file object' hfile hobject⟩
  · obtain ⟨file, object', hgrant, hnamed, hfile, hobject, hidx⟩ := h.grants w grant hw
    obtain ⟨hfile', hobject'⟩ := hkept _ file object' hfile hobject
    exact ⟨file, object', hgrant, hnamed, hfile', hobject', hidx⟩

lemma Outside.names (hstep : Outside s s') (h : NameInv s) (hcounts : CountInv s)
    (hmutex : MutexInv s) (hfds : FdInv s) : NameInv s' := by
  cases hstep with
  | begin t pc hpc hkind =>
    obtain ⟨_, rfl⟩ | ⟨_, rfl⟩ := hkind
    · exact h.blank hcounts rfl rfl
    · exact h.blank hcounts rfl rfl
  | release t grant hpc hmem =>
    refine h.of_step hcounts rfl (fun u hu => update_of_ne hu _ _)
      (fun grant' hgrant => .inl ?_) (by simp [Pc.fresh]) (fun _ hi => .inl hi)
      (fun _ _ => ⟨⟨rfl, rfl, rfl⟩, id⟩) rfl rfl rfl
    obtain hmem | hnone := hgrant
    · dsimp only at hmem
      rw [update_self] at hmem
      exact .inl (mem_of_mem_erase hmem)
    · exact absurd hnone (by simp [Pc.grant])
  | received t req fd object access type hpc hfree hentry =>
    have hopened := h.openFd hfds.files hfree (some object)
    have hother : ∀ w ≠ t, ((openFd s fd (some object)).setPc t
        (.cache req ⟨fd, access, type, false⟩)).pc w = s.pc w :=
      fun w hne => update_of_ne hne _ _
    have hself : ((openFd s fd (some object)).setPc t
        (.cache req ⟨fd, access, type, false⟩)).pc t = .cache req ⟨fd, access, type, false⟩ :=
      update_self _ _ _
    refine ⟨hopened.entries, fun w req' sync hw => ?_, fun w grant hw => ?_⟩
    · by_cases heq : w = t
      · rw [heq, hself] at hw
        obtain ⟨rfl, rfl⟩ := Prod.mk.inj (some.inj hw)
        refine ⟨s.count, object, hentry, ?_, ?_⟩
        · exact update_self _ _ _
        · exact update_self _ _ _
      · rw [hother w heq] at hw
        exact hopened.fresh w req' sync hw
    apply hopened.grants w grant
    obtain hmem | hgrant := hw
    · exact .inl hmem
    by_cases heq : w = t
    · rw [heq, hself] at hgrant
      exact absurd hgrant (by simp [Pc.grant])
    · rw [hother w heq] at hgrant
      exact .inr hgrant
  | refused t req hpc =>
    exact h.blank hcounts rfl rfl
  | uncached t req sync hpc =>
    refine h.call hcounts (fun grant hgrant => .inr ?_) (by simp [Pc.fresh])
    rw [← some.inj hgrant]
    exact (h.fresh t req sync (by rw [hpc]; rfl)).valid
  | closed t handle entry hpc =>
    have hgone : Gone s (handleToIndex handle) := by
      have hpcs := hcounts.pcs t
      rw [hpc] at hpcs
      exact hpcs
    refine ⟨fun i hi hopen => ?_, fun w req sync hw => ?_, fun w grant hw => ?_⟩
    · obtain ⟨file, object, hentry, hrest⟩ := h.entries i hi hopen
      refine ⟨file, object, ?_, hrest⟩
      have hne : i ≠ handleToIndex handle := by
        rintro rfl
        obtain hzero | hclosed := hgone
        · exact hi hzero
        · have hopen : (s.sync (handleToIndex handle)).closed = false := hopen
          rw [hclosed] at hopen
          simp at hopen
      exact (update_of_ne hne _ _).trans hentry
    · -- the mutex is held to close the handle, and to fill an entry
      by_cases heq : w = t
      · subst heq
        have hself : (s.setPc w .closeUnlock).pc w = .closeUnlock := update_self _ _ _
        rw [hself] at hw
        exact absurd hw (by simp [Pc.fresh])
      · have hw : (s.pc w).fresh = some (req, sync) :=
          (congrArg Pc.fresh (update_of_ne heq _ _)).symm.trans hw
        exact absurd (hmutex.unique (Pc.locked_of_fresh hw) (t := w) (u := t) (by rw [hpc]; rfl)) heq
    refine h.grants w grant (hw.imp id fun hgrant => ?_)
    by_cases heq : w = t
    · subst heq
      have hself : (s.setPc w .closeUnlock).pc w = .closeUnlock := update_self _ _ _
      rw [hself] at hgrant
      exact absurd hgrant (by simp [Pc.grant])
    · exact (congrArg Pc.grant (update_of_ne heq _ _)).symm.trans hgrant
  | create idx entry hnone =>
    have hkept : ∀ i e, s.handles i = some e →
        update s.handles idx (some entry) i = some e := by
      intro i e hi
      have hne : i ≠ idx := by
        rintro rfl
        rw [hnone] at hi
        simp at hi
      exact (update_of_ne hne _ _).trans hi
    refine ⟨fun i hi hopen => ?_, fun w req sync hw => ?_, h.grants⟩
    · obtain ⟨file, object, hentry, hrest⟩ := h.entries i hi hopen
      exact ⟨file, object, hkept i _ hentry, hrest⟩
    · obtain ⟨file, object, hentry, hrest⟩ := h.fresh w req sync hw
      exact ⟨file, object, hkept _ _ hentry, hrest⟩
  | openOther fd hfree => exact h.openFd hfds.files hfree none
  | closeOther fd file hfile hobject =>
    have hkept : ∀ fd' file' object, s.fds fd' = some file' → s.object file' = some object →
        (closeFd s fd).fds fd' = some file' := by
      intro fd' file' object hfile' hobject'
      have hne : fd' ≠ fd := by
        rintro rfl
        rw [hfile] at hfile'
        obtain rfl := some.inj hfile'
        rw [hobject] at hobject'
        simp at hobject'
      rw [closeFd_fds_of_ne hne]
      exact hfile'
    rw [closeFd_frame]
    refine ⟨fun i hi hopen => ?_, fun w req sync hw => ?_, fun w grant hw => ?_⟩
    · obtain ⟨file', object, hentry, hfile', hobject'⟩ := h.entries i hi hopen
      exact ⟨file', object, hentry, hkept _ _ object hfile' hobject', hobject'⟩
    · obtain ⟨file', object, hentry, hfile', hobject'⟩ := h.fresh w req sync hw
      exact ⟨file', object, hentry, hkept _ _ object hfile' hobject', hobject'⟩
    · obtain ⟨file', object, hgrant, hnamed, hfile', hobject', hidx⟩ := h.grants w grant hw
      exact ⟨file', object, hgrant, hnamed, hkept _ _ object hfile' hobject', hobject', hidx⟩

omit [DecidableEq T] in
lemma Initial.names (h : Initial s) : NameInv s := by
  obtain ⟨_, hcount, _, hpc, hheld, _⟩ := h
  refine ⟨fun i hi => absurd (hcount i) hi, fun t req sync ht => ?_, fun t grant ht => ?_⟩
  · rw [hpc] at ht
    exact absurd ht (by simp [Pc.fresh])
  obtain hmem | hgrant := ht
  · rw [hheld] at hmem
    simp at hmem
  · rw [hpc] at hgrant
    exact absurd hgrant (by simp [Pc.grant])

end Steps

end WineForge.InprocSync
