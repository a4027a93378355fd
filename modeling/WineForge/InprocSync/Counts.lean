import WineForge.InprocSync.References

/-!
# The counts in every run

An entry is filled while its count is zero, and its handle is closed only after the entry has been
marked.
-/

namespace WineForge.InprocSync

open Function Library List Option

variable {T : Type} {s s' : State T} {t : T} {i : Nat}

def Gone (s : State T) (i : Nat) : Prop := s.refcount i = 0 ∨ (s.sync i).closed = true

def Slot (s : State T) (i : Nat) : Prop :=
  i / blockSize < cacheEntries ∧ s.block (i / blockSize) = true

def After.Inv (s : State T) : After → Prop
  | miss (.close handle) | again handle | close handle => Gone s (handleToIndex handle)
  | _ => True

def Filling (s : State T) (i : Nat) (sync : Sync) : Prop :=
  sync.closed = false ∧ Slot s i ∧ s.refcount i = 0

def PcInv (s : State T) : Pc → Prop
  | .cas _ val => val ≠ 0
  | .cache _ sync => sync.closed = false
  | .cacheCheck req sync => sync.closed = false ∧ Slot s (handleToIndex req.handle)
  | .storeFd req sync => Filling s (handleToIndex req.handle) sync
  | .storeAccess req sync => Filling s (handleToIndex req.handle) sync ∧
      (s.sync (handleToIndex req.handle)).fd = sync.fd
  | .storeType req sync => Filling s (handleToIndex req.handle) sync ∧
      (s.sync (handleToIndex req.handle)).fd = sync.fd ∧
      (s.sync (handleToIndex req.handle)).access = sync.access
  | .storeClosed req sync => Filling s (handleToIndex req.handle) sync ∧
      (s.sync (handleToIndex req.handle)).fd = sync.fd ∧
      (s.sync (handleToIndex req.handle)).access = sync.access ∧
      (s.sync (handleToIndex req.handle)).type = sync.type
  | .publish req sync => Filling s (handleToIndex req.handle) sync ∧
      s.sync (handleToIndex req.handle) = sync
  | .setClosed handle => (s.sync (handleToIndex handle)).closed = false
  | .releaseFd _ after | .releaseClose _ after => after.Inv s
  | .releaseDec idx fd after => (s.sync idx).fd = fd ∧ after.Inv s
  | .closeRequest handle => Gone s (handleToIndex handle)
  | _ => True

lemma miss_inv {c : Caller} (h : Gone s (handleToIndex c.handle)) : PcInv s c.miss := by
  cases c with
  | close handle => exact h
  | _ => trivial

lemma after_inv {after : After} (h : after.Inv s) : PcInv s after.pc := by
  cases after with
  | miss c =>
    cases c with
    | close handle => exact h
    | _ => trivial
  | again handle => exact h
  | close handle => exact h
  | done => trivial

/-- What the steps of the other threads leave as it is. -/
structure Undisturbed (s s' : State T) (pc : Pc) : Prop where
  locked : pc.locked = true → s'.sync = s.sync ∧ ∀ i, s.refcount i = 0 → s'.refcount i = 0
  fd : ∀ i, 0 < pc.refs i → (s'.sync i).fd = (s.sync i).fd
  block : ∀ b, s.block b = true → s'.block b = true

lemma Slot.mono (h : Slot s i) (hblock : ∀ b, s.block b = true → s'.block b = true) : Slot s' i :=
  ⟨h.1, hblock _ h.2⟩

lemma Filling.mono {sync : Sync} (h : Filling s i sync)
    (hzero : ∀ i, s.refcount i = 0 → s'.refcount i = 0)
    (hblock : ∀ b, s.block b = true → s'.block b = true) : Filling s' i sync :=
  ⟨h.1, h.2.1.mono hblock, hzero i h.2.2⟩

lemma Gone.mono (h : Gone s i) (hsync : s'.sync = s.sync)
    (hzero : ∀ i, s.refcount i = 0 → s'.refcount i = 0) : Gone s' i := by
  refine h.imp (hzero i) fun hclosed => ?_
  rw [hsync]
  exact hclosed

lemma After.Inv.mono {after : After} (h : after.Inv s)
    (hlocked : after.locked = true → s'.sync = s.sync ∧ ∀ i, s.refcount i = 0 → s'.refcount i = 0) :
    after.Inv s' := by
  cases after with
  | miss c =>
    cases c with
    | close handle =>
      obtain ⟨hsync, hzero⟩ := hlocked rfl
      exact Gone.mono h hsync hzero
    | _ => trivial
  | again handle | close handle =>
    obtain ⟨hsync, hzero⟩ := hlocked rfl
    exact Gone.mono h hsync hzero
  | done => trivial

lemma PcInv.undisturbed {pc : Pc} (h : PcInv s pc) (hframe : Undisturbed s s' pc) :
    PcInv s' pc := by
  obtain ⟨hlocked, hfd, hblock⟩ := hframe
  cases pc with
  | cas c val => exact h
  | cache req sync => exact h
  | cacheCheck req sync => exact ⟨h.1, h.2.mono hblock⟩
  | storeFd req sync => exact Filling.mono h (hlocked rfl).2 hblock
  | storeAccess req sync | storeType req sync | storeClosed req sync | publish req sync =>
    obtain ⟨hsync, hzero⟩ := hlocked rfl
    refine ⟨h.1.mono hzero hblock, ?_⟩
    rw [hsync]
    exact h.2
  | setClosed handle =>
    obtain ⟨hsync, _⟩ := hlocked rfl
    change (s'.sync _).closed = false
    rw [hsync]
    exact h
  | releaseFd ref after | releaseClose fd after => exact After.Inv.mono h hlocked
  | releaseDec idx fd after =>
    refine ⟨?_, h.2.mono hlocked⟩
    have hpos : 0 < (Pc.releaseDec idx fd after).refs idx := by
      rw [Pc.refs, if_pos rfl]
      omega
    rw [hfd idx hpos]
    exact h.1
  | closeRequest handle =>
    obtain ⟨hsync, hzero⟩ := hlocked rfl
    exact Gone.mono h hsync hzero
  | _ => trivial

section Steps

variable [DecidableEq T] {pc : Pc}

structure CountInv (s : State T) : Prop where
  counted : ∀ i, Counted s i
  slots : ∀ i, s.refcount i ≠ 0 → Slot s i
  pcs : ∀ t, PcInv s (s.pc t)

lemma CountInv.of_step (h : CountInv s) (hmutex : MutexInv s)
    (hpc : s'.pc = update s.pc t pc) (hcounted : ∀ i, Counted s' i)
    (hslots : ∀ i, s'.refcount i ≠ 0 → s.refcount i ≠ 0 ∨ Slot s i)
    (hself : PcInv s' pc)
    (hunlocked : (s.pc t).locked = false →
      s'.sync = s.sync ∧ ∀ i, s.refcount i = 0 → s'.refcount i = 0)
    (hfd : ∀ i, s.refcount i ≠ 0 → (s'.sync i).fd = (s.sync i).fd)
    (hblock : ∀ b, s.block b = true → s'.block b = true) : CountInv s' := by
  refine ⟨hcounted, fun i hi => ?_, fun w => ?_⟩
  · obtain hold | hslot := hslots i hi
    · exact (h.slots i hold).mono hblock
    · exact hslot.mono hblock
  by_cases heq : w = t
  · rw [heq, hpc, update_self]
    exact hself
  rw [hpc, update_of_ne heq]
  apply (h.pcs w).undisturbed
  refine ⟨fun hlocked => hunlocked ?_, fun i hi => hfd i ?_, hblock⟩
  · by_contra hcontra
    exact heq (hmutex.unique hlocked (Bool.of_not_eq_false hcontra))
  · have hpos := (h.counted i).pos (t := w) (Nat.lt_of_lt_of_le hi (Nat.le_add_right _ _))
    omega

lemma CountInv.quiet {held : List Grant} (h : CountInv s) (hmutex : MutexInv s)
    (hpc : s'.pc = update s.pc t pc) (hheld : s'.held = update s.held t held)
    (hrefs : ∀ i, pc.refs i + (held.map (·.ref.refs i)).sum = s.refs i t)
    (hcount : s'.refcount = s.refcount) (hsync : s'.sync = s.sync) (hself : PcInv s' pc)
    (hblock : ∀ b, s.block b = true → s'.block b = true) : CountInv s' := by
  apply h.of_step hmutex hpc
  · intro i
    exact (h.counted i).same (refs_same hpc hheld (hrefs i)) (by rw [hcount])
      (fun _ => by rw [hsync])
  · intro i hi
    exact .inl (hcount ▸ hi)
  · exact hself
  · exact fun _ => ⟨hsync, fun i hi => by rw [hcount]; exact hi⟩
  · exact fun i _ => by rw [hsync]
  · exact hblock

lemma CountInv.still (h : CountInv s) (hmutex : MutexInv s)
    (hpc : s'.pc = update s.pc t pc) (hheld : s'.held = s.held)
    (hrefs : ∀ i, pc.refs i = (s.pc t).refs i) (hcount : s'.refcount = s.refcount)
    (hsync : s'.sync = s.sync) (hself : PcInv s' pc)
    (hblock : ∀ b, s.block b = true → s'.block b = true) : CountInv s' := by
  have hheld' : s'.held = update s.held t (s.held t) := by
    rw [update_eq_self, hheld]
  apply h.quiet hmutex hpc hheld' _ hcount hsync hself hblock
  intro i
  rw [hrefs i]
  rfl

lemma CountInv.call {mutex : Option T} {handles : Nat → Option ServerEntry}
    {fds object : Nat → Option Nat} {count : Nat} {closes : Nat → Nat} (h : CountInv s)
    (hmutex : MutexInv s) (hrefs : ∀ i, pc.refs i = (s.pc t).refs i) (hself : PcInv s pc) :
    CountInv { s with
      pc := update s.pc t pc, mutex, handles, fds, object, count, closes } :=
  h.still hmutex rfl rfl hrefs rfl rfl hself fun _ => id

variable {idx : Nat}

lemma CountInv.entry (h : CountInv s) (hmutex : MutexInv s)
    (hpc : s'.pc = update s.pc t pc) (hheld : s'.held = s.held)
    (hblock : s'.block = s.block) (hcount : ∀ i ≠ idx, s'.refcount i = s.refcount i)
    (hsync : ∀ i ≠ idx, s'.sync i = s.sync i) (hrefs : ∀ i ≠ idx, pc.refs i = (s.pc t).refs i)
    (hcounted : Counted s' idx) (hslot : s'.refcount idx ≠ 0 → s.refcount idx ≠ 0 ∨ Slot s idx)
    (hunlocked : (s.pc t).locked = false → s'.sync idx = s.sync idx ∧ s.refcount idx ≠ 0)
    (hfd : s.refcount idx ≠ 0 → (s'.sync idx).fd = (s.sync idx).fd) (hself : PcInv s' pc) :
    CountInv s' := by
  have hheld' : s'.held = update s.held t (s.held t) := by
    rw [update_eq_self, hheld]
  apply h.of_step hmutex hpc
  · intro i
    by_cases heq : i = idx
    · exact heq ▸ hcounted
    · apply (h.counted i).same (refs_same hpc hheld' _) (hcount i heq) fun _ => by rw [hsync i heq]
      rw [hrefs i heq]
      rfl
  · intro i hi
    by_cases heq : i = idx
    · exact heq ▸ hslot (heq ▸ hi)
    · exact .inl (hcount i heq ▸ hi)
  · exact hself
  · intro hlocked
    obtain ⟨hself, hnonzero⟩ := hunlocked hlocked
    constructor
    · funext i
      by_cases heq : i = idx
      · rw [heq, hself]
      · exact hsync i heq
    · intro i hi
      rw [hcount i (by rintro rfl; exact hnonzero hi)]
      exact hi
  · intro i hi
    by_cases heq : i = idx
    · subst heq
      exact hfd hi
    · rw [hsync i heq]
  · exact fun _ hb => hblock ▸ hb

omit [DecidableEq T] in
lemma unlocked_absurd {p : Prop} (hlocked : (s.pc t).locked = true)
    (hunlocked : (s.pc t).locked = false) : p := by
  rw [hlocked] at hunlocked
  cases hunlocked

section

variable (h : CountInv s)

include h

section

variable (hmutex : MutexInv s)

include hmutex

lemma CountInv.store (sync : Sync)
    (hrefs : ∀ i, pc.refs i = (s.pc t).refs i) (hlocked : (s.pc t).locked = true)
    (hzero : s.refcount idx = 0) (hself : PcInv ((s.setSync idx sync).setPc t pc) pc) :
    CountInv ((s.setSync idx sync).setPc t pc) := by
  have hheld : s.held = update s.held t (s.held t) := (update_eq_self _ _).symm
  refine h.entry hmutex rfl rfl rfl (fun _ _ => rfl) (fun _ hi => update_of_ne hi _ _)
    (fun i _ => hrefs i) ?_ .inl (unlocked_absurd hlocked) (fun hi => absurd hzero hi) hself
  refine (h.counted idx).same (refs_same rfl hheld ?_) rfl fun hi => absurd hzero hi
  rw [hrefs idx]
  rfl

lemma CountInv.acquire (hrefs : ∀ i, pc.refs i = (s.pc t).refs i + if idx = i then 1 else 0)
    (hnonzero : s.refcount idx ≠ 0)
    (hself : PcInv ((s.setRefcount idx (s.refcount idx + 1)).setPc t pc) pc) :
    CountInv ((s.setRefcount idx (s.refcount idx + 1)).setPc t pc) := by
  refine h.entry hmutex rfl rfl rfl (fun _ hi => update_of_ne hi _ _) (fun _ _ => rfl)
    (fun i hi => by rw [hrefs i, if_neg (Ne.symm hi)]; rfl) ?_ (fun _ => .inl hnonzero)
    (fun _ => ⟨rfl, hnonzero⟩) (fun _ => rfl) hself
  exact (h.counted idx).acquire (refs_add rfl rfl (by rw [hrefs idx, if_pos rfl])) hnonzero
    (update_self _ _ _) rfl

lemma CountInv.release (hrefs : ∀ i, (s.pc t).refs i = pc.refs i + if idx = i then 1 else 0)
    (hself : PcInv ((s.setRefcount idx (s.refcount idx - 1)).setPc t pc) pc) :
    CountInv ((s.setRefcount idx (s.refcount idx - 1)).setPc t pc) := by
  have hpos : 0 < s.refcount idx := by
    apply (h.counted idx).pos (t := t)
    rw [State.refs, hrefs idx, if_pos rfl]
    omega
  have hnonzero : s.refcount idx ≠ 0 := by omega
  refine h.entry hmutex rfl rfl rfl (fun _ hi => update_of_ne hi _ _) (fun _ _ => rfl)
    (fun i hi => by rw [hrefs i, if_neg (Ne.symm hi)]; rfl) ?_ (fun _ => .inl hnonzero)
    (fun _ => ⟨rfl, hnonzero⟩) (fun _ => rfl) hself
  exact (h.counted idx).release (refs_remove rfl rfl (by rw [hrefs idx, if_pos rfl]))
    (update_self _ _ _) rfl

lemma CountInv.markClosed (hrefs : ∀ i, pc.refs i = (s.pc t).refs i + if idx = i then 1 else 0)
    (hlocked : (s.pc t).locked = true) (hopen : (s.sync idx).closed = false)
    (hpos : 0 < (s.pc t).refs idx)
    (hself : PcInv ((s.setSync idx { s.sync idx with closed := true }).setPc t pc) pc) :
    CountInv ((s.setSync idx { s.sync idx with closed := true }).setPc t pc) := by
  refine h.entry hmutex rfl rfl rfl (fun _ _ => rfl) (fun _ hi => update_of_ne hi _ _)
    (fun i hi => by rw [hrefs i, if_neg (Ne.symm hi)]; rfl) ?_ .inl (unlocked_absurd hlocked)
    (fun _ => by simp [State.setPc, State.setSync]) hself
  exact (h.counted idx).close (refs_add rfl rfl (by rw [hrefs idx, if_pos rfl]))
    (Nat.lt_of_lt_of_le hpos (Nat.le_add_right _ _)) rfl hopen
    (by simp [State.setPc, State.setSync])

lemma CountInv.publish {sync : Sync}
    (hrefs : ∀ i, pc.refs i = (s.pc t).refs i + if idx = i then 1 else 0)
    (hlocked : (s.pc t).locked = true) (hfilling : Filling s idx sync)
    (hfilled : s.sync idx = sync) (hself : PcInv ((s.setRefcount idx 2).setPc t pc) pc) :
    CountInv ((s.setRefcount idx 2).setPc t pc) := by
  obtain ⟨hopen, hslot, hzero⟩ := hfilling
  refine h.entry hmutex rfl rfl rfl (fun _ hi => update_of_ne hi _ _) (fun _ _ => rfl)
    (fun i hi => by rw [hrefs i, if_neg (Ne.symm hi)]; rfl) ?_ (fun _ => .inr hslot)
    (unlocked_absurd hlocked) (fun _ => rfl) hself
  refine (h.counted idx).publish (refs_add rfl rfl (by rw [hrefs idx, if_pos rfl])) hzero
    (update_self _ _ _) ?_
  change (s.sync idx).closed = false
  rw [hfilled]
  exact hopen

lemma next_counts (hnext : next s t = some s') : CountInv s' := by
  have hpcs : PcInv s (s.pc t) := h.pcs t
  unfold next at hnext
  cases hpc : s.pc t <;> simp only [hpc, some.injEq, reduceCtorEq] at hnext <;>
    rw [hpc] at hpcs
  case lockGet | lockClose =>
    obtain ⟨_, rfl⟩ := enterSection_eq_some.mp hnext
    exact h.call hmutex (by simp [hpc, Pc.refs]) trivial
  case lookup c =>
    rw [← hnext]
    split
    · rename_i hnone
      have hzero : s.refcount (handleToIndex c.handle) = 0 := by
        by_contra hcontra
        obtain ⟨hlt, hblock⟩ := h.slots _ hcontra
        obtain hge | hfalse := hnone
        · omega
        · rw [hblock] at hfalse
          cases hfalse
      exact h.call hmutex (fun i => by rw [hpc]; exact c.miss_refs i) (miss_inv (.inl hzero))
    · exact h.call hmutex (by simp [hpc, Pc.refs]) trivial
  case load c =>
    rw [← hnext]
    split
    · rename_i hzero
      exact h.call hmutex (fun i => by rw [hpc]; exact c.miss_refs i) (miss_inv (.inl hzero))
    · rename_i hval
      exact h.call hmutex (by simp [hpc, Pc.refs]) hval
  case cas c val =>
    rw [← hnext]
    split
    · rename_i hval
      subst hval
      exact h.acquire hmutex (by simp [hpc, Pc.refs]) hpcs trivial
    split
    · rename_i hzero
      exact h.call hmutex (fun i => by rw [hpc]; exact c.miss_refs i) (miss_inv (.inl hzero))
    · rename_i hnonzero
      exact h.call hmutex (by simp [hpc, Pc.refs]) hnonzero
  case checkClosed c =>
    rw [← hnext]
    split
    · rename_i hclosed
      refine h.call hmutex (by simp [hpc, Pc.refs, Ref.refs, After.refs]) ?_
      cases c with
      | close handle => exact .inr hclosed
      | _ => trivial
    rename_i hopen
    cases c with
    | get | getLocked => exact h.call hmutex (fun i => by rw [hpc]; rfl) trivial
    | close handle =>
      exact h.call hmutex (fun i => by rw [hpc]; rfl) (Bool.eq_false_iff.mpr hopen)
  case cache req sync =>
    rw [← hnext]
    split
    · exact h.call hmutex (by simp [hpc, Pc.refs, Ref.refs, State.grant]) trivial
    rename_i hcache
    refine h.still hmutex rfl rfl (by simp [hpc, Pc.refs]) rfl rfl ⟨hpcs, ?_, ?_⟩ (fun b hb => ?_)
    · exact Nat.lt_of_not_le (not_or.mp hcache).2
    · exact update_self _ _ _
    by_cases heq : b = handleToIndex req.handle / blockSize
    · rw [heq]
      exact update_self _ _ _
    · exact (update_of_ne heq _ _).trans hb
  case cacheCheck =>
    rw [← hnext]
    split
    · exact h.call hmutex (by simp [hpc, Pc.refs, Ref.refs, State.grant]) trivial
    · rename_i hzero
      exact h.call hmutex (by simp [hpc, Pc.refs]) ⟨hpcs.1, hpcs.2, not_not.mp hzero⟩
  case storeFd =>
    refine hnext ▸ h.store hmutex _ (by simp [hpc, Pc.refs]) (by rw [hpc]; rfl) hpcs.2.2 ⟨hpcs, ?_⟩
    simp [State.setPc, State.setSync]
  case storeAccess | storeType =>
    refine hnext ▸ h.store hmutex _ (by simp [hpc, Pc.refs]) (by rw [hpc]; rfl) hpcs.1.2.2
      ⟨hpcs.1, ?_⟩
    simp [State.setPc, State.setSync, hpcs.2]
  case storeClosed =>
    refine hnext ▸ h.store hmutex _ (by simp [hpc, Pc.refs]) (by rw [hpc]; rfl) hpcs.1.2.2
      ⟨hpcs.1, ?_⟩
    obtain ⟨_, hfd, haccess, htype⟩ := hpcs
    simp [State.setPc, State.setSync, hfd, haccess, htype]
  case publish =>
    exact hnext ▸ h.publish hmutex (by simp [hpc, Pc.refs, Ref.refs, State.grant])
      (by rw [hpc]; rfl) hpcs.1 hpcs.2 trivial
  case unlock req grant =>
    rw [← hnext]
    cases grant <;> exact h.call hmutex (by simp [hpc, Pc.refs]) trivial
  case checkType =>
    rw [← hnext]
    split
    · exact h.call hmutex (by simp [hpc, Pc.refs]) trivial
    · split <;> exact h.call hmutex (by simp [hpc, Pc.refs, After.refs]) trivial
  case checkAccess =>
    rw [← hnext]
    split
    · exact h.call hmutex (by simp [hpc, Pc.refs, After.refs]) trivial
    refine h.quiet hmutex rfl rfl (fun i => ?_) rfl rfl trivial (fun _ => id)
    simp only [State.refs, hpc, Pc.refs, map_append, map_cons, map_nil,
      sum_append, sum_cons, sum_nil]
    omega
  case releaseFd ref after =>
    cases ref with
    | cache idx =>
      simp only [some.injEq] at hnext
      exact hnext ▸ h.call hmutex (by simp [hpc, Pc.refs, Ref.refs]) ⟨rfl, hpcs⟩
    | stack sync =>
      simp only [some.injEq] at hnext
      exact hnext ▸ h.call hmutex (by simp [hpc, Pc.refs, Ref.refs]) hpcs
  case releaseDec idx fd after =>
    obtain ⟨_, hafter⟩ := hpcs
    have hpos : 0 < s.refcount idx := by
      apply (h.counted idx).pos (t := t)
      simp only [State.refs, hpc, Pc.refs, if_pos]
      omega
    have hafter' : After.Inv (s.setRefcount idx (s.refcount idx - 1)) after := by
      apply hafter.mono
      intro _
      refine ⟨rfl, fun i hi => ?_⟩
      have hne : i ≠ idx := by
        rintro rfl
        omega
      exact (update_of_ne hne _ _).trans hi
    rw [← hnext]
    split
    · exact h.release hmutex (by simp [hpc, Pc.refs, add_comm]) hafter'
    · refine h.release hmutex (fun i => ?_) (after_inv hafter')
      rw [hpc, after.pc_refs]
      exact add_comm _ _
  case releaseClose fd after =>
    rw [closeFd_frame] at hnext
    exact hnext ▸ h.call hmutex (fun i => by rw [hpc]; exact after.pc_refs i) (after_inv hpcs)
  case setClosed =>
    refine hnext ▸ h.markClosed hmutex (by simp [hpc, Pc.refs, Ref.refs, After.refs])
      (by rw [hpc]; rfl) hpcs (by simp [hpc, Pc.refs]) (.inr ?_)
    simp [State.setPc, State.setSync]
  case closeUnlock =>
    exact hnext ▸ h.call hmutex (by simp [hpc, Pc.refs]) trivial

end

end

/-! ### The server, and the beginnings of the calls -/

/-- A step that is not the next one of a thread in the cache. -/
inductive Outside (s : State T) : State T → Prop
  | begin (t : T) (pc : Pc) : s.pc t = .idle →
      (∃ req, pc = .lookup (.get req)) ∨ (∃ handle, pc = .lockClose handle) →
      Outside s (s.setPc t pc)
  | release (t : T) (grant : Grant) : s.pc t = .idle → grant ∈ s.held t →
      Outside s { s.setPc t (.releaseFd grant.ref .done) with
        held := update s.held t ((s.held t).erase grant) }
  | received (t : T) (req : Request) (fd object : Nat) (access : BitVec 32) (type : SyncType) :
      s.pc t = .request req → s.fds fd = none →
      s.handles (handleToIndex req.handle) = some ⟨object, access, some type⟩ →
      Outside s ((openFd s fd (some object)).setPc t (.cache req ⟨fd, access, type, false⟩))
  | refused (t : T) (req : Request) : s.pc t = .request req →
      Outside s (s.setPc t (.unlock req none))
  | uncached (t : T) (req : Request) (sync : Sync) : s.pc t = .cache req sync →
      Outside s (s.setPc t (.unlock req (some (s.grant (.stack sync) req.handle))))
  | closed (t : T) (handle : BitVec 64) (entry : Option ServerEntry) :
      s.pc t = .closeRequest handle →
      Outside s { s.setPc t .closeUnlock with
        handles := update s.handles (handleToIndex handle) entry }
  | create (idx : Nat) (entry : ServerEntry) : s.handles idx = none →
      Outside s { s with handles := update s.handles idx (some entry) }
  | openOther (fd : Nat) : s.fds fd = none → Outside s (openFd s fd none)
  | closeOther (fd file : Nat) : s.fds fd = some file → s.object file = none →
      Outside s (closeFd s fd)

lemma outside_of_step {op : Op T} (hop : ∀ t, op ≠ .next t) (hstep : step s op = some s') :
    Outside s s' := by
  cases op <;> simp only [step, ite_none_right_eq_some, some.injEq] at hstep
  case next t => exact absurd rfl (hop t)
  case getInprocSync t req =>
    obtain ⟨hpc, rfl⟩ := hstep
    exact .begin t _ hpc (.inl ⟨req, rfl⟩)
  case releaseInprocSync t grant =>
    obtain ⟨⟨hpc, hmem⟩, rfl⟩ := hstep
    exact .release t grant hpc hmem
  case close t handle =>
    obtain ⟨hpc, rfl⟩ := hstep
    exact .begin t _ hpc (.inr ⟨handle, rfl⟩)
  case received t fd =>
    split at hstep
    · rename_i req hpc
      split at hstep
      · rename_i object access type hentry
        obtain ⟨hfd, hstep⟩ := ite_none_right_eq_some.mp hstep
        exact some.inj hstep ▸ .received t req fd object access type hpc hfd hentry
      · cases hstep
    · cases hstep
  case refused t =>
    split at hstep
    · rename_i req hpc
      exact some.inj hstep ▸ .refused t req hpc
    · cases hstep
  case blockFailed t =>
    split at hstep
    · rename_i req sync hpc
      obtain ⟨_, hstep⟩ := ite_none_right_eq_some.mp hstep
      exact some.inj hstep ▸ .uncached t req sync hpc
    · cases hstep
  case closed t =>
    split at hstep
    · rename_i handle hpc
      exact some.inj hstep ▸ .closed t handle none hpc
    · cases hstep
  case kept t =>
    split at hstep
    · rename_i handle hpc
      have houtside := Outside.closed t handle (s.handles (handleToIndex handle)) hpc
      rw [update_eq_self] at houtside
      exact some.inj hstep ▸ houtside
    · cases hstep
  case replaced t access =>
    split at hstep
    · rename_i handle hpc
      exact some.inj hstep ▸ .closed t handle _ hpc
    · cases hstep
  case create idx entry =>
    obtain ⟨hnone, rfl⟩ := hstep
    exact .create idx entry hnone
  case openOther fd =>
    obtain ⟨hnone, rfl⟩ := hstep
    exact .openOther fd hnone
  case closeOther fd =>
    split at hstep
    · rename_i file hfile
      obtain ⟨hobject, hstep⟩ := ite_none_right_eq_some.mp hstep
      exact some.inj hstep ▸ .closeOther fd file hfile hobject
    · cases hstep

lemma step_cases {op : Op T} (hstep : step s op = some s') :
    (∃ t, op = .next t ∧ next s t = some s') ∨ (∀ t, op ≠ .next t) ∧ Outside s s' := by
  by_cases hop : ∃ t, op = .next t
  · obtain ⟨t, rfl⟩ := hop
    exact .inl ⟨t, rfl, hstep⟩
  · have hne : ∀ t, op ≠ .next t := fun t ht => hop ⟨t, ht⟩
    exact .inr ⟨hne, outside_of_step hne hstep⟩

lemma Outside.mutex (hstep : Outside s s') (h : MutexInv s) : MutexInv s' := by
  cases hstep with
  | begin t pc hpc hkind =>
    refine h.same rfl rfl ?_
    rw [hpc]
    obtain ⟨_, rfl⟩ | ⟨_, rfl⟩ := hkind <;> rfl
  | release t grant hpc _ | received t req fd object access type hpc _ _ | refused t req hpc
    | uncached t req sync hpc | closed t handle entry hpc => exact h.same rfl rfl (by rw [hpc]; rfl)
  | create idx entry _ => exact h
  | openOther fd _ => exact h
  | closeOther fd file _ _ =>
    rw [closeFd_frame]
    exact h

lemma Outside.counts (hstep : Outside s s') (h : CountInv s) (hmutex : MutexInv s) :
    CountInv s' := by
  cases hstep with
  | begin t pc hpc hkind =>
    obtain ⟨_, rfl⟩ | ⟨_, rfl⟩ := hkind <;> exact h.call hmutex (by simp [hpc, Pc.refs]) trivial
  | release t grant hpc hmem =>
    refine h.quiet hmutex rfl rfl (fun i => ?_) rfl rfl trivial (fun _ => id)
    have hsum := sum_map_erase (fun g : Grant => g.ref.refs i) hmem
    simp only [State.refs, hpc, Pc.refs, After.refs]
    omega
  | received t req fd object access type hpc _ _ =>
    have hself : PcInv s (.cache req ⟨fd, access, type, false⟩) := rfl
    exact h.call hmutex (by simp [hpc, Pc.refs]) hself
  | refused t req hpc | closed t handle entry hpc =>
    exact h.call hmutex (by simp [hpc, Pc.refs]) trivial
  | uncached t req sync hpc =>
    exact h.call hmutex (by simp [hpc, Pc.refs, Ref.refs, State.grant]) trivial
  | create idx entry _ | openOther fd _ => exact ⟨h.counted, h.slots, h.pcs⟩
  | closeOther fd file _ _ =>
    rw [closeFd_frame]
    exact ⟨h.counted, h.slots, h.pcs⟩

omit [DecidableEq T] in
lemma Initial.mutex (h : Initial s) : MutexInv s := by
  obtain ⟨_, _, hmutex, hpc, _⟩ := h
  intro t
  rw [hpc, hmutex]
  exact iff_of_false (by simp [Pc.locked]) (by simp)

lemma Initial.counts (h : Initial s) : CountInv s := by
  obtain ⟨_, hcount, _, hpc, hheld, _⟩ := h
  refine ⟨fun i => ⟨0, tally_zero fun t => ?_, .inl ⟨by rw [hcount]; rfl, .inl rfl⟩⟩, ?_, ?_⟩
  · rw [State.refs, hpc, hheld]
    rfl
  · intro i hi
    exact absurd (hcount i) hi
  · intro t
    rw [hpc]
    trivial

end Steps

end WineForge.InprocSync
