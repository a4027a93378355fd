import WineForge.InprocSync.Counts

/-!
# The file descriptors of the cache

Every file descriptor that the server has sent has one owner, an entry of the cache or a thread,
and it is the owner that closes it.
-/

namespace WineForge.InprocSync

open Function Library List Option

variable {T : Type} {s s' : State T} {t : T} {fd : Nat}

def Ref.owns (fd : Nat) : Ref → Nat
  | cache _ => 0
  | stack sync => if sync.fd = fd then 1 else 0

/-- A thread owns the descriptor that it has received, and the one that it is about to close. -/
def Pc.owns (fd : Nat) : Pc → Nat
  | cache _ sync | cacheCheck _ sync | storeFd _ sync | storeAccess _ sync | storeType _ sync
  | storeClosed _ sync | publish _ sync => if sync.fd = fd then 1 else 0
  | unlock _ (some grant) | checkType _ grant | checkAccess _ grant => grant.ref.owns fd
  | releaseFd ref _ => ref.owns fd
  | releaseClose fd' _ => if fd' = fd then 1 else 0
  | _ => 0

def State.owns (s : State T) (fd : Nat) : Nat ⊕ T → Nat
  | .inl i => if s.refcount i ≠ 0 ∧ (s.sync i).fd = fd then 1 else 0
  | .inr t => (s.pc t).owns fd + ((s.held t).map (·.ref.owns fd)).sum

def State.sent (s : State T) (fd : Nat) : Nat :=
  match s.fds fd with
  | some file => if (s.object file).isSome then 1 else 0
  | none => 0

lemma Caller.miss_owns (c : Caller) (fd : Nat) : c.miss.owns fd = 0 := by
  cases c <;> rfl

lemma After.pc_owns (after : After) (fd : Nat) : after.pc.owns fd = 0 := by
  cases after with
  | miss c => exact c.miss_owns fd
  | _ => rfl

lemma sent_le_one (s : State T) (fd : Nat) : s.sent fd ≤ 1 := by
  unfold State.sent
  split
  · split <;> omega
  · omega

/-- The files: each has been opened once, and is closed once at most. -/
structure FileInv (s : State T) : Prop where
  bound : ∀ fd file, s.fds fd = some file → file < s.count
  injective : ∀ fd fd' file, s.fds fd = some file → s.fds fd' = some file → fd = fd'
  closes : ∀ file, (s.closes file = 0 ∧ (file < s.count → ∃ fd, s.fds fd = some file)) ∨
    (s.closes file = 1 ∧ file < s.count ∧ ∀ fd, s.fds fd ≠ some file)

lemma FileInv.congr (h : FileInv s) (hfds : s'.fds = s.fds) (hcount : s'.count = s.count)
    (hcloses : s'.closes = s.closes) : FileInv s' := by
  obtain ⟨hbound, hinjective, hclosed⟩ := h
  rw [← hfds, ← hcount] at hbound
  rw [← hfds] at hinjective
  rw [← hfds, ← hcount, ← hcloses] at hclosed
  exact ⟨hbound, hinjective, hclosed⟩

lemma FileInv.openFd (h : FileInv s) (hfree : s.fds fd = none) (object : Option Nat) :
    FileInv (openFd s fd object) := by
  have hself : (InprocSync.openFd s fd object).fds fd = some s.count := update_self _ _ _
  have hother : ∀ fd' ≠ fd, (InprocSync.openFd s fd object).fds fd' = s.fds fd' :=
    fun fd' hne => update_of_ne hne _ _
  have hnew : ∀ fd' file, (InprocSync.openFd s fd object).fds fd' = some file →
      fd' = fd ∧ file = s.count ∨ fd' ≠ fd ∧ s.fds fd' = some file := by
    intro fd' file hfile
    by_cases heq : fd' = fd
    · rw [heq, hself] at hfile
      exact .inl ⟨heq, (some.inj hfile).symm⟩
    · exact .inr ⟨heq, hother fd' heq ▸ hfile⟩
  refine ⟨fun fd' file hfile => ?_, fun fd₁ fd₂ file h₁ h₂ => ?_, fun file => ?_⟩
  · change file < s.count + 1
    obtain ⟨_, rfl⟩ | ⟨_, hold⟩ := hnew fd' file hfile
    · omega
    · have hlt := h.bound fd' file hold
      omega
  · obtain ⟨rfl, rfl⟩ | ⟨_, hold₁⟩ := hnew fd₁ file h₁
    · obtain ⟨rfl, _⟩ | ⟨_, hold₂⟩ := hnew fd₂ _ h₂
      · rfl
      · exact absurd (h.bound fd₂ _ hold₂) (lt_irrefl _)
    · obtain ⟨_, rfl⟩ | ⟨_, hold₂⟩ := hnew fd₂ file h₂
      · exact absurd (h.bound fd₁ _ hold₁) (lt_irrefl _)
      · exact h.injective fd₁ fd₂ file hold₁ hold₂
  obtain ⟨hclosed, hopen⟩ | ⟨hclosed, hlt, hgone⟩ := h.closes file
  · refine .inl ⟨hclosed, fun hlt => ?_⟩
    by_cases heq : file = s.count
    · exact ⟨fd, heq ▸ hself⟩
    have hlt : file < s.count + 1 := hlt
    obtain ⟨fd', hfd'⟩ := hopen (by omega)
    refine ⟨fd', (hother fd' ?_).trans hfd'⟩
    rintro rfl
    rw [hfree] at hfd'
    simp at hfd'
  refine .inr ⟨hclosed, Nat.lt_succ_of_lt hlt, fun fd' hfd' => ?_⟩
  obtain ⟨_, rfl⟩ | ⟨_, hold⟩ := hnew fd' file hfd'
  · exact lt_irrefl _ hlt
  · exact hgone fd' hold

lemma FileInv.closeFd (h : FileInv s) (fd : Nat) : FileInv (closeFd s fd) := by
  unfold InprocSync.closeFd
  split
  · exact h
  rename_i file hfile
  have hnew : ∀ fd' file', update s.fds fd none fd' = some file' →
      fd' ≠ fd ∧ s.fds fd' = some file' := by
    intro fd' file' hfile'
    by_cases heq : fd' = fd
    · rw [heq, update_self] at hfile'
      simp at hfile'
    · exact ⟨heq, update_of_ne heq none s.fds ▸ hfile'⟩
  refine ⟨fun fd' file' hfile' => ?_, fun fd₁ fd₂ file' h₁ h₂ => ?_, fun file' => ?_⟩
  · exact h.bound fd' file' (hnew fd' file' hfile').2
  · exact h.injective fd₁ fd₂ file' (hnew fd₁ file' h₁).2 (hnew fd₂ file' h₂).2
  dsimp only
  by_cases heq : file' = file
  · subst heq
    rw [update_self]
    obtain ⟨hclosed, _⟩ | ⟨_, _, hgone⟩ := h.closes file'
    · refine .inr ⟨by omega, h.bound fd file' hfile, fun fd' hfd' => ?_⟩
      obtain ⟨hne, hold⟩ := hnew fd' file' hfd'
      exact hne (h.injective fd' fd file' hold hfile)
    · exact absurd hfile (hgone fd)
  rw [update_of_ne heq]
  obtain ⟨hclosed, hopen⟩ | ⟨hclosed, hlt, hgone⟩ := h.closes file'
  · refine .inl ⟨hclosed, fun hlt => ?_⟩
    obtain ⟨fd', hfd'⟩ := hopen hlt
    refine ⟨fd', ?_⟩
    rw [update_of_ne]
    · exact hfd'
    · rintro rfl
      rw [hfile] at hfd'
      exact heq (some.inj hfd').symm
  · exact .inr ⟨hclosed, hlt, fun fd' hfd' => hgone fd' (hnew fd' file' hfd').2⟩

section Owners

variable [DecidableEq T] {pc : Pc}

structure FdInv (s : State T) : Prop where
  owned : ∀ fd, Tally (s.owns fd) (s.sent fd)
  files : FileInv s

lemma FdInv.unique (h : FdInv s) {a b : Nat ⊕ T} (ha : 0 < s.owns fd a) (hb : 0 < s.owns fd b) :
    a = b := (h.owned fd).unique (sent_le_one s fd) ha hb

lemma FdInv.owns_le_one (h : FdInv s) (a : Nat ⊕ T) : s.owns fd a ≤ 1 :=
  le_trans ((h.owned fd).le a) (sent_le_one s fd)

omit [DecidableEq T] in
lemma owns_entry {i : Nat} (hcount : s'.refcount i = 0 ↔ s.refcount i = 0)
    (hfd : s.refcount i ≠ 0 → (s'.sync i).fd = (s.sync i).fd) :
    s'.owns fd (.inl i) = s.owns fd (.inl i) := by
  simp only [State.owns, ne_eq, hcount]
  by_cases hzero : s.refcount i = 0
  · simp [hzero]
  · rw [hfd hzero]

lemma owns_thread {held : List Grant} (hpc : s'.pc = update s.pc t pc)
    (hheld : s'.held = update s.held t held) (u : T) :
    s'.owns fd (.inr u) = if u = t then pc.owns fd + (held.map (·.ref.owns fd)).sum
      else s.owns fd (.inr u) := by
  simp only [State.owns, hpc, hheld]
  by_cases heq : u = t
  · rw [heq, update_self, update_self, if_pos rfl]
  · rw [update_of_ne heq, update_of_ne heq, if_neg heq]

omit [DecidableEq T] in
lemma sent_congr (hfds : s'.fds = s.fds) (hobject : s'.object = s.object) :
    s'.sent fd = s.sent fd := by
  unfold State.sent
  rw [hfds, hobject]

lemma FdInv.quiet {held : List Grant} (h : FdInv s) (hpc : s'.pc = update s.pc t pc)
    (hheld : s'.held = update s.held t held)
    (howns : ∀ fd, pc.owns fd + (held.map (·.ref.owns fd)).sum = s.owns fd (.inr t))
    (hcount : ∀ i, s'.refcount i = 0 ↔ s.refcount i = 0)
    (hsync : ∀ i, s.refcount i ≠ 0 → (s'.sync i).fd = (s.sync i).fd)
    (hfds : s'.fds = s.fds) (hobject : s'.object = s.object) (hfiles : s'.count = s.count)
    (hcloses : s'.closes = s.closes) : FdInv s' := by
  refine ⟨fun fd => ?_, h.files.congr hfds hfiles hcloses⟩
  rw [sent_congr hfds hobject]
  refine (h.owned fd).congr fun a => ?_
  cases a with
  | inl i => exact owns_entry (hcount i) (hsync i)
  | inr u =>
    rw [owns_thread hpc hheld]
    split
    · rename_i heq
      rw [heq, howns]
    · rfl

lemma FdInv.still (h : FdInv s) (hpc : s'.pc = update s.pc t pc)
    (hheld : s'.held = s.held) (howns : ∀ fd, pc.owns fd = (s.pc t).owns fd)
    (hcount : ∀ i, s'.refcount i = 0 ↔ s.refcount i = 0)
    (hsync : ∀ i, s.refcount i ≠ 0 → (s'.sync i).fd = (s.sync i).fd)
    (hfds : s'.fds = s.fds) (hobject : s'.object = s.object) (hfiles : s'.count = s.count)
    (hcloses : s'.closes = s.closes) : FdInv s' := by
  have hheld' : s'.held = update s.held t (s.held t) := by
    rw [update_eq_self, hheld]
  apply h.quiet hpc hheld' _ hcount hsync hfds hobject hfiles hcloses
  intro fd
  rw [howns fd]
  rfl

lemma FdInv.call {mutex : Option T} {block : Nat → Bool} {handles : Nat → Option ServerEntry}
    (h : FdInv s) (howns : ∀ fd, pc.owns fd = (s.pc t).owns fd) :
    FdInv { s with pc := update s.pc t pc, mutex, block, handles } :=
  h.still rfl rfl howns (fun _ => Iff.rfl) (fun _ _ => rfl) rfl rfl rfl rfl

omit [DecidableEq T] in
lemma setSync_of_vacant {idx i : Nat} (hzero : s.refcount idx = 0) (hi : s.refcount i ≠ 0)
    (sync : Sync) : update s.sync idx sync i = s.sync i := by
  apply update_of_ne
  rintro rfl
  exact hi hzero

lemma FdInv.store {idx : Nat} (h : FdInv s) (sync : Sync) (hzero : s.refcount idx = 0)
    (howns : ∀ fd, pc.owns fd = (s.pc t).owns fd) : FdInv ((s.setSync idx sync).setPc t pc) :=
  h.still rfl rfl howns (fun _ => Iff.rfl)
    (fun _ hi => congrArg Sync.fd (setSync_of_vacant hzero hi sync)) rfl rfl rfl rfl

lemma FdInv.move {i : Nat} {a b : Nat ⊕ T} {gone : Nat} (h : FdInv s)
    (hab : a = .inl i ∧ b = .inr t ∨ a = .inr t ∧ b = .inl i)
    (hpc : s'.pc = update s.pc t pc) (hheld : s'.held = s.held)
    (hself : ∀ fd, pc.owns fd + (if a = .inr t ∧ fd = gone then 1 else 0) =
      (s.pc t).owns fd + if b = .inr t ∧ fd = gone then 1 else 0)
    (hentry : ∀ fd, s'.owns fd (.inl i) + (if a = .inl i ∧ fd = gone then 1 else 0) =
      s.owns fd (.inl i) + if b = .inl i ∧ fd = gone then 1 else 0)
    (hcount : ∀ j ≠ i, s'.refcount j = s.refcount j) (hsync : ∀ j ≠ i, s'.sync j = s.sync j)
    (hfds : s'.fds = s.fds) (hobject : s'.object = s.object) (hfiles : s'.count = s.count)
    (hcloses : s'.closes = s.closes) : FdInv s' := by
  have hheld' : s'.held = update s.held t (s.held t) := by
    rw [update_eq_self, hheld]
  have hother : ∀ fd, ∀ c : Nat ⊕ T, c ≠ .inl i → c ≠ .inr t → s'.owns fd c = s.owns fd c := by
    intro fd c hi ht
    cases c with
    | inl j =>
      have hne : j ≠ i := fun heq => hi (congrArg _ heq)
      exact owns_entry (by rw [hcount j hne]) (fun _ => by rw [hsync j hne])
    | inr u =>
      rw [owns_thread hpc hheld', if_neg fun heq => ht (congrArg _ heq)]
  have hthread : ∀ fd, s'.owns fd (.inr t) + (if a = .inr t ∧ fd = gone then 1 else 0) =
      s.owns fd (.inr t) + if b = .inr t ∧ fd = gone then 1 else 0 := by
    intro fd
    rw [owns_thread hpc hheld', if_pos rfl]
    have hself := hself fd
    simp only [State.owns]
    omega
  refine ⟨fun fd => ?_, h.files.congr hfds hfiles hcloses⟩
  rw [sent_congr hfds hobject]
  by_cases hfd : fd = gone
  · apply (h.owned fd).move a b
    intro c
    by_cases hi : c = .inl i
    · have hentry := hentry fd
      subst hi
      simp only [hfd, and_true, @eq_comm _ a, @eq_comm _ b] at hentry ⊢
      exact hentry
    by_cases ht : c = .inr t
    · have hthread := hthread fd
      subst ht
      simp only [hfd, and_true, @eq_comm _ a, @eq_comm _ b] at hthread ⊢
      exact hthread
    have hca : c ≠ a := by
      obtain ⟨rfl, _⟩ | ⟨rfl, _⟩ := hab
      · exact hi
      · exact ht
    have hcb : c ≠ b := by
      obtain ⟨_, rfl⟩ | ⟨_, rfl⟩ := hab
      · exact ht
      · exact hi
    rw [hother fd c hi ht, if_neg hca, if_neg hcb]
  · refine (h.owned fd).congr fun c => ?_
    by_cases hi : c = .inl i
    · simpa [hi, hfd] using hentry fd
    · by_cases ht : c = .inr t
      · simpa [ht, hfd] using hthread fd
      · exact hother fd c hi ht

omit [DecidableEq T] in
lemma sent_closeFd_of_ne {fd' : Nat} (hne : fd' ≠ fd) : (closeFd s fd).sent fd' = s.sent fd' := by
  unfold closeFd
  split
  · rfl
  · simp only [State.sent]
    rw [update_of_ne hne]

omit [DecidableEq T] in
lemma sent_closeFd_self : (closeFd s fd).sent fd = 0 := by
  unfold closeFd
  split
  · rename_i hnone
    simp [State.sent, hnone]
  · simp [State.sent]

omit [DecidableEq T] in
lemma sent_openFd (hfiles : FileInv s) (hfree : s.fds fd = none) (object : Option Nat) (fd' : Nat) :
    (openFd s fd object).sent fd' = s.sent fd' + if fd' = fd ∧ object.isSome then 1 else 0 := by
  by_cases heq : fd' = fd
  · subst heq
    simp [State.sent, openFd, hfree]
  simp only [State.sent, openFd]
  rw [update_of_ne heq, if_neg (fun h => heq h.1)]
  cases hfile : s.fds fd' with
  | none => rfl
  | some file =>
    have hne := ne_of_lt (hfiles.bound fd' file hfile)
    simp [hne]

lemma FdInv.close {after : After} (h : FdInv s) (hpc : s.pc t = .releaseClose fd after) :
    FdInv ((closeFd s fd).setPc t after.pc) := by
  have hfiles : FileInv ((closeFd s fd).setPc t after.pc) := by
    have hclosed := h.files.closeFd fd
    exact ⟨hclosed.bound, hclosed.injective, hclosed.closes⟩
  have hpc' : ((closeFd s fd).setPc t after.pc).pc = update s.pc t after.pc := by
    rw [closeFd_frame]
    rfl
  have hheld' : ((closeFd s fd).setPc t after.pc).held = update s.held t (s.held t) := by
    rw [closeFd_frame, update_eq_self]
    rfl
  have howns : ∀ fd' c, s.owns fd' c = ((closeFd s fd).setPc t after.pc).owns fd' c +
      if c = .inr t ∧ fd' = fd then 1 else 0 := by
    intro fd' c
    cases c with
    | inl i =>
      rw [closeFd_frame]
      rfl
    | inr u =>
      rw [owns_thread hpc' hheld']
      by_cases heq : u = t
      · subst heq
        rw [if_pos rfl, after.pc_owns]
        simp only [State.owns, hpc, Pc.owns, true_and, @eq_comm _ fd']
        omega
      · simp [heq]
  refine ⟨fun fd' => ?_, hfiles⟩
  change Tally _ ((closeFd s fd).sent fd')
  by_cases heq : fd' = fd
  · subst heq
    obtain ⟨_, hremoved⟩ := (h.owned fd').remove (.inr t) fun c => (howns fd' c).trans (by simp; rfl)
    have hone := sent_le_one s fd'
    have hzero : s.sent fd' - 1 = 0 := by omega
    rw [sent_closeFd_self, ← hzero]
    exact hremoved
  · rw [sent_closeFd_of_ne heq]
    exact (h.owned fd').congr fun c => by simpa [heq] using (howns fd' c).symm

lemma next_fds (h : FdInv s) (hcounts : CountInv s) (hnext : next s t = some s') : FdInv s' := by
  have hpcs : PcInv s (s.pc t) := hcounts.pcs t
  unfold next at hnext
  cases hpc : s.pc t <;> simp only [hpc, some.injEq, reduceCtorEq] at hnext
  case lockGet | lockClose =>
    obtain ⟨_, rfl⟩ := enterSection_eq_some.mp hnext
    exact h.call (by simp [hpc, Pc.owns])
  case lookup c | load c =>
    refine hnext ▸ h.call fun fd => ?_
    rw [hpc]
    split
    · exact c.miss_owns fd
    · rfl
  case cas c val =>
    rw [hpc] at hpcs
    rw [← hnext]
    split
    · have hnonneg := (hcounts.counted (handleToIndex c.handle)).nonneg
      refine h.still rfl rfl (by simp [hpc, Pc.owns]) (fun i => ?_) (fun _ _ => rfl) rfl rfl rfl rfl
      by_cases heq : i = handleToIndex c.handle
      · subst heq
        have hself : ((s.setRefcount (handleToIndex c.handle) (val + 1)).setPc t
            (.checkClosed c)).refcount (handleToIndex c.handle) = val + 1 :=
          update_self _ _ _
        have hnonzero : val ≠ 0 := hpcs
        rw [hself]
        omega
      · exact iff_of_eq (congrArg (· = 0) (update_of_ne heq _ _))
    · refine h.call fun fd => ?_
      rw [hpc]
      split
      · exact c.miss_owns fd
      · rfl
  case checkClosed c =>
    refine hnext ▸ h.call fun fd => ?_
    rw [hpc]
    split
    · rfl
    · cases c <;> rfl
  case cache =>
    rw [← hnext]
    split <;> exact h.call fun fd => by rw [hpc]; rfl
  case cacheCheck =>
    refine hnext ▸ h.call fun fd => ?_
    rw [hpc]
    split <;> rfl
  case storeFd =>
    rw [hpc] at hpcs
    exact hnext ▸ h.store _ hpcs.2.2 fun fd => by rw [hpc]; rfl
  case storeAccess | storeType | storeClosed =>
    rw [hpc] at hpcs
    exact hnext ▸ h.store _ hpcs.1.2.2 fun fd => by rw [hpc]; rfl
  case publish req sync =>
    rw [hpc] at hpcs
    obtain ⟨⟨_, _, hzero⟩, hfilled⟩ := hpcs
    refine hnext ▸ @FdInv.move T s _ t _ _ (handleToIndex req.handle) (.inr t)
      (.inl (handleToIndex req.handle)) sync.fd h (.inr ⟨rfl, rfl⟩) rfl rfl (fun fd => ?_)
      (fun fd => ?_) (fun j hj => update_of_ne hj _ _) (fun _ _ => rfl) rfl rfl rfl rfl
    · simp [hpc, Pc.owns, State.grant, Ref.owns, @eq_comm _ fd]
    · simp [State.owns, State.setRefcount, State.setPc, hzero, hfilled, @eq_comm _ fd]
  case unlock req grant =>
    rw [← hnext]
    cases grant <;> exact h.call fun fd => by rw [hpc]; rfl
  case checkType =>
    refine hnext ▸ h.call fun fd => ?_
    rw [hpc]
    split
    · rfl
    · split <;> rfl
  case checkAccess =>
    rw [← hnext]
    split
    · exact h.call fun fd => by rw [hpc]; rfl
    refine h.quiet rfl rfl (fun fd => ?_) (fun _ => Iff.rfl) (fun _ _ => rfl) rfl rfl rfl rfl
    simp only [State.owns, hpc, Pc.owns, map_append, map_cons, map_nil,
      sum_append, sum_cons, sum_nil]
    omega
  case releaseFd ref after =>
    cases ref <;> simp only [some.injEq] at hnext <;>
      exact hnext ▸ h.call fun fd => by rw [hpc]; rfl
  case releaseDec idx fd after =>
    rw [hpc] at hpcs
    obtain ⟨hfd, _⟩ := hpcs
    have hpos : 0 < s.refcount idx := by
      apply (hcounts.counted idx).pos (t := t)
      simp only [State.refs, hpc, Pc.refs, if_pos]
      omega
    rw [← hnext]
    split
    · rename_i hlast
      refine @FdInv.move T s _ t _ _ idx (.inl idx) (.inr t) fd h (.inl ⟨rfl, rfl⟩) rfl rfl
        (fun fd' => ?_) (fun fd' => ?_) (fun j hj => update_of_ne hj _ _)
        (fun _ _ => rfl) rfl rfl rfl rfl
      · simp [hpc, Pc.owns, @eq_comm _ fd']
      · have hnonzero : s.refcount idx ≠ 0 := by omega
        simp [State.owns, State.setRefcount, State.setPc, hlast, hnonzero, hfd, @eq_comm _ fd']
    refine h.still rfl rfl (fun fd' => ?_) (fun i => ?_) (fun _ _ => rfl) rfl rfl rfl rfl
    · rw [hpc]
      exact after.pc_owns fd'
    by_cases heq : i = idx
    · subst heq
      have hself : ((s.setRefcount i (s.refcount i - 1)).setPc t after.pc).refcount i =
          s.refcount i - 1 := update_self _ _ _
      rw [hself]
      omega
    · exact iff_of_eq (congrArg (· = 0) (update_of_ne heq _ _))
  case releaseClose =>
    exact hnext ▸ h.close hpc
  case setClosed handle =>
    refine hnext ▸ h.still rfl rfl (fun fd => by rw [hpc]; rfl) (fun _ => Iff.rfl) (fun i _ => ?_)
      rfl rfl rfl rfl
    change (update s.sync _ _ i).fd = _
    by_cases heq : i = handleToIndex handle
    · subst heq
      rw [update_self]
    · rw [update_of_ne heq]
  case closeUnlock =>
    exact hnext ▸ h.call fun fd => by rw [hpc]; rfl

lemma Outside.fds (hstep : Outside s s') (h : FdInv s) : FdInv s' := by
  have hfiles := h.files
  cases hstep with
  | begin t pc hpc hkind =>
    refine h.call (fun fd => ?_)
    rw [hpc]
    obtain ⟨_, rfl⟩ | ⟨_, rfl⟩ := hkind <;> rfl
  | release t grant hpc hmem =>
    refine h.quiet rfl rfl (fun fd => ?_) (fun _ => Iff.rfl) (fun _ _ => rfl) rfl rfl rfl rfl
    have hsum := sum_map_erase (fun g : Grant => g.ref.owns fd) hmem
    simp only [State.owns, hpc, Pc.owns]
    omega
  | received t req fd object access type hpc hfree _ =>
    have hopened := hfiles.openFd hfree (some object)
    refine ⟨fun fd' => ?_, hopened.bound, hopened.injective, hopened.closes⟩
    change Tally _ ((openFd s fd (some object)).sent fd')
    have howns : ∀ c, ((openFd s fd (some object)).setPc t
        (.cache req ⟨fd, access, type, false⟩)).owns fd' c =
        s.owns fd' c + if c = .inr t ∧ fd' = fd then 1 else 0 := by
      intro c
      cases c with
      | inl i => rfl
      | inr u =>
        by_cases heq : u = t
        · subst heq
          simp only [State.owns, State.setPc, openFd, update_self, Pc.owns, hpc,
            true_and, @eq_comm _ fd']
          omega
        · simp [State.owns, State.setPc, openFd, heq]
    rw [sent_openFd hfiles hfree]
    by_cases heq : fd' = fd
    · simp only [heq, isSome_some, and_true, if_true] at howns ⊢
      exact (h.owned fd).add (.inr t) howns
    · simp only [heq, and_false, false_and, if_false] at howns ⊢
      exact (h.owned fd').congr howns
  | refused t req hpc | uncached t req sync hpc | closed t handle entry hpc =>
    exact h.call (fun fd => by rw [hpc]; rfl)
  | create idx entry _ =>
    exact ⟨h.owned, hfiles.congr rfl rfl rfl⟩
  | openOther fd hfree =>
    refine ⟨fun fd' => ?_, hfiles.openFd hfree none⟩
    have hsame : Tally ((openFd s fd none).owns fd') (s.sent fd') := by
      apply (h.owned fd').congr
      intro c
      cases c <;> rfl
    simpa [sent_openFd hfiles hfree] using hsame
  | closeOther fd file hfile hobject =>
    refine ⟨fun fd' => ?_, hfiles.closeFd fd⟩
    have hsent : (closeFd s fd).sent fd' = s.sent fd' := by
      by_cases heq : fd' = fd
      · rw [heq, sent_closeFd_self]
        simp [State.sent, hfile, hobject]
      · exact sent_closeFd_of_ne heq
    rw [hsent]
    apply (h.owned fd').congr
    intro c
    rw [closeFd_frame]
    cases c <;> rfl

lemma Initial.fds (h : Initial s) : FdInv s := by
  obtain ⟨_, hrefcount, _, hpc, hheld, hfds, hcount, hcloses⟩ := h
  refine ⟨fun fd => ?_, fun fd file hfile => ?_, fun fd _ file hfile => ?_, fun file => ?_⟩
  · have hsent : s.sent fd = 0 := by simp [State.sent, hfds]
    rw [hsent]
    apply tally_zero
    intro c
    cases c with
    | inl i => simp [State.owns, hrefcount]
    | inr u => simp [State.owns, hpc, hheld, Pc.owns]
  · rw [hfds] at hfile
    simp at hfile
  · rw [hfds] at hfile
    simp at hfile
  · exact .inl ⟨hcloses file, fun hlt => by omega⟩

end Owners

end WineForge.InprocSync
