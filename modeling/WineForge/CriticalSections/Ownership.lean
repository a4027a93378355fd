import WineForge.Library.Transition
import WineForge.CriticalSections.State

/-!
# Ownership of a critical section

`LockCount` counts the levels of the owner and the committed waiters, and an outstanding grant
stands for an owner: between two steps the section is free, held, or on its way to a waiter.
-/

namespace WineForge.CriticalSections

open AddressWaits BitVec Library

variable {T : Type} {s s' : State T} {t : T}

variable {x : BitVec 32} {u : T}

lemma toInt_add_one (h : x.toInt < 2 ^ 31 - 1) : (x + 1).toInt = x.toInt + 1 := by
  have hlow := x.le_toInt
  rw [toInt_add]
  change (x.toInt + 1).bmod (2 ^ 32) = _
  rw [Int.bmod_eq_of_le] <;> omega

lemma toInt_sub_one (h : -1 < x.toInt) : (x - 1).toInt = x.toInt - 1 := by
  have hhigh := x.toInt_lt
  rw [toInt_sub]
  change (x.toInt - 1).bmod (2 ^ 32) = _
  rw [Int.bmod_eq_of_le] <;> omega

lemma eq_neg_one_iff : x = -1 ↔ x.toInt = -1 := by
  rw [← toInt_inj]
  rfl

lemma add_one_eq_zero_iff : x + 1 = 0 ↔ x.toInt = -1 := by
  rw [← eq_neg_one_iff]
  constructor
  · intro h
    exact eq_of_toNat_eq (by bv_omega)
  · rintro rfl
    rfl

def LockSemaphore.grants : LockSemaphore → Nat
  | .handle count _ => count
  | .value granted => granted.toNat

def LockSemaphore.Fallback (lockSemaphore : LockSemaphore) : Prop :=
  ∃ granted, lockSemaphore = .value granted

/-- Who the section belongs to, with the number of levels of the owner. -/
inductive Stage (depth : T → Nat) (committed : List T) (grants : Nat) (unwaiting : T → Prop) :
    Nat → Prop
  | free : (∀ t, depth t = 0) → committed = [] → grants = 0 → (∀ t, ¬unwaiting t) →
      Stage depth committed grants unwaiting 0
  | held (t : T) : depth t > 0 → (∀ u ≠ t, depth u = 0) → grants = 0 → (∀ t, ¬unwaiting t) →
      Stage depth committed grants unwaiting (depth t)
  /-- The owner has left, and is about to call `RtlpUnWaitCriticalSection`. -/
  | granting (t : T) : (∀ t, depth t = 0) → committed ≠ [] → grants = 0 →
      (∀ u, unwaiting u ↔ u = t) → Stage depth committed grants unwaiting 0
  | granted : (∀ t, depth t = 0) → committed ≠ [] → grants = 1 → (∀ t, ¬unwaiting t) →
      Stage depth committed grants unwaiting 0

/-- The owner's fields say that the thread is the owner, with `k` levels left to count. -/
def Described (s : State T) (t : T) (k : Nat) : Prop :=
  s.owningThread = some t ∧ s.recursionCount.toNat + k = s.depth t

def PcInv (s : State T) (t : T) : Prop :=
  match s.pc t with
  | .idle | .tryGrab _ | .tryOwner _ | .spin _ | .spinGrab _ | .increment =>
    (s.depth t > 0 → Described s t 0) ∧ t ∉ s.committed
  | .tryIncrement => s.depth t > 0 ∧ Described s t 0 ∧ t ∉ s.committed
  | .checkOwner =>
    (s.depth t > 0 → Described s t 1 ∧ t ∉ s.committed) ∧ (s.depth t = 0 → t ∈ s.committed)
  | .recurse => s.depth t > 0 ∧ Described s t 1 ∧ t ∉ s.committed
  | .waitSection | .waitSemaphore => s.depth t = 0 ∧ t ∈ s.committed
  | .compare | .waiting => s.depth t = 0 ∧ t ∈ s.committed ∧ s.lockSemaphore.Fallback
  | .setOwner => s.depth t = 1 ∧ t ∉ s.committed
  | .setRecursion => s.depth t = 1 ∧ s.owningThread = some t ∧ t ∉ s.committed
  | .leaveRecursive => s.depth t > 1 ∧ Described s t 1 ∧ t ∉ s.committed
  | .clearOwner => s.depth t = 1 ∧ Described s t 1 ∧ t ∉ s.committed
  | .release => s.depth t = 1 ∧ s.owningThread = none ∧ t ∉ s.committed
  | .unwait | .wakeSingle | .waking => s.depth t = 0 ∧ t ∉ s.committed

def Linked : Pc → Phase T Unit → Prop
  | .waiting, phase => phase = .asleep () ∨ phase = .woken ()
  | .waking, phase => ∃ tids, phase = .alerting tids
  | _, phase => phase = .out

structure Inv (s : State T) : Prop where
  stage : ∃ d, Stage s.depth s.committed s.lockSemaphore.grants (fun t => s.pc t = .unwait) d ∧
    s.lockCount.toInt + 1 = d + s.committed.length
  small : s.lockCount.toInt < 2 ^ 31 - 1
  threads : ∀ t, PcInv s t
  owning : ∀ t, s.owningThread = some t → s.depth t > 0
  nodup : s.committed.Nodup
  room : ∀ count max, s.lockSemaphore = .handle count max → max ≥ 1
  futexes : s.futexes.Inv
  linked : ∀ t, Linked (s.pc t) (s.futexes.phase t)
  /-- A grant has a wake on its way to the sleepers, or a waiter that will find it. -/
  wake : s.lockSemaphore = .value true → ∀ v, s.futexes.Dormant v () →
    ∃ u, s.pc u = .wakeSingle ∨ u ∈ s.committed ∧ ¬s.futexes.Dormant u ()
  running : s.shutdown = false

variable {committed : List T}

lemma Stage.unique {depth : T → Nat} {grants d : Nat} {unwaiting : T → Prop}
    (h : Stage depth committed grants unwaiting d) (ht : depth t > 0) (hne : u ≠ t) :
    depth u = 0 := by
  cases h with
  | free hnone | granting _ hnone | granted hnone => exact hnone u
  | held v _ hothers =>
    have hv : t = v := by
      by_contra hne
      rw [hothers t hne] at ht
      exact absurd ht (Nat.lt_irrefl 0)
    exact hothers u (hv ▸ hne)

lemma Stage.congr {depth : T → Nat} {grants d : Nat}
    {unwaiting unwaiting' : T → Prop} (h : Stage depth committed grants unwaiting d)
    (hunwaiting : ∀ u, unwaiting' u ↔ unwaiting u) : Stage depth committed grants unwaiting' d := by
  have hsame : unwaiting' = unwaiting := funext fun u => propext (hunwaiting u)
  rw [hsame]
  exact h

lemma Inv.unique (h : Inv s) (ht : s.depth t > 0) (hne : u ≠ t) : s.depth u = 0 := by
  obtain ⟨d, hstage, _⟩ := h.stage
  exact hstage.unique ht hne

lemma PcInv.frame (h : PcInv s u) (hpc : s'.pc u = s.pc u) (hdepth : s'.depth u = s.depth u)
    (hcommitted : u ∈ s'.committed ↔ u ∈ s.committed)
    (hfields : s.depth u > 0 → s'.owningThread = s.owningThread ∧
      s'.recursionCount = s.recursionCount)
    (hfallback : s.lockSemaphore.Fallback → s'.lockSemaphore.Fallback) : PcInv s' u := by
  have hdescribed : ∀ k, s.depth u > 0 → Described s u k → Described s' u k := by
    intro k hpos hdescribed
    unfold Described
    rw [(hfields hpos).1, (hfields hpos).2, hdepth]
    exact hdescribed
  unfold PcInv at h ⊢
  rw [hpc, hdepth, hcommitted]
  cases hstep : s.pc u with
  | idle | tryGrab _ | tryOwner _ | spin _ | spinGrab _ | increment =>
    simp only [hstep] at h
    exact ⟨fun hpos => hdescribed 0 hpos (h.1 hpos), h.2⟩
  | tryIncrement =>
    simp only [hstep] at h
    exact ⟨h.1, hdescribed 0 h.1 h.2.1, h.2.2⟩
  | checkOwner =>
    simp only [hstep] at h
    exact ⟨fun hpos => ⟨hdescribed 1 hpos (h.1 hpos).1, (h.1 hpos).2⟩, h.2⟩
  | recurse =>
    simp only [hstep] at h
    exact ⟨h.1, hdescribed 1 h.1 h.2.1, h.2.2⟩
  | waitSection | waitSemaphore | setOwner | unwait | wakeSingle | waking =>
    simp only [hstep] at h
    exact h
  | compare | waiting =>
    simp only [hstep] at h
    exact ⟨h.1, h.2.1, hfallback h.2.2⟩
  | setRecursion | release =>
    simp only [hstep] at h
    have hpos : s.depth u > 0 := by omega
    exact ⟨h.1, (hfields hpos).1.trans h.2.1, h.2.2⟩
  | leaveRecursive | clearOwner =>
    simp only [hstep] at h
    have hpos : s.depth u > 0 := by omega
    exact ⟨h.1, hdescribed 1 hpos h.2.1, h.2.2⟩

lemma Inv.out_of_pc (h : Inv s) (hwaiting : s.pc t ≠ .waiting) (hwaking : s.pc t ≠ .waking) :
    s.futexes.phase t = .out := by
  have hlinked := h.linked t
  cases hpc : s.pc t with
  | waiting => exact absurd hpc hwaiting
  | waking => exact absurd hpc hwaking
  | _ =>
    rw [hpc] at hlinked
    exact hlinked

section Steps

variable [DecidableEq T] {pc : Pc}

lemma Inv.of_fields {owningThread : Option T} {recursionCount : BitVec 32} (h : Inv s)
    (hout : s.futexes.phase t = .out) (hlinked : Linked pc (.out : Phase T Unit))
    (hpc : pc ≠ .unwait ∧ s.pc t ≠ .unwait ∧ s.pc t ≠ .wakeSingle)
    (howner : s.depth t > 0 ∨
      owningThread = s.owningThread ∧ recursionCount = s.recursionCount)
    (howning : owningThread = s.owningThread ∨ owningThread = none ∨
      owningThread = some t ∧ s.depth t > 0)
    (hself : PcInv { s.setPc t pc with
      owningThread := owningThread, recursionCount := recursionCount } t) :
    Inv { s.setPc t pc with owningThread := owningThread, recursionCount := recursionCount } := by
  obtain ⟨d, hstage, hcount⟩ := h.stage
  refine ⟨⟨d, hstage.congr fun u => ?_, hcount⟩, h.small, fun u => ?_, fun u hu => ?_, h.nodup,
    h.room, h.futexes, fun u => ?_, fun hgrant v hv => ?_, h.running⟩
  · by_cases heq : u = t
    · subst heq
      simp [State.setPc, hpc.1, hpc.2.1]
    · simp [State.setPc, heq]
  · by_cases heq : u = t
    · rw [heq]
      exact hself
    refine (h.threads u).frame ?_ rfl Iff.rfl (fun hpos => ?_) id
    · simp [State.setPc, heq]
    obtain hpos' | hsame := howner
    · rw [h.unique hpos' heq] at hpos
      exact absurd hpos (Nat.lt_irrefl 0)
    · exact hsame
  · obtain hsame | hnone | ⟨hself, hpos⟩ := howning
    · exact h.owning u (hsame ▸ hu)
    · rw [hnone] at hu
      simp at hu
    · rw [hself] at hu
      exact Option.some.inj hu ▸ hpos
  · by_cases heq : u = t
    · subst heq
      simpa [State.setPc, hout] using hlinked
    · simpa [State.setPc, heq] using h.linked u
  obtain ⟨u, hu | hactive⟩ := h.wake hgrant v hv
  · have hne : u ≠ t := by
      rintro rfl
      exact hpc.2.2 hu
    exact ⟨u, .inl (by simpa [State.setPc, hne] using hu)⟩
  · exact ⟨u, .inr hactive⟩

lemma Inv.of_count {depth : Nat} {lockCount : BitVec 32} (h : Inv s)
    (hout : s.futexes.phase t = .out) (hlinked : Linked pc (.out : Phase T Unit))
    (hpc : s.pc t ≠ .wakeSingle) (hcommitted : ∀ u ≠ t, u ∈ committed ↔ u ∈ s.committed)
    (hsub : ∀ u ∈ s.committed, u ∈ committed) (hnodup : committed.Nodup)
    (howning : s.owningThread = some t → depth > 0)
    (hstage : ∃ d, Stage (Function.update s.depth t depth) committed s.lockSemaphore.grants
      (fun u => Function.update s.pc t pc u = .unwait) d ∧
      lockCount.toInt + 1 = d + committed.length)
    (hsmall : lockCount.toInt < 2 ^ 31 - 1)
    (hself : PcInv { (s.setPc t pc).setDepth t depth with
      lockCount := lockCount, committed := committed } t) :
    Inv { (s.setPc t pc).setDepth t depth with
      lockCount := lockCount, committed := committed } := by
  refine ⟨hstage, hsmall, fun u => ?_, fun u hu => ?_, hnodup, h.room, h.futexes, fun u => ?_,
    fun hgrant v hv => ?_, h.running⟩
  · by_cases heq : u = t
    · rw [heq]
      exact hself
    · refine (h.threads u).frame ?_ ?_ (hcommitted u heq) (fun _ => ⟨rfl, rfl⟩) id
      · simp [State.setPc, State.setDepth, heq]
      · simp [State.setPc, State.setDepth, heq]
  · by_cases heq : u = t
    · subst heq
      simpa [State.setPc, State.setDepth] using howning hu
    · simpa [State.setPc, State.setDepth, heq] using h.owning u hu
  · by_cases heq : u = t
    · subst heq
      simpa [State.setPc, State.setDepth, hout] using hlinked
    · simpa [State.setPc, State.setDepth, heq] using h.linked u
  obtain ⟨u, hu | ⟨hmem, hactive⟩⟩ := h.wake hgrant v hv
  · have hne : u ≠ t := by
      rintro rfl
      exact hpc hu
    exact ⟨u, .inl (by simpa [State.setPc, State.setDepth, hne] using hu)⟩
  · exact ⟨u, .inr ⟨hsub u hmem, hactive⟩⟩

lemma Inv.of_futexes {futexes : Futexes T Unit} (h : Inv s) (hinv : futexes.Inv)
    (hothers : ∀ u ≠ t, futexes.phase u = s.futexes.phase u)
    (hlinked : Linked pc (futexes.phase t)) (hpc : pc ≠ .unwait ∧ s.pc t ≠ .unwait)
    (hself : PcInv (s.setPc t pc) t)
    (hsub : s.lockSemaphore = .value true → ∀ v, futexes.Dormant v () → s.futexes.Dormant v ())
    (hsingle : s.pc t = .wakeSingle → ∀ v, futexes.Dormant v () →
      ∃ u ∈ s.committed, ¬futexes.Dormant u ()) :
    Inv { s.setPc t pc with futexes := futexes } := by
  obtain ⟨d, hstage, hcount⟩ := h.stage
  refine ⟨⟨d, hstage.congr fun u => ?_, hcount⟩, h.small, fun u => ?_, h.owning, h.nodup,
    h.room, hinv, fun u => ?_, fun hgrant v hv => ?_, h.running⟩
  · by_cases heq : u = t
    · subst heq
      simp [State.setPc, hpc.1, hpc.2]
    · simp [State.setPc, heq]
  · by_cases heq : u = t
    · rw [heq]
      exact hself
    · refine (h.threads u).frame ?_ rfl Iff.rfl (fun _ => ⟨rfl, rfl⟩) id
      simp [State.setPc, heq]
  · by_cases heq : u = t
    · subst heq
      simpa [State.setPc] using hlinked
    · simpa [State.setPc, heq, hothers u heq] using h.linked u
  obtain ⟨u, hu | ⟨hmem, hactive⟩⟩ := h.wake hgrant v (hsub hgrant v hv)
  · by_cases heq : u = t
    · subst heq
      obtain ⟨w, hmem, hactive⟩ := hsingle hu v hv
      exact ⟨w, .inr ⟨hmem, hactive⟩⟩
    · exact ⟨u, .inl (by simpa [State.setPc, heq] using hu)⟩
  · exact ⟨u, .inr ⟨hmem, fun hdormant => hactive (hsub hgrant u hdormant)⟩⟩

end Steps

end WineForge.CriticalSections
