import WineForge.WfuSync.WaitAllLocal

/-!
# Waiting for all objects in the client is atomic and deadlock free

The locks are taken in increasing order of the object index, which excludes circular waiting,
and once they are all held nobody else writes the objects, so that what the check loop found is
still true in the commit loop.
-/

namespace WineForge.WfuSync

open Function Library List Option

namespace WaitAllCall

variable {c : WaitAllCall}

/-- The first `n` locks increase strictly, so no object occurs twice among them. -/
def Increasing (c : WaitAllCall) (n : ℕ) : Prop :=
  ∀ a b, a < b → b < n → (c.sorted a).shmIdx < (c.sorted b).shmIdx

lemma Increasing.mono {n m : ℕ} (h : c.Increasing n) (hm : m ≤ n) : c.Increasing m :=
  fun a b hab hb => h a b hab (hb.trans_le hm)

lemma Increasing.ne {n a b : ℕ} (h : c.Increasing n) (ha : a < n) (hb : b < n) (hne : a ≠ b) :
    (c.sorted a).shmIdx ≠ (c.sorted b).shmIdx := by
  rcases lt_or_gt_of_ne hne with hab | hba
  · exact (h a b hab hb).ne
  · exact (h b a hba ha).ne'

lemma Increasing.succ {i : ℕ} (h : c.Increasing i) (hi : i < c.count)
    (hdup : ¬ (i ≠ 0 ∧ (c.sorted (i - 1)).shmIdx = (c.sorted i).shmIdx)) :
    c.Increasing (i + 1) := by
  apply insertionOrder_strict (fun j => (c.entry j).shmIdx) hi
  intro k hk
  by_cases hlast : k + 1 = i
  · intro heq
    apply hdup
    refine ⟨by omega, ?_⟩
    rw [← hlast]
    exact heq
  · exact (h k (k + 1) (by omega) (by omega)).ne

lemma exists_sorted {j : ℕ} (hj : j < c.count) : ∃ k, k < c.count ∧ c.sorted k = c.entry j := by
  obtain ⟨k, hk, heq⟩ := insertionOrder_surj (fun i => (c.entry i).shmIdx) hj
  refine ⟨k, hk, ?_⟩
  unfold sorted order
  rw [heq]

lemma Increasing.entry_ne (h : c.Increasing c.count) {i j : ℕ} (hi : i < c.count)
    (hj : j < c.count) (hne : i ≠ j) : (c.entry i).shmIdx ≠ (c.entry j).shmIdx := by
  obtain ⟨a, ha, hai⟩ := insertionOrder_surj (fun i => (c.entry i).shmIdx) hi
  obtain ⟨b, hb, hbj⟩ := insertionOrder_surj (fun i => (c.entry i).shmIdx) hj
  have hab : a ≠ b := by
    intro heq
    apply hne
    rw [← hai, ← hbj, heq]
  have hsorted := h.ne ha hb hab
  unfold sorted order at hsorted
  rwa [hai, hbj] at hsorted

lemma entry_eq {i : ℕ} (hi : i < c.entries.length) : c.entry i = c.entries[i] := by
  simp [entry, hi]

lemma Increasing.nodup (h : c.Increasing c.count) : (c.entries.map (·.shmIdx)).Nodup := by
  rw [List.Nodup, pairwise_map, pairwise_iff_getElem]
  intro i j hi hj hij
  rw [← entry_eq hi, ← entry_eq hj]
  exact h.entry_ne hi hj hij.ne

/-- The first `n` locks in lock order. -/
def firstLocks (c : WaitAllCall) (n : ℕ) : List ℕ :=
  (List.range n).map fun k => (c.sorted k).shmIdx

lemma firstLocks_succ (n : ℕ) : c.firstLocks (n + 1) = c.firstLocks n ++ [(c.sorted n).shmIdx] := by
  simp [firstLocks, range_succ]

end WaitAllCall

/-- A state as the checks after the lock leave it. -/
structure WaitAllEntry.Fits (e : WaitAllEntry) (o : WfusyncState) : Prop where
  waitable : e.type.waitable = true
  type : o.word.type = e.type
  generation : o.generation = e.generation
  auto : e.type = .event → o.high = 0

def SameValue (o o' : WfusyncState) : Prop :=
  o'.core = o.core ∧ o'.word.type = o.word.type

variable {o o' : WfusyncState}

lemma SameValue.low (h : SameValue o o') :
    o'.low = o.low ∧ o'.high = o.high ∧ o'.generation = o.generation := by
  simpa [SameValue, WfusyncState.core, Prod.mk.injEq] using h.1

lemma WaitAllEntry.Fits.congr {e : WaitAllEntry} (h : e.Fits o)
    (hsame : SameValue o o') : e.Fits o' where
  waitable := h.waitable
  type := by rw [hsame.2, h.type]
  generation := by rw [hsame.low.2.2, h.generation]
  auto he := by rw [hsame.low.2.1, h.auto he]

def WaitAllEntry.Ready (e : WaitAllEntry) (tid : Int) (o : WfusyncState) : Prop :=
  ∃ abandoned, waitAllLocalCheck e.type tid o = .ok abandoned

lemma WaitAllEntry.Ready.congr {e : WaitAllEntry} {tid : Int}
    (h : e.Ready tid o) (hsame : SameValue o o') : e.Ready tid o' := by
  obtain ⟨abandoned, hcheck⟩ := h
  exact ⟨abandoned, by rw [waitAllLocalCheck_congr hsame.1, hcheck]⟩

/-- A write that consumes one signal of the listed object, which is the one that was opened. -/
structure WaitAllEntry.ConsumedBy (tid : Int) (e : WaitAllEntry) (w : StateWrite) : Prop where
  shmIdx : w.shmIdx = e.shmIdx
  fits : e.Fits w.before
  taken : Taken tid w.before e.type w.after

/-- All or nothing: a satisfied call has consumed every listed object exactly once, any other
call has written nothing. -/
def WaitAllCall.Outcome (c : WaitAllCall) (tid : Int) (ret : NtStatus) (writes : List StateWrite) :
    Prop :=
  (ret.satisfied = true →
      List.Forall₂ (WaitAllEntry.ConsumedBy tid) c.entries writes ∧
        (c.entries.map (·.shmIdx)).Nodup) ∧
    (ret.satisfied = false → writes = [])

def WaitAllPc.Ok (c : WaitAllCall) (tid : Int) (mem : ℕ → WfusyncState)
    (writes : List StateWrite) : WaitAllPc → Prop
  | .lock i _ =>
    i < c.count ∧ c.Increasing (i + 1) ∧ (c.sorted i).type.waitable = true ∧
      (∀ k < i, (c.sorted k).Fits (mem (c.sorted k).shmIdx)) ∧ writes = []
  | .locked i =>
    i < c.count ∧ c.Increasing (i + 1) ∧ (c.sorted i).type.waitable = true ∧
      (mem (c.sorted i).shmIdx).word.type = (c.sorted i).type ∧
      (∀ k < i, (c.sorted k).Fits (mem (c.sorted k).shmIdx)) ∧ writes = []
  | .verify i _ =>
    i ≤ c.count ∧ c.Increasing c.count ∧
      (∀ j < c.count, (c.entry j).Fits (mem (c.entry j).shmIdx)) ∧
      (∀ j < i, (c.entry j).Ready tid (mem (c.entry j).shmIdx)) ∧ writes = []
  | .commit i _ =>
    i ≤ c.count ∧ c.Increasing c.count ∧
      (∀ j, i ≤ j → j < c.count → (c.entry j).Fits (mem (c.entry j).shmIdx) ∧
        (c.entry j).Ready tid (mem (c.entry j).shmIdx)) ∧
      List.Forall₂ (WaitAllEntry.ConsumedBy tid) (c.entries.take i) writes
  | .unlock k ret => k ≤ c.count ∧ c.Increasing k ∧ c.Outcome tid ret writes
  | .returned ret => c.Outcome tid ret writes

def WaitAllPc.locking : WaitAllPc → Bool
  | .unlock _ _ | .returned _ => false
  | _ => true

/-- A call in progress: its program point and its history of locks. -/
structure CallOk (c : WaitAllCall) (tid : Int) (mem : ℕ → WfusyncState) (pc : WaitAllPc)
    (trace : CallTrace) : Prop where
  point : pc.Ok c tid mem trace.writes
  locks : trace.acquired = c.firstLocks (pc.held c) ++ trace.released.reverse
  locking : pc.locking = true → trace.released = []

variable {c : WaitAllCall} {tid : Int} {mem mem' : ℕ → WfusyncState} {pc pc' : WaitAllPc}
  {trace trace' : CallTrace} {writes : List StateWrite}

lemma outcome_unsatisfied {ret : NtStatus} (hret : ret.satisfied = false) :
    c.Outcome tid ret [] := by
  constructor
  · intro h
    rw [hret] at h
    cases h
  · intro _
    rfl

lemma holds_entry {j : ℕ} (hheld : pc.held c = c.count) (hj : j < c.count) :
    pc.holds c (c.entry j).shmIdx := by
  obtain ⟨k, hk, heq⟩ := WaitAllCall.exists_sorted hj
  exact ⟨k, by rw [hheld]; exact hk, by rw [heq]⟩

lemma WaitAllPc.Ok.congr (h : pc.Ok c tid mem writes)
    (hsame : ∀ idx, pc.holds c idx → SameValue (mem idx) (mem' idx)) :
    pc.Ok c tid mem' writes := by
  cases pc with
  | lock i pc =>
    obtain ⟨hi, hinc, hwaitable, hfits, hwrites⟩ := h
    exact ⟨hi, hinc, hwaitable, fun k hk => (hfits k hk).congr (hsame _ ⟨k, hk, rfl⟩), hwrites⟩
  | locked i =>
    obtain ⟨hi, hinc, hwaitable, htype, hfits, hwrites⟩ := h
    refine ⟨hi, hinc, hwaitable, ?_, fun k hk => (hfits k hk).congr (hsame _ ⟨k, ?_, rfl⟩), hwrites⟩
    · rw [(hsame _ ⟨i, Nat.lt_succ_self i, rfl⟩).2, htype]
    · exact Nat.lt_succ_of_lt hk
  | verify i abandoned =>
    obtain ⟨hi, hinc, hfits, hready, hwrites⟩ := h
    refine ⟨hi, hinc, fun j hj => (hfits j hj).congr (hsame _ (holds_entry rfl hj)),
      fun j hj => (hready j hj).congr (hsame _ (holds_entry rfl (hj.trans_le hi))), hwrites⟩
  | commit i abandoned =>
    obtain ⟨hi, hinc, hrest, hwrites⟩ := h
    refine ⟨hi, hinc, fun j hij hj => ?_, hwrites⟩
    have hheld : (WaitAllPc.commit i abandoned).holds c (c.entry j).shmIdx := holds_entry rfl hj
    have hj' := hsame _ hheld
    exact ⟨(hrest j hij hj).1.congr hj', (hrest j hij hj).2.congr hj'⟩
  | unlock k ret => exact h
  | returned ret => exact h

lemma sameValue_lock (mem : ℕ → WfusyncState) (j idx : ℕ) :
    SameValue (mem idx) (update mem j (mem j).lock idx) := by
  by_cases hj : idx = j
  · rw [hj, update_self]
    exact ⟨rfl, rfl⟩
  · rw [update_of_ne hj]
    exact ⟨rfl, rfl⟩

lemma sameValue_unlock (mem : ℕ → WfusyncState) (j idx : ℕ) :
    SameValue (mem idx) (update mem j (mem j).unlock idx) := by
  by_cases hj : idx = j
  · rw [hj, update_self]
    exact ⟨rfl, rfl⟩
  · rw [update_of_ne hj]
    exact ⟨rfl, rfl⟩

/-- What a step of a call writes is in its history, and is written under all its locks. -/
inductive Recorded (c : WaitAllCall) (mem mem' : ℕ → WfusyncState) (pc : WaitAllPc)
    (writes writes' : List StateWrite) : Prop
  | nothing : (∀ idx, SameValue (mem idx) (mem' idx)) → writes' = writes →
      Recorded c mem mem' pc writes writes'
  | wrote (w : StateWrite) : writes' = writes ++ [w] → w.before = mem w.shmIdx →
      mem' = update mem w.shmIdx w.after →
      (∀ e ∈ c.entries, pc.holds c e.shmIdx) → Recorded c mem mem' pc writes writes'

/-- The three things to know about a step of a call. -/
structure CallStep (c : WaitAllCall) (tid : Int) (mem mem' : ℕ → WfusyncState)
    (pc pc' : WaitAllPc) (trace trace' : CallTrace) : Prop where
  ok : CallOk c tid mem' pc' trace'
  effect : LockEffect mem mem' (pc.holds c) (pc'.holds c)
  recorded : Recorded c mem mem' pc trace.writes trace'.writes

lemma CallOk.move (h : CallOk c tid mem pc trace) (hok : pc'.Ok c tid mem trace.writes)
    (hheld : pc'.held c = pc.held c) (hlocking : pc'.locking = true → pc.locking = true) :
    CallStep c tid mem mem pc pc' trace trace where
  ok := ⟨hok, by rw [hheld, h.locks], fun hpc => h.locking (hlocking hpc)⟩
  effect := .same fun idx => by rw [WaitAllPc.holds, hheld, WaitAllPc.holds]
  recorded := .nothing (fun _ => ⟨rfl, rfl⟩) rfl

lemma WaitAllCall.enter_ok (tid : Int) {i : ℕ} (hi : i ≤ c.count) (hinc : c.Increasing i)
    (hfits : ∀ k < i, (c.sorted k).Fits (mem (c.sorted k).shmIdx)) :
    (c.enter i).Ok c tid mem [] ∧ (c.enter i).held c = i := by
  unfold WaitAllCall.enter
  by_cases hcount : i < c.count
  · rw [if_pos hcount]
    by_cases hdup : i ≠ 0 ∧ (c.sorted (i - 1)).shmIdx = (c.sorted i).shmIdx
    · rw [if_pos hdup]
      exact ⟨⟨hi, hinc, outcome_unsatisfied rfl⟩, rfl⟩
    rw [if_neg hdup]
    by_cases hwaitable : (c.sorted i).type.waitable = true
    · rw [hwaitable]
      exact ⟨⟨hcount, hinc.succ hcount hdup, hwaitable, hfits, rfl⟩, rfl⟩
    · rw [Bool.not_eq_true] at hwaitable
      rw [hwaitable]
      exact ⟨⟨hi, hinc, outcome_unsatisfied rfl⟩, rfl⟩
  · have heq : i = c.count := by omega
    rw [if_neg hcount]
    refine ⟨⟨Nat.zero_le _, heq ▸ hinc, ?_, ?_, rfl⟩, heq.symm⟩
    · intro j hj
      obtain ⟨k, hk, hkj⟩ := WaitAllCall.exists_sorted hj
      rw [← hkj]
      exact hfits k (heq ▸ hk)
    · intro j hj
      exact absurd hj (Nat.not_lt_zero j)

lemma CallOk.lock_step {i : ℕ} {lockPc : LockPc} (h : CallOk c tid mem (.lock i lockPc) trace)
    (hstep : c.step tid mem trace (.lock i lockPc) = some (mem', pc', trace')) :
    CallStep c tid mem mem' (.lock i lockPc) pc' trace trace' := by
  obtain ⟨hi, hinc, hwaitable, hfits, hwrites⟩ := h.point
  simp only [WaitAllCall.step] at hstep
  split at hstep
  · cases hstep
    exact h.move ⟨hi, hinc, hwaitable, hfits, hwrites⟩ rfl id
  · rename_i o hgranted
    obtain ⟨ho, htype, hfree, _⟩ := wfusyncLockState_granted hgranted
    cases hstep
    have hreleased := h.locking rfl
    have hacquired : trace.acquired = c.firstLocks i := by
      have hlocks := h.locks
      rwa [hreleased, reverse_nil, append_nil] at hlocks
    rw [ho]
    refine ⟨⟨⟨hi, hinc, hwaitable, ?_, fun k hk => (hfits k hk).congr (sameValue_lock mem _ _),
      hwrites⟩, ?_, fun _ => hreleased⟩, ?_, ?_⟩
    · rw [(sameValue_lock mem _ _).2, htype]
    · change trace.acquired ++ [(c.sorted i).shmIdx] =
        c.firstLocks (i + 1) ++ trace.released.reverse
      rw [hacquired, hreleased, WaitAllCall.firstLocks_succ, reverse_nil, append_nil]
    · apply LockEffect.acquire (c.sorted i).shmIdx hfree _ rfl
      · intro j
        constructor
        · rintro ⟨k, hk, hkj⟩
          rcases Nat.lt_succ_iff_lt_or_eq.mp hk with hlt | heq
          · exact .inl ⟨k, hlt, hkj⟩
          · exact .inr (by rw [← hkj, heq])
        · rintro (⟨k, hk, hkj⟩ | hj)
          · exact ⟨k, Nat.lt_succ_of_lt hk, hkj⟩
          · exact ⟨i, Nat.lt_succ_self i, hj.symm⟩
      rw [htype]
      intro hunknown
      rw [hunknown] at hwaitable
      cases hwaitable
    · exact .nothing (sameValue_lock mem _) rfl
  · cases hstep
    refine h.move ⟨hi.le, hinc.mono (Nat.le_succ i), ?_⟩ rfl fun _ => rfl
    rw [hwrites]
    exact outcome_unsatisfied rfl

lemma CallOk.locked_step {i : ℕ} (h : CallOk c tid mem (.locked i) trace)
    (hstep : c.step tid mem trace (.locked i) = some (mem', pc', trace')) :
    CallStep c tid mem mem' (.locked i) pc' trace trace' := by
  obtain ⟨hi, hinc, hwaitable, htype, hfits, hwrites⟩ := h.point
  simp only [WaitAllCall.step] at hstep
  split at hstep
  · cases hstep
    refine h.move ⟨hi, hinc, ?_⟩ rfl fun _ => rfl
    rw [hwrites]
    exact outcome_unsatisfied rfl
  rename_i hchecks
  cases hstep
  have hfits' : ∀ k < i + 1, (c.sorted k).Fits (mem (c.sorted k).shmIdx) := by
    intro k hk
    rcases Nat.lt_succ_iff_lt_or_eq.mp hk with hlt | heq
    · exact hfits k hlt
    rw [heq]
    refine ⟨hwaitable, htype, ?_, fun hevent => ?_⟩
    · by_contra hstale
      exact hchecks (.inl hstale)
    · by_contra hmanual
      exact hchecks (.inr ⟨hevent, hmanual⟩)
  obtain ⟨hok, hheld⟩ := WaitAllCall.enter_ok tid hi hinc hfits'
  refine h.move ?_ hheld fun _ => rfl
  rw [hwrites]
  exact hok

lemma CallOk.verify_step {i : ℕ} {abandoned : Bool}
    (h : CallOk c tid mem (.verify i abandoned) trace)
    (hstep : c.step tid mem trace (.verify i abandoned) = some (mem', pc', trace')) :
    CallStep c tid mem mem' (.verify i abandoned) pc' trace trace' := by
  obtain ⟨hi, hinc, hfits, hready, hwrites⟩ := h.point
  simp only [WaitAllCall.step] at hstep
  split at hstep
  · rename_i hcount
    split at hstep
    · rename_i status hcheck
      cases hstep
      refine h.move ⟨le_refl _, hinc, ?_⟩ rfl fun _ => rfl
      rw [hwrites]
      rcases waitAllLocalCheck_error hcheck with hstatus | hstatus <;> rw [hstatus] <;>
        exact outcome_unsatisfied rfl
    rename_i owner hcheck
    cases hstep
    refine h.move ⟨hcount, hinc, hfits, ?_, hwrites⟩ rfl fun _ => rfl
    intro j hj
    rcases Nat.lt_succ_iff_lt_or_eq.mp hj with hlt | heq
    · exact hready j hlt
    · rw [heq]
      exact ⟨owner, hcheck⟩
  · cases hstep
    have heq : i = c.count := by omega
    refine h.move ⟨Nat.zero_le _, hinc, fun j _ hj => ⟨hfits j hj, hready j (heq ▸ hj)⟩, ?_⟩ rfl
      fun _ => rfl
    rw [hwrites, take_zero]
    exact .nil

lemma CallOk.commit_step {i : ℕ} {abandoned : Bool}
    (h : CallOk c tid mem (.commit i abandoned) trace)
    (hstep : c.step tid mem trace (.commit i abandoned) = some (mem', pc', trace')) :
    CallStep c tid mem mem' (.commit i abandoned) pc' trace trace' := by
  obtain ⟨hi, hinc, hrest, hwrites⟩ := h.point
  have hreleased := h.locking rfl
  simp only [WaitAllCall.step] at hstep
  split at hstep
  · rename_i hcount
    obtain ⟨hfits, owner, hcheck⟩ := hrest i (le_refl i) hcount
    -- The check that passed makes the taking succeed, so the exit of the loop is not taken.
    obtain ⟨hstatus, htaken⟩ := waitAllLocalTake_taken hfits.waitable
      (fun hevent => hfits.auto hevent) hcheck
    have hwrites' : List.Forall₂ (WaitAllEntry.ConsumedBy tid) (c.entries.take (i + 1))
        (trace.writes ++ [⟨(c.entry i).shmIdx, mem (c.entry i).shmIdx,
          (waitAllLocalTake (c.entry i).type tid (mem (c.entry i).shmIdx)).2⟩]) := by
      have htake : c.entries.take (i + 1) = c.entries.take i ++ [c.entry i] := by
        rw [WaitAllCall.entry_eq hcount, take_succ_eq_append_getElem hcount]
      rw [htake]
      exact rel_append hwrites (.cons ⟨rfl, hfits, htaken⟩ .nil)
    have hrest' : ∀ o j, i + 1 ≤ j → j < c.count →
        (c.entry j).Fits (update mem (c.entry i).shmIdx o (c.entry j).shmIdx) ∧
          (c.entry j).Ready tid (update mem (c.entry i).shmIdx o (c.entry j).shmIdx) := by
      intro o j hij hj
      rw [update_of_ne (hinc.entry_ne hj hcount (by omega))]
      exact hrest j (by omega) hj
    have heffect : ∀ flag, LockEffect mem (update mem (c.entry i).shmIdx
        (waitAllLocalTake (c.entry i).type tid (mem (c.entry i).shmIdx)).2)
        ((WaitAllPc.commit i abandoned).holds c) ((WaitAllPc.commit (i + 1) flag).holds c) :=
      fun _ => .write _ _ (holds_entry rfl hcount) (waitAllLocalTake_word _ tid _) rfl fun _ => .rfl
    have hrecorded : ∀ e ∈ c.entries, (WaitAllPc.commit i abandoned).holds c e.shmIdx := by
      intro e he
      obtain ⟨j, hj, heq⟩ := mem_iff_getElem.mp he
      rw [← heq, ← WaitAllCall.entry_eq hj]
      exact holds_entry rfl hj
    rcases hstatus with hwait | habandoned
    · rw [hwait] at hstep
      cases hstep
      exact ⟨⟨⟨hcount, hinc, hrest' _, hwrites'⟩, h.locks, fun _ => hreleased⟩, heffect _,
        .wrote _ rfl rfl rfl hrecorded⟩
    rw [habandoned] at hstep
    cases hstep
    exact ⟨⟨⟨hcount, hinc, hrest' _, hwrites'⟩, h.locks, fun _ => hreleased⟩, heffect _,
      .wrote _ rfl rfl rfl hrecorded⟩
  · rename_i hcount
    cases hstep
    have heq : i = c.entries.length := by
      unfold WaitAllCall.count at hi hcount
      omega
    rw [heq, take_length] at hwrites
    refine h.move ⟨le_refl _, hinc, fun _ => ⟨hwrites, hinc.nodup⟩, fun hret => ?_⟩ rfl fun _ => rfl
    cases abandoned <;> cases hret

lemma CallOk.unlock_step {k : ℕ} {ret : NtStatus} (h : CallOk c tid mem (.unlock k ret) trace)
    (hstep : c.step tid mem trace (.unlock k ret) = some (mem', pc', trace')) :
    CallStep c tid mem mem' (.unlock k ret) pc' trace trace' := by
  obtain ⟨hk, hinc, houtcome⟩ := h.point
  cases k with
  | zero =>
    cases hstep
    exact h.move houtcome rfl id
  | succ k =>
    cases hstep
    refine ⟨⟨⟨by omega, hinc.mono (Nat.le_succ k), houtcome⟩, ?_, fun hpc => by cases hpc⟩, ?_, ?_⟩
    · have hlocks := h.locks
      change trace.acquired = c.firstLocks (k + 1) ++ trace.released.reverse at hlocks
      rw [hlocks, WaitAllCall.firstLocks_succ, reverse_append, append_assoc]
      rfl
    · apply LockEffect.release (c.sorted k).shmIdx ⟨k, Nat.lt_succ_self k, rfl⟩ rfl
      intro j
      constructor
      · rintro ⟨a, ha, haj⟩
        refine ⟨⟨a, Nat.lt_succ_of_lt ha, haj⟩, ?_⟩
        rw [← haj]
        exact hinc.ne (Nat.lt_succ_of_lt ha) (Nat.lt_succ_self k) (Nat.ne_of_lt ha)
      · rintro ⟨⟨a, ha, haj⟩, hne⟩
        rcases Nat.lt_succ_iff_lt_or_eq.mp ha with hlt | heq
        · exact ⟨a, hlt, haj⟩
        · exact absurd (by rw [← haj, heq]) hne
    · exact .nothing (sameValue_unlock mem _) rfl

lemma CallOk.step (h : CallOk c tid mem pc trace)
    (hstep : c.step tid mem trace pc = some (mem', pc', trace')) :
    CallStep c tid mem mem' pc pc' trace trace' := by
  cases pc with
  | lock i lockPc => exact h.lock_step hstep
  | locked i => exact h.locked_step hstep
  | verify i abandoned => exact h.verify_step hstep
  | commit i abandoned => exact h.commit_step hstep
  | unlock k ret => exact h.unlock_step hstep
  | returned ret => cases hstep

lemma SectionOp.type_ne_unknown (op : SectionOp) : op.type ≠ .unknown := by
  cases op with
  | signal op generation => cases op <;> simp [SectionOp.type, SignalOp.type]
  | consume kind => cases kind <;> simp [SectionOp.type, WaitKind.type]
  | query => simp [SectionOp.type]

lemma SectionOp.section_word (op : SectionOp) (tid : Int) (o : WfusyncState) :
    (op.section tid o).word = o.word := by
  cases op with
  | signal op generation =>
    simp only [SectionOp.section]
    split
    · rfl
    · exact locked_word op tid o
  | consume kind => exact consumeLocked_word kind tid o
  | query => rfl

def LocalThread.Ok (tid : Int) (mem : ℕ → WfusyncState) : LocalThread → Prop
  | .waitAll c pc trace => CallOk c tid mem pc trace
  | _ => True

lemma LocalThread.Ok.congr {p : LocalThread} (h : p.Ok tid mem)
    (hsame : ∀ idx, p.holds idx → SameValue (mem idx) (mem' idx)) : p.Ok tid mem' := by
  cases p with
  | idle => trivial
  | single shmIdx op pc => trivial
  | waitAll c pc trace => exact ⟨h.point.congr hsame, h.locks, h.locking⟩

lemma LocalThread.free_holds {p : LocalThread} (h : p.free = true) (idx : ℕ) : ¬ p.holds idx := by
  cases p with
  | idle => exact id
  | single shmIdx op pc => cases h
  | waitAll c pc trace =>
    cases pc with
    | returned ret =>
      rintro ⟨k, hk, _⟩
      exact Nat.not_lt_zero k hk
    | lock i pc | locked i | verify i a | commit i a | unlock k ret => cases h

lemma single_step {shmIdx : ℕ} {op : SectionOp} {pc : SinglePc} {p' : LocalThread}
    (h : (LocalThread.single shmIdx op pc).step tid mem = some (mem', p')) :
    p'.Ok tid mem' ∧ LockEffect mem mem' (LocalThread.single shmIdx op pc).holds p'.holds := by
  cases pc with
  | lock pc =>
    simp only [LocalThread.step, SectionOp.step] at h
    split at h
    · rename_i heq
      split at heq <;> cases heq <;> cases h
      · exact ⟨trivial, .same fun _ => .rfl⟩
      rename_i o hgranted
      obtain ⟨ho, htype, hfree, _⟩ := wfusyncLockState_granted hgranted
      refine ⟨trivial, .acquire shmIdx hfree ?_ (by rw [ho]) fun j => ?_⟩
      · rw [htype]
        exact op.type_ne_unknown
      · simp [LocalThread.holds]
    rename_i heq
    split at heq <;> cases heq
    cases h
    exact ⟨trivial, .same fun _ => .rfl⟩
  | locked =>
    cases h
    exact ⟨trivial, .write shmIdx _ rfl (op.section_word tid _) rfl fun _ => .rfl⟩
  | unlock =>
    cases h
    refine ⟨trivial, .release shmIdx rfl rfl fun j => ?_⟩
    simp [LocalThread.holds]

lemma LocalThread.Ok.step {p p' : LocalThread} (h : p.Ok tid mem)
    (hstep : p.step tid mem = some (mem', p')) :
    p'.Ok tid mem' ∧ LockEffect mem mem' p.holds p'.holds := by
  cases p with
  | idle => cases hstep
  | single shmIdx op pc => exact single_step hstep
  | waitAll c pc trace =>
    obtain ⟨⟨mem₁, pc₁, trace₁⟩, hcall, heq⟩ := map_eq_some_iff.mp hstep
    cases heq
    have hcallStep := CallOk.step h hcall
    exact ⟨hcallStep.ok, hcallStep.effect⟩

variable {ι : Type*} [DecidableEq ι] {T : ThreadIds ι}

/-- The invariant of the machine. Only finitely many threads have started anything. -/
structure LocalInv (T : ThreadIds ι) (s : LocalState ι) : Prop where
  locks : LockTable s.mem fun t => (s.threads t).holds
  threads : ∀ t, (s.threads t).Ok (T.tid t) s.mem
  active : {t | s.threads t ≠ .idle}.Finite

variable {s : LocalState ι}

lemma LocalInv.advance (h : LocalInv T s) {t : ι} {mem' : ℕ → WfusyncState}
    {p' : LocalThread} (hok : p'.Ok (T.tid t) mem')
    (heffect : LockEffect s.mem mem' (s.threads t).holds p'.holds) :
    LocalInv T ⟨mem', update s.threads t p'⟩ := by
  constructor
  · apply h.locks.step (t := t)
    · change LockEffect s.mem mem' _ (update s.threads t p' t).holds
      rw [update_self]
      exact heffect
    · intro u hu
      change (update s.threads t p' u).holds = _
      rw [update_of_ne hu]
  · intro u
    change (update s.threads t p' u).Ok (T.tid u) mem'
    by_cases hu : u = t
    · rw [hu, update_self]
      exact hok
    rw [update_of_ne hu]
    apply (h.threads u).congr
    intro idx hidx
    exact h.locks.frame (t := t) heffect hu hidx
  · apply (h.active.insert t).subset
    intro u hu
    by_cases hut : u = t
    · exact .inl hut
    · right
      change update s.threads t p' u ≠ .idle at hu
      rwa [update_of_ne hut] at hu

lemma LocalInv.step {s s' : LocalState ι} {a : LocalAct ι} (h : LocalInv T s)
    (hstep : localStep T s a = some s') : LocalInv T s' := by
  cases a with
  | callSingle t shmIdx op =>
    simp only [localStep, ite_none_right_eq_some, Option.some.injEq] at hstep
    obtain ⟨hfree, rfl⟩ := hstep
    exact h.advance trivial (.same fun idx => iff_of_false id (LocalThread.free_holds hfree idx))
  | callWaitAll t call =>
    simp only [localStep, ite_none_right_eq_some, Option.some.injEq] at hstep
    obtain ⟨hfree, rfl⟩ := hstep
    obtain ⟨hpc, hheld⟩ : (call.enter 0).Ok call (T.tid t) s.mem [] ∧ (call.enter 0).held call = 0 :=
      WaitAllCall.enter_ok (T.tid t) (Nat.zero_le _) (fun a b _ hb => absurd hb (Nat.not_lt_zero b))
      (fun k hk => absurd hk (Nat.not_lt_zero k))
    refine h.advance ⟨hpc, ?_, fun _ => rfl⟩
      (.same fun idx => iff_of_false ?_ (LocalThread.free_holds hfree idx))
    · rw [hheld]
      rfl
    · rintro ⟨k, hk, _⟩
      rw [hheld] at hk
      exact Nat.not_lt_zero k hk
  | run t =>
    obtain ⟨⟨mem', p'⟩, hthread, rfl⟩ := Option.map_eq_some_iff.mp hstep
    obtain ⟨hok, heffect⟩ := (h.threads t).step hthread
    exact h.advance hok heffect
  | setFlags shmIdx multiWaiters serverWaiters =>
    cases hstep
    have hsame : ∀ idx, SameValue (s.mem idx) (update s.mem shmIdx
          ((s.mem shmIdx).setFlags multiWaiters serverWaiters) idx) ∧
        (update s.mem shmIdx ((s.mem shmIdx).setFlags multiWaiters serverWaiters) idx).word.locked =
          (s.mem idx).word.locked := by
      intro idx
      by_cases hidx : idx = shmIdx
      · rw [hidx, update_self]
        exact ⟨⟨rfl, rfl⟩, rfl⟩
      · rw [update_of_ne hidx]
        exact ⟨⟨rfl, rfl⟩, rfl⟩
    exact ⟨h.locks.congr fun idx => ⟨(hsame idx).1.2, (hsame idx).2⟩,
      fun t => (h.threads t).congr fun idx _ => (hsame idx).1, h.active⟩

omit [DecidableEq ι] in
lemma LocalState.Initial.inv (h : s.Initial) : LocalInv T s := by
  obtain ⟨hfree, hidle⟩ := h
  refine ⟨⟨fun idx hidx => ?_, fun t idx ht => ?_, fun t u idx ht _ => ?_⟩, fun t => ?_, ?_⟩
  · rw [hfree idx] at hidx
    cases hidx
  · rw [hidle t] at ht
    exact ht.elim
  · rw [hidle t] at ht
    exact ht.elim
  · rw [hidle t]
    trivial
  · simp [hidle]

theorem local_inv (h : Reachable (localStep T) LocalState.Initial s) : LocalInv T s :=
  h.invariant (fun _ hs => hs.inv) fun _ _ _ hs _ hstep => hs.step hstep

omit [DecidableEq ι] in
lemma LocalInv.ordered (h : LocalInv T s) :
    Ordered (fun t => (s.threads t).wants) fun t => (s.threads t).holds := by
  intro t held wanted hheld hwanted
  have hok := h.threads t
  cases hthread : s.threads t with
  | idle =>
    rw [hthread] at hheld
    exact hheld.elim
  | single shmIdx op pc =>
    rw [hthread] at hheld hwanted
    cases pc with
    | lock pc => exact hheld.elim
    | locked | unlock => exact hwanted.elim
  | waitAll c pc trace =>
    rw [hthread] at hheld hwanted hok
    cases pc with
    | lock i pc =>
      obtain ⟨k, hk, hkheld⟩ := hheld
      obtain ⟨_, hinc, _⟩ := hok.point
      have hlt := hinc k i hk (Nat.lt_succ_self i)
      rwa [hkheld, hwanted] at hlt
    | locked i | verify i a | commit i a | unlock k ret | returned ret => exact hwanted.elim

/-- In every reachable state no set of threads waits for itself and every lock has one holder;
a call that has returned consumed all of its objects or wrote nothing, and released the locks
it took; and a call writes nothing but what its history records, with all its locks held. -/
theorem try_wait_all_local_atomic {s : LocalState ι}
    (h : Reachable (localStep T) LocalState.Initial s) :
    (∀ S : Set ι, ¬ Deadlocked (fun t => (s.threads t).wants) (fun t => (s.threads t).holds) S) ∧
      (∀ idx, (s.mem idx).word.locked = true → ∃! t, (s.threads t).holds idx) ∧
      (∀ t c ret trace, s.threads t = .waitAll c (.returned ret) trace →
        c.Outcome (T.tid t) ret trace.writes ∧ trace.released = trace.acquired.reverse) ∧
      ∀ t c pc trace s', s.threads t = .waitAll c pc trace → localStep T s (.run t) = some s' →
        ∃ pc' trace', s'.threads t = .waitAll c pc' trace' ∧
          Recorded c s.mem s'.mem pc trace.writes trace'.writes := by
  have hinv := local_inv h
  refine ⟨fun S hdead => ?_, fun idx hidx => ?_, fun t c ret trace ht => ?_,
    fun t c pc trace s' ht hstep => ?_⟩
  · refine not_deadlocked_of_ordered hinv.ordered (hinv.active.subset fun t ht hidle => ?_) hdead
    obtain ⟨k, hwants, _⟩ := hdead.2 t ht
    rw [hidle] at hwants
    exact hwants
  · obtain ⟨t, ht⟩ := hinv.locks.holder idx hidx
    exact ⟨t, ht, fun u hu => hinv.locks.exclusive u t idx hu ht⟩
  · have hok := hinv.threads t
    rw [ht] at hok
    refine ⟨hok.point, ?_⟩
    rw [hok.locks]
    simp [WaitAllPc.held, WaitAllCall.firstLocks]
  · have hok := hinv.threads t
    simp only [localStep, ht, LocalThread.step, Option.map_map, Option.map_eq_some_iff] at hstep
    obtain ⟨⟨mem', pc', trace'⟩, hcall, rfl⟩ := hstep
    rw [ht] at hok
    exact ⟨pc', trace', update_self .., (CallOk.step hok hcall).recorded⟩

def twoObjects : LocalState (Fin 3) where
  mem idx :=
    if idx = 3 then ⟨0, 0, 1, ⟨.mutex, false, false, false⟩⟩
    else if idx = 5 then ⟨1, 0, 2, ⟨.event, false, false, false⟩⟩
    else ⟨0, 0, 0, ⟨.unknown, false, false, false⟩⟩
  threads _ := .idle

def oppositeActs : List (LocalAct (Fin 3)) :=
  [.callWaitAll 0 ⟨[⟨5, 2, .event⟩, ⟨3, 1, .mutex⟩], by decide⟩,
    .callWaitAll 1 ⟨[⟨3, 1, .mutex⟩, ⟨5, 2, .event⟩], by decide⟩, .run 0, .run 1, .run 0, .run 1] ++
    List.replicate 13 (.run 0)

theorem try_wait_all_local_atomic_opposite :
    ∃ s, run (localStep threeThreads) twoObjects oppositeActs = some s ∧
      (∃ c trace, s.threads 0 = .waitAll c (.returned .wait0) trace ∧
        List.Forall₂ (WaitAllEntry.ConsumedBy 1) c.entries trace.writes) ∧
      ∀ S : Set (Fin 3),
        ¬ Deadlocked (fun t => (s.threads t).wants) (fun t => (s.threads t).holds) S := by
  have hinitial : LocalState.Initial twoObjects := by
    refine ⟨fun idx => ?_, fun _ => rfl⟩
    simp only [twoObjects]
    split
    · rfl
    · split <;> rfl
  have hstart : Reachable (localStep threeThreads) LocalState.Initial twoObjects := .start hinitial
  have hreach := reachable_of_run hstart oppositeActs rfl
  refine ⟨_, rfl, ⟨_, _, rfl, ?_⟩, ?_⟩
  · exact (((try_wait_all_local_atomic hreach).2.2.1 0 _ _ _ rfl).1.1 rfl).1
  · exact (try_wait_all_local_atomic hreach).1

end WineForge.WfuSync
