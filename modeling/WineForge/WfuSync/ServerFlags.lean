import WineForge.WfuSync.SharedLocks

/-!
# The `SERVER_WAITERS` bit and the counter behind it

The bit is set exactly while some entry of a server wait refers to the object, except that
`wfusync_try_wait_all` borrows the bit of objects that nothing refers to.
-/

namespace WineForge.WfuSync

open Function Library List

variable {ι : Type*} {s s' : SharedState ι} {mem mem' : ℕ → WfusyncState}

namespace TryAllCall

def indices (c : TryAllCall) : List ℕ :=
  c.entries.map (·.shmIdx)

lemma take_succ_indices {c : TryAllCall} {i : ℕ} (hi : i < c.count) :
    c.indices.take (i + 1) = c.indices.take i ++ [(c.entry i).shmIdx] := by
  have hlength : i < c.entries.length := hi
  rw [take_succ_eq_append_getElem (by simpa [indices] using hlength)]
  simp [indices, entry, hlength]

lemma drop_take_indices {c : TryAllCall} {i guarded : ℕ} (hi : i < guarded)
    (hguarded : guarded ≤ c.count) :
    (c.indices.take guarded).drop i =
      (c.entry i).shmIdx :: (c.indices.take guarded).drop (i + 1) := by
  have hlength : i < c.entries.length := hi.trans_le hguarded
  have hi' : i < (c.indices.take guarded).length := by
    simp only [indices, length_take, length_map]
    omega
  rw [drop_eq_getElem_cons hi']
  simp [indices, entry, hlength]

end TryAllCall

def TryAllPc.guarded (c : TryAllCall) : TryAllPc → List ℕ
  | .guardType i | .guardGeneration i _ | .guardSwap i _ => c.indices.take i
  | .checkType _ _ | .checkGeneration _ _ | .checkValue _ _ | .commit _ _ => c.indices
  | .release i guarded _ => (c.indices.take guarded).drop i
  | .returned _ => []

def ServerTask.guarded : ServerTask → List ℕ
  | .tryAll c pc _ => pc.guarded c
  | _ => []

def ServerTask.isTryAll : ServerTask → Bool
  | .tryAll _ _ _ => true
  | _ => false

/-- The word that the guard loop found unlocked, without the bit, and of the type asked for. -/
structure TryAllEntry.Seen (e : TryAllEntry) (seen : TypeWord) : Prop where
  locked : seen.locked = false
  serverWaiters : seen.serverWaiters = false
  type : seen.type.code = e.type

def ServerTask.Shape : ServerTask → Prop
  | .enlist w added rest => added ++ rest = w.objs
  | .check w before obj rest _ _ => before ++ obj :: rest = w.objs
  | .satisfy w obj rest _ => ∀ o ∈ obj :: rest, o ∈ w.objs
  | .tryAll c (.guardType i) _ => i ≤ c.count
  | .tryAll c (.guardGeneration i seen) _ => i < c.count ∧ (c.entry i).Seen seen
  | .tryAll c (.guardSwap i seen) _ => i < c.count ∧ (c.entry i).Seen seen
  | .tryAll c (.checkGeneration i _) _ => i < c.count
  | .tryAll c (.checkValue i _) _ => i < c.count
  | .tryAll c (.release i guarded _) _ => i ≤ guarded ∧ guarded ≤ c.count
  | _ => True

def SharedState.objs (s : SharedState ι) : List WaitObject :=
  s.task.objs ++ s.queue.flatMap (·.objs)

def occurrences (objs : List WaitObject) (idx : ℕ) : ℕ :=
  (objs.map (·.shmIdx)).count idx

@[simp] lemma occurrences_nil (idx : ℕ) : occurrences [] idx = 0 := rfl

@[simp] lemma occurrences_append (l l' : List WaitObject) (idx : ℕ) :
    occurrences (l ++ l') idx = occurrences l idx + occurrences l' idx := by
  simp [occurrences]

lemma occurrences_cons (obj : WaitObject) (l : List WaitObject) (idx : ℕ) :
    occurrences (obj :: l) idx = occurrences l idx + if obj.shmIdx = idx then 1 else 0 := by
  simp [occurrences, count_cons]

lemma occurrences_perm {l l' : List WaitObject} (h : l.Perm l') (idx : ℕ) :
    occurrences l idx = occurrences l' idx :=
  (h.map _).count_eq idx

lemma occurrences_eq_zero {l : List WaitObject} {idx : ℕ} :
    occurrences l idx = 0 ↔ ∀ obj ∈ l, obj.shmIdx ≠ idx := by
  simp [occurrences, count_eq_zero]

/-- The server's books: the entries are of live objects, the counter counts them, and the bit
is set for the objects with entries and for the guarded ones, which are never the same. -/
structure FlagInv (s : SharedState ι) : Prop where
  shape : s.task.Shape
  live : ∀ obj ∈ s.objs, (s.mem obj.shmIdx).word.type = obj.kind.type
  counts : ∀ idx, s.counts idx = occurrences s.refs idx
  flag : ∀ idx, (s.mem idx).word.serverWaiters = true ↔
    0 < s.counts idx ∨ idx ∈ s.task.guarded
  unreferenced : ∀ idx ∈ s.task.guarded, s.counts idx = 0
  nodup : s.task.guarded.Nodup

variable {w : ServerWait} {rest : List WaitObject} {obj : WaitObject} {c : TryAllCall}
  {trace : TryAllTrace}

lemma queue_erase_perm {queue : List ServerWait} (hw : w ∈ queue) :
    (w.objs ++ (queue.erase w).flatMap (·.objs)).Perm (queue.flatMap (·.objs)) :=
  ((perm_cons_erase hw).flatMap_right _).symm

lemma startCheck_refs (w : ServerWait) (queue : List ServerWait) :
    (w.startCheck queue).1.refs ++ (w.startCheck queue).2.flatMap (·.objs) =
      w.objs ++ queue.flatMap (·.objs) := by
  unfold ServerWait.startCheck
  split
  · rename_i hobjs
    split
    · rw [hobjs]
      rfl
    · simp [ServerTask.refs]
  · rfl

lemma satisfyFrom_refs (w : ServerWait) (rest : List WaitObject) :
    (w.satisfyFrom rest).refs = w.objs := by
  cases rest <;> rfl

lemma nextCheck_refs (w : ServerWait) (before : List WaitObject) (obj : WaitObject)
    (rest : List WaitObject) (notOk signaled : Bool) (queue : List ServerWait) :
    (w.nextCheck before obj rest notOk signaled queue).1.refs ++
        (w.nextCheck before obj rest notOk signaled queue).2.flatMap (·.objs) =
      w.objs ++ queue.flatMap (·.objs) := by
  unfold ServerWait.nextCheck
  split
  · split
    · rfl
    · split
      · simp [ServerTask.refs]
      · rw [satisfyFrom_refs]
  split
  · rw [satisfyFrom_refs]
  · split
    · rfl
    · simp [ServerTask.refs]

/-- A task of a wait that is past `wait_on`, or none. -/
def ServerTask.Settled (task : ServerTask) : Prop :=
  task.objs = task.refs ∧ task.guarded = []

lemma startCheck_settled (w : ServerWait) (queue : List ServerWait) :
    (w.startCheck queue).1.Settled := by
  unfold ServerWait.startCheck
  split
  · split <;> exact ⟨rfl, rfl⟩
  · exact ⟨rfl, rfl⟩

lemma satisfyFrom_settled (w : ServerWait) (rest : List WaitObject) :
    (w.satisfyFrom rest).Settled := by
  cases rest <;> exact ⟨rfl, rfl⟩

lemma nextCheck_settled (w : ServerWait) (before : List WaitObject) (obj : WaitObject)
    (rest : List WaitObject) (notOk signaled : Bool) (queue : List ServerWait) :
    (w.nextCheck before obj rest notOk signaled queue).1.Settled := by
  unfold ServerWait.nextCheck
  split
  · split
    · exact ⟨rfl, rfl⟩
    · split
      · exact ⟨rfl, rfl⟩
      · exact satisfyFrom_settled w _
  · split
    · exact satisfyFrom_settled w [obj]
    · split <;> exact ⟨rfl, rfl⟩

lemma startCheck_shape (w : ServerWait) (queue : List ServerWait) :
    (w.startCheck queue).1.Shape := by
  unfold ServerWait.startCheck
  split
  · split <;> trivial
  · rename_i hobjs
    exact hobjs.symm

lemma satisfyFrom_shape (h : ∀ o ∈ rest, o ∈ w.objs) : (w.satisfyFrom rest).Shape := by
  cases rest with
  | nil => trivial
  | cons obj rest => exact h

lemma nextCheck_shape {before : List WaitObject} (h : before ++ obj :: rest = w.objs)
    (notOk signaled : Bool)
    (queue : List ServerWait) :
    (w.nextCheck before obj rest notOk signaled queue).1.Shape := by
  have hnext : ∀ next rest', rest = next :: rest' →
      before ++ [obj] ++ next :: rest' = w.objs := by
    intro next rest' hrest
    rw [← h, hrest, append_assoc]
    rfl
  unfold ServerWait.nextCheck
  split
  · split
    · exact hnext _ _ rfl
    · split
      · trivial
      · exact satisfyFrom_shape fun _ => id
  split
  · have hmem : ∀ o ∈ [obj], o ∈ w.objs := by
      intro o ho
      rw [mem_singleton.mp ho, ← h]
      simp
    exact satisfyFrom_shape hmem
  · split
    · exact hnext _ _ rfl
    · trivial

section

variable (h : FlagInv s)

include h

lemma FlagInv.refs_subset : ∀ obj ∈ s.refs, obj ∈ s.objs := by
  intro obj hobj
  rcases mem_append.mp hobj with htask | hqueue
  · apply mem_append_left
    cases htask' : s.task with
    | enlist w added rest =>
      have hshape := h.shape
      rw [htask'] at hshape htask
      change obj ∈ w.objs
      rw [← show added ++ rest = w.objs from hshape]
      exact mem_append_left _ htask
    | idle | check | satisfy | retire | request | tryAll =>
      rw [htask'] at htask
      exact htask
  · exact mem_append_right _ hqueue

lemma FlagInv.move {task' : ServerTask}
    {queue' : List ServerWait} (hflags : SameFlags s.mem mem') (hshape : task'.Shape)
    (hsettled : task'.Settled) (hguarded : s.task.guarded = [])
    (hrefs : (task'.refs ++ queue'.flatMap (·.objs)).Perm s.refs) :
    FlagInv { s with mem := mem', task := task', queue := queue' } := by
  refine ⟨hshape, fun obj hobj => ?_, fun idx => ?_, fun idx => ?_, ?_, ?_⟩
  · have hobj' : obj ∈ task'.refs ++ queue'.flatMap (·.objs) := by
      rw [← hsettled.1]
      exact hobj
    rw [(hflags obj.shmIdx).1]
    exact h.live obj (h.refs_subset obj (hrefs.mem_iff.mp hobj'))
  · change s.counts idx = occurrences (task'.refs ++ queue'.flatMap (·.objs)) idx
    rw [occurrences_perm hrefs idx, h.counts idx]
  · rw [(hflags idx).2, h.flag idx, hsettled.2, hguarded]
  · intro idx hidx
    rw [hsettled.2] at hidx
    cases hidx
  · rw [hsettled.2]
    exact nodup_nil

lemma FlagInv.enlist {added : List WaitObject} (htask : s.task = .enlist w added (obj :: rest)) :
    FlagInv { s.addServerWaiter obj.shmIdx with task := .enlist w (added ++ [obj]) rest } := by
  have hshape : added ++ obj :: rest = w.objs := by
    have hshape := h.shape
    rwa [htask] at hshape
  have hcounts : ∀ idx, s.counts idx =
      occurrences added idx + occurrences (s.queue.flatMap (·.objs)) idx := by
    intro idx
    rw [h.counts idx, SharedState.refs, occurrences_append, htask]
    rfl
  have hguarded : s.task.guarded = [] := by
    rw [htask]
    rfl
  refine ⟨?_, fun o ho => ?_, fun idx => ?_, fun idx => ?_, ?_, ?_⟩
  · change added ++ [obj] ++ rest = w.objs
    rw [← hshape, append_assoc]
    rfl
  · have hlive := h.live o
    rw [SharedState.objs, htask] at hlive
    rw [← hlive ho]
    exact (setServerWaiters_same obj.shmIdx true o.shmIdx).2.1
  · change update s.counts obj.shmIdx (s.counts obj.shmIdx + 1) idx =
      occurrences (added ++ [obj] ++ s.queue.flatMap (·.objs)) idx
    rw [occurrences_append, occurrences_append, occurrences_cons, occurrences_nil]
    by_cases hidx : idx = obj.shmIdx
    · rw [hidx, update_self, hcounts, if_pos rfl]
      omega
    · rw [update_of_ne hidx, hcounts, if_neg (Ne.symm hidx)]
      omega
  · change (update s.mem obj.shmIdx ((s.mem obj.shmIdx).setServerWaiters true)
      idx).word.serverWaiters = true ↔
        0 < update s.counts obj.shmIdx (s.counts obj.shmIdx + 1) idx ∨ idx ∈ []
    by_cases hidx : idx = obj.shmIdx
    · rw [hidx, update_self, update_self]
      simp [WfusyncState.setServerWaiters]
    · rw [update_of_ne hidx, update_of_ne hidx, h.flag idx, hguarded]
  · intro idx hidx
    cases hidx
  · exact nodup_nil

/-- `wfusync_remove_server_waiter` for the next entry of a finished wait. -/
lemma FlagInv.retire (htask : s.task = .retire (obj :: rest)) :
    FlagInv { s.removeServerWaiter obj.shmIdx with task := .retire rest } := by
  have hcounts : ∀ idx, s.counts idx = occurrences (rest ++ s.queue.flatMap (·.objs)) idx +
      if obj.shmIdx = idx then 1 else 0 := by
    intro idx
    rw [h.counts idx, SharedState.refs, htask]
    exact occurrences_cons obj _ idx
  have hpos : s.counts obj.shmIdx ≠ 0 := by
    rw [hcounts, if_pos rfl]
    omega
  have hguarded : s.task.guarded = [] := by
    rw [htask]
    rfl
  have hmem : (s.removeServerWaiter obj.shmIdx).mem = if s.counts obj.shmIdx = 1 then
      update s.mem obj.shmIdx ((s.mem obj.shmIdx).setServerWaiters false) else s.mem := by
    rw [SharedState.removeServerWaiter, if_neg hpos]
  have hcount : (s.removeServerWaiter obj.shmIdx).counts =
      update s.counts obj.shmIdx (s.counts obj.shmIdx - 1) := by
    rw [SharedState.removeServerWaiter, if_neg hpos]
  have hqueue : (s.removeServerWaiter obj.shmIdx).queue = s.queue := by
    rw [SharedState.removeServerWaiter, if_neg hpos]
  refine ⟨trivial, fun o ho => ?_, fun idx => ?_, fun idx => ?_, ?_, ?_⟩
  · have hlive := h.live o
    rw [SharedState.objs, htask] at hlive
    rw [(removeServerWaiter_same s obj.shmIdx o.shmIdx).2.1]
    apply hlive
    change o ∈ rest ++ (s.removeServerWaiter obj.shmIdx).queue.flatMap (·.objs) at ho
    rw [hqueue] at ho
    exact mem_cons_of_mem obj ho
  · change (s.removeServerWaiter obj.shmIdx).counts idx =
      occurrences (rest ++ (s.removeServerWaiter obj.shmIdx).queue.flatMap (·.objs)) idx
    rw [hcount, hqueue]
    by_cases hidx : idx = obj.shmIdx
    · rw [hidx, update_self, hcounts, if_pos rfl, Nat.add_sub_cancel]
    · rw [update_of_ne hidx, hcounts, if_neg (Ne.symm hidx), Nat.add_zero]
  · change ((s.removeServerWaiter obj.shmIdx).mem idx).word.serverWaiters = true ↔
      0 < (s.removeServerWaiter obj.shmIdx).counts idx ∨ idx ∈ []
    rw [hmem, hcount]
    have hflag := h.flag idx
    rw [hguarded] at hflag
    by_cases hidx : idx = obj.shmIdx
    · rw [hidx] at hflag ⊢
      rw [update_self]
      by_cases hone : s.counts obj.shmIdx = 1
      · rw [if_pos hone, update_self, hone]
        simp [WfusyncState.setServerWaiters]
      · rw [if_neg hone, hflag]
        omega
    rw [update_of_ne hidx, ← hflag]
    split
    · rw [update_of_ne hidx]
    · rfl
  · intro idx hidx
    cases hidx
  · exact nodup_nil

lemma FlagInv.tryAll_move
    {pc pc' : TryAllPc} {trace' : TryAllTrace} (htask : s.task = .tryAll c pc trace)
    (hflags : SameFlags s.mem mem') (hshape : (ServerTask.tryAll c pc' trace').Shape)
    (hguarded : pc'.guarded c = pc.guarded c) :
    FlagInv { s with mem := mem', task := .tryAll c pc' trace' } := by
  have hold : s.task.guarded = pc'.guarded c := by
    rw [htask, hguarded]
    rfl
  have hrefs : s.refs = s.queue.flatMap (·.objs) := by
    rw [SharedState.refs, htask]
    rfl
  refine ⟨hshape, fun obj hobj => ?_, fun idx => ?_, fun idx => ?_, ?_, ?_⟩
  · rw [(hflags obj.shmIdx).1]
    apply h.live obj
    rw [SharedState.objs, htask]
    exact hobj
  · change s.counts idx = occurrences (s.queue.flatMap (·.objs)) idx
    rw [h.counts idx, hrefs]
  · change (mem' idx).word.serverWaiters = true ↔ 0 < s.counts idx ∨ idx ∈ pc'.guarded c
    rw [(hflags idx).2, h.flag idx, hold]
  · intro idx hidx
    exact h.unreferenced idx (by rw [hold]; exact hidx)
  · change (pc'.guarded c).Nodup
    rw [← hold]
    exact h.nodup

lemma FlagInv.tryAll_guard {i : ℕ} {seen : TypeWord}
    (htask : s.task = .tryAll c (.guardSwap i seen) trace)
    (hword : (s.mem (c.entry i).shmIdx).word = seen) :
    FlagInv { s with
      mem := update s.mem (c.entry i).shmIdx ((s.mem (c.entry i).shmIdx).setServerWaiters true)
      task := .tryAll c (.guardType (i + 1)) trace } := by
  obtain ⟨hi, hseen⟩ : i < c.count ∧ (c.entry i).Seen seen := by
    have hshape := h.shape
    rwa [htask] at hshape
  have hguarded : s.task.guarded = c.indices.take i := by
    rw [htask]
    rfl
  have hrefs : s.refs = s.queue.flatMap (·.objs) := by
    rw [SharedState.refs, htask]
    rfl
  obtain ⟨hcount, hnew⟩ : s.counts (c.entry i).shmIdx = 0 ∧
      (c.entry i).shmIdx ∉ c.indices.take i := by
    have hflag := h.flag (c.entry i).shmIdx
    rw [hword, hseen.serverWaiters, hguarded] at hflag
    constructor
    · by_contra hne
      exact Bool.false_ne_true (hflag.mpr (.inl (Nat.pos_of_ne_zero hne)))
    · intro hmem
      exact Bool.false_ne_true (hflag.mpr (.inr hmem))
  refine ⟨hi, fun obj hobj => ?_, fun idx => ?_, fun idx => ?_, fun idx hidx => ?_, ?_⟩
  · rw [(setServerWaiters_same (c.entry i).shmIdx true obj.shmIdx).2.1]
    apply h.live obj
    rw [SharedState.objs, htask]
    exact hobj
  · change s.counts idx = occurrences (s.queue.flatMap (·.objs)) idx
    rw [h.counts idx, hrefs]
  · change (update s.mem _ _ idx).word.serverWaiters = true ↔
      0 < s.counts idx ∨ idx ∈ c.indices.take (i + 1)
    rw [TryAllCall.take_succ_indices hi, mem_append, mem_singleton]
    by_cases hidx : idx = (c.entry i).shmIdx
    · rw [hidx, update_self]
      simp [WfusyncState.setServerWaiters]
    · rw [update_of_ne hidx, h.flag idx, hguarded]
      simp [hidx]
  · change idx ∈ c.indices.take (i + 1) at hidx
    rw [TryAllCall.take_succ_indices hi, mem_append, mem_singleton] at hidx
    rcases hidx with hold | heq
    · exact h.unreferenced idx (by rw [hguarded]; exact hold)
    · rw [heq]
      exact hcount
  change (c.indices.take (i + 1)).Nodup
  rw [TryAllCall.take_succ_indices hi, nodup_append]
  refine ⟨hguarded ▸ h.nodup, nodup_singleton _, fun a ha b hb heq => ?_⟩
  rw [mem_singleton.mp hb] at heq
  exact hnew (heq ▸ ha)

lemma FlagInv.tryAll_release {i guarded : ℕ} {status : NtStatus}
    (htask : s.task = .tryAll c (.release i guarded status) trace)
    (hi : i < guarded) :
    FlagInv { s with
      mem := update s.mem (c.entry i).shmIdx ((s.mem (c.entry i).shmIdx).setServerWaiters false)
      task := .tryAll c (.release (i + 1) guarded status) trace } := by
  obtain ⟨_, hcount⟩ : i ≤ guarded ∧ guarded ≤ c.count := by
    have hshape := h.shape
    rwa [htask] at hshape
  have hguarded : s.task.guarded = (c.entry i).shmIdx :: (c.indices.take guarded).drop (i + 1) := by
    rw [htask, ← TryAllCall.drop_take_indices hi hcount]
    rfl
  have hnodup := h.nodup
  rw [hguarded, nodup_cons] at hnodup
  have hrefs : s.refs = s.queue.flatMap (·.objs) := by
    rw [SharedState.refs, htask]
    rfl
  refine ⟨⟨hi, hcount⟩, fun obj hobj => ?_, fun idx => ?_, fun idx => ?_, fun idx hidx => ?_,
    hnodup.2⟩
  · rw [(setServerWaiters_same (c.entry i).shmIdx false obj.shmIdx).2.1]
    apply h.live obj
    rw [SharedState.objs, htask]
    exact hobj
  · change s.counts idx = occurrences (s.queue.flatMap (·.objs)) idx
    rw [h.counts idx, hrefs]
  · change (update s.mem _ _ idx).word.serverWaiters = true ↔
      0 < s.counts idx ∨ idx ∈ (c.indices.take guarded).drop (i + 1)
    by_cases hidx : idx = (c.entry i).shmIdx
    · have hzero : s.counts idx = 0 := h.unreferenced idx (by rw [hguarded, hidx]; simp)
      rw [hzero, hidx, update_self]
      simp [WfusyncState.setServerWaiters, hnodup.1]
    · rw [update_of_ne hidx, h.flag idx, hguarded]
      simp [hidx]
  · apply h.unreferenced idx
    rw [hguarded]
    exact mem_cons_of_mem _ hidx

lemma FlagInv.tryAll {pc pc' : TryAllPc}
    {trace' : TryAllTrace} (htask : s.task = .tryAll c pc trace)
    (hstep : c.step s.mapped s.mem trace pc = some (mem', pc', trace')) :
    FlagInv { s with mem := mem', task := .tryAll c pc' trace' } := by
  have hshape := h.shape
  rw [htask] at hshape
  have hall : (c.indices.take c.count).drop 0 = c.indices := by
    simp [TryAllCall.indices, TryAllCall.count]
  cases pc with
  | guardType i =>
    simp only [TryAllCall.step] at hstep
    split at hstep
    · rename_i hi
      split at hstep
      · cases hstep
        exact h.tryAll_move htask (.refl _) ⟨Nat.zero_le i, hshape⟩ rfl
      split at hstep
      · cases hstep
        exact h.tryAll_move htask (.refl _) ⟨Nat.zero_le i, hshape⟩ rfl
      rename_i hseen
      cases hstep
      simp only [not_or, Bool.not_eq_true, ne_eq, not_not] at hseen
      exact h.tryAll_move htask (.refl _) ⟨hi, hseen.1, hseen.2.1, hseen.2.2⟩ rfl
    · rename_i hi
      cases hstep
      refine h.tryAll_move htask (.refl _) trivial ?_
      change c.indices = c.indices.take i
      simpa [TryAllCall.indices, TryAllCall.count] using hi
  | guardGeneration i seen =>
    simp only [TryAllCall.step] at hstep
    split at hstep
    · cases hstep
      exact h.tryAll_move htask (.refl _) ⟨Nat.zero_le i, hshape.1.le⟩ rfl
    · cases hstep
      exact h.tryAll_move htask (.refl _) hshape rfl
  | guardSwap i seen =>
    simp only [TryAllCall.step] at hstep
    split at hstep
    · rename_i hword
      cases hstep
      exact h.tryAll_guard htask hword
    · cases hstep
      exact h.tryAll_move htask (.refl _) ⟨Nat.zero_le i, hshape.1.le⟩ rfl
  | checkType i abandoned =>
    simp only [TryAllCall.step] at hstep
    split at hstep
    · rename_i hi
      split at hstep
      · cases hstep
        exact h.tryAll_move htask (.refl _) ⟨Nat.zero_le _, le_refl _⟩ hall
      · cases hstep
        exact h.tryAll_move htask (.refl _) hi rfl
    · cases hstep
      exact h.tryAll_move htask (.refl _) trivial rfl
  | checkGeneration i abandoned =>
    simp only [TryAllCall.step] at hstep
    split at hstep
    · cases hstep
      exact h.tryAll_move htask (.refl _) ⟨Nat.zero_le _, le_refl _⟩ hall
    · cases hstep
      exact h.tryAll_move htask (.refl _) hshape rfl
  | checkValue i abandoned =>
    simp only [TryAllCall.step] at hstep
    split at hstep
    · cases hstep
      exact h.tryAll_move htask (.refl _) ⟨Nat.zero_le _, le_refl _⟩ hall
    · cases hstep
      exact h.tryAll_move htask (.refl _) trivial rfl
  | commit i abandoned =>
    simp only [TryAllCall.step] at hstep
    split at hstep
    · split at hstep
      · cases hstep
        exact h.tryAll_move htask (.refl _) ⟨Nat.zero_le _, le_refl _⟩ hall
      rename_i o htake
      cases hstep
      have hword := tryWaitAllTake_word htake
      exact h.tryAll_move htask (.update _ (by rw [hword]) (by rw [hword])) trivial rfl
    · cases hstep
      exact h.tryAll_move htask (.refl _) ⟨Nat.zero_le _, le_refl _⟩ hall
  | release i guarded status =>
    simp only [TryAllCall.step] at hstep
    split at hstep
    · rename_i hi
      cases hstep
      exact h.tryAll_release htask hi
    rename_i hi
    cases hstep
    refine h.tryAll_move htask (.refl _) trivial ?_
    change [] = (c.indices.take guarded).drop i
    rw [drop_eq_nil_of_le]
    exact (length_take_le _ _).trans (not_lt.mp hi)
  | returned status => cases hstep

lemma FlagInv.serve (hserve : s.serve = some s') : FlagInv s' := by
  have hrefs : ∀ task, s.task = task → s.refs = task.refs ++ s.queue.flatMap (·.objs) := by
    intro task htask
    rw [SharedState.refs, htask]
  have hguarded : ∀ task, s.task = task → task.guarded = [] → s.task.guarded = [] := by
    intro task htask hempty
    rw [htask, hempty]
  have hshape := h.shape
  cases htask : s.task with
  | idle =>
    simp only [SharedState.serve, htask] at hserve
    cases hserve
  | enlist w added rest =>
    rw [htask] at hshape
    cases rest with
    | nil =>
      simp only [SharedState.serve, htask, Option.some.injEq] at hserve
      rw [← hserve]
      refine h.move (.refl _) (startCheck_shape w _) (startCheck_settled w _)
        (hguarded _ htask rfl) ?_
      rw [startCheck_refs, hrefs _ htask, ← show added ++ [] = w.objs from hshape, append_nil]
      rfl
    | cons obj rest =>
      simp only [SharedState.serve, htask, Option.some.injEq] at hserve
      rw [← hserve]
      exact h.enlist htask
  | check w before obj rest notOk pc =>
    rw [htask] at hshape
    simp only [SharedState.serve, htask] at hserve
    split at hserve
    · rename_i mem' pc' hsection
      have heffect := sectionStep_effect obj.kind.type_ne_unknown (fun _ => rfl) hsection
      simp only [Option.some.injEq] at hserve
      rw [← hserve]
      refine h.move heffect.flags hshape ⟨rfl, rfl⟩ (hguarded _ htask rfl) ?_
      rw [hrefs _ htask]
      rfl
    rename_i mem' signaled hsection
    have heffect := sectionStep_effect obj.kind.type_ne_unknown (fun _ => rfl) hsection
    simp only [Option.some.injEq] at hserve
    rw [← hserve]
    refine h.move heffect.flags (nextCheck_shape hshape notOk signaled s.queue)
      (nextCheck_settled w before obj rest notOk signaled s.queue) (hguarded _ htask rfl) ?_
    rw [nextCheck_refs, hrefs _ htask]
    rfl
  | satisfy w obj rest pc =>
    rw [htask] at hshape
    have hword : ∀ o, (w.satisfied obj o).1.word = o.word :=
      fun o => satisfiedFor_word obj.kind.type w.tid o
    simp only [SharedState.serve, htask] at hserve
    split at hserve
    · rename_i mem' pc' hsection
      have heffect := sectionStep_effect obj.kind.type_ne_unknown hword hsection
      simp only [Option.some.injEq] at hserve
      rw [← hserve]
      refine h.move heffect.flags hshape ⟨rfl, rfl⟩ (hguarded _ htask rfl) ?_
      rw [hrefs _ htask]
      rfl
    rename_i mem' signaled hsection
    have heffect := sectionStep_effect obj.kind.type_ne_unknown hword hsection
    simp only [Option.some.injEq] at hserve
    rw [← hserve]
    refine h.move heffect.flags (satisfyFrom_shape fun o ho => hshape o (by simp [ho]))
      (satisfyFrom_settled w rest) (hguarded _ htask rfl) ?_
    rw [satisfyFrom_refs, hrefs _ htask]
    rfl
  | retire rest =>
    cases rest with
    | nil =>
      simp only [SharedState.serve, htask, Option.some.injEq] at hserve
      rw [← hserve]
      refine h.move (.refl _) trivial ⟨rfl, rfl⟩ (hguarded _ htask rfl) ?_
      rw [hrefs _ htask]
      rfl
    | cons obj rest =>
      simp only [SharedState.serve, htask, Option.some.injEq] at hserve
      rw [← hserve]
      exact h.retire htask
  | request idx op pc =>
    simp only [SharedState.serve, htask] at hserve
    split at hserve
    · rename_i mem' pc' hsection
      have heffect := sectionStep_effect op.type_ne_unknown op.section_word hsection
      simp only [Option.some.injEq] at hserve
      rw [← hserve]
      refine h.move heffect.flags trivial ⟨rfl, rfl⟩ (hguarded _ htask rfl) ?_
      rw [hrefs _ htask]
      rfl
    rename_i mem' signaled hsection
    have heffect := sectionStep_effect op.type_ne_unknown op.section_word hsection
    simp only [Option.some.injEq] at hserve
    rw [← hserve]
    refine h.move heffect.flags trivial ⟨rfl, rfl⟩ (hguarded _ htask rfl) ?_
    rw [hrefs _ htask]
    rfl
  | tryAll c pc trace =>
    rcases serve_tryAll htask hserve with ⟨status, rfl, heq⟩ | ⟨mem', pc', trace', hstep, heq⟩
    · rw [heq]
      refine h.move (.refl _) trivial ⟨rfl, rfl⟩ (hguarded _ htask rfl) ?_
      rw [hrefs _ htask]
      rfl
    · rw [heq]
      exact h.tryAll htask hstep

lemma FlagInv.begins (hidle : s.task.isIdle = true) {task : ServerTask}
    {queue : List ServerWait} (hbegins : Begins s task queue) :
    FlagInv { s with task := task, queue := queue } := by
  have htask : s.task = .idle := by
    cases htask : s.task with
    | idle => rfl
    | enlist | check | satisfy | retire | request | tryAll =>
      rw [htask] at hidle
      cases hidle
  have hrefs : s.refs = s.queue.flatMap (·.objs) := by
    rw [SharedState.refs, htask]
    rfl
  have hguarded : s.task.guarded = [] := by
    rw [htask]
    rfl
  cases hbegins with
  | select w hlive =>
    refine ⟨rfl, fun obj hobj => ?_, fun idx => ?_, fun idx => ?_, ?_, nodup_nil⟩
    · rcases mem_append.mp hobj with hnew | hold
      · exact hlive obj hnew
      · apply h.live obj
        exact mem_append_right _ hold
    · rw [h.counts idx, hrefs]
      rfl
    · rw [h.flag idx, hguarded]
      rfl
    · intro idx hidx
      cases hidx
  | wakeThread w hw =>
    refine h.move (.refl _) (startCheck_shape w _) (startCheck_settled w _) hguarded ?_
    rw [startCheck_refs, hrefs]
    exact queue_erase_perm hw
  | endWait w hw =>
    refine h.move (.refl _) trivial ⟨rfl, rfl⟩ hguarded ?_
    rw [hrefs]
    exact queue_erase_perm hw
  | request idx op =>
    refine h.move (.refl _) trivial ⟨rfl, rfl⟩ hguarded ?_
    rw [hrefs]
    rfl
  | tryWaitAll c =>
    obtain ⟨hshape, hempty⟩ : (ServerTask.tryAll c c.start
        ⟨fun idx => (s.mem idx).word.serverWaiters, s.mem, []⟩).Shape ∧
          c.start.guarded c = [] := by
      unfold TryAllCall.start
      split
      · exact ⟨trivial, rfl⟩
      · exact ⟨Nat.zero_le _, rfl⟩
    refine h.move (.refl _) hshape ⟨rfl, hempty⟩ hguarded ?_
    rw [hrefs]
    rfl

end

variable [DecidableEq ι]

omit [DecidableEq ι] in
lemma FlagInv.client {t : ι} (h : FlagInv s) (heffect : ClientEffect s s' t) : FlagInv s' := by
  obtain ⟨htask, hqueue, hcounts, _, _, _, _, _, hflags, _⟩ := heffect
  refine ⟨htask ▸ h.shape, fun obj hobj => ?_, fun idx => ?_, fun idx => ?_, fun idx hidx => ?_, ?_⟩
  · rw [(hflags obj.shmIdx).1]
    rw [SharedState.objs, htask, hqueue] at hobj
    exact h.live obj hobj
  · rw [hcounts, SharedState.refs, htask, hqueue]
    exact h.counts idx
  · rw [(hflags idx).2, hcounts, htask]
    exact h.flag idx
  · rw [hcounts]
    rw [htask] at hidx
    exact h.unreferenced idx hidx
  · rw [htask]
    exact h.nodup

omit [DecidableEq ι] in
lemma FlagInv.write (h : FlagInv s) {mapped : ℕ → Bool} {next generations : ℕ} {counts : ℕ → ℕ}
    (hlive : ∀ obj ∈ s.objs, (mem' obj.shmIdx).word.type = (s.mem obj.shmIdx).word.type)
    (hcounts : ∀ idx, counts idx = s.counts idx)
    (hflag : ∀ idx, (mem' idx).word.serverWaiters = (s.mem idx).word.serverWaiters) :
    FlagInv { s with
      mem := mem'
      mapped := mapped
      next := next
      generations := generations
      counts := counts } := by
  obtain rfl : counts = s.counts := funext hcounts
  refine ⟨h.shape, fun obj hobj => ?_, h.counts, fun idx => ?_, h.unreferenced, h.nodup⟩
  · rw [hlive obj hobj]
    exact h.live obj hobj
  · rw [hflag idx]
    exact h.flag idx

lemma FlagInv.step {a : SharedAct ι} (hinv : OwnerInv s) (h : FlagInv s)
    (hstep : sharedStep s a = some s') : FlagInv s' := by
  cases sharedStep_cases hstep with
  | client t heffect => exact h.client heffect
  | status t status heq =>
    rw [heq]
    exact ⟨h.shape, h.live, h.counts, h.flag, h.unreferenced, h.nodup⟩
  | serve _ hserve => exact h.serve hserve
  | begins task queue hidle hbegins heq =>
    rw [heq]
    exact h.begins hidle hbegins
  | create low high type hidle _ heq =>
    rw [heq]
    have hnext : (s.mem s.next).word.type = .unknown := hinv.fresh _ (le_refl _)
    have hguarded : s.task.guarded = [] := by
      cases htask : s.task with
      | idle | enlist | check | satisfy | retire | request => rfl
      | tryAll =>
        rw [htask] at hidle
        cases hidle
    have hobjs : ∀ obj ∈ s.objs, obj.shmIdx ≠ s.next := by
      intro obj hobj hidx
      have hlive := h.live obj hobj
      rw [hidx, hnext] at hlive
      exact obj.kind.type_ne_unknown hlive.symm
    have hzero : s.counts s.next = 0 := by
      rw [h.counts, occurrences_eq_zero]
      exact fun obj hobj => hobjs obj (h.refs_subset obj hobj)
    apply h.write
    · intro obj hobj
      rw [update_of_ne (hobjs obj hobj)]
    · intro idx
      by_cases hidx : idx = s.next
      · rw [hidx, update_self, hzero]
      · rw [update_of_ne hidx]
    intro idx
    by_cases hidx : idx = s.next
    · have hflag := h.flag s.next
      rw [hzero, hguarded] at hflag
      rw [hidx, update_self]
      simpa using hflag.symm
    · rw [update_of_ne hidx]
  | destroy idx hmay _ hrefs heq =>
    rw [heq]
    have hsame : s.objs = s.refs ∧ s.task.guarded = [] := by
      unfold SharedState.objs SharedState.refs
      cases htask : s.task with
      | idle | retire rest => exact ⟨rfl, rfl⟩
      | enlist | check | satisfy | request | tryAll =>
        rw [htask] at hmay
        cases hmay
    have hzero : s.counts idx = 0 := by
      rw [h.counts, occurrences_eq_zero]
      exact hrefs
    apply h.write
    · intro obj hobj
      rw [update_of_ne (hrefs obj (hsame.1 ▸ hobj))]
    · exact fun _ => rfl
    intro j
    by_cases hj : j = idx
    · have hflag := h.flag idx
      rw [hzero, hsame.2] at hflag
      rw [hj, update_self]
      simpa using hflag.symm
    · rw [update_of_ne hj]
  | setMulti idx flag _ heq =>
    rw [heq]
    have hword : SameFlags s.mem (update s.mem idx
        { s.mem idx with word := { (s.mem idx).word with multiWaiters := flag } }) :=
      .update idx rfl rfl
    exact h.write (fun obj _ => (hword obj.shmIdx).1) (fun _ => rfl) fun j => (hword j).2
  | map idx heq =>
    rw [heq]
    exact h.write (fun _ _ => rfl) (fun _ => rfl) fun _ => rfl

omit [DecidableEq ι] in
lemma SharedState.Initial.flagInv (h : s.Initial) : FlagInv s := by
  obtain ⟨hmem, hcounts, _, hqueue, hidle⟩ := h
  obtain ⟨hobjs, hrefs, hguarded, hshape⟩ :
      s.objs = [] ∧ s.refs = [] ∧ s.task.guarded = [] ∧ s.task.Shape := by
    unfold SharedState.objs SharedState.refs
    rw [hqueue]
    cases htask : s.task with
    | idle => exact ⟨rfl, rfl, rfl, trivial⟩
    | enlist | check | satisfy | retire | request | tryAll =>
      rw [htask] at hidle
      cases hidle
  refine ⟨hshape, fun obj hobj => ?_, fun idx => ?_, fun idx => ?_, fun idx hidx => ?_, ?_⟩
  · rw [hobjs] at hobj
    cases hobj
  · rw [hcounts, hrefs, occurrences_nil]
  · rw [hmem, hcounts, hguarded]
    simp
  · exact hcounts idx
  · rw [hguarded]
    exact nodup_nil

theorem flag_inv (h : Reachable sharedStep SharedState.Initial s) : FlagInv s :=
  h.invariant_with (fun _ hs => owner_inv hs) (fun _ hs => hs.flagInv)
    fun _ _ _ hinv hs _ hstep => hs.step hinv hstep

end WineForge.WfuSync
