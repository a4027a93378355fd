import Mathlib.Data.List.Nodup
import WineForge.Library.SortedInsert
import WineForge.Library.Transition

/-!
# Window timers

The two timer lists of a message queue and the timeout of the server that moves timers from one to
the other. Expirations are stored negated, as `abstime_t` does for the monotonic clock.
-/

namespace WineForge.WindowTimers

open Library List Option

structure Timer where
  when : ℤ
  rate : ℕ
  win : ℕ
  msg : ℕ
  id : ℤ
  lparam : ℤ
  deriving DecidableEq, Repr

def Timer.key (t : Timer) : ℕ × ℕ × ℤ := (t.win, t.msg, t.id)

def Timer.expiry (t : Timer) : ℤ := -t.when

/-- The part of `struct msg_queue` for the timers, with the clock of the server. -/
structure Queue where
  monotonicTime : ℤ
  /-- The time that the timeout of the queue is added for, if there is one. -/
  timeout : Option ℤ
  pending : List Timer
  expired : List Timer
  nextTimerId : ℤ
  /-- `QS_TIMER` is set. -/
  timerBit : Bool
  deriving DecidableEq, Repr

def abstimeToTimeout (abstime monotonicTime : ℤ) : ℤ :=
  if abstime > 0 then abstime
  else if -abstime < monotonicTime then 0
  else abstime + monotonicTime

def timeoutToAbstime (timeout monotonicTime : ℤ) : ℤ :=
  if timeout > 0 then timeout else timeout - monotonicTime

def setNextTimer (q : Queue) : Queue :=
  { q with
    timeout := q.pending.head?.map fun t =>
      timeoutToAbstime (abstimeToTimeout t.when q.monotonicTime) q.monotonicTime
    timerBit := !q.expired.isEmpty }

def matchesTimer (win msg : ℕ) (id : ℤ) (t : Timer) : Bool := t.key = (win, msg, id)

def findTimer (q : Queue) (win msg : ℕ) (id : ℤ) : Bool :=
  q.pending.any (matchesTimer win msg id) || q.expired.any (matchesTimer win msg id)

/-- There is no result where the list is empty. -/
def timerCallback (q : Queue) : Option Queue :=
  match q.pending with
  | [] => none
  | t :: ts => some (setNextTimer { q with pending := ts, expired := q.expired ++ [t] })

def linkTimer (q : Queue) (t : Timer) : Queue :=
  { q with pending := insertBefore (fun y => decide (y.when ≤ t.when)) t q.pending }

/-- Frees the first timer that `p` holds of, in the pending list if it is there. -/
def freeTimer (p : Timer → Bool) (q : Queue) : Queue :=
  setNextTimer (if q.pending.any p then { q with pending := q.pending.eraseP p }
    else { q with expired := q.expired.eraseP p })

/-- The loop of `restart_timer`; a rate is never zero. -/
def restartLoop (rate : ℕ) (monotonicTime when : ℤ) : ℤ :=
  if 0 < rate ∧ -when ≤ monotonicTime then
    restartLoop rate monotonicTime (when - (rate : ℤ) * 10000)
  else when
termination_by (monotonicTime + when + 1).toNat
decreasing_by omega

def restartTimer (q : Queue) (t : Timer) : Queue :=
  setNextTimer (linkTimer { q with expired := q.expired.erase t }
    { t with when := restartLoop t.rate q.monotonicTime t.when })

def findExpiredTimer (q : Queue) (win first last : ℕ) (remove : Bool) : Queue × Option Timer :=
  match q.expired.find? fun t => (win = 0 ∨ t.win = win) ∧ first ≤ t.msg ∧ t.msg ≤ last with
  | none => (q, none)
  | some t => (if remove then restartTimer q t else q, some t)

/-- `set_timer`; its caller fills in the key. -/
def setTimer (q : Queue) (rate win msg : ℕ) (id lparam : ℤ) : Queue :=
  let rate := max rate 1
  let t : Timer := ⟨-q.monotonicTime - (rate : ℤ) * 10000, rate, win, msg, id, lparam⟩
  let q := linkTimer q t
  if q.pending.head? = some t then setNextTimer q else q

/-- The search for a free id, which ends after all ids have been tried. -/
def freeId (q : Queue) (msg : ℕ) (endId : ℤ) : ℕ → ℤ → Option (ℤ × ℤ)
  | 0, _ => none
  | turns + 1, id =>
    let next := if id - 1 ≤ 0x100 then 0x7fff else id - 1
    if ¬findTimer q 0 msg id then some (id, next)
    else if next = endId then none
    else freeId q msg endId turns next

/-- The request for a window, or for the queue of the thread if `win` is zero. -/
def setWinTimer (q : Queue) (win msg : ℕ) (id : ℤ) (rate : ℕ) (lparam : ℤ) : Queue :=
  if findTimer q win msg id ∧ (win ≠ 0 ∨ id ≠ 0) then
    setTimer (freeTimer (matchesTimer win msg id) q) rate win msg id lparam
  else if win ≠ 0 then setTimer q rate win msg id lparam
  else
    match freeId q msg q.nextTimerId 0x8000 q.nextTimerId with
    | none => q
    | some (id, next) => setTimer { q with nextTimerId := next } rate 0 msg id lparam

def killWinTimer (q : Queue) (win msg : ℕ) (id : ℤ) : Queue :=
  if findTimer q win msg id then freeTimer (matchesTimer win msg id) q else q

/-- The timers in `queue_cleanup_window`. -/
def cleanupWindow (q : Queue) (win : ℕ) : Queue :=
  ((q.pending ++ q.expired).filter fun t => t.win = win).foldl (fun q t => freeTimer (· = t) q) q

/-- `expire` is the call of the timeout, `getMessage` the part of the request for timers. -/
inductive Op
  | setWinTimer (win msg : ℕ) (id : ℤ) (rate : ℕ) (lparam : ℤ)
  | killWinTimer (win msg : ℕ) (id : ℤ)
  | destroyWindow (win : ℕ)
  | getMessage (win first last : ℕ) (remove : Bool)
  | tick (ticks : ℕ)
  | expire
  deriving DecidableEq, Repr

def step (q : Queue) : Op → Option Queue
  | .setWinTimer win msg id rate lparam => some (setWinTimer q win msg id rate lparam)
  | .killWinTimer win msg id => some (killWinTimer q win msg id)
  | .destroyWindow win => some (cleanupWindow q win)
  | .getMessage win first last remove => some (findExpiredTimer q win first last remove).1
  | .tick ticks => some { q with monotonicTime := q.monotonicTime + ticks }
  | .expire =>
    match q.timeout with
    | none => none
    | some when => if -when ≤ q.monotonicTime then timerCallback q else none

def Start (q : Queue) : Prop :=
  0 ≤ q.monotonicTime ∧ q.timeout = none ∧ q.pending = [] ∧ q.expired = [] ∧ q.timerBit = false

structure Lists (q : Queue) : Prop where
  clock : 0 ≤ q.monotonicTime
  valid : ∀ t ∈ q.pending ++ q.expired, t.when ≤ 0 ∧ 0 < t.rate
  sorted : SortedBy Timer.expiry q.pending
  due : ∀ t ∈ q.expired, t.expiry ≤ q.monotonicTime
  unique : ((q.pending ++ q.expired).map Timer.key).Nodup

/-- The timeout is added for the first expiry, or for the time of arming if that was past. -/
def Armed (q : Queue) : Prop :=
  match q.pending with
  | [] => q.timeout = none
  | t :: _ => ∃ armed ≤ q.monotonicTime, q.timeout = some (-max t.expiry armed)

structure Inv (q : Queue) : Prop where
  lists : Lists q
  armed : Armed q
  bit : q.timerBit = !q.expired.isEmpty

variable {q : Queue}

lemma Lists.inv (h : Lists q) : Inv (setNextTimer q) := by
  refine ⟨⟨h.clock, h.valid, h.sorted, h.due, h.unique⟩, ?_, rfl⟩
  unfold Armed setNextTimer
  cases hpending : q.pending with
  | nil => rfl
  | cons t ts =>
    have hwhen := (h.valid t (by simp [hpending])).1
    refine ⟨q.monotonicTime, le_refl _, congrArg some ?_⟩
    unfold timeoutToAbstime abstimeToTimeout Timer.expiry
    have hpast : ¬t.when > 0 := by omega
    dsimp only
    split
    · omega
    · omega

lemma Lists.sub (h : Lists q) {pending expired : List Timer} (hp : pending.Sublist q.pending)
    (he : expired.Sublist q.expired) : Lists { q with pending := pending, expired := expired } := by
  have hsub := hp.append he
  refine ⟨h.clock, fun t ht => h.valid t (hsub.subset ht), h.sorted.sublist hp,
    fun t ht => h.due t (he.subset ht), h.unique.sublist (hsub.map _)⟩

lemma Lists.free (h : Lists q) (p : Timer → Bool) : Inv (freeTimer p q) := by
  apply Lists.inv
  split
  · exact h.sub eraseP_sublist (Sublist.refl _)
  · exact h.sub (Sublist.refl _) eraseP_sublist

lemma Lists.link (h : Lists q) {t : Timer} (hvalid : t.when ≤ 0 ∧ 0 < t.rate)
    (hkey : ∀ y ∈ q.pending ++ q.expired, y.key ≠ t.key) : Lists (linkTimer q t) := by
  have hperm : (insertBefore (fun y => decide (y.when ≤ t.when)) t q.pending ++ q.expired).Perm
      (t :: (q.pending ++ q.expired)) :=
    (insertBefore_perm _ t q.pending).append_right q.expired
  have hstop : insertBefore (fun y => decide (y.when ≤ t.when)) t q.pending =
      insertBefore (fun y => decide (t.expiry ≤ y.expiry)) t q.pending :=
    insertBefore_congr (fun y _ => decide_eq_decide.mpr (by unfold Timer.expiry; omega)) t
  refine ⟨h.clock, fun y hy => ?_, ?_, h.due, ?_⟩
  · obtain rfl | hy := mem_cons.mp (hperm.mem_iff.mp hy)
    · exact hvalid
    · exact h.valid y hy
  · change SortedBy Timer.expiry (insertBefore _ t q.pending)
    rw [hstop]
    exact h.sorted.insertBefore_le
  apply (hperm.map Timer.key).nodup_iff.mpr
  refine nodup_cons.mpr ⟨fun hmem => ?_, h.unique⟩
  obtain ⟨y, hy, hsame⟩ := mem_map.mp hmem
  exact hkey y hy hsame

/-- What is left when a timer is taken out has another key. -/
lemma Lists.others (h : Lists q) {t : Timer} {rest : List Timer}
    (hperm : (q.pending ++ q.expired).Perm (t :: rest)) : ∀ y ∈ rest, y.key ≠ t.key := by
  have hunique := (hperm.map Timer.key).nodup_iff.mp h.unique
  intro y hy hsame
  exact (nodup_cons.mp hunique).1 (hsame ▸ mem_map_of_mem hy)

lemma Lists.expire (h : Lists q) {t : Timer} {ts : List Timer} (hq : q.pending = t :: ts)
    (hdue : t.expiry ≤ q.monotonicTime) :
    Inv (setNextTimer { q with pending := ts, expired := q.expired ++ [t] }) := by
  have hperm : (ts ++ (q.expired ++ [t])).Perm (q.pending ++ q.expired) := by
    rw [hq, ← append_assoc]
    exact perm_append_singleton t (ts ++ q.expired)
  refine Lists.inv ⟨h.clock, fun y hy => h.valid y (hperm.mem_iff.mp hy), ?_, fun y hy => ?_, ?_⟩
  · exact (hq ▸ h.sorted : SortedBy Timer.expiry (t :: ts)).sublist (sublist_cons_self t ts)
  · obtain hy | hy := mem_append.mp hy
    · exact h.due y hy
    · exact mem_singleton.mp hy ▸ hdue
  · exact (hperm.map Timer.key).nodup_iff.mpr h.unique

/-- The loop ends at the first point of the grid behind the current time. -/
lemma restartLoop_spec {rate : ℕ} (hrate : 0 < rate) (now when : ℤ) :
    ∃ k : ℕ, -restartLoop rate now when = -when + k * (rate * 10000) ∧
      now < -restartLoop rate now when ∧
      (-when ≤ now → 0 < k ∧ -restartLoop rate now when - rate * 10000 ≤ now) := by
  induction when using restartLoop.induct rate now with
  | case1 when hmore ih =>
    obtain ⟨k, hgrid, hafter, hfirst⟩ := ih
    rw [restartLoop, if_pos hmore]
    refine ⟨k + 1, ?_, hafter, fun _ => ⟨Nat.succ_pos k, ?_⟩⟩
    · rw [hgrid, Int.natCast_succ, Int.add_mul]
      omega
    by_cases hdue : -(when - (rate : ℤ) * 10000) ≤ now
    · exact (hfirst hdue).2
    · rw [restartLoop, if_neg fun h => hdue h.2]
      omega
  | case2 when hdone =>
    rw [restartLoop, if_neg hdone]
    have hlater : ¬-when ≤ now := fun hdue => hdone ⟨hrate, hdue⟩
    exact ⟨0, by simp, by omega, fun hdue => absurd hdue hlater⟩

lemma Lists.restart (h : Lists q) {t : Timer} (ht : t ∈ q.expired) : Inv (restartTimer q t) := by
  apply Lists.inv
  have hmem : t ∈ q.pending ++ q.expired := mem_append_right _ ht
  obtain ⟨hwhen, hrate⟩ := h.valid t hmem
  have hperm : (q.pending ++ q.expired).Perm (t :: (q.pending ++ q.expired.erase t)) :=
    ((perm_cons_erase ht).append_left q.pending).trans perm_middle
  apply (h.sub (Sublist.refl _) erase_sublist).link
  · obtain ⟨k, hgrid, hafter, _⟩ := restartLoop_spec hrate q.monotonicTime t.when
    have hclock := h.clock
    exact ⟨by dsimp only; omega, hrate⟩
  · exact fun y hy => h.others hperm y hy

variable {id : ℤ} {win msg : ℕ}

lemma not_findTimer : ¬findTimer q win msg id ↔
    ∀ y ∈ q.pending ++ q.expired, y.key ≠ (win, msg, id) := by
  simp [findTimer, matchesTimer, or_imp, forall_and]

lemma Lists.free_fresh (h : Lists q) (hfound : findTimer q win msg id) :
    ¬findTimer (freeTimer (matchesTimer win msg id) q) win msg id := by
  have hothers : ∀ {l l' : List Timer}, l'.any (matchesTimer win msg id) →
      (q.pending ++ q.expired).Perm (l' ++ l) →
      ∀ y ∈ l'.eraseP (matchesTimer win msg id) ++ l, y.key ≠ (win, msg, id) := by
    intro l l' hany hperm
    obtain ⟨x, hx, hmatch⟩ := any_eq_true.mp hany
    obtain ⟨t, front, back, _, ht, hl, herase⟩ := exists_of_eraseP hx hmatch
    rw [herase, ← of_decide_eq_true ht]
    apply h.others
    rw [hl] at hperm
    exact hperm.trans ((perm_middle.append_right l))
  rw [not_findTimer]
  unfold freeTimer
  split
  · rename_i hany
    exact hothers hany (Perm.refl _)
  rename_i hnone
  have hany := (Bool.or_eq_true_iff.mp hfound).resolve_left hnone
  intro y hy
  exact hothers hany perm_append_comm y (mem_append.mpr (mem_append.mp hy).symm)

lemma Inv.set (h : Inv q) (rate : ℕ) (lparam : ℤ)
    (hfresh : ¬findTimer q win msg id) : Inv (setTimer q rate win msg id lparam) := by
  unfold setTimer
  dsimp only
  have hclock := h.lists.clock
  have hlists := @Lists.link q h.lists
    ⟨-q.monotonicTime - (max rate 1 : ℕ) * 10000, max rate 1, win, msg, id, lparam⟩
    ⟨by dsimp only; omega, by dsimp only; omega⟩ (not_findTimer.mp hfresh)
  split
  · exact hlists.inv
  rename_i hhead
  refine ⟨hlists, ?_, h.bit⟩
  have harmed := h.armed
  unfold Armed linkTimer at *
  cases hpending : q.pending with
  | nil => simp [hpending, insertBefore] at hhead
  | cons y ys =>
    rw [hpending] at harmed hhead
    unfold insertBefore at hhead ⊢
    split at hhead
    · exact absurd rfl hhead
    · rename_i hstop
      rw [if_neg hstop]
      exact harmed

lemma freeId_fresh {msg : ℕ} {endId id' next : ℤ} (turns : ℕ)
    (h : freeId q msg endId turns id = some (id', next)) : ¬findTimer q 0 msg id' := by
  induction turns generalizing id with
  | zero => nomatch h
  | succ turns ih =>
    rw [freeId] at h
    generalize (if id - 1 ≤ 0x100 then 0x7fff else id - 1) = following at h
    split at h
    · rename_i hfree
      cases h
      exact hfree
    · split at h
      · nomatch h
      · exact ih h

lemma Inv.setWin (h : Inv q) (win msg : ℕ) (id : ℤ) (rate : ℕ) (lparam : ℤ) :
    Inv (setWinTimer q win msg id rate lparam) := by
  unfold setWinTimer
  split
  · rename_i hfound
    exact (h.lists.free _).set rate lparam (h.lists.free_fresh hfound.1)
  rename_i hnot
  split
  · rename_i hwin
    exact h.set rate lparam fun hfound => hnot ⟨hfound, .inl hwin⟩
  split
  · exact h
  rename_i hfree
  have hnext : ∀ next, Inv { q with nextTimerId := next } := fun next =>
    ⟨⟨h.lists.clock, h.lists.valid, h.lists.sorted, h.lists.due, h.lists.unique⟩, h.armed,
      h.bit⟩
  exact (hnext _).set rate lparam fun hfound => freeId_fresh _ hfree hfound

lemma Inv.cleanup (h : Inv q) (win : ℕ) : Inv (cleanupWindow q win) := by
  unfold cleanupWindow
  generalize (q.pending ++ q.expired).filter (fun t => t.win = win) = ts
  induction ts generalizing q with
  | nil => exact h
  | cons t ts ih => exact ih (h.lists.free _)

/-- The timeout is due when the first timer is. -/
lemma Armed.due_iff (h : Armed q) {t : Timer} {ts : List Timer} (hq : q.pending = t :: ts) :
    ∃ when, q.timeout = some when ∧ (-when ≤ q.monotonicTime ↔ t.expiry ≤ q.monotonicTime) := by
  unfold Armed at h
  rw [hq] at h
  obtain ⟨armed, hle, htimeout⟩ := h
  exact ⟨_, htimeout, by omega⟩

lemma Inv.step {q' : Queue} {op : Op} (h : Inv q) (hstep : step q op = some q') : Inv q' := by
  cases op with
  | setWinTimer win msg id rate lparam =>
    exact some.inj hstep ▸ h.setWin win msg id rate lparam
  | killWinTimer win msg id =>
    obtain rfl := some.inj hstep
    unfold killWinTimer
    split
    · exact h.lists.free _
    · exact h
  | destroyWindow win => exact some.inj hstep ▸ h.cleanup win
  | getMessage win first last remove =>
    obtain rfl := some.inj hstep
    unfold findExpiredTimer
    split
    · exact h
    rename_i t ht
    split
    · exact h.lists.restart (mem_of_find?_eq_some ht)
    · exact h
  | tick ticks =>
    obtain rfl := some.inj hstep
    have hlists := h.lists
    have harmed := h.armed
    refine ⟨⟨?_, hlists.valid, hlists.sorted, fun t ht => ?_, hlists.unique⟩, ?_, h.bit⟩
    · exact Int.add_nonneg hlists.clock (Int.natCast_nonneg ticks)
    · have hdue := hlists.due t ht
      dsimp only
      omega
    unfold Armed at harmed ⊢
    dsimp only
    split
    · rename_i hnil
      rwa [hnil] at harmed
    rename_i t ts hcons
    rw [hcons] at harmed
    obtain ⟨armed, hle, htimeout⟩ := harmed
    exact ⟨armed, by omega, htimeout⟩
  | expire =>
    rw [WindowTimers.step] at hstep
    cases hpending : q.pending with
    | nil =>
      have harmed := h.armed
      unfold Armed at harmed
      rw [hpending] at harmed
      rw [harmed] at hstep
      nomatch hstep
    | cons t ts =>
      obtain ⟨when, htimeout, hdue⟩ := h.armed.due_iff hpending
      rw [htimeout] at hstep
      obtain ⟨hreached, hcalled⟩ := ite_none_right_eq_some.mp hstep
      unfold timerCallback at hcalled
      rw [hpending] at hcalled
      exact some.inj hcalled ▸ h.lists.expire hpending (hdue.mp hreached)

lemma Start.inv (h : Start q) : Inv q := by
  obtain ⟨hclock, htimeout, hpending, hexpired, hbit⟩ := h
  refine ⟨⟨hclock, ?_, ?_, ?_, ?_⟩, ?_, by rw [hbit, hexpired]; rfl⟩
  · simp [hpending, hexpired]
  · rw [hpending]
    exact Pairwise.nil
  · simp [hexpired]
  · simp [hpending, hexpired]
  · unfold Armed
    rw [hpending]
    exact htimeout

/-- In every state the timers have different keys and are in one list each, the timeout is due when
the first pending timer is, only expired timers are returned, and a restart moves a timer to the
first point of its grid in the future. -/
theorem window_timers (q : Queue) (h : Reachable step Start q) :
    SortedBy Timer.expiry q.pending ∧ ((q.pending ++ q.expired).map Timer.key).Nodup ∧
    (q.timeout = none ↔ q.pending = []) ∧
    (∀ t, q.pending.head? = some t → ∃ armed ≤ q.monotonicTime,
      q.timeout = some (-max t.expiry armed)) ∧
    (∀ win first last remove q' t, findExpiredTimer q win first last remove = (q', some t) →
      t ∈ q.expired ∧ t.expiry ≤ q.monotonicTime) ∧
    ∀ t ∈ q.expired, ∃ k > 0,
      -restartLoop t.rate q.monotonicTime t.when = t.expiry + (k : ℕ) * (t.rate * 10000) ∧
      q.monotonicTime < -restartLoop t.rate q.monotonicTime t.when ∧
      -restartLoop t.rate q.monotonicTime t.when - t.rate * 10000 ≤ q.monotonicTime := by
  have hinv : Inv q := h.invariant (fun _ hs => hs.inv) fun _ _ _ hq _ hstep => hq.step hstep
  have harmed := hinv.armed
  unfold Armed at harmed
  refine ⟨hinv.lists.sorted, hinv.lists.unique, ?_, ?_, ?_, ?_⟩
  · split at harmed
    · rename_i hnil
      exact iff_of_true harmed hnil
    · rename_i hcons
      obtain ⟨armed, _, htimeout⟩ := harmed
      exact iff_of_false (by simp [htimeout]) (by simp [hcons])
  · intro t ht
    split at harmed
    · rename_i hnil
      simp [hnil] at ht
    · rename_i y ys hcons
      rw [hcons] at ht
      exact some.inj ht ▸ harmed
  · intro win first last remove q' t hfound
    unfold findExpiredTimer at hfound
    split at hfound
    · exact nomatch congrArg Prod.snd hfound
    · rename_i t' ht
      obtain rfl := some.inj (congrArg Prod.snd hfound)
      have hmem := mem_of_find?_eq_some ht
      exact ⟨hmem, hinv.lists.due _ hmem⟩
  · intro t ht
    have hrate := (hinv.lists.valid t (mem_append_right _ ht)).2
    obtain ⟨k, hgrid, hafter, hfirst⟩ := restartLoop_spec hrate q.monotonicTime t.when
    obtain ⟨hpos, hclose⟩ := hfirst (hinv.lists.due t ht)
    exact ⟨k, hpos, hgrid, hafter, hclose⟩

def noTimers : Queue := ⟨0, none, [], [], 0x7fff, false⟩

theorem window_timers_expired :
    ∃ q, run step noTimers [.setWinTimer 1 275 5 1 0, .tick 20000, .expire] = some q ∧
      q.expired = [⟨-10000, 1, 1, 275, 5, 0⟩] ∧
      ∃ k > 0, -restartLoop 1 20000 (-10000) = 10000 + (k : ℕ) * ((1 : ℕ) * 10000) := by
  have hstart : Reachable step Start noTimers := .start ⟨by decide, rfl, rfl, rfl, rfl⟩
  have hlast := reachable_of_run hstart [.setWinTimer 1 275 5 1 0, .tick 20000, .expire] rfl
  obtain ⟨k, hpos, hgrid, _⟩ := (window_timers _ hlast).2.2.2.2.2 ⟨-10000, 1, 1, 275, 5, 0⟩
    (mem_singleton.mpr rfl)
  exact ⟨_, rfl, rfl, k, hpos, hgrid⟩

/-- Two timers expire together; for the second one the timeout is added when it has passed. -/
theorem timeout_armed_late :
    ¬∀ q, Reachable step Start q → q.timeout = q.pending.head?.map Timer.when := by
  intro h
  have hstart : Reachable step Start noTimers := .start ⟨by decide, rfl, rfl, rfl, rfl⟩
  have hlast := h _ (reachable_of_run hstart [.setWinTimer 1 275 5 1 0, .setWinTimer 1 275 6 1 0,
    .tick 20000, .expire] rfl)
  exact absurd hlast (by decide)

end WineForge.WindowTimers
