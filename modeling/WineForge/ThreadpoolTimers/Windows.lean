import WineForge.ThreadpoolTimers.Expiry

/-!
# The windows of the timers

An update arms an NT timer for an instant that all windows of its list contain or follow. A timer
that is added behind the head of the list does not cause an update.
-/

namespace WineForge.ThreadpoolTimers

open Function Library List Option

variable {T : Type}

def Armed.notAfter (instant : Nat) : Armed → Prop
  | unset => False
  | atOnce => True
  | .at armed => armed ≤ instant

instance (instant : Nat) : (armed : Armed) → Decidable (armed.notAfter instant)
  | .unset => .isFalse id
  | .atOnce => .isTrue trivial
  | .at armed => inferInstanceAs (Decidable (armed ≤ instant))

def State.deadline (s : State T) (t : T) : Nat := s.timeout t + (s.timer t).windowLength * 10000

def Covers (s : State T) (queue : Queue) : Prop :=
  ∀ t ∈ s.timers queue, (s.armed queue).notAfter (s.deadline t)

variable {s s' : State T} {t u : T} {queue : Queue} {relNow : Nat}

lemma nextTimeoutLoop_le {timer : T → Timer} {ts : List T}
    (hsorted : SortedBy (fun t => (timer t).timeout) ts) {lower upper : Nat}
    (hlower : lower ≤ upper ∨ ∀ t ∈ ts, lower ≤ (timer t).timeout) :
    nextTimeoutLoop timer ts lower upper ≤ max lower upper ∧ ∀ t ∈ ts,
      nextTimeoutLoop timer ts lower upper ≤ (timer t).timeout + (timer t).windowLength * 10000 := by
  induction ts generalizing lower upper with
  | nil => exact ⟨le_max_left _ _, nofun⟩
  | cons x xs ih =>
    obtain ⟨hx, hxs⟩ := pairwise_cons.mp hsorted
    rw [nextTimeoutLoop]
    split
    · refine ⟨le_max_left _ _, fun t ht => ?_⟩
      have hle : (timer x).timeout ≤ (timer t).timeout := hsorted.head_le ht
      have hlower' : lower ≤ (timer t).timeout := by
        cases hlower with
        | inl h => omega
        | inr h => exact h t ht
      omega
    dsimp only
    -- the sum may wrap, which only lowers the bound
    have hwrap : wrap ((timer x).timeout + (timer x).windowLength * 10000) ≤
        (timer x).timeout + (timer x).windowLength * 10000 := Nat.mod_le _ _
    generalize wrap ((timer x).timeout + (timer x).windowLength * 10000) = bound at hwrap ⊢
    have hmin : (if bound < upper then bound else upper) ≤ bound ∧
        (if bound < upper then bound else upper) ≤ upper := by
      split <;> omega
    generalize (if bound < upper then bound else upper) = upper' at hmin ⊢
    have hfirst : (timer x).timeout ≤ upper' ∨ ∀ t ∈ xs, (timer x).timeout ≤ (timer t).timeout :=
      .inr hx
    obtain ⟨hbound, hrest⟩ := ih hxs hfirst
    refine ⟨by omega, fun t ht => ?_⟩
    cases mem_cons.mp ht with
    | inl heq =>
      rw [heq]
      omega
    | inr hmem => exact hrest t hmem

lemma getNextTimeout_le (hsorted : SortedBy s.timeout (s.timers queue)) (ht : t ∈ s.timers queue) :
    getNextTimeout s queue ≤ s.deadline t :=
  (nextTimeoutLoop_le hsorted (.inl (le_refl _))).2 t ht

lemma ntSetTimer_notAfter {timeout : Int} {instant : Nat}
    (h : timeout ≤ instant) (h' : relNow - timeout ≤ instant ∨ 0 ≤ timeout) :
    (ntSetTimer timeout relNow).notAfter instant := by
  unfold ntSetTimer
  split
  · exact Int.toNat_le.mpr h
  split
  · have hsum : relNow + (-timeout).toNat ≤ instant := by omega
    exact hsum
  · exact trivial

lemma covers_updateTimers (h : Linked s) (hcount : s.objcount = 0 → s.timers .rel = [])
    (relNow : Nat) (queue : Queue) : Covers (updateTimers s relNow) queue := by
  intro t ht
  have hnext : (getNextTimeout s queue : Int) ≤ s.deadline t :=
    Int.ofNat_le.mpr (getNextTimeout_le (h.sorted queue) ht)
  cases queue with
  | abs => exact ntSetTimer_notAfter hnext (.inr (Int.natCast_nonneg _))
  | rel =>
    have hcount : s.objcount ≠ 0 := by
      intro hzero
      have ht : t ∈ s.timers .rel := ht
      rw [hcount hzero] at ht
      simp at ht
    have harmed : (updateTimers s relNow).armed .rel = ntSetTimer
        (if getNextTimeout s .rel > relNow then (relNow : Int) - getNextTimeout s .rel else 0)
        relNow := by
      unfold updateTimers
      rw [if_pos hcount]
    rw [harmed]
    apply ntSetTimer_notAfter
    · split <;> omega
    split
    · left
      have hsum : (relNow : Int) - ((relNow : Int) - getNextTimeout s .rel) =
          getNextTimeout s .rel := by omega
      rw [hsum]
      exact hnext
    · exact .inr (Int.le_refl 0)

lemma Covers.mono (h : Covers s queue) (harmed : s'.armed queue = s.armed queue)
    (hmem : ∀ t ∈ s'.timers queue, t ∈ s.timers queue ∧ s'.deadline t = s.deadline t) :
    Covers s' queue := by
  intro t ht
  obtain ⟨hin, hdeadline⟩ := hmem t ht
  rw [harmed, hdeadline]
  exact h t hin

/-- `objcount` counts the initialized timers. -/
structure Counted (s : State T) : Prop where
  nodup : s.objects.Nodup
  objects : ∀ t, t ∈ s.objects ↔ (s.timer t).initialized = true
  objcount : s.objcount = s.objects.length

structure Inv (s : State T) : Prop where
  linked : Linked s
  counted : Counted s
  covers : s.thread = .waiting → ∀ queue, Covers s queue

lemma Counted.of_same (h : Counted s) (hobjects : s'.objects = s.objects)
    (hobjcount : s'.objcount = s.objcount)
    (hinit : ∀ t, (s'.timer t).initialized = (s.timer t).initialized) : Counted s' where
  nodup := hobjects ▸ h.nodup
  objects t := by rw [hobjects, hinit, h.objects]
  objcount := by rw [hobjects, hobjcount, h.objcount]

lemma Counted.timers_eq_nil (h : Counted s) (hlinked : Linked s) (hzero : s.objcount = 0)
    (queue : Queue) : s.timers queue = [] := by
  apply eq_nil_iff_forall_not_mem.mpr
  intro t ht
  have hmem := (h.objects t).mpr (hlinked.initialized t (hlinked.isPending ht))
  have hlength := length_pos_of_mem hmem
  have hcount := h.objcount
  omega

lemma Counted.objcount_ne_zero (h : Counted s) (ht : (s.timer t).initialized = true) :
    s.objcount ≠ 0 := by
  have hlength := length_pos_of_mem ((h.objects t).mpr ht)
  have hcount := h.objcount
  omega

def Timely (s : State T) : Act T → Prop
  | .set t timeout period windowLength relNow _ => s.thread = .waiting → ∀ queue timestamp,
    schedule timeout period relNow = some (queue, timestamp) →
    (∃ other ∈ s.timers queue, other ≠ t ∧ s.timeout other ≤ timestamp) →
    (s.armed queue).notAfter (timestamp + windowLength * 10000)
  | _ => True

lemma Inv.congr (h : Inv s) (hlist : s'.timers = s.timers) (harmed : s'.armed = s.armed)
    (hthread : s'.thread = s.thread) (hcounted : Counted s')
    (hpending : ∀ t, (s'.timer t).pending = (s.timer t).pending)
    (htimer : ∀ t, (s.timer t).pending = true → (s'.timer t).initialized = true ∧
      (s'.timer t).timeout = (s.timer t).timeout ∧
      (s'.timer t).windowLength = (s.timer t).windowLength) : Inv s' := by
  refine ⟨h.linked.congr hlist ?_ hpending ?_, hcounted, fun hwaiting queue => ?_⟩
  · exact fun t ht => (htimer t (hpending t ▸ ht)).2.1
  · exact fun t ht => (htimer t (hpending t ▸ ht)).1
  apply (h.covers (hthread ▸ hwaiting) queue).mono (congrFun harmed queue)
  intro t ht
  rw [hlist] at ht
  obtain ⟨_, htimeout, hwindow⟩ := htimer t (h.linked.isPending ht)
  refine ⟨ht, ?_⟩
  unfold State.deadline State.timeout
  rw [htimeout, hwindow]

lemma inv_initial : Inv (initial : State T) where
  linked := ⟨fun _ => List.Pairwise.nil, fun _ => nodup_nil, nofun,
    fun _ => ⟨nofun, fun ⟨_, hmem⟩ => absurd hmem (by simp [initial])⟩, nofun⟩
  counted := ⟨nodup_nil, fun _ => ⟨fun hmem => absurd hmem (by simp [initial]), nofun⟩, rfl⟩
  covers := nofun

/-- A timer between its removal and its return in `tp_set_timer`. -/
structure Disabled (s : State T) (t : T) (s' : State T) : Prop where
  inv : Inv s'
  initialized : (s'.timer t).initialized = true
  others : ∀ u, u ≠ t → s'.timer u = s.timer u
  mem : ∀ queue u, u ∈ s'.timers queue ↔ u ≠ t ∧ u ∈ s.timers queue
  thread : s'.thread = s.thread
  armed : s'.armed = s.armed

variable {s₁ : State T} {timeout : Option Int} {period windowLength relNow relNow' : Nat}

lemma Disabled.not_mem (h : Disabled s t s₁) (queue : Queue) : t ∉ s₁.timers queue :=
  fun hmem => ((h.mem queue t).mp hmem).1 rfl

lemma Disabled.first (h : Disabled s t s₁) {timestamp : Nat} :
    (∃ other ∈ s₁.timers queue, s₁.timeout other ≤ timestamp) ↔
      ∃ other ∈ s.timers queue, other ≠ t ∧ s.timeout other ≤ timestamp := by
  refine exists_congr fun other => ?_
  rw [h.mem, and_assoc, and_left_comm]
  refine and_congr_right fun _ => and_congr_right fun hne => ?_
  unfold State.timeout
  rw [h.others other hne]

variable [DecidableEq T]

lemma disable_timer_of_ne (s : State T) (hu : u ≠ t) : (s.disable t).timer u = s.timer u := by
  unfold State.disable
  split
  · exact unlink_timer_of_ne s hu
  · rfl

lemma disable_initialized (s : State T) (t u : T) :
    ((s.disable t).timer u).initialized = (s.timer u).initialized := by
  by_cases hu : u = t
  · subst hu
    unfold State.disable
    split
    · rw [unlink_timer_self]
    · rfl
  · rw [disable_timer_of_ne s hu]

lemma Linked.mem_disable (h : Linked s) : u ∈ (s.disable t).timers queue ↔
    u ≠ t ∧ u ∈ s.timers queue := by
  by_cases hu : u = t
  · subst hu
    refine ⟨fun hmem => absurd hmem ?_, fun hmem => absurd rfl hmem.1⟩
    unfold State.disable
    split
    · exact h.not_mem_unlink u queue
    · rename_i hpending
      exact fun hmem => hpending (h.isPending hmem)
  unfold State.disable
  split
  · rw [mem_unlink hu]
    exact ⟨fun hmem => ⟨hu, hmem⟩, fun hmem => hmem.2⟩
  · exact ⟨fun hmem => ⟨hu, hmem⟩, fun hmem => hmem.2⟩

lemma Inv.disable (h : Inv s) (t : T) : Inv (s.disable t) := by
  refine ⟨?_, h.counted.of_same ?_ ?_ (disable_initialized s t), fun hwaiting queue => ?_⟩
  · unfold State.disable
    split
    · exact h.linked.unlink t
    · exact h.linked
  · unfold State.disable
    split <;> rfl
  · unfold State.disable
    split <;> rfl
  have hthread : (s.disable t).thread = s.thread := by
    unfold State.disable
    split <;> rfl
  have harmed : (s.disable t).armed = s.armed := by
    unfold State.disable
    split <;> rfl
  apply (h.covers (hthread ▸ hwaiting) queue).mono (congrFun harmed queue)
  intro u hu
  obtain ⟨hne, hmem⟩ := h.linked.mem_disable.mp hu
  refine ⟨hmem, ?_⟩
  unfold State.deadline State.timeout
  rw [disable_timer_of_ne s hne]

lemma Inv.enableTimer (h : Inv s) (ht : ∀ queue, t ∉ s.timers queue)
    (hinit : (s.timer t).initialized = true) (queue : Queue) (timestamp period windowLength : Nat)
    (htimely : s.thread = .waiting → (∃ other ∈ s.timers queue, s.timeout other ≤ timestamp) →
      (s.armed queue).notAfter (timestamp + windowLength * 10000)) (relNow : Nat) :
    Inv (enableTimer s t queue timestamp period windowLength relNow) := by
  unfold ThreadpoolTimers.enableTimer
  dsimp only
  generalize hnew : ({ s.timer t with
    timeout := timestamp
    period := period
    windowLength := windowLength } : Timer) = new
  have hnewinit : new.initialized = true := by
    rw [← hnew]
    exact hinit
  have hlinked : Linked (s.link queue t new) := h.linked.link ht queue hnewinit
  have hcounted : Counted (s.link queue t new) := by
    refine h.counted.of_same rfl rfl fun u => ?_
    by_cases hu : u = t
    · rw [hu, link_timer_self, hinit]
      exact hnewinit
    · rw [link_timer_of_ne s queue hu]
  split
  · -- the head of the list: all windows are looked at
    refine ⟨hlinked.congr rfl (fun _ _ => rfl) (fun _ => rfl) hlinked.initialized,
      hcounted.of_same rfl rfl fun _ => rfl, fun _ queue' => covers_updateTimers hlinked ?_ relNow queue'⟩
    exact fun hzero => absurd hzero (h.counted.objcount_ne_zero hinit)
  rename_i hhead
  refine ⟨hlinked, hcounted, fun hwaiting queue' u hu => ?_⟩
  obtain ⟨rfl, rfl⟩ | hmem := mem_link.mp hu
  · have hdeadline : (s.link queue' u new).deadline u = timestamp + windowLength * 10000 := by
      unfold State.deadline State.timeout
      rw [link_timer_self, ← hnew]
    rw [hdeadline]
    refine htimely hwaiting ?_
    rw [link_timers_self] at hhead
    obtain ⟨other, hother, hstop⟩ := (head?_insertBefore _ u _).resolve_left hhead
    refine ⟨other, hother, ?_⟩
    have hle := Nat.le_of_not_lt (of_decide_eq_false hstop)
    rw [← hnew] at hle
    exact hle
  · have hne : u ≠ t := by
      rintro rfl
      exact ht queue' hmem
    have hdeadline : (s.link queue t new).deadline u = s.deadline u := by
      unfold State.deadline State.timeout
      rw [link_timer_of_ne s queue hne]
    rw [hdeadline]
    exact h.covers hwaiting queue' u hmem

lemma Inv.setFields (h : Inv s) (t : T) (timer : Timer)
    (hinit : timer.initialized = (s.timer t).initialized)
    (hpending : timer.pending = (s.timer t).pending) (htimeout : timer.timeout = (s.timer t).timeout)
    (hwindow : timer.windowLength = (s.timer t).windowLength) :
    Inv { s with timer := update s.timer t timer } := by
  have hfields : ∀ u, (update s.timer t timer u).initialized = (s.timer u).initialized ∧
      (update s.timer t timer u).pending = (s.timer u).pending ∧
      (update s.timer t timer u).timeout = (s.timer u).timeout ∧
      (update s.timer t timer u).windowLength = (s.timer u).windowLength := by
    intro u
    by_cases hu : u = t
    · subst hu
      rw [update_self]
      exact ⟨hinit, hpending, htimeout, hwindow⟩
    · rw [update_of_ne hu]
      exact ⟨rfl, rfl, rfl, rfl⟩
  refine h.congr rfl rfl rfl (h.counted.of_same rfl rfl fun u => (hfields u).1)
    (fun u => (hfields u).2.1) fun u hu => ⟨?_, (hfields u).2.2⟩
  exact (hfields u).1.trans (h.linked.initialized u hu)

lemma Inv.lock (h : Inv s) (ht : (s.timer t).initialized = false) : Inv (tpTimerqueueLock s t) := by
  have hidle : (s.timer t).pending = false := by
    rw [← Bool.not_eq_true]
    exact fun hpending => Bool.false_ne_true (ht.symm.trans (h.linked.initialized t hpending))
  have hnew : (tpTimerqueueLock s t).timer t = ⟨true, false, false, 0, 0, 0, false⟩ :=
    update_self t _ s.timer
  have hother : ∀ u, u ≠ t → (tpTimerqueueLock s t).timer u = s.timer u :=
    fun u hu => update_of_ne hu _ _
  have hpending : ∀ u, ((tpTimerqueueLock s t).timer u).pending = (s.timer u).pending := by
    intro u
    by_cases hu : u = t
    · rw [hu, hnew, hidle]
    · rw [hother u hu]
  have hsame : ∀ u, ((tpTimerqueueLock s t).timer u).pending = true →
      (tpTimerqueueLock s t).timer u = s.timer u := by
    intro u hu
    apply hother
    rintro rfl
    rw [hnew] at hu
    exact absurd hu (by decide)
  refine ⟨h.linked.congr rfl (fun u hu => congrArg Timer.timeout (hsame u hu)) hpending ?_, ?_, ?_⟩
  · intro u hu
    rw [hsame u hu]
    exact h.linked.initialized u (hpending u ▸ hu)
  · have hnot : t ∉ s.objects := by
      rw [h.counted.objects, ht]
      decide
    refine ⟨nodup_cons.mpr ⟨hnot, h.counted.nodup⟩, fun u => ?_,
      congrArg (· + 1) h.counted.objcount⟩
    by_cases hu : u = t
    · subst hu
      rw [hnew]
      exact ⟨fun _ => rfl, fun _ => mem_cons_self⟩
    · rw [hother u hu, ← h.counted.objects]
      exact mem_cons.trans (or_iff_right hu)
  · intro hwaiting queue
    have hrunning : s.thread ≠ .stopped := by
      intro hstopped
      have hstarts : (tpTimerqueueLock s t).thread = .starting := if_pos hstopped
      exact absurd (hstarts.symm.trans hwaiting) (by decide)
    have hthread : (tpTimerqueueLock s t).thread = s.thread := if_neg hrunning
    have harmed : (tpTimerqueueLock s t).armed = s.armed := if_neg hrunning
    apply (h.covers (hthread ▸ hwaiting) queue).mono (congrFun harmed queue)
    intro u hu
    refine ⟨hu, ?_⟩
    unfold State.deadline State.timeout
    rw [hsame u ((hpending u).trans (h.linked.isPending hu))]

lemma Inv.set_cases (h : Inv s)
    (hset : tpSetTimer s t timeout period windowLength relNow relNow' = some s') :
    ∃ s₁ submitted, Disabled s t s₁ ∧ s' =
      { setTimeout s₁ t timeout period windowLength relNow relNow' with submitted := submitted } := by
  unfold tpSetTimer at hset
  split at hset
  · simp at hset
  rename_i hinit
  have hinit : (s.timer t).initialized = true := (Bool.not_eq_false _).mp hinit
  have hflag := h.setFields t { s.timer t with isSet := timeout.isSome } rfl rfl rfl rfl
  generalize hs₁ : { s with
    timer := update s.timer t { s.timer t with isSet := timeout.isSome } } = s₁
    at hset hflag
  have hdisabled : Disabled s t (s₁.disable t) := by
    constructor
    · exact hflag.disable t
    · rw [disable_initialized, ← hs₁]
      exact (congrArg Timer.initialized (update_self t _ s.timer)).trans hinit
    · intro u hu
      rw [disable_timer_of_ne s₁ hu, ← hs₁]
      exact update_of_ne hu _ _
    · intro queue u
      rw [hflag.linked.mem_disable, ← hs₁]
    · rw [← hs₁]
      unfold State.disable
      split <;> rfl
    · rw [← hs₁]
      unfold State.disable
      split <;> rfl
  refine ⟨s₁.disable t, s'.submitted, hdisabled, ?_⟩
  rw [← some.inj hset]
  split <;> rfl

lemma Inv.set (h : Inv s) (htimely : Timely s (.set t timeout period windowLength relNow relNow'))
    (hset : tpSetTimer s t timeout period windowLength relNow relNow' = some s') : Inv s' := by
  obtain ⟨s₁, submitted, hdisabled, rfl⟩ := h.set_cases hset
  have hinv : Inv (setTimeout s₁ t timeout period windowLength relNow relNow') := by
    unfold setTimeout
    split
    · exact hdisabled.inv
    rename_i queue timestamp hschedule
    refine hdisabled.inv.enableTimer hdisabled.not_mem hdisabled.initialized queue timestamp period
      windowLength ?_ relNow'
    rw [hdisabled.thread, hdisabled.armed, hdisabled.first]
    exact fun hwaiting => htimely hwaiting queue timestamp hschedule
  exact hinv.congr rfl rfl rfl (hinv.counted.of_same rfl rfl fun _ => rfl) (fun _ => rfl)
    fun u hu => ⟨hinv.linked.initialized u hu, rfl, rfl⟩

lemma Inv.unlock (h : Inv s) (hunlock : tpTimerqueueUnlock s t relNow = some s') : Inv s' := by
  unfold tpTimerqueueUnlock at hunlock
  split at hunlock
  · exact (some.inj hunlock) ▸ h
  rename_i hinit
  have hinit : (s.timer t).initialized = true := (Bool.not_eq_false _).mp hinit
  have hdisable := h.disable t
  have hidle : ∀ queue, t ∉ (s.disable t).timers queue :=
    fun queue hmem => (h.linked.mem_disable.mp hmem).1 rfl
  have hinit' : ((s.disable t).timer t).initialized = true :=
    (disable_initialized s t t).trans hinit
  generalize s.disable t = s₁ at hunlock hdisable hidle hinit'
  dsimp only at hunlock
  have hnot : (s₁.timer t).pending = false := by
    rw [← Bool.not_eq_true, hdisable.linked.pending t]
    exact fun ⟨queue, hmem⟩ => hidle queue hmem
  have hself : update s₁.timer t { s₁.timer t with initialized := false } t =
      { s₁.timer t with initialized := false } := update_self t _ s₁.timer
  have hother : ∀ u, u ≠ t →
      update s₁.timer t { s₁.timer t with initialized := false } u = s₁.timer u :=
    fun u hu => update_of_ne hu _ _
  have hpending : ∀ u, (update s₁.timer t { s₁.timer t with initialized := false } u).pending =
        (s₁.timer u).pending := by
    intro u
    by_cases hu : u = t
    · rw [hu, hself]
    · rw [hother u hu]
  have hsame : ∀ u,
      (update s₁.timer t { s₁.timer t with initialized := false } u).pending = true →
      update s₁.timer t { s₁.timer t with initialized := false } u = s₁.timer u := by
    intro u hu
    apply hother
    rintro rfl
    rw [hself, hnot] at hu
    exact absurd hu (by decide)
  have hmem : t ∈ s₁.objects := (hdisable.counted.objects t).mpr hinit'
  have hnodup : (s₁.objects.erase t).Nodup := hdisable.counted.nodup.erase t
  have hobjects : ∀ u, u ∈ s₁.objects.erase t ↔
      (update s₁.timer t { s₁.timer t with initialized := false } u).initialized = true := by
    intro u
    by_cases hu : u = t
    · rw [hu, hself]
      exact ⟨fun hin => absurd hin hdisable.counted.nodup.not_mem_erase, nofun⟩
    · rw [hother u hu, ← hdisable.counted.objects]
      exact mem_erase_of_ne hu
  have hobjcount : s₁.objcount - 1 = (s₁.objects.erase t).length := by
    rw [length_erase_of_mem hmem, hdisable.counted.objcount]
  have hlinked : ∀ s₂ : State T, s₂.timers = s₁.timers →
      s₂.timer = update s₁.timer t { s₁.timer t with initialized := false } →
      Linked s₂ := by
    intro s₂ htimers htimer
    refine hdisable.linked.congr htimers ?_ ?_ ?_
    · rw [htimer]
      exact fun u hu => congrArg Timer.timeout (hsame u hu)
    · rw [htimer]
      exact hpending
    rw [htimer]
    intro u hu
    rw [hsame u hu]
    exact hdisable.linked.initialized u (hpending u ▸ hu)
  split at hunlock
  · split at hunlock
    · rename_i hempty
      cases hunlock
      refine ⟨hlinked _ rfl rfl, ⟨hnodup, hobjects, hobjcount⟩, fun _ queue u hu => ?_⟩
      have hnil : s₁.timers queue = [] := by
        cases queue
        · exact hempty.1
        · exact hempty.2
      have hu : u ∈ s₁.timers queue := hu
      rw [hnil] at hu
      simp at hu
    · simp at hunlock
  · cases hunlock
    refine ⟨hlinked _ rfl rfl, ⟨hnodup, hobjects, hobjcount⟩, fun hwaiting queue => ?_⟩
    refine (hdisable.covers hwaiting queue).mono ?_ fun u hu => ⟨hu, ?_⟩
    · rfl
    · unfold State.deadline State.timeout
      dsimp only
      rw [hother u fun heq => hidle queue (heq ▸ hu)]

lemma Inv.threadPass (h : Inv s) {fuel absNow : Nat}
    (hpass : threadPass fuel s absNow relNow = some s') : Inv s' := by
  obtain ⟨s₁, habs, hpass⟩ := bind_eq_some_iff.mp hpass
  obtain ⟨s₂, hrel, hpass⟩ := bind_eq_some_iff.mp hpass
  obtain ⟨hsubmitted, _⟩ := (submitExpiredTimers_spec (.inl rfl) fuel h.linked).1 s₁ habs
  obtain ⟨hsubmitted', _⟩ := (submitExpiredTimers_spec (.inr rfl) fuel hsubmitted.linked).1 s₂ hrel
  have hcounted : Counted s₂ := h.counted.of_same (hsubmitted'.objects.trans hsubmitted.objects)
    (hsubmitted'.objcount.trans hsubmitted.objcount)
    fun u => (hsubmitted'.initialized u).trans (hsubmitted.initialized u)
  cases hpass
  refine ⟨hsubmitted'.linked.congr rfl (fun _ _ => rfl) (fun _ => rfl) hsubmitted'.linked.initialized,
    hcounted.of_same rfl rfl fun _ => rfl, fun _ queue => ?_⟩
  exact covers_updateTimers hsubmitted'.linked
    (fun hzero => hcounted.timers_eq_nil hsubmitted'.linked hzero .rel) relNow queue

/-- Where a timer is added behind another one and is due before the NT timer fires, the NT timer
stays as it is. -/
lemma not_covers_enableTimer (h : Linked s) (ht : ∀ queue, t ∉ s.timers queue)
    {timestamp : Nat} (period : Nat)
    (hfirst : ∃ other ∈ s.timers queue, s.timeout other ≤ timestamp)
    (hlate : ¬ (s.armed queue).notAfter (timestamp + windowLength * 10000)) (relNow : Nat) :
    ¬ Covers (enableTimer s t queue timestamp period windowLength relNow) queue := by
  unfold enableTimer
  generalize hnew : ({ s.timer t with
    timeout := timestamp
    period := period
    windowLength := windowLength } : Timer) = new
  have hhead : ((s.link queue t new).timers queue).head? ≠ some t := by
    obtain ⟨other, hother, hle⟩ := hfirst
    rw [link_timers_self]
    have hsorted := h.sorted queue
    cases hlist : s.timers queue with
    | nil =>
      rw [hlist] at hother
      simp at hother
    | cons first rest =>
      rw [hlist] at hother hsorted
      have hstop : ¬ decide (new.timeout < (s.timer first).timeout) = true := by
        have hlow : s.timeout first ≤ s.timeout other := hsorted.head_le hother
        have hlow : (s.timer first).timeout ≤ new.timeout := by
          rw [← hnew]
          exact hlow.trans hle
        rw [decide_eq_true_eq]
        exact Nat.not_lt.mpr hlow
      rw [insertBefore, if_neg hstop]
      intro heq
      have hmem : t ∈ s.timers queue := by
        rw [hlist, ← some.inj heq]
        exact mem_cons_self
      exact ht queue hmem
  rw [if_neg hhead]
  intro hcovers
  apply hlate
  have hdeadline : (s.link queue t new).deadline t = timestamp + windowLength * 10000 := by
    unfold State.deadline State.timeout
    rw [link_timer_self, ← hnew]
  rw [← hdeadline]
  exact hcovers t (mem_link.mpr (.inl ⟨rfl, rfl⟩))

lemma Inv.timely (h : Inv s)
    (hset : tpSetTimer s t timeout period windowLength relNow relNow' = some s')
    (hcovers : ∀ queue, Covers s' queue) :
    Timely s (.set t timeout period windowLength relNow relNow') := by
  intro hwaiting queue timestamp hschedule hfirst
  by_contra hlate
  obtain ⟨s₁, submitted, hdisabled, rfl⟩ := h.set_cases hset
  rw [← hdisabled.first] at hfirst
  rw [← hdisabled.armed] at hlate
  have hnot := not_covers_enableTimer hdisabled.inv.linked hdisabled.not_mem period hfirst hlate
    relNow'
  unfold setTimeout at hcovers
  rw [hschedule] at hcovers
  exact hnot (hcovers queue)

lemma Disabled.setTimeout_thread (h : Disabled s t s₁) (timeout : Option Int)
    (period windowLength relNow relNow' : Nat) :
    (setTimeout s₁ t timeout period windowLength relNow relNow').thread = s.thread := by
  rw [← h.thread]
  unfold setTimeout
  split
  · rfl
  · unfold enableTimer
    dsimp only
    split <;> rfl

lemma Inv.step (h : Inv s) {a : Act T} (htimely : Timely s a) (hstep : step s a = some s') :
    Inv s' := by
  cases a with
  | lock t =>
    unfold ThreadpoolTimers.step at hstep
    dsimp only at hstep
    split at hstep
    · rename_i hnew
      cases hstep
      exact h.lock hnew
    · simp at hstep
  | set t timeout period windowLength relNow relNow' => exact h.set htimely hstep
  | unlock t relNow => exact h.unlock hstep
  | shutDown t =>
    cases hstep
    exact h.setFields t _ rfl rfl rfl rfl
  | thread fuel absNow relNow =>
    unfold ThreadpoolTimers.step at hstep
    dsimp only at hstep
    split at hstep
    · simp at hstep
    split at hstep
    · simp at hstep
    · exact h.threadPass hstep
    split at hstep
    · cases hstep
      exact ⟨h.linked.congr rfl (fun _ _ => rfl) (fun _ => rfl) h.linked.initialized,
        h.counted.of_same rfl rfl fun _ => rfl, nofun⟩
    · exact h.threadPass hstep

lemma inv_of_reaches (h : Reaches step Timely (· = initial) s) : Inv s :=
  h.invariant (fun _ hs => hs ▸ inv_initial) fun _ _ _ hinv htimely hstep => hinv.step htimely hstep

/-- What `submit_expired_timers` does. -/
structure Submits (queue : Queue) (queueNow relNow : Nat) (s s' : State T) : Prop where
  once : s'.submitted = s.submitted ++ expired s queue queueNow ∧ (expired s queue queueNow).Nodup
  recurring : ∀ t ∈ expired s queue queueNow, (s.timer t).period ≠ 0 ∧ (s.timer t).shutdown = false →
    t ∈ s'.timers .rel ∧ relNow < s'.timeout t
  done : ∀ t ∈ expired s queue queueNow, ¬ ((s.timer t).period ≠ 0 ∧ (s.timer t).shutdown = false) →
    (s'.timer t).pending = false
  all : expired s' queue queueNow = []

/-- What holds while the lock is free. -/
structure Safe (s : State T) : Prop where
  sorted : ∀ queue, (s.timers queue).Pairwise fun t u => s.timeout t ≤ s.timeout u
  nodup : ∀ queue, (s.timers queue).Nodup
  disjoint : ∀ t, t ∈ s.timers .abs → t ∉ s.timers .rel
  pending : ∀ t, (s.timer t).pending = true ↔ ∃ queue, t ∈ s.timers queue
  armed : s.thread = .waiting → ∀ queue, ∀ t ∈ s.timers queue,
    (s.armed queue).notAfter (s.timeout t + (s.timer t).windowLength * 10000)
  /-- Both loops of the next section of the thread end. -/
  expiry : ∀ absNow relNow, relNow ≤ maxLongLong → ∃ s₁ s₂,
    (∃ fuel, submitExpiredTimers .abs absNow relNow fuel s = some s₁) ∧
    (∃ fuel, submitExpiredTimers .rel relNow relNow fuel s₁ = some s₂) ∧
    Submits .abs absNow relNow s s₁ ∧ Submits .rel relNow relNow s₁ s₂

lemma Linked.submits (h : Linked s) {queue : Queue} (queueNow relNow : Nat)
    (hnow : queue = .abs ∨ queueNow = relNow) :
    ∃ s', (∃ fuel, submitExpiredTimers queue queueNow relNow fuel s = some s') ∧
      Submits queue queueNow relNow s s' ∧ Linked s' := by
  obtain ⟨hspec, hends⟩ :=
    submitExpiredTimers_spec hnow ((expired s queue queueNow).length + 1) h
  obtain ⟨s', hs'⟩ := Option.isSome_iff_exists.mp (hends (Nat.lt_succ_self _))
  obtain ⟨hsubmitted, hall⟩ := hspec s' hs'
  exact ⟨s', ⟨_, hs'⟩, ⟨⟨hsubmitted.submitted, (h.nodup queue).filter _⟩, hsubmitted.recurring,
    hsubmitted.done, hall⟩, hsubmitted.linked⟩

lemma Inv.safe (h : Inv s) : Safe s where
  sorted := h.linked.sorted
  nodup := h.linked.nodup
  disjoint := h.linked.disjoint
  pending := h.linked.pending
  armed := h.covers
  expiry absNow relNow _ := by
    obtain ⟨s₁, habs, hsubmits, hlinked⟩ := h.linked.submits absNow relNow (.inl rfl)
    obtain ⟨s₂, hrel, hsubmits', _⟩ := hlinked.submits relNow relNow (.inr rfl)
    exact ⟨s₁, s₂, habs, hrel, hsubmits, hsubmits'⟩

/-- In a run that adds timers behind the head of a list only where the NT timer fires in time for
them, all is well; and each other addition makes the NT timer late. -/
theorem timers_in_window (s : State T) (h : Reaches step Timely (· = initial) s) :
    Safe s ∧ ∀ t timeout period windowLength relNow relNow' s', s.thread = .waiting →
      step s (.set t timeout period windowLength relNow relNow') = some s' →
      ((∀ queue, Covers s' queue) ↔ Timely s (.set t timeout period windowLength relNow relNow')) := by
  have hinv := inv_of_reaches h
  refine ⟨hinv.safe, fun t timeout period windowLength relNow relNow' s' hwaiting hstep =>
    ⟨hinv.timely hstep, fun htimely => ?_⟩⟩
  apply (hinv.step htimely hstep).covers
  obtain ⟨s₁, submitted, hdisabled, rfl⟩ := hinv.set_cases hstep
  exact (hdisabled.setTimeout_thread timeout period windowLength relNow relNow').trans hwaiting

def twoTimers : List (Act Nat) := [.lock 0, .lock 1, .lock 2, .thread 1 0 0,
  .set 0 (some 9000) 0 0 0 0, .set 1 (some 100) 0 1 0 0]

theorem timers_in_window_later : ∃ s : State Nat,
    run step initial (twoTimers ++ [.set 2 (some 9500) 0 0 0 0]) = some s ∧ Safe s := by
  have hgood : Guarded step Timely (initial : State Nat)
      (twoTimers ++ [.set 2 (some 9500) 0 0 0 0]) := by
    refine And.intro trivial (And.intro trivial (And.intro trivial (And.intro trivial
      (And.intro ?_ (And.intro ?_ (And.intro ?_ trivial))))))
    · rintro _ queue timestamp hschedule ⟨other, hmem, _⟩
      cases hschedule
      have hmem : other ∈ ([] : List Nat) := hmem
      simp at hmem
    · rintro _ queue timestamp hschedule ⟨other, hmem, _, hle⟩
      cases hschedule
      rw [mem_singleton.mp hmem] at hle
      exact absurd hle (by decide)
    · rintro _ queue timestamp hschedule _
      cases hschedule
      decide
  exact ⟨_, rfl, (timers_in_window _ (Reaches.run (.start rfl) _ hgood rfl)).1⟩

/-- A third timer in between, without a window: the NT timer stays armed for the last one. -/
theorem third_timer_late : ∃ s : State Nat,
    run step initial (twoTimers ++ [.set 2 (some 500) 0 0 0 0]) = some s ∧ s.thread = .waiting ∧
      ¬ Covers s .abs := by
  have hrun : (run step initial (twoTimers ++ [.set 2 (some 500) 0 0 0 0])).map (fun s : State Nat =>
      (s.thread, s.timers .abs, s.armed .abs, s.timer 2)) =
      some (.waiting, [1, 2, 0], .at 9000, ⟨true, true, true, 500, 0, 0, false⟩) := by
    decide +kernel
  obtain ⟨s, hs, heq⟩ := map_eq_some_iff.mp hrun
  simp only [Prod.mk.injEq] at heq
  obtain ⟨hthread, htimers, harmed, htimer⟩ := heq
  refine ⟨s, hs, hthread, fun hcovers => ?_⟩
  have hlate := hcovers 2 (by rw [htimers]; decide)
  unfold State.deadline State.timeout at hlate
  rw [harmed, htimer] at hlate
  exact absurd hlate (by decide)

end WineForge.ThreadpoolTimers
