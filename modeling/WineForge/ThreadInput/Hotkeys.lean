import WineForge.Library.Transition

/-!
# Hotkeys

A hotkey is listed on the desktop that its thread has at the time, and is looked for on the desktop
of the input of its queue when the queue is destroyed.
-/

namespace WineForge.Hotkeys

open Function Library List Option

/-- `struct hotkey`. A thread has at most one queue in its life, so that the pointer to the queue is
named by the thread; a null pointer has no name. -/
structure Hotkey (T W : Type) where
  queue : Option T
  win : Option W
  id : ℕ
  vkey : ℕ
  flags : ℕ
  deriving DecidableEq, Repr

/-- The threads with their queues and windows, and the hotkeys of the desktops. -/
structure State (T D W : Type) where
  alive : T → Bool
  desktop : T → Option D
  hasQueue : T → Bool
  /-- The desktop of the input of a queue. -/
  input : T → D
  /-- There are handles to a queue. -/
  held : T → Bool
  /-- The thread of a window and its desktop. -/
  window : W → Option (T × D)
  hotkeys : D → List (Hotkey T W)

variable {T D W : Type} [DecidableEq T] [DecidableEq D] [DecidableEq W]

/-- `MOD_ALT|MOD_CONTROL|MOD_SHIFT|MOD_WIN`. -/
def modifierFlags (flags : ℕ) : ℕ := flags &&& 15

/-- Changes the last entry that `p` holds of, if there is one. -/
def replaceLast {α : Type} (p : α → Bool) (f : α → α) : List α → Option (List α)
  | [] => none
  | a :: as =>
    match replaceLast p f as with
    | some as => some (a :: as)
    | none => if p a then some (f a :: as) else none

def mayUse (s : State T D W) (t : T) : Option W → Bool
  | none => true
  | some w => (s.window w).any fun owner => owner.1 = t

/-- `current->queue`. -/
def currentQueue (s : State T D W) (t : T) : Option T := if s.hasQueue t then some t else none

def matchesHotkey (queue : Option T) (win : Option W) (id : ℕ) (h : Hotkey T W) : Bool :=
  h.queue = queue ∧ h.win = win ∧ h.id = id

def registered (vkey flags : ℕ) (hotkeys : List (Hotkey T W)) : Bool :=
  hotkeys.any fun h => vkey = h.vkey ∧ modifierFlags flags = modifierFlags h.flags

def setHotkeys (s : State T D W) (d : D) (hotkeys : List (Hotkey T W)) : State T D W :=
  { s with hotkeys := update s.hotkeys d hotkeys }

def registerHotkey (s : State T D W) (t : T) (win : Option W) (id vkey flags : ℕ) : State T D W :=
  match s.desktop t with
  | none => s
  | some d =>
    if mayUse s t win && !registered vkey flags (s.hotkeys d) then
      let found := matchesHotkey (currentQueue s t) win id
      match replaceLast found (fun h => { h with flags := flags, vkey := vkey }) (s.hotkeys d) with
      | some hotkeys => setHotkeys s d hotkeys
      | none => setHotkeys s d (s.hotkeys d ++ [⟨currentQueue s t, win, id, vkey, flags⟩])
    else s

def unregisterHotkey (s : State T D W) (t : T) (win : Option W) (id : ℕ) : State T D W :=
  match s.desktop t with
  | none => s
  | some d =>
    if mayUse s t win then
      setHotkeys s d ((s.hotkeys d).eraseP (matchesHotkey (currentQueue s t) win id))
    else s

/-- The hotkey that `queue_hotkey_message` puts its message into the queue of. -/
def queueHotkeyMessage (s : State T D W) (d : D) (vkey modifiers : ℕ) : Option (Hotkey T W) :=
  (s.hotkeys d).find? fun h => h.vkey = vkey ∧ modifierFlags h.flags = modifiers

/-- `free_hotkeys` for a window. -/
def destroyWindow (s : State T D W) (w : W) : State T D W :=
  match s.window w with
  | none => s
  | some (_, d) =>
    let s := setHotkeys s d ((s.hotkeys d).filter fun h => h.win ≠ some w)
    { s with window := update s.window w none }

def withoutWindows (s : State T D W) (t : T) (d : D) : List (Hotkey T W) :=
  (s.hotkeys d).filter fun h => h.win.all fun w => s.window w ≠ some (t, d)

def msgQueueDestroy (s : State T D W) (t : T) : State T D W :=
  setHotkeys s (s.input t) ((s.hotkeys (s.input t)).filter fun h => h.queue ≠ some t)

/-- `cleanup_thread`. The queue is destroyed if there are no handles to it. -/
def cleanupThread (s : State T D W) (t : T) : State T D W :=
  let s' := { s with
    alive := update s.alive t false
    desktop := update s.desktop t none
    hasQueue := update s.hasQueue t false
    hotkeys := withoutWindows s t
    window := fun w => (s.window w).filter fun owner => owner.1 ≠ t }
  if s.hasQueue t ∧ ¬s.held t then msgQueueDestroy s' t else s'

/-- `detach_thread_input` follows the change of desktop, also where the thread stays because its
desktop is busy. -/
def setThreadDesktop (s : State T D W) (t : T) (d : D) (busy : Bool) : State T D W :=
  if s.desktop t = some d then s
  else
    { s with
      desktop := if busy then s.desktop else update s.desktop t (some d)
      input := if s.hasQueue t then update s.input t d else s.input }

/-- `closeQueue` closes the last handle to a queue. -/
inductive Op (T D W : Type)
  | start (t : T) (d : Option D)
  | createQueue (t : T)
  | createWindow (t : T) (w : W) (d : D)
  | destroyWindow (w : W)
  | register (t : T) (win : Option W) (id vkey flags : ℕ)
  | unregister (t : T) (win : Option W) (id : ℕ)
  | setDesktop (t : T) (d : D) (busy : Bool)
  /-- The queue is attached to another input, or detached. -/
  | assignInput (t : T) (d : D)
  | openQueue (t : T)
  | closeQueue (t : T)
  | destroyDesktop (d : D)
  | exit (t : T)

def step (s : State T D W) : Op T D W → Option (State T D W)
  | .start t d =>
    if s.alive t ∨ s.held t then none
    else
      some { s with
        alive := update s.alive t true
        desktop := update s.desktop t d
        hasQueue := update s.hasQueue t false }
  | .createQueue t =>
    (s.desktop t).bind fun d =>
      if ¬s.alive t ∨ s.hasQueue t then none
      else
        some { s with
          hasQueue := update s.hasQueue t true
          input := update s.input t d }
  | .createWindow t w d =>
    if s.alive t ∧ s.hasQueue t ∧ s.window w = none then
      some { s with window := update s.window w (some (t, d)) }
    else none
  | .destroyWindow w => some (destroyWindow s w)
  | .register t win id vkey flags =>
    if s.alive t then some (registerHotkey s t win id vkey flags) else none
  | .unregister t win id => if s.alive t then some (unregisterHotkey s t win id) else none
  | .setDesktop t d busy => if s.alive t then some (setThreadDesktop s t d busy) else none
  | .assignInput t d => some { s with input := update s.input t d }
  | .openQueue t =>
    if s.alive t ∧ s.hasQueue t then some { s with held := update s.held t true }
    else none
  | .closeQueue t =>
    let s' := { s with held := update s.held t false }
    some (if s.alive t then s' else msgQueueDestroy s' t)
  | .destroyDesktop d => some (setHotkeys s d [])
  | .exit t => if s.alive t then some (cleanupThread s t) else none

def Start (s : State T D W) : Prop := ∀ d, s.hotkeys d = []

def Served (s : State T D W) (h : Hotkey T W) : Prop :=
  ∃ t, h.queue = some t ∧ s.alive t ∧ s.hasQueue t

def Good (s : State T D W) : Prop := ∀ d, ∀ h ∈ s.hotkeys d, Served s h

/-- A thread that registers has a queue. When a thread exits, its hotkeys go with its windows or are
on the desktop of its input, and its queue goes with it. -/
def Sound (s : State T D W) : Op T D W → Prop
  | .register t win _ vkey flags =>
    ∀ d, s.desktop t = some d → mayUse s t win → ¬registered vkey flags (s.hotkeys d) →
      s.hasQueue t
  | .exit t =>
    ∀ d, ∀ h ∈ withoutWindows s t d, h.queue = some t → d = s.input t ∧ ¬s.held t
  | _ => True

omit [DecidableEq T] [DecidableEq D] [DecidableEq W] in
lemma Good.shrink {s s' : State T D W} (h : Good s) (halive : s'.alive = s.alive)
    (hqueue : s'.hasQueue = s.hasQueue) (hsub : ∀ d, ∀ x ∈ s'.hotkeys d, x ∈ s.hotkeys d) :
    Good s' := by
  intro d x hx
  unfold Served
  rw [halive, hqueue]
  exact h d x (hsub d x hx)

variable {s : State T D W}

omit [DecidableEq T] [DecidableEq W] in
lemma setHotkeys_sub {d : D} {hotkeys : List (Hotkey T W)}
    (h : ∀ x ∈ hotkeys, x ∈ s.hotkeys d) (d' : D) :
    ∀ x ∈ (setHotkeys s d hotkeys).hotkeys d', x ∈ s.hotkeys d' := by
  unfold setHotkeys
  by_cases heq : d' = d
  · subst heq
    simpa using h
  · simp [heq]

lemma mem_replaceLast {α : Type} {p : α → Bool} {f : α → α} {as as' : List α}
    (h : replaceLast p f as = some as') {b : α} (hb : b ∈ as') : b ∈ as ∨ ∃ a ∈ as, b = f a := by
  induction as generalizing as' with
  | nil => nomatch h
  | cons a as ih =>
    unfold replaceLast at h
    cases hrest : replaceLast p f as with
    | some rest =>
      rw [hrest] at h
      obtain rfl := some.inj h
      obtain rfl | hb := mem_cons.mp hb
      · exact .inl mem_cons_self
      · obtain hb | ⟨x, hx, rfl⟩ := ih hrest hb
        · exact .inl (mem_cons_of_mem a hb)
        · exact .inr ⟨x, mem_cons_of_mem a hx, rfl⟩
    | none =>
      rw [hrest] at h
      dsimp only at h
      split at h
      · obtain rfl := some.inj h
        obtain rfl | hb := mem_cons.mp hb
        · exact .inr ⟨a, mem_cons_self, rfl⟩
        · exact .inl (mem_cons_of_mem a hb)
      · nomatch h

lemma exists_of_replaceLast {α : Type} {p : α → Bool} {f : α → α} {as as' : List α}
    (h : replaceLast p f as = some as') : ∃ a ∈ as, p a := by
  induction as generalizing as' with
  | nil => nomatch h
  | cons a as ih =>
    unfold replaceLast at h
    cases hrest : replaceLast p f as with
    | some rest =>
      obtain ⟨x, hx, hp⟩ := ih hrest
      exact ⟨x, mem_cons_of_mem a hx, hp⟩
    | none =>
      rw [hrest] at h
      dsimp only at h
      split at h
      · exact ⟨a, mem_cons_self, by assumption⟩
      · nomatch h

omit [DecidableEq D] [DecidableEq W] [DecidableEq T] in
lemma served_current {t : T} (halive : s.alive t) (h : Hotkey T W)
    (hqueue : h.queue = currentQueue s t) : Served s h ↔ s.hasQueue t := by
  unfold Served
  rw [hqueue, currentQueue]
  split
  · rename_i hhas
    exact iff_of_true ⟨t, rfl, halive, hhas⟩ hhas
  · rename_i hhas
    exact iff_of_false nofun hhas

lemma registerHotkey_good_iff (h : Good s) {t : T} (halive : s.alive t)
    (win : Option W) (id vkey flags : ℕ) :
    Good (registerHotkey s t win id vkey flags) ↔ Sound s (.register t win id vkey flags) := by
  unfold registerHotkey
  split
  · rename_i hnone
    refine iff_of_true h fun d hd => ?_
    cases hnone.symm.trans hd
  rename_i d hd
  have hsound : Sound s (.register t win id vkey flags) ↔
      (mayUse s t win → ¬registered vkey flags (s.hotkeys d) → s.hasQueue t) := by
    constructor
    · exact fun hall => hall d hd
    · intro hone d' hd'
      exact some.inj (hd.symm.trans hd') ▸ hone
  rw [hsound]
  split
  · rename_i hmay
    obtain ⟨huse, hfree⟩ := Bool.and_eq_true_iff.mp hmay
    have hfree : ¬registered vkey flags (s.hotkeys d) = true := by simpa using hfree
    dsimp only
    split
    · rename_i hotkeys hreplaced
      obtain ⟨x, hx, hmatch⟩ := exists_of_replaceLast hreplaced
      have hqueue := (of_decide_eq_true hmatch).1
      have hhas := (served_current halive x hqueue).mp (h d x hx)
      refine iff_of_true (fun d' y hy => ?_) fun _ _ => hhas
      by_cases heq : d' = d
      · subst heq
        obtain hy | ⟨a, ha, rfl⟩ := mem_replaceLast hreplaced (by simpa [setHotkeys] using hy)
        · exact h _ y hy
        · exact h _ a ha
      · exact h d' y (by simpa [setHotkeys, heq] using hy)
    · have hnew := served_current halive ⟨currentQueue s t, win, id, vkey, flags⟩ rfl
      constructor
      · intro hgood _ _
        exact hnew.mp (hgood d _ (by simp [setHotkeys]))
      · intro hhas d' y hy
        by_cases heq : d' = d
        · subst heq
          simp only [setHotkeys, update_self] at hy
          obtain hy | hy := mem_append.mp hy
          · exact h _ y hy
          · rw [mem_singleton.mp hy]
            exact hnew.mpr (hhas huse hfree)
        · exact h d' y (by simpa [setHotkeys, heq] using hy)
  · rename_i hmay
    refine iff_of_true h fun huse hfree => absurd ?_ hmay
    simp [huse, hfree]

omit [DecidableEq W] in
lemma mem_cleanupThread {t : T} {d : D} {x : Hotkey T W} :
    x ∈ (cleanupThread s t).hotkeys d ↔ x ∈ withoutWindows s t d ∧
      ¬(d = s.input t ∧ s.hasQueue t ∧ ¬s.held t ∧ x.queue = some t) := by
  unfold cleanupThread
  split
  · rename_i hdestroyed
    unfold msgQueueDestroy setHotkeys
    by_cases heq : d = s.input t
    · subst heq
      simp [hdestroyed]
    · simp [heq]
  · rename_i hstays
    refine ⟨fun hx => ⟨hx, fun hgone => hstays ⟨hgone.2.1, hgone.2.2.1⟩⟩, And.left⟩

omit [DecidableEq W] in
lemma cleanupThread_good_iff (h : Good s) (t : T) :
    Good (cleanupThread s t) ↔ Sound s (.exit t) := by
  have halive : (cleanupThread s t).alive = update s.alive t false := by
    unfold cleanupThread msgQueueDestroy
    split <;> rfl
  have hqueue : (cleanupThread s t).hasQueue = update s.hasQueue t false := by
    unfold cleanupThread msgQueueDestroy
    split <;> rfl
  constructor
  · intro hgood d x hx hx'
    by_contra hstays
    have hmem : x ∈ (cleanupThread s t).hotkeys d :=
      mem_cleanupThread.mpr ⟨hx, fun hgone => hstays ⟨hgone.1, hgone.2.2.1⟩⟩
    obtain ⟨t', ht', hlive, _⟩ := hgood d x hmem
    rw [halive, some.inj (hx'.symm.trans ht')] at hlive
    simp at hlive
  · intro hsound d x hx
    obtain ⟨hx, hstays⟩ := mem_cleanupThread.mp hx
    obtain ⟨t', ht', hlive, hhas⟩ := h d x (mem_filter.mp hx).1
    have hne : t' ≠ t := by
      rintro rfl
      obtain ⟨hd, hheld⟩ := hsound d x hx ht'
      exact hstays ⟨hd, hhas, hheld, ht'⟩
    refine ⟨t', ht', ?_, ?_⟩
    · rwa [halive, update_of_ne hne]
    · rwa [hqueue, update_of_ne hne]

lemma step_good_iff {s s' : State T D W} {op : Op T D W} (h : Good s)
    (hstep : step s op = some s') : Good s' ↔ Sound s op := by
  cases op with
  | register t win id vkey flags =>
    obtain ⟨halive, ⟨⟩⟩ := ite_none_right_eq_some.mp hstep
    exact registerHotkey_good_iff h halive win id vkey flags
  | exit t =>
    obtain ⟨_, ⟨⟩⟩ := ite_none_right_eq_some.mp hstep
    exact cleanupThread_good_iff h t
  | start t d =>
    obtain ⟨hdead, hs⟩ := ite_none_left_eq_some.mp hstep
    obtain rfl := some.inj hs
    refine iff_of_true (fun d x hx => ?_) trivial
    obtain ⟨t', ht', hlive, hhas⟩ := h d x hx
    have hne : t' ≠ t := by
      rintro rfl
      exact hdead (.inl hlive)
    exact ⟨t', ht', by simpa [hne] using hlive, by simpa [hne] using hhas⟩
  | createQueue t =>
    obtain ⟨d, _, hs⟩ := bind_eq_some_iff.mp hstep
    obtain ⟨_, hs⟩ := ite_none_left_eq_some.mp hs
    obtain rfl := some.inj hs
    refine iff_of_true (fun d x hx => ?_) trivial
    obtain ⟨t', ht', hlive, hhas⟩ := h d x hx
    refine ⟨t', ht', hlive, ?_⟩
    by_cases heq : t' = t
    · subst heq
      simp
    · simpa [heq] using hhas
  | createWindow t w d =>
    obtain ⟨_, ⟨⟩⟩ := ite_none_right_eq_some.mp hstep
    exact iff_of_true h trivial
  | destroyWindow w =>
    obtain rfl := some.inj hstep
    refine iff_of_true ?_ trivial
    unfold destroyWindow
    split
    · exact h
    · exact h.shrink rfl rfl (setHotkeys_sub fun _ hx => (mem_filter.mp hx).1)
  | unregister t win id =>
    obtain ⟨_, ⟨⟩⟩ := ite_none_right_eq_some.mp hstep
    refine iff_of_true ?_ trivial
    unfold unregisterHotkey
    split
    · exact h
    · split
      · exact h.shrink rfl rfl (setHotkeys_sub fun _ => mem_of_mem_eraseP)
      · exact h
  | setDesktop t d busy =>
    obtain ⟨_, ⟨⟩⟩ := ite_none_right_eq_some.mp hstep
    refine iff_of_true ?_ trivial
    unfold setThreadDesktop
    split
    · exact h
    · exact h
  | assignInput t d =>
    obtain rfl := some.inj hstep
    exact iff_of_true h trivial
  | openQueue t =>
    obtain ⟨_, ⟨⟩⟩ := ite_none_right_eq_some.mp hstep
    exact iff_of_true h trivial
  | closeQueue t =>
    obtain rfl := some.inj hstep
    refine iff_of_true ?_ trivial
    split
    · exact h
    · exact h.shrink rfl rfl (setHotkeys_sub fun _ hx => (mem_filter.mp hx).1)
  | destroyDesktop d =>
    obtain rfl := some.inj hstep
    exact iff_of_true (h.shrink rfl rfl (setHotkeys_sub (by rintro _ ⟨⟩))) trivial

/-- While all steps are sound, every listed hotkey has the queue of a live thread, also the one that
gets a message; and the first step that is not sound breaks this. -/
theorem hotkey_queues_live (s : State T D W) (h : Reaches step Sound Start s) :
    (∀ d, ∀ x ∈ s.hotkeys d, Served s x) ∧
    (∀ d vkey modifiers x, queueHotkeyMessage s d vkey modifiers = some x → Served s x) ∧
    ∀ op s', step s op = some s' → ((∀ d, ∀ x ∈ s'.hotkeys d, Served s' x) ↔ Sound s op) := by
  have hgood : Good s := by
    apply h.invariant
    · intro s hs d x hx
      exact absurd hx (by simp [hs d])
    · exact fun s op s' hs hsound hstep => (step_good_iff hs hstep).mpr hsound
  exact ⟨hgood, fun d vkey modifiers x hx => hgood d x (mem_of_find?_eq_some hx),
    fun op s' hstep => step_good_iff hgood hstep⟩

def lone : State Unit Bool Unit :=
  ⟨fun _ => true, fun _ => some false, fun _ => false, fun _ => false, fun _ => false,
    fun _ => none, fun _ => []⟩

theorem hotkey_queues_live_lone :
    ∃ s, run step lone [.createQueue (), .register () none 1 65 2] = some s ∧
      s.hotkeys false = [⟨some (), none, 1, 65, 2⟩] ∧ Served s ⟨some (), none, 1, 65, 2⟩ := by
  have hstart : Reaches step Sound Start lone := .start fun _ => rfl
  refine ⟨_, rfl, rfl, ?_⟩
  refine (hotkey_queues_live _ (hstart.run [.createQueue (), .register () none 1 65 2]
    ⟨trivial, fun _ _ _ _ => rfl, trivial⟩ rfl)).1 false _ ?_
  exact mem_singleton.mpr rfl

/-- A thread without a queue registers a hotkey, and one changes its desktop before it exits. -/
theorem hotkey_without_queue :
    (¬∀ s : State Unit Bool Unit, Reachable step Start s → ∀ d, ∀ x ∈ s.hotkeys d, Served s x) ∧
    ∃ s, run step lone [.createQueue (), .register () none 1 65 2, .setDesktop () true false,
      .exit ()] = some s ∧ queueHotkeyMessage s false 65 2 = some ⟨some (), none, 1, 65, 2⟩ ∧
      s.alive () = false := by
  refine ⟨fun h => ?_, _, rfl, rfl, rfl⟩
  have hstart : Reachable step Start lone := .start fun _ => rfl
  obtain ⟨t, hnull, _⟩ := h _ (reachable_of_run hstart [.register () none 1 65 2] rfl) false
    ⟨none, none, 1, 65, 2⟩ (mem_singleton.mpr rfl)
  nomatch hnull

end WineForge.Hotkeys
