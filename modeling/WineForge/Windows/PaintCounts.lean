import WineForge.Library.Census
import WineForge.Library.Transition
import WineForge.Regions.State

/-!
# Paint counts

The paint count of a message queue counts what the windows of its thread have to paint: one for an
update region and one for an internal paint. A step is one of the functions that change an update
region, `PAINT_INTERNAL` or the thread of a window; what moves, validates or redraws windows is
made of such steps.
-/

namespace WineForge.Windows

open Function Library Regions

structure PaintWindow (T : Type) where
  thread : Option T
  updateRegion : Option Region
  /-- `PAINT_INTERNAL`. -/
  internal : Bool

structure PaintState (W T : Type) where
  win : W → PaintWindow T
  paintCount : T → Int
  -- history: the internal paints that `find_window_to_repaint` has handed out
  handedOut : T → Nat

variable {W T : Type} [DecidableEq W] [DecidableEq T]

def incQueuePaintCount (s : PaintState W T) (t : T) (incr : Int) : PaintState W T :=
  let count := if s.paintCount t + incr < 0 then 0 else s.paintCount t + incr
  { s with paintCount := update s.paintCount t count }

def incWindowPaintCount (s : PaintState W T) (w : W) (incr : Int) : PaintState W T :=
  match (s.win w).thread with
  | some t => incQueuePaintCount s t incr
  | none => s

def setUpdateRegion (s : PaintState W T) (w : W) (region : Option Region) : PaintState W T :=
  let win := s.win w
  let region := region.filter fun region => region.rects ≠ []
  let s :=
    if region ≠ none ∧ win.updateRegion = none then incWindowPaintCount s w 1
    else if region = none ∧ win.updateRegion ≠ none then incWindowPaintCount s w (-1)
    else s
  { s with win := update s.win w { win with updateRegion := region } }

/-- `RDW_INTERNALPAINT` and `RDW_NOINTERNALPAINT` of `redraw_window`. -/
def setInternal (s : PaintState W T) (w : W) (internal : Bool) : PaintState W T :=
  if (s.win w).internal = internal then s
  else
    incWindowPaintCount { s with win := update s.win w { s.win w with internal := internal } } w
      (if internal then 1 else -1)

def validateWholeWindow (s : PaintState W T) (w : W) : PaintState W T :=
  setInternal (setUpdateRegion s w none) w false

def detachWindowThread (s : PaintState W T) (w : W) : PaintState W T :=
  match (s.win w).thread with
  | none => s
  | some t =>
    let win := s.win w
    let s := if win.updateRegion ≠ none then incQueuePaintCount s t (-1) else s
    let s := if win.internal = true then incQueuePaintCount s t (-1) else s
    { s with win := update s.win w { win with thread := none } }

/-- What `find_window_to_repaint` does to the window that it finds for a thread. -/
def handOut (s : PaintState W T) (w : W) (t : T) : PaintState W T :=
  { s with
    win := update s.win w { s.win w with internal := false }
    handedOut := update s.handedOut t (s.handedOut t + (s.win w).internal.toNat) }

inductive PaintOp (W T : Type)
  | create (w : W) (t : T)
  | setUpdateRegion (w : W) (region : Option Region)
  | setInternal (w : W) (internal : Bool)
  | validateWholeWindow (w : W)
  | detachWindowThread (w : W)
  | findWindowToRepaint (w : W) (t : T)

def paintStep (s : PaintState W T) : PaintOp W T → Option (PaintState W T)
  | .create w t =>
    if (s.win w).thread = none then some { s with win := update s.win w ⟨some t, none, false⟩ }
    else none
  | .setUpdateRegion w region => some (setUpdateRegion s w region)
  | .setInternal w internal => some (setInternal s w internal)
  | .validateWholeWindow w => some (validateWholeWindow s w)
  | .detachWindowThread w => some (detachWindowThread s w)
  | .findWindowToRepaint w t => if (s.win w).thread = some t then some (handOut s w t) else none

def PaintState.Initial (s : PaintState W T) : Prop :=
  (∀ w, (s.win w).thread = none) ∧ ∀ t, s.paintCount t = 0 ∧ s.handedOut t = 0

/-- What the window has to paint in the thread `t`. -/
def requests (t : T) (win : PaintWindow T) : Nat :=
  if win.thread = some t then (if win.updateRegion = none then 0 else 1) + win.internal.toNat else 0

/-- The windows have `n` paints to do, and the count has one more for each that was handed out. -/
structure Counted (s : PaintState W T) (t : T) (n : Nat) : Prop where
  tally : Tally (fun w => requests t (s.win w)) n
  count : s.paintCount t = n + s.handedOut t

variable {s s' : PaintState W T} {w : W} {t : T} {win : PaintWindow T} {n : Nat}

/-- One window changes, and the count by as much as what it has to paint. -/
lemma Counted.change (h : Counted s t n) (hothers : ∀ x, x ≠ w → s'.win x = s.win x)
    (hcount : requests t (s.win w) ≤ s.paintCount t - s.handedOut t →
      s'.paintCount t - s'.handedOut t - requests t (s'.win w) =
        s.paintCount t - s.handedOut t - requests t (s.win w)) : ∃ n, Counted s' t n := by
  have hchange := h.tally.change (g := fun x => requests t (s'.win x)) w fun x hx => by
    rw [hothers x hx]
  obtain ⟨hle, htally⟩ := hchange
  have hold := h.count
  have hnew := hcount (by omega)
  exact ⟨_, htally, by push_cast [hle]; omega⟩

omit [DecidableEq W] in
lemma incQueuePaintCount_eq (s : PaintState W T) (u : T) (incr : Int) :
    incQueuePaintCount s u incr = { s with
      paintCount := fun t => if u = t then max 0 (s.paintCount t + incr) else s.paintCount t } := by
  unfold incQueuePaintCount
  dsimp only
  congr 1
  funext t
  by_cases heq : u = t
  · subst heq
    simp only [update_self, if_true]
    omega
  · rw [update_of_ne (Ne.symm heq), if_neg heq]

omit [DecidableEq W] in
lemma incWindowPaintCount_eq (s : PaintState W T) (w : W) (incr : Int) :
    incWindowPaintCount s w incr = { s with
      paintCount := fun t =>
        if (s.win w).thread = some t then max 0 (s.paintCount t + incr) else s.paintCount t } := by
  unfold incWindowPaintCount
  cases (s.win w).thread with
  | none => simp
  | some u => simpa using incQueuePaintCount_eq s u incr

lemma Counted.setUpdateRegion (h : Counted s t n) (region : Option Region) :
    ∃ n, Counted (setUpdateRegion s w region) t n := by
  unfold Windows.setUpdateRegion
  simp only [incWindowPaintCount_eq]
  generalize region.filter _ = region
  refine h.change (w := w) (fun x hx => ?_) fun hle => ?_
  · split_ifs <;> exact update_of_ne hx _ _
  · unfold requests at hle ⊢
    by_cases hthread : (s.win w).thread = some t
    · cases hold : (s.win w).updateRegion <;> cases region <;>
        simp [hold, hthread] at hle ⊢ <;> omega
    · cases (s.win w).updateRegion <;> cases region <;> simp [hthread]

lemma Counted.setInternal (h : Counted s t n) (internal : Bool) :
    ∃ n, Counted (setInternal s w internal) t n := by
  unfold Windows.setInternal
  split
  · exact ⟨n, h⟩
  · next hne =>
    rw [incWindowPaintCount_eq]
    refine h.change (w := w) (fun x hx => update_of_ne hx _ _) fun hle => ?_
    unfold requests at hle ⊢
    by_cases hthread : (s.win w).thread = some t
    · cases internal <;> simp [hthread] at hne hle ⊢ <;> simp [hne] at hle ⊢ <;> omega
    · simp [hthread]

lemma Counted.detachWindowThread (h : Counted s t n) :
    ∃ n, Counted (detachWindowThread s w) t n := by
  unfold Windows.detachWindowThread
  split
  · exact ⟨n, h⟩
  · next u hthread =>
    simp only [incQueuePaintCount_eq]
    refine h.change (w := w) (fun x hx => ?_) fun hle => ?_
    · split_ifs <;> exact update_of_ne hx _ _
    · unfold requests at hle ⊢
      by_cases heq : u = t <;> by_cases hu : (s.win w).updateRegion = none <;>
        cases hi : (s.win w).internal <;> simp [hthread, heq, hu, hi] at hle ⊢ <;> omega

lemma Counted.handOut (h : Counted s t n) {u : T} (hthread : (s.win w).thread = some u) :
    ∃ n, Counted (handOut s w u) t n := by
  refine h.change (w := w) (fun x hx => update_of_ne hx _ _) fun hle => ?_
  unfold Windows.handOut requests at *
  dsimp only
  by_cases heq : u = t
  · subst heq
    simp only [update_self, hthread, if_true, Bool.toNat_false] at hle ⊢
    push_cast
    omega
  · simp [hthread, heq, Ne.symm heq]

lemma Counted.step {op : PaintOp W T} (h : Counted s t n) (hstep : paintStep s op = some s') :
    ∃ n, Counted s' t n := by
  cases op with
  | create w u =>
    obtain ⟨hnone, heq⟩ := Option.ite_none_right_eq_some.mp hstep
    cases heq
    refine h.change (w := w) (fun x hx => update_of_ne hx _ _) fun _ => ?_
    simp [requests, hnone]
  | setUpdateRegion w region =>
    cases hstep
    exact h.setUpdateRegion region
  | setInternal w internal =>
    cases hstep
    exact h.setInternal internal
  | validateWholeWindow w =>
    cases hstep
    obtain ⟨m, hm⟩ := h.setUpdateRegion (w := w) none
    exact hm.setInternal false
  | detachWindowThread w =>
    cases hstep
    exact h.detachWindowThread
  | findWindowToRepaint w u =>
    obtain ⟨hthread, heq⟩ := Option.ite_none_right_eq_some.mp hstep
    cases heq
    exact h.handOut hthread

/-- In every run the paint count of a queue is the number of update regions and internal paints of
the windows of its thread, and one more for each internal paint that was handed out. No window that
needs a repaint is overlooked, and once an internal paint was handed out the count stays positive. -/
theorem paint_counts_exact {s : PaintState W T} (h : Reachable paintStep PaintState.Initial s)
    (t : T) :
    ∃ n, Counted s t n ∧ ∀ w, 0 < requests t (s.win w) → 0 < s.paintCount t := by
  have hcounted : ∃ n, Counted s t n := by
    refine Reaches.invariant (P := fun s => ∃ n, Counted s t n) (fun s hs => ?_)
      (fun s op s' hs _ hstep => ?_) h
    · obtain ⟨hthread, hzero⟩ := hs
      obtain ⟨hcount, hout⟩ := hzero t
      refine ⟨0, tally_zero fun w => by simp [requests, hthread], ?_⟩
      rw [hcount, hout]
      rfl
    · obtain ⟨n, hn⟩ := hs
      exact hn.step hstep
  obtain ⟨n, hn⟩ := hcounted
  refine ⟨n, hn, fun w hw => ?_⟩
  have hpos : 0 < n := hn.tally.pos hw
  have hcount := hn.count
  omega

def idleQueue : PaintState Unit Unit := ⟨fun _ => ⟨none, none, false⟩, fun _ => 0, fun _ => 0⟩

def internalPaint : List (PaintOp Unit Unit) :=
  [.create () (), .setInternal () true, .findWindowToRepaint () ()]

theorem paint_counts_exact_handed_out :
    ∃ s, run paintStep idleQueue internalPaint = some s ∧ s.paintCount () = 1 ∧
      requests () (s.win ()) = 0 ∧ ∃ n, Counted s () n ∧ ∀ w, 0 < requests () (s.win w) →
        0 < s.paintCount () := by
  have hinit : PaintState.Initial idleQueue := ⟨fun _ => rfl, fun _ => ⟨rfl, rfl⟩⟩
  exact ⟨_, rfl, rfl, rfl, paint_counts_exact (reachable_of_run (.start hinit) internalPaint rfl) ()⟩

end WineForge.Windows
