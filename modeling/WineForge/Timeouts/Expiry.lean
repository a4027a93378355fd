import Mathlib.Data.List.Count
import Mathlib.Data.List.Nodup
import Mathlib.Data.List.TakeWhile
import WineForge.Timeouts.State

/-!
# Every timeout is called once, and not too early

A timeout is in one of the three lists until its callback is invoked or it is removed. The lists are
sorted, so what the two loops leave in them has not expired.
-/

namespace WineForge.Timeouts

open List WineForge.Library

lemma wrap_eq {x : Int} (hlow : -2 ^ 63 ≤ x) (hhigh : x < 2 ^ 63) : wrap x = x := by
  unfold wrap
  omega

def TimeoutUser.remaining (user : TimeoutUser) (s : State) : Int :=
  if 0 < user.when then user.when - s.currentTime else -user.when - s.monotonicTime

/-- The expiry of a request: its absolute time, or its delay after the time of the request. -/
def Request.remaining (request : Request) (currentTime monotonicTime : Int) : Int :=
  if 0 < request.when then request.when - currentTime
  else request.monotonicTime - request.when - monotonicTime

/-- The clocks have run for a millisecond, and fit in 64 bits. -/
structure ClockRange (currentTime monotonicTime : Int) : Prop where
  current_ge : 9999 ≤ currentTime
  current_lt : currentTime < 2 ^ 63
  monotonic_ge : 9999 ≤ monotonicTime
  monotonic_lt : monotonicTime < 2 ^ 63

def Representable (monotonicTime when : Int) : Prop :=
  -2 ^ 63 < when - monotonicTime ∧ when < 2 ^ 63

def Asked (s : State) (user : TimeoutUser) : Prop :=
  ∃ request ∈ s.requests, request.id = user.id ∧
    ∀ currentTime monotonicTime, request.remaining currentTime monotonicTime =
      user.remaining { s with currentTime := currentTime, monotonicTime := monotonicTime }

lemma timeoutToAbstime_eq {when monotonicTime : Int} (hclock : 0 ≤ monotonicTime)
    (h : Representable monotonicTime when) :
    timeoutToAbstime when monotonicTime = if 0 < when then when else when - monotonicTime := by
  obtain ⟨hlow, hhigh⟩ := h
  unfold timeoutToAbstime
  split
  · rfl
  · apply wrap_eq
    · omega
    · omega

def ids (users : List TimeoutUser) : List Nat := users.map TimeoutUser.id

def State.places (s : State) (id : Nat) : Nat :=
  (ids s.pending).count id + (s.calls.map Call.id).count id + s.removed.count id

@[simp] lemma ids_append (users users' : List TimeoutUser) :
    ids (users ++ users') = ids users ++ ids users' := map_append

lemma count_ids_pending (s : State) (id : Nat) : (ids s.pending).count id =
    (ids s.absTimeoutList).count id + (ids s.relTimeoutList).count id +
      (ids s.expiredList).count id := by
  rw [State.pending, ids_append, ids_append, count_append, count_append]

lemma count_ids_insertBefore (stop : TimeoutUser → Bool) (user : TimeoutUser)
    (users : List TimeoutUser) (id : Nat) :
    (ids (insertBefore stop user users)).count id =
      (ids users).count id + if user.id = id then 1 else 0 := by
  unfold ids
  rw [((insertBefore_perm stop user users).map TimeoutUser.id).count_eq, map_cons, count_cons]
  simp

lemma ids_unlink (id : Nat) (users : List TimeoutUser) :
    ids (unlink id users) = (ids users).filter fun other => other != id := by
  unfold ids unlink
  rw [filter_map]
  rfl

lemma count_ids_unlink (id other : Nat) (users : List TimeoutUser) :
    (ids (unlink id users)).count other = if other = id then 0 else (ids users).count other := by
  rw [ids_unlink]
  split
  · next heq =>
    subst heq
    apply count_eq_zero.mpr
    simp
  · next hne =>
    apply count_filter
    simpa using hne

lemma moveExpired_eq (expired : TimeoutUser → Bool) (users expiredList : List TimeoutUser) :
    moveExpired expired users expiredList =
      (users.dropWhile expired, expiredList ++ users.takeWhile expired) := by
  induction users generalizing expiredList with
  | nil => simp [moveExpired]
  | cons user users ih =>
    unfold moveExpired
    cases hexpired : expired user with
    | true => simp [ih, hexpired]
    | false => simp [hexpired]

variable {users : List TimeoutUser} {user : TimeoutUser} {s s' : State} {id : Nat} {ret : Int}

lemma not_expired_of_mem_dropWhile {key : TimeoutUser → Int} {expired : TimeoutUser → Bool}
    (hsorted : SortedBy key users)
    (hmono : ∀ x ∈ users, ∀ y ∈ users, key x ≤ key y → expired x = false → expired y = false)
    (hmem : user ∈ users.dropWhile expired) : expired user = false := by
  have hsub : ∀ x ∈ users.dropWhile expired, x ∈ users :=
    fun x hx => (dropWhile_sublist expired).subset hx
  have hrest : SortedBy key (users.dropWhile expired) :=
    hsorted.sublist (dropWhile_sublist expired)
  cases hdrop : users.dropWhile expired with
  | nil =>
    rw [hdrop] at hmem
    cases hmem
  | cons head rest =>
    have hhead : expired head = false := by
      have hnot := head?_dropWhile_not expired users
      rw [hdrop] at hnot
      exact hnot
    rw [hdrop] at hmem hrest hsub
    exact hmono head (hsub head mem_cons_self) user (hsub user hmem) (hrest.head_le hmem) hhead

structure Inv (s : State) : Prop where
  clocks : ClockRange s.currentTime s.monotonicTime
  absSorted : SortedBy TimeoutUser.when s.absTimeoutList
  relSorted : SortedBy (fun user => -user.when) s.relTimeoutList
  absRange : ∀ user ∈ s.absTimeoutList, 0 < user.when ∧ user.when < 2 ^ 63
  relRange : ∀ user ∈ s.relTimeoutList, user.when ≤ 0 ∧ -2 ^ 63 < user.when
  expired : ∀ user ∈ s.expiredList, user.remaining s ≤ 0
  asked : ∀ user ∈ s.pending, Asked s user
  places : ∀ id, s.places id = if id < s.nextId then 1 else 0
  /-- no callback was invoked before the expiry of its request -/
  called : ∀ call ∈ s.calls, ∃ request ∈ s.requests, request.id = call.id ∧
    request.remaining call.currentTime call.monotonicTime ≤ 0

lemma mem_pending : user ∈ s.pending ↔
    user ∈ s.absTimeoutList ∨ user ∈ s.relTimeoutList ∨ user ∈ s.expiredList := by
  unfold State.pending
  rw [mem_append, mem_append, or_assoc]

/-- What the code of the server does to the timeouts outside of the loops of `get_next_timeout`. -/
structure Edited (s s' : State) : Prop where
  currentTime : s'.currentTime = s.currentTime
  monotonicTime : s'.monotonicTime = s.monotonicTime
  nextId : s.nextId ≤ s'.nextId
  expiredList : s'.expiredList.Sublist s.expiredList
  absTimeoutList : ∀ user ∈ s'.absTimeoutList, user ∈ s.absTimeoutList ∨ s.nextId ≤ user.id
  relTimeoutList : ∀ user ∈ s'.relTimeoutList, user ∈ s.relTimeoutList ∨ s.nextId ≤ user.id

lemma Edited.refl (s : State) : Edited s s where
  currentTime := rfl
  monotonicTime := rfl
  nextId := le_rfl
  expiredList := List.Sublist.refl _
  absTimeoutList := fun _ h => .inl h
  relTimeoutList := fun _ h => .inl h

lemma Edited.trans {t u : State} (h : Edited s t) (h' : Edited t u) : Edited s u where
  currentTime := h'.currentTime.trans h.currentTime
  monotonicTime := h'.monotonicTime.trans h.monotonicTime
  nextId := h.nextId.trans h'.nextId
  expiredList := h'.expiredList.trans h.expiredList
  absTimeoutList := by
    intro user hmem
    obtain hmem | hnew := h'.absTimeoutList user hmem
    · exact h.absTimeoutList user hmem
    · exact .inr (h.nextId.trans hnew)
  relTimeoutList := by
    intro user hmem
    obtain hmem | hnew := h'.relTimeoutList user hmem
    · exact h.relTimeoutList user hmem
    · exact .inr (h.nextId.trans hnew)
lemma Inv.nodup (inv : Inv s) : (ids s.pending).Nodup := by
  apply nodup_iff_count_le_one.mpr
  intro id
  have hplaces := inv.places id
  unfold State.places at hplaces
  split at hplaces
  · omega
  · omega

lemma Inv.pending_inj (inv : Inv s) {user' : TimeoutUser}
    (h : user ∈ s.pending) (h' : user' ∈ s.pending) (hid : user.id = user'.id) : user = user' :=
  inj_on_of_nodup_map inv.nodup h h' hid

lemma Inv.places_pending (inv : Inv s) (h : id ∈ ids s.pending) :
    id < s.nextId ∧ (ids s.pending).count id = 1 ∧ (s.calls.map Call.id).count id = 0 ∧
      s.removed.count id = 0 := by
  have hpos := count_pos_iff.mpr h
  have hplaces := inv.places id
  unfold State.places at hplaces
  split at hplaces
  · next hlt => exact ⟨hlt, by omega, by omega, by omega⟩
  · omega

lemma Inv.add (inv : Inv s) {when : Int} (h : Representable s.monotonicTime when)
    (memOk : Bool) : Inv (addTimeoutUser s when memOk) ∧ Edited s (addTimeoutUser s when memOk) := by
  unfold addTimeoutUser
  cases memOk with
  | false => exact ⟨inv, Edited.refl s⟩
  | true =>
    have hge := inv.clocks.monotonic_ge
    have htime := timeoutToAbstime_eq (by omega) h
    obtain ⟨hlow, hhigh⟩ := h
    generalize timeoutToAbstime when s.monotonicTime = abstime at htime
    have hasked : ∀ currentTime monotonicTime : Int,
        (if 0 < when then when - currentTime else s.monotonicTime - when - monotonicTime) =
          if 0 < abstime then abstime - currentTime else -abstime - monotonicTime := by
      intro currentTime monotonicTime
      split at htime
      · next hwhen => rw [htime, if_pos hwhen, if_pos hwhen]
      · next hwhen =>
        omega
    have hnew : ∀ id, s.places id + (if s.nextId = id then 1 else 0) =
        if id < s.nextId + 1 then 1 else 0 := by
      intro id
      rw [inv.places id]
      split
      · rw [if_neg (by omega), if_pos (by omega)]
      · split
        · rw [if_pos (by omega)]
        · rw [if_neg (by omega)]
    have hcalled : ∀ call ∈ s.calls,
        ∃ request ∈ (⟨s.nextId, when, s.monotonicTime⟩ :: s.requests : List Request),
          request.id = call.id ∧
            request.remaining call.currentTime call.monotonicTime ≤ 0 := by
      intro call hcall
      obtain ⟨request, hmem, hrest⟩ := inv.called call hcall
      exact ⟨request, mem_cons_of_mem _ hmem, hrest⟩
    have hold : ∀ user ∈ s.pending, ∃ request ∈
        (⟨s.nextId, when, s.monotonicTime⟩ :: s.requests : List Request), request.id = user.id ∧
          ∀ currentTime monotonicTime, request.remaining currentTime monotonicTime =
            user.remaining { s with currentTime := currentTime, monotonicTime := monotonicTime } := by
      intro user hmem
      obtain ⟨request, hrequest, hrest⟩ := inv.asked user hmem
      exact ⟨request, mem_cons_of_mem _ hrequest, hrest⟩
    have hnext : s.nextId ≤ s.nextId + 1 := Nat.le_succ _
    by_cases hpos : 0 < abstime
    · have hsorted := inv.absSorted.insertBefore_le (x := ⟨s.nextId, abstime⟩)
      simp only [Bool.not_true, Bool.false_eq_true, if_false, if_pos hpos]
      refine ⟨⟨inv.clocks, hsorted, inv.relSorted, ?_, inv.relRange,
        inv.expired, ?_, ?_, hcalled⟩, rfl, rfl, hnext, List.Sublist.refl _, ?_,
        fun user hmem => .inl hmem⟩
      · intro user hmem
        obtain rfl | hmem := mem_insertBefore.mp hmem
        · refine ⟨hpos, ?_⟩
          dsimp only
          split at htime
          · omega
          · omega
        · exact inv.absRange user hmem
      · intro user hmem
        obtain habs | hrest := mem_pending.mp hmem
        · obtain rfl | habs := mem_insertBefore.mp habs
          · exact ⟨_, mem_cons_self, rfl, hasked⟩
          · exact hold user (mem_pending.mpr (.inl habs))
        · exact hold user (mem_pending.mpr (.inr hrest))
      · intro id
        have hplaces := hnew id
        unfold State.places at hplaces ⊢
        rw [count_ids_pending] at hplaces ⊢
        rw [count_ids_insertBefore]
        dsimp only
        omega
      intro user hmem
      obtain rfl | hmem := mem_insertBefore.mp hmem
      · exact .inr (le_refl _)
      · exact .inl hmem
    · have hstop : ∀ user ∈ s.relTimeoutList,
          decide (user.when ≤ abstime) = decide (-abstime ≤ -user.when) := by
        intro user _
        apply decide_eq_decide.mpr
        omega
      have hsorted := inv.relSorted.insertBefore_le (x := ⟨s.nextId, abstime⟩)
      simp only [Bool.not_true, Bool.false_eq_true, if_false, if_neg hpos]
      refine ⟨⟨inv.clocks, inv.absSorted, ?_, inv.absRange, ?_, inv.expired, ?_, ?_, hcalled⟩, rfl,
        rfl, hnext, List.Sublist.refl _, fun user hmem => .inl hmem, ?_⟩
      · rw [insertBefore_congr hstop]
        exact hsorted
      · intro user hmem
        obtain rfl | hmem := mem_insertBefore.mp hmem
        · dsimp only
          split at htime
          · omega
          · omega
        · exact inv.relRange user hmem
      · intro user hmem
        obtain habs | hrel | hexpired := mem_pending.mp hmem
        · exact hold user (mem_pending.mpr (.inl habs))
        · obtain rfl | hrel := mem_insertBefore.mp hrel
          · exact ⟨_, mem_cons_self, rfl, hasked⟩
          · exact hold user (mem_pending.mpr (.inr (.inl hrel)))
        · exact hold user (mem_pending.mpr (.inr (.inr hexpired)))
      · intro id
        have hplaces := hnew id
        unfold State.places at hplaces ⊢
        rw [count_ids_pending] at hplaces ⊢
        rw [count_ids_insertBefore]
        dsimp only
        omega
      intro user hmem
      obtain rfl | hmem := mem_insertBefore.mp hmem
      · exact .inr (le_refl _)
      · exact .inl hmem

lemma mem_unlink (h : user ∈ unlink id users) : user ∈ users := (List.mem_filter.mp h).1

lemma Inv.remove (inv : Inv s) (h : removeTimeoutUser s id = some s') : Inv s' ∧ Edited s s' := by
  unfold removeTimeoutUser at h
  split at h
  · next hmem =>
    cases h
    have hpending := inv.places_pending hmem
    refine ⟨⟨inv.clocks, inv.absSorted.sublist filter_sublist,
      inv.relSorted.sublist filter_sublist, fun user h => inv.absRange user (mem_unlink h),
      fun user h => inv.relRange user (mem_unlink h),
      fun user h => inv.expired user (mem_unlink h), ?_, ?_, inv.called⟩, rfl, rfl, le_rfl,
      filter_sublist, fun user h => .inl (mem_unlink h),
      fun user h => .inl (mem_unlink h)⟩
    · intro user h
      apply inv.asked user
      obtain h | h | h := mem_pending.mp h
      · exact mem_pending.mpr (.inl (mem_unlink h))
      · exact mem_pending.mpr (.inr (.inl (mem_unlink h)))
      · exact mem_pending.mpr (.inr (.inr (mem_unlink h)))
    intro other
    have hplaces := inv.places other
    unfold State.places at hplaces ⊢
    rw [count_ids_pending] at hplaces hpending ⊢
    rw [count_ids_unlink, count_ids_unlink, count_ids_unlink, count_cons]
    by_cases heq : other = id
    · subst heq
      simp only [if_true, beq_self_eq_true]
      omega
    have hne : (id == other) = false := by
      rw [beq_eq_false_iff_ne]
      exact Ne.symm heq
    simp only [if_neg heq, hne, Bool.false_eq_true, if_false]
    exact hplaces
  · cases h

def RepresentableEdits (monotonicTime : Int) (edits : List Edit) : Prop :=
  ∀ when memOk, Edit.add when memOk ∈ edits → Representable monotonicTime when

lemma Inv.edit (inv : Inv s) {e : Edit} (hrange : RepresentableEdits s.monotonicTime [e])
    (h : Timeouts.edit s e = some s') : Inv s' ∧ Edited s s' := by
  cases e with
  | add when memOk =>
    cases h
    exact inv.add (hrange when memOk mem_cons_self) memOk
  | remove id => exact inv.remove h

lemma Inv.edits (inv : Inv s) {edits : List Edit}
    (hrange : RepresentableEdits s.monotonicTime edits)
    (h : Library.run Timeouts.edit s edits = some s') : Inv s' ∧ Edited s s' := by
  induction edits generalizing s with
  | nil =>
    cases h
    exact ⟨inv, Edited.refl _⟩
  | cons e edits ih =>
    obtain ⟨t, hedit, hrun⟩ := Option.bind_eq_some_iff.mp h
    have hfirst : RepresentableEdits s.monotonicTime [e] := by
      intro when memOk hmem
      rw [mem_singleton] at hmem
      exact hrange when memOk (hmem ▸ mem_cons_self)
    obtain ⟨hinv, hedited⟩ := inv.edit hfirst hedit
    have hrest : RepresentableEdits t.monotonicTime edits := by
      intro when memOk hmem
      rw [hedited.monotonicTime]
      exact hrange when memOk (mem_cons_of_mem e hmem)
    obtain ⟨hinv', hedited'⟩ := ih hinv hrest hrun
    exact ⟨hinv', hedited.trans hedited'⟩

def RepresentableCallback (callback : Callback) : Prop :=
  ∀ s timeout, RepresentableEdits s.monotonicTime (callback s timeout)

lemma Inv.pop (inv : Inv s) {timeout : TimeoutUser} {expiredList : List TimeoutUser}
    (h : s.expiredList = timeout :: expiredList) :
    Inv { s with
      expiredList := expiredList
      calls := ⟨timeout.id, s.currentTime, s.monotonicTime⟩ :: s.calls } := by
  have hmem : timeout ∈ s.expiredList := by
    rw [h]
    exact mem_cons_self
  have hsub : ∀ user ∈ expiredList, user ∈ s.expiredList := by
    intro user huser
    rw [h]
    exact mem_cons_of_mem _ huser
  refine ⟨inv.clocks, inv.absSorted, inv.relSorted, inv.absRange, inv.relRange,
    fun user huser => inv.expired user (hsub user huser), ?_, ?_, ?_⟩
  · intro user huser
    apply inv.asked user
    obtain habs | hrel | hexpired := mem_pending.mp huser
    · exact mem_pending.mpr (.inl habs)
    · exact mem_pending.mpr (.inr (.inl hrel))
    · exact mem_pending.mpr (.inr (.inr (hsub user hexpired)))
  · intro id
    have hplaces := inv.places id
    unfold State.places at hplaces ⊢
    rw [count_ids_pending] at hplaces ⊢
    rw [h] at hplaces
    unfold ids at hplaces ⊢
    rw [map_cons, count_cons] at hplaces
    rw [map_cons, count_cons]
    dsimp only
    omega
  intro call hcall
  obtain rfl | hcall := mem_cons.mp hcall
  · obtain ⟨request, hrequest, hid, hremaining⟩ :=
      inv.asked timeout (mem_pending.mpr (.inr (.inr hmem)))
    refine ⟨request, hrequest, hid, ?_⟩
    rw [hremaining]
    exact inv.expired timeout hmem
  · exact inv.called call hcall

lemma Inv.callbacks {callback : Callback} (hrange : RepresentableCallback callback) (n : Nat)
    (inv : Inv s) (hlen : s.expiredList.length ≤ n)
    (h : runCallbacks callback n s = some s') : Inv s' ∧ Edited s s' ∧ s'.expiredList = [] := by
  induction n generalizing s with
  | zero =>
    cases h
    exact ⟨inv, Edited.refl _, eq_nil_of_length_eq_zero (Nat.le_zero.mp hlen)⟩
  | succ n ih =>
    unfold runCallbacks at h
    cases hexpired : s.expiredList with
    | nil =>
      rw [hexpired] at h
      cases h
      exact ⟨inv, Edited.refl _, hexpired⟩
    | cons timeout expiredList =>
      rw [hexpired] at h
      obtain ⟨t, hrun, hrest⟩ := Option.bind_eq_some_iff.mp h
      obtain ⟨hinv, hedited⟩ := (inv.pop hexpired).edits (hrange _ timeout) hrun
      have hshorter : t.expiredList.length ≤ n := by
        have hle := hedited.expiredList.length_le
        rw [hexpired, length_cons] at hlen
        dsimp only at hle
        omega
      obtain ⟨hinv', hedited', hnil⟩ := ih hinv hshorter hrest
      have hpopped : Edited s { s with
          expiredList := expiredList
          calls := ⟨timeout.id, s.currentTime, s.monotonicTime⟩ :: s.calls } := by
        refine ⟨rfl, rfl, le_rfl, ?_, fun _ h => .inl h, fun _ h => .inl h⟩
        rw [hexpired]
        exact sublist_cons_self _ _
      exact ⟨hinv', hpopped.trans (hedited.trans hedited'), hnil⟩

lemma collectExpired_eq (s : State) : collectExpired s = { s with
    absTimeoutList := s.absTimeoutList.dropWhile (absExpired s.currentTime)
    relTimeoutList := s.relTimeoutList.dropWhile (relExpired s.monotonicTime)
    expiredList := s.absTimeoutList.takeWhile (absExpired s.currentTime) ++
      s.relTimeoutList.takeWhile (relExpired s.monotonicTime) } := by
  unfold collectExpired
  simp only [moveExpired_eq, nil_append]

lemma count_ids_split (expired : TimeoutUser → Bool) (users : List TimeoutUser) (id : Nat) :
    (ids (users.takeWhile expired)).count id + (ids (users.dropWhile expired)).count id =
      (ids users).count id := by
  rw [← count_append, ← ids_append, takeWhile_append_dropWhile]

lemma relExpired_eq {monotonicTime : Int} (hle : user.when ≤ 0) (hlow : -2 ^ 63 < user.when) :
    relExpired monotonicTime user = decide (-user.when ≤ monotonicTime) := by
  unfold relExpired
  rw [wrap_eq (by omega) (by omega)]

lemma Inv.collect (inv : Inv s) (hidle : s.expiredList = []) : Inv (collectExpired s) ∧
      ∀ user, user ∈ (collectExpired s).absTimeoutList ∨ user ∈ (collectExpired s).relTimeoutList →
        user ∈ s.pending ∧ 0 < user.remaining s := by
  have habs : ∀ user ∈ s.absTimeoutList,
      (absExpired s.currentTime user = true ↔ user.remaining s ≤ 0) := by
    intro user hmem
    unfold absExpired TimeoutUser.remaining
    rw [if_pos (inv.absRange user hmem).1, decide_eq_true_iff]
    omega
  have hrel : ∀ user ∈ s.relTimeoutList,
      (relExpired s.monotonicTime user = true ↔ user.remaining s ≤ 0) := by
    intro user hmem
    obtain ⟨hle, hlow⟩ := inv.relRange user hmem
    unfold TimeoutUser.remaining
    rw [relExpired_eq hle hlow, if_neg (by omega), decide_eq_true_iff]
    omega
  rw [collectExpired_eq]
  have habsDrop : ∀ user ∈ s.absTimeoutList.dropWhile (absExpired s.currentTime),
      user ∈ s.absTimeoutList := fun user h => (dropWhile_sublist _).subset h
  have hrelDrop : ∀ user ∈ s.relTimeoutList.dropWhile (relExpired s.monotonicTime),
      user ∈ s.relTimeoutList := fun user h => (dropWhile_sublist _).subset h
  have habsTake : ∀ user ∈ s.absTimeoutList.takeWhile (absExpired s.currentTime),
      user ∈ s.absTimeoutList := fun user h => (takeWhile_sublist _).subset h
  have hrelTake : ∀ user ∈ s.relTimeoutList.takeWhile (relExpired s.monotonicTime),
      user ∈ s.relTimeoutList := fun user h => (takeWhile_sublist _).subset h
  refine ⟨⟨inv.clocks, inv.absSorted.sublist (dropWhile_sublist _),
    inv.relSorted.sublist (dropWhile_sublist _),
    fun user h => inv.absRange user (habsDrop user h),
    fun user h => inv.relRange user (hrelDrop user h), ?_, ?_, ?_, inv.called⟩, ?_⟩
  · intro user hmem
    obtain hmem | hmem := mem_append.mp hmem
    · exact (habs user (habsTake user hmem)).mp (mem_takeWhile_imp hmem)
    · exact (hrel user (hrelTake user hmem)).mp (mem_takeWhile_imp hmem)
  · intro user hmem
    apply inv.asked user
    obtain hmem | hmem | hmem := mem_pending.mp hmem
    · exact mem_pending.mpr (.inl (habsDrop user hmem))
    · exact mem_pending.mpr (.inr (.inl (hrelDrop user hmem)))
    · obtain hmem | hmem := mem_append.mp hmem
      · exact mem_pending.mpr (.inl (habsTake user hmem))
      · exact mem_pending.mpr (.inr (.inl (hrelTake user hmem)))
  · intro id
    have hplaces := inv.places id
    unfold State.places at hplaces ⊢
    rw [count_ids_pending] at hplaces ⊢
    have hsplitAbs := count_ids_split (absExpired s.currentTime) s.absTimeoutList id
    have hsplitRel := count_ids_split (relExpired s.monotonicTime) s.relTimeoutList id
    rw [hidle] at hplaces
    dsimp only at hplaces ⊢
    rw [ids_append, count_append]
    have hnil : (ids []).count id = 0 := rfl
    omega
  · intro user hmem
    obtain hmem | hmem := hmem
    · refine ⟨mem_pending.mpr (.inl (habsDrop user hmem)), ?_⟩
      have hnot : absExpired s.currentTime user = false := by
        refine not_expired_of_mem_dropWhile inv.absSorted ?_ hmem
        intro x _ y _ hle hnot
        unfold absExpired at hnot ⊢
        rw [decide_eq_false_iff_not] at hnot ⊢
        omega
      by_contra hle
      rw [(habs user (habsDrop user hmem)).mpr (by omega)] at hnot
      cases hnot
    refine ⟨mem_pending.mpr (.inr (.inl (hrelDrop user hmem))), ?_⟩
    have hnot : relExpired s.monotonicTime user = false := by
      refine not_expired_of_mem_dropWhile inv.relSorted ?_ hmem
      intro x hx y hy hle hnot
      by_contra hexpired
      rw [Bool.not_eq_false, relExpired_eq (inv.relRange y hy).1 (inv.relRange y hy).2,
        decide_eq_true_iff] at hexpired
      rw [relExpired_eq (inv.relRange x hx).1 (inv.relRange x hx).2, decide_eq_false_iff_not]
        at hnot
      omega
    by_contra hle
    rw [(hrel user (hrelDrop user hmem)).mpr (by omega)] at hnot
    cases hnot

/-!
## The delay until the next timeout

The delay in 100 ns is the time until the first expiry, or less. In milliseconds it is rounded up.
-/

/-- A delay that reaches to no expiry in `users`, in a range where nothing overflows. -/
structure DelayFor (s : State) (users : List TimeoutUser) (ret : Int) : Prop where
  range : ret = -1 ∨ (0 ≤ ret ∧ ret ≤ 2 ^ 63 - 10000)
  within : ∀ user ∈ users, 0 ≤ ret ∧ ret ≤ max 0 (user.remaining s)

lemma DelayFor.nil (h : ret = -1 ∨ ret = userSharedDataTimeout) : DelayFor s [] ret := by
  constructor
  · unfold userSharedDataTimeout at h
    omega
  · intro user hmem
    cases hmem

lemma DelayFor.nearer {diff : Int}
    (h : DelayFor s users ret) {timeout : TimeoutUser} {timeouts : List TimeoutUser}
    (hrange : diff ≤ 2 ^ 63 - 10000) (hdiff : timeout.remaining s = diff)
    (hsorted : ∀ user ∈ timeouts, timeout.remaining s ≤ user.remaining s) :
    DelayFor s (users ++ timeout :: timeouts) (Timeouts.nearer ret diff) := by
  have hret := h.range
  have hbound : (0 ≤ Timeouts.nearer ret diff ∧ Timeouts.nearer ret diff ≤ 2 ^ 63 - 10000) ∧
      Timeouts.nearer ret diff ≤ max 0 diff ∧ (0 ≤ ret → Timeouts.nearer ret diff ≤ ret) := by
    have heq : Timeouts.nearer ret diff =
        if ret = -1 ∨ max 0 diff < ret then max 0 diff else ret := by
      have hmax : (if diff < 0 then 0 else diff) = max 0 diff := by
        split <;> omega
      unfold Timeouts.nearer
      rw [hmax]
    rw [heq]
    split <;> omega
  obtain ⟨hin, hnear, hmono⟩ := hbound
  refine ⟨.inr hin, ?_⟩
  intro user hmem
  refine ⟨hin.1, ?_⟩
  obtain hmem | hmem := mem_append.mp hmem
  · obtain ⟨hpos, hle⟩ := h.within user hmem
    exact (hmono hpos).trans hle
  obtain rfl | hmem := mem_cons.mp hmem
  · omega
  · have hle := hsorted user hmem
    omega

lemma Inv.absDelay (inv : Inv s) (hret : ret = -1 ∨ ret = userSharedDataTimeout) :
    DelayFor s s.absTimeoutList (match s.absTimeoutList with
      | [] => ret
      | timeout :: _ => Timeouts.nearer ret (wrap (timeout.when - s.currentTime))) := by
  obtain ⟨hcurrent, hcurrent', -, -⟩ := inv.clocks
  have hsorted := inv.absSorted
  have hrange := inv.absRange
  cases hlist : s.absTimeoutList with
  | nil => exact DelayFor.nil hret
  | cons timeout timeouts =>
    rw [hlist] at hsorted hrange
    obtain ⟨hpos, hhigh⟩ := hrange timeout mem_cons_self
    dsimp only
    rw [wrap_eq (by omega) (by omega)]
    apply (DelayFor.nil hret).nearer
    · omega
    · unfold TimeoutUser.remaining
      rw [if_pos hpos]
    intro user hmem
    have hle := hsorted.head_le (mem_cons_of_mem timeout hmem)
    have huser := (hrange user (mem_cons_of_mem timeout hmem)).1
    unfold TimeoutUser.remaining
    omega

lemma Inv.nextDelay (inv : Inv s) (hret : ret = -1 ∨ ret = userSharedDataTimeout) :
    DelayFor s (s.absTimeoutList ++ s.relTimeoutList) (Timeouts.nextDelay s ret) := by
  have hclocks := inv.clocks
  obtain ⟨hcurrent, hcurrent', hmonotonic, hmonotonic'⟩ := hclocks
  have habs := inv.absDelay hret
  have hsorted := inv.relSorted
  have hrange := inv.relRange
  unfold Timeouts.nextDelay
  cases hlist : s.relTimeoutList with
  | nil =>
    rw [append_nil]
    exact habs
  | cons timeout timeouts =>
    rw [hlist] at hsorted hrange
    obtain ⟨hle, hlow⟩ := hrange timeout mem_cons_self
    dsimp only
    rw [wrap_eq (x := -timeout.when) (by omega) (by omega), wrap_eq (by omega) (by omega)]
    apply habs.nearer
    · omega
    · unfold TimeoutUser.remaining
      rw [if_neg (by omega)]
    intro user hmem
    have hkey := hsorted.head_le (mem_cons_of_mem timeout hmem)
    unfold TimeoutUser.remaining
    omega

/-- What a caller of `get_next_timeout` may rely on: with nothing pending the delay may be infinite.
Otherwise the time that is stored for `ts` ends before every expiry, or at once, and the milliseconds
are this time rounded up, or the largest `int`. -/
def DelayResult (s : State) (result : Int × Option Timespec) : Prop :=
  (result = (-1, none) ∧ s.pending = []) ∨
    ∃ ticks : Int, 0 ≤ ticks ∧ (∀ user ∈ s.pending, ticks ≤ max 0 (user.remaining s)) ∧
      result.2 = some ⟨ticks / ticksPerSec, ticks % ticksPerSec * 100⟩ ∧
      result.1 = min ((ticks + 9999) / 10000) intMax

lemma DelayFor.result (h : DelayFor s s.pending ret) : DelayResult s (delayResult ret) := by
  unfold delayResult
  split
  · next hinfinite =>
    left
    refine ⟨rfl, ?_⟩
    cases hpending : s.pending with
    | nil => rfl
    | cons user users =>
      have hwithin := h.within user (by rw [hpending]; exact mem_cons_self)
      omega
  next hfinite =>
  right
  obtain hinfinite | ⟨hpos, hle⟩ := h.range
  · exact absurd hinfinite hfinite
  refine ⟨ret, hpos, fun user hmem => (h.within user hmem).2, ?_, ?_⟩
  · rw [Int.tdiv_eq_ediv_of_nonneg hpos, Int.tmod_eq_emod_of_nonneg hpos]
  dsimp only
  rw [wrap_eq (by omega) (by omega), Int.tdiv_eq_ediv_of_nonneg (by omega)]
  unfold toInt intMax
  split <;> omega

end WineForge.Timeouts
