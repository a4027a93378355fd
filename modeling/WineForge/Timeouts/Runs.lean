import WineForge.Timeouts.Expiry

/-!
# Runs of the timeouts

In every run the lists are sorted, each timeout has one place, and no callback is invoked early. A
call of `get_next_timeout` deals with all that had expired when it began.
-/

namespace WineForge.Timeouts

open List WineForge.Library

def callbackStates (callback : Callback) : Nat → State → List State
  | 0, _ => []
  | n + 1, s =>
    match s.expiredList with
    | [] => []
    | timeout :: expiredList =>
      let s := { s with
        expiredList := expiredList
        calls := ⟨timeout.id, s.currentTime, s.monotonicTime⟩ :: s.calls }
      match run edit s (callback s timeout) with
      | none => [s]
      | some t => s :: callbackStates callback n t

variable {s s' : State}

lemma Inv.callbackStates {callback : Callback} (hrange : RepresentableCallback callback) (n : Nat)
    (inv : Inv s) : ∀ t ∈ callbackStates callback n s, Inv t := by
  induction n generalizing s with
  | zero =>
    intro t hmem
    cases hmem
  | succ n ih =>
    unfold Timeouts.callbackStates
    cases hexpired : s.expiredList with
    | nil =>
      intro t hmem
      cases hmem
    | cons timeout expiredList =>
      dsimp only
      split
      · intro t hmem
        rw [mem_singleton.mp hmem]
        exact inv.pop hexpired
      next u hrun =>
      intro t hmem
      obtain rfl | hmem := mem_cons.mp hmem
      · exact inv.pop hexpired
      · exact ih ((inv.pop hexpired).edits (hrange _ timeout) hrun).1 t hmem

def Handled (s s' : State) : Prop :=
  ∀ user ∈ s.pending, user.remaining s ≤ 0 →
    user.id ∈ s'.calls.map Call.id ∨ user.id ∈ s'.removed

lemma Inv.handled (inv : Inv s) (inv' : Inv s') (hnext : s.nextId ≤ s'.nextId)
    (hlater : ∀ user ∈ s'.pending, (user ∈ s.pending ∧ 0 < user.remaining s) ∨
      s.nextId ≤ user.id) : Handled s s' := by
  intro user hmem hexpired
  have hold := (inv.places_pending (mem_map_of_mem hmem)).1
  have hplaces := inv'.places user.id
  unfold State.places at hplaces
  rw [if_pos (by omega)] at hplaces
  by_contra hnot
  rw [not_or] at hnot
  rw [count_eq_zero_of_not_mem hnot.1, count_eq_zero_of_not_mem hnot.2] at hplaces
  have hpending : user.id ∈ ids s'.pending := count_pos_iff.mp (by omega)
  obtain ⟨user', hmem', hid⟩ := mem_map.mp hpending
  obtain ⟨hbefore, hpos⟩ | hnew := hlater user' hmem'
  · have heq := inv.pending_inj hbefore hmem hid
    subst heq
    omega
  · omega

/-- One call of `get_next_timeout`. -/
lemma Inv.getNext {callback : Callback} {result : Int × Option Timespec}
    (inv : Inv s) (hidle : s.expiredList = []) (hrange : RepresentableCallback callback)
    (h : getNextTimeout callback s = some (s', result)) :
    Inv s' ∧ s'.expiredList = [] ∧ Handled s s' ∧ DelayResult s' result := by
  have hret : (if s.userSharedData then userSharedDataTimeout else -1) = -1 ∨
      (if s.userSharedData then userSharedDataTimeout else -1) = userSharedDataTimeout := by
    split
    · exact .inr rfl
    · exact .inl rfl
  unfold getNextTimeout at h
  dsimp only at h
  split at h
  · obtain ⟨hcollected, hleft⟩ := inv.collect hidle
    split at h
    · cases h
    next t hrun =>
    cases h
    obtain ⟨hinv, hedited, hnil⟩ := hcollected.callbacks hrange _ le_rfl hrun
    have hnext : s.nextId ≤ s'.nextId := by
      have hle := hedited.nextId
      rw [collectExpired_eq] at hle
      exact hle
    refine ⟨hinv, hnil, ?_, ?_⟩
    · apply inv.handled hinv hnext
      intro user hmem
      have hcases : user ∈ (collectExpired s).absTimeoutList ∨
          user ∈ (collectExpired s).relTimeoutList ∨ (collectExpired s).nextId ≤ user.id := by
        obtain habs | hrel | hexpired := mem_pending.mp hmem
        · obtain habs | hnew := hedited.absTimeoutList user habs
          · exact .inl habs
          · exact .inr (.inr hnew)
        · obtain hrel | hnew := hedited.relTimeoutList user hrel
          · exact .inr (.inl hrel)
          · exact .inr (.inr hnew)
        · rw [hnil] at hexpired
          cases hexpired
      obtain habs | hrel | hnew := hcases
      · exact .inl (hleft user (.inl habs))
      · exact .inl (hleft user (.inr hrel))
      · rw [collectExpired_eq] at hnew
        exact .inr hnew
    · apply DelayFor.result
      have hpending : s'.pending = s'.absTimeoutList ++ s'.relTimeoutList := by
        rw [State.pending, hnil, append_nil]
      rw [hpending]
      exact hinv.nextDelay hret
  · next hempty =>
    cases h
    rw [not_or, not_not, not_not] at hempty
    have hpending : s.pending = [] := by
      rw [State.pending, hempty.1, hempty.2, hidle]
      rfl
    refine ⟨inv, hidle, ?_, ?_⟩
    · intro user hmem
      rw [hpending] at hmem
      cases hmem
    · apply DelayFor.result
      rw [hpending]
      exact DelayFor.nil hret

def InRange (s : State) : Op → Prop
  | .setCurrentTime currentTime monotonicTime => ClockRange currentTime monotonicTime
  | .mapUserSharedData => True
  | .edit e => RepresentableEdits s.monotonicTime [e]
  | .getNextTimeout callback => RepresentableCallback callback

def Initial (s : State) : Prop :=
  ∃ currentTime monotonicTime, ClockRange currentTime monotonicTime ∧
    s = { initial with currentTime := currentTime, monotonicTime := monotonicTime }

lemma initial_inv (h : Initial s) : Inv s ∧ s.expiredList = [] := by
  obtain ⟨currentTime, monotonicTime, hclocks, rfl⟩ := h
  refine ⟨⟨hclocks, List.Pairwise.nil, List.Pairwise.nil, ?_, ?_, ?_, ?_, ?_, ?_⟩, rfl⟩
  · exact nofun
  · exact nofun
  · exact nofun
  · intro user hmem
    cases hmem
  · intro id
    exact (if_neg (Nat.not_lt_zero id)).symm
  · exact nofun

lemma Inv.step {op : Op} (inv : Inv s) (hidle : s.expiredList = [])
    (hrange : InRange s op) (h : Timeouts.step s op = some s') :
    Inv s' ∧ s'.expiredList = [] := by
  cases op with
  | setCurrentTime currentTime monotonicTime =>
    cases h
    refine ⟨⟨hrange, inv.absSorted, inv.relSorted, inv.absRange, inv.relRange, ?_, inv.asked,
      inv.places, inv.called⟩, hidle⟩
    intro user hmem
    rw [hidle] at hmem
    cases hmem
  | mapUserSharedData =>
    cases h
    exact ⟨⟨inv.clocks, inv.absSorted, inv.relSorted, inv.absRange, inv.relRange, inv.expired,
      inv.asked, inv.places, inv.called⟩, hidle⟩
  | edit e =>
    obtain ⟨hinv, hedited⟩ := inv.edit hrange h
    refine ⟨hinv, eq_nil_of_length_eq_zero ?_⟩
    have hle := hedited.expiredList.length_le
    rw [hidle] at hle
    exact Nat.le_zero.mp hle
  | getNextTimeout callback =>
    obtain ⟨⟨t, result⟩, hnext, rfl⟩ := Option.map_eq_some_iff.mp h
    obtain ⟨hinv, hnil, _⟩ := inv.getNext hidle hrange hnext
    exact ⟨hinv, hnil⟩

/-- The lists are sorted by expiry, every timeout that was added is pending, was removed or was
called once, and no callback was invoked before the expiry of its request. -/
structure Sound (s : State) : Prop where
  absSorted : SortedBy TimeoutUser.when s.absTimeoutList
  relSorted : SortedBy (fun user => -user.when) s.relTimeoutList
  once : ∀ id, (ids s.pending).count id + (s.calls.map Call.id).count id + s.removed.count id =
    if id < s.nextId then 1 else 0
  called : ∀ call ∈ s.calls, ∃ request ∈ s.requests, request.id = call.id ∧
    request.remaining call.currentTime call.monotonicTime ≤ 0

lemma Inv.sound (inv : Inv s) : Sound s :=
  ⟨inv.absSorted, inv.relSorted, inv.places, inv.called⟩

def clocksSet : State := { initial with currentTime := 1000000, monotonicTime := 1000000 }

def remainingAfter (callback : Callback) (ops : List Op) : Option (Int × List Int) :=
  (run step clocksSet ops).bind fun s =>
    (getNextTimeout callback s).map fun r => (r.2.1, r.1.pending.map fun user => user.remaining r.1)

end WineForge.Timeouts
