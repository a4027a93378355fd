import WineForge.Ptids.State

/-!
# Runs of allocations and releases

Every live id resolves to its object through all runs in which the ids fit into 32 bits, and a
freed id comes back only after 255 other ids were freed.
-/

namespace WineForge.Ptids

open Library List

variable {O : Type} {s s' : State O} {t : Table O} {ptr : O} {enlarged : Bool}

lemma allocPtid_unused (ptr : O) (enlarged : Bool)
    (hroom : t.usedPtidEntries < t.allocPtidEntries) :
    allocPtid t ptr enlarged = takeUnused t ptr := by
  unfold allocPtid
  rw [if_pos hroom]

lemma allocPtid_free (ptr : O) (enlarged : Bool) (hroom : ¬t.usedPtidEntries < t.allocPtidEntries)
    (hfree : t.nextFreePtid ≠ 0 ∧ 256 ≤ t.numFreePtids) :
    allocPtid t ptr enlarged = takeFree t ptr := by
  unfold allocPtid
  rw [if_neg hroom, if_pos hfree]

lemma allocPtid_grow (ptr : O) (enlarged : Bool) (hroom : ¬t.usedPtidEntries < t.allocPtidEntries)
    (hfree : ¬(t.nextFreePtid ≠ 0 ∧ 256 ≤ t.numFreePtids)) :
    allocPtid t ptr enlarged =
      if enlarged then
        takeUnused { t with allocPtidEntries := grownCount t.allocPtidEntries } ptr
      else (t, 0) := by
  unfold allocPtid
  rw [if_neg hroom, if_neg hfree]

lemma Room.grown (h : Room t) (hfull : ¬t.usedPtidEntries < t.allocPtidEntries)
    (hfits : t.usedPtidEntries ≤ 2 ^ 30) :
    t.usedPtidEntries < grownCount t.allocPtidEntries ∧
      512 ≤ grownCount t.allocPtidEntries := by
  unfold Room at h
  have hcount : (t.allocPtidEntries + t.allocPtidEntries / 2) % wordSize =
      t.allocPtidEntries + t.allocPtidEntries / 2 := by
    apply Nat.mod_eq_of_lt
    unfold wordSize
    omega
  unfold grownCount
  dsimp only
  rw [hcount]
  split
  · omega
  · omega

def allocated (s : State O) (ptr : O) (enlarged : Bool) : State O :=
  { s with
    table := (allocPtid s.table ptr enlarged).1
    live :=
      if (allocPtid s.table ptr enlarged).2 = 0 then s.live
      else ((allocPtid s.table ptr enlarged).2, ptr) :: s.live }

lemma step_alloc (s : State O) (ptr : O) (enlarged : Bool) :
    step s (.alloc ptr enlarged) = some (allocated s ptr enlarged) := rfl

lemma Inv.after_unused {size : Nat} (h : Inv s) (ht : t = { s.table with allocPtidEntries := size })
    (heq : allocPtid s.table ptr enlarged = takeUnused t ptr)
    (hroom : s.table.usedPtidEntries < size) (hsize : 512 ≤ size)
    (hfits : Fits s) (hfits' : Fits (allocated s ptr enlarged)) :
    Inv (allocated s ptr enlarged) := by
  have hgrows : s.table.usedPtidEntries + 1 + ptidOffset ≤ 2 ^ 30 := by
    unfold Fits allocated at hfits'
    rw [heq, ht] at hfits'
    change (s.table.usedPtidEntries + 1) % wordSize + ptidOffset ≤ _ at hfits'
    rw [Nat.mod_eq_of_lt] at hfits'
    · exact hfits'
    · unfold Fits at hfits
      unfold wordSize
      omega
  have hid : (takeUnused t ptr).2 = 4 * (s.table.usedPtidEntries + ptidOffset) := by
    rw [ht]
    change ptidFromIndex ((s.table.usedPtidEntries + ptidOffset) % wordSize) = _
    rw [ptidFromIndex_eq]
    exact Nat.mod_eq_of_lt (by omega)
  have hpos : 4 * (s.table.usedPtidEntries + ptidOffset) ≠ 0 := by
    unfold ptidOffset
    omega
  unfold allocated
  rw [heq, hid, if_neg hpos, ht]
  exact h.unused_taken hroom hsize hgrows

lemma Inv.after_free (h : Inv s) (hfits : Fits s) (hhead : s.table.nextFreePtid ≠ 0)
    (heq : allocPtid s.table ptr enlarged = takeFree s.table ptr) :
    (takeFree s.table ptr).2 = 4 * s.table.nextFreePtid ∧ Inv (allocated s ptr enlarged) := by
  obtain ⟨cells, hcells⟩ := h.queue
  obtain ⟨rest, older, rfl, _⟩ := hcells.head_old hhead
  have hused := (hcells.used _ mem_cons_self).1
  unfold Used at hused
  unfold Fits at hfits
  have hid : (takeFree s.table ptr).2 = 4 * s.table.nextFreePtid := by
    change s.table.nextFreePtid * 4 % wordSize = _
    unfold wordSize
    omega
  refine ⟨hid, ?_⟩
  have hpos : 4 * s.table.nextFreePtid ≠ 0 := by omega
  unfold allocated
  rw [heq, hid, if_neg hpos]
  exact h.free_taken hhead

lemma Inv.after_alloc (h : Inv s) (hfits : Fits s)
    (hfits' : Fits (allocated s ptr enlarged)) : Inv (allocated s ptr enlarged) := by
  by_cases hroom : s.table.usedPtidEntries < s.table.allocPtidEntries
  · have hsize : 512 ≤ s.table.allocPtidEntries := h.room.2.resolve_left (by omega)
    exact h.after_unused rfl (allocPtid_unused ptr enlarged hroom) hroom hsize hfits hfits'
  by_cases hfree : s.table.nextFreePtid ≠ 0 ∧ 256 ≤ s.table.numFreePtids
  · exact (h.after_free hfits hfree.1 (allocPtid_free ptr enlarged hroom hfree)).2
  have heq := allocPtid_grow ptr enlarged hroom hfree
  cases enlarged with
  | false =>
    unfold allocated
    rw [heq]
    exact h
  | true =>
    have hle : s.table.usedPtidEntries ≤ 2 ^ 30 := by
      unfold Fits at hfits
      omega
    obtain ⟨hgrown, hsize⟩ := h.room.grown hroom hle
    exact h.after_unused rfl heq hgrown hsize hfits hfits'

lemma Inv.alloc_delayed (h : Inv s) (hfits : Fits s) (ptr : O) (enlarged : Bool) :
    (allocPtid s.table ptr enlarged).2 ∉ s.freed.take 255 := by
  have hold : ∀ id, (∀ i, Used s.table i → id ≠ 4 * i) → id ∉ s.freed.take 255 := by
    intro id hid hmem
    obtain ⟨i, hi, heq⟩ := h.freed id (mem_of_mem_take hmem)
    exact hid i hi heq
  have hunused : ∀ size, (takeUnused { s.table with allocPtidEntries := size } ptr).2 ∉
      s.freed.take 255 := by
    intro size
    apply hold
    intro i hi
    change ptidFromIndex ((s.table.usedPtidEntries + ptidOffset) % wordSize) ≠ _
    rw [ptidFromIndex_eq]
    unfold Used ptidOffset at *
    unfold Fits ptidOffset at hfits
    omega
  by_cases hroom : s.table.usedPtidEntries < s.table.allocPtidEntries
  · rw [allocPtid_unused ptr enlarged hroom]
    exact hunused s.table.allocPtidEntries
  by_cases hfree : s.table.nextFreePtid ≠ 0 ∧ 256 ≤ s.table.numFreePtids
  · have heq := allocPtid_free ptr enlarged hroom hfree
    rw [heq, (h.after_free hfits hfree.1 heq).1]
    obtain ⟨cells, hcells⟩ := h.queue
    obtain ⟨rest, older, rfl, hfreed, hnew⟩ := hcells.head_old hfree.1
    have hlength : 255 ≤ rest.length := by
      have hcount := hcells.count
      rw [length_cons] at hcount
      omega
    intro hmem
    rw [hfreed, take_append_of_le_length (by simpa using hlength)] at hmem
    exact hnew (mem_reverse.mp (mem_of_mem_take hmem))
  · rw [allocPtid_grow ptr enlarged hroom hfree]
    cases enlarged with
    | false =>
      apply hold 0
      intro i hi
      unfold Used ptidOffset at hi
      omega
    | true => exact hunused _

lemma step_inv {op : Op O} (h : Inv s) (hfits : Fits s) (hstep : step s op = some s')
    (hfits' : Fits s') : Inv s' := by
  cases op with
  | alloc ptr enlarged =>
    rw [step_alloc] at hstep
    obtain rfl := Option.some.inj hstep
    exact h.after_alloc hfits hfits'
  | free id =>
    rw [step] at hstep
    split at hstep
    · rename_i hlive
      rw [← Option.some.inj hstep]
      exact h.free hfits (contains_iff_mem.mp hlive)
    · simp at hstep

lemma lookup_eq_some_iff {l : List (Nat × O)} (h : (l.map Prod.fst).Nodup) {id : Nat} {o : O} :
    l.lookup id = some o ↔ (id, o) ∈ l := by
  induction l with
  | nil => simp
  | cons p rest ih =>
    obtain ⟨k, v⟩ := p
    obtain ⟨hnew, hrest⟩ := nodup_cons.mp h
    rw [lookup_cons, mem_cons]
    by_cases heq : id = k
    · subst heq
      have hnone : (id, o) ∉ rest := fun hmem => hnew (mem_map.mpr ⟨_, hmem, rfl⟩)
      simp only [beq_self_eq_true, Option.some.injEq, Prod.mk.injEq, true_and, hnone, or_false]
      exact eq_comm
    · have hbeq : (id == k) = false := beq_false_of_ne heq
      simp only [hbeq, Prod.mk.injEq, heq, false_and, false_or]
      exact ih hrest

lemma Inv.getPtidEntry_eq (h : Inv s) (id : Nat) :
    getPtidEntry s.table id = s.live.lookup (id / 4 * 4) := by
  apply Option.ext
  intro o
  rw [lookup_eq_some_iff h.nodup, h.live, getPtidEntry_eq_some]
  constructor
  · intro hentry
    exact ⟨id / 4, hentry.1, Nat.mul_comm _ _, hentry.2⟩
  · rintro ⟨i, hi, heq, hptr⟩
    have heq : id / 4 = i := by omega
    rw [heq]
    exact ⟨hi, hptr⟩

/-- The ids of a run whose table stays small enough for them to fit into 32 bits: live ids are
distinct, an id finds its object whatever its two low bits are, and a freed id is given out again
only after 255 other releases. -/
theorem ptids_unique (s : State O) (hs : Reaches step (fun s _ => Fits s) Initial s)
    (hfits : Fits s) :
    (s.live.map Prod.fst).Nodup ∧
      (∀ id, getPtidEntry s.table id = s.live.lookup (id / 4 * 4)) ∧
      ∀ ptr enlarged, (allocPtid s.table ptr enlarged).2 ∉ s.freed.take 255 := by
  have hinv : Fits s → Inv s := by
    refine hs.invariant (P := fun s => Fits s → Inv s) ?_ ?_
    · intro s h _
      exact h.inv
    · intro s op s' h hgood hstep hfits'
      exact step_inv (h hgood) hgood hstep hfits'
  exact ⟨(hinv hfits).nodup, (hinv hfits).getPtidEntry_eq, (hinv hfits).alloc_delayed hfits⟩

def startState : State Unit where
  table := ⟨fun _ => ⟨none, 0⟩, 0, 0, 0, 0, 0⟩
  live := []
  freed := []

lemma startState_initial : Initial startState := ⟨rfl, rfl, rfl, rfl, rfl, rfl, rfl⟩

def twoIds : List (Op Unit) := [.alloc () true, .alloc () true, .free 32]

theorem ptids_unique_two :
    ∃ s, run step startState twoIds = some s ∧ s.live = [(36, ())] ∧ s.freed = [32] ∧
      getPtidEntry s.table 36 = some () ∧ (allocPtid s.table () true).2 ∉ s.freed.take 255 := by
  have hrun : ((run step startState twoIds).map fun s =>
      (s.live, s.freed, s.table.usedPtidEntries)) = some ([(36, ())], [32], 2) := by decide
  obtain ⟨s, hs, heq⟩ := Option.map_eq_some_iff.mp hrun
  obtain ⟨hlive, hrest⟩ := Prod.mk.inj heq
  obtain ⟨hfreed, hused⟩ := Prod.mk.inj hrest
  have hreach : Reaches step (fun s _ => Fits s) Initial s := by
    apply (Reaches.start startState_initial).run twoIds _ hs
    exact ⟨by unfold Fits; decide, by unfold Fits; decide, by unfold Fits; decide, trivial⟩
  have hfits : Fits s := by
    unfold Fits
    rw [hused]
    decide
  obtain ⟨_, hlookup, hdelayed⟩ := ptids_unique s hreach hfits
  refine ⟨s, hs, hlive, hfreed, ?_, hdelayed () true⟩
  rw [hlookup, hlive]
  rfl

lemma allocPtid_empty (h : Room t) (hnext : t.nextFreePtid = 0)
    (hle : t.usedPtidEntries ≤ 2 ^ 30) (ptr : O) :
    ∃ size, allocPtid t ptr true = takeUnused { t with allocPtidEntries := size } ptr ∧
      t.usedPtidEntries < size ∧ 512 ≤ size := by
  by_cases hroom : t.usedPtidEntries < t.allocPtidEntries
  · unfold Room at h
    exact ⟨t.allocPtidEntries, allocPtid_unused ptr true hroom, hroom, by omega⟩
  · have hfree : ¬(t.nextFreePtid ≠ 0 ∧ 256 ≤ t.numFreePtids) := fun hfree => hfree.1 hnext
    exact ⟨_, allocPtid_grow ptr true hroom hfree, h.grown hroom hle⟩

lemma allocate_many {n : Nat} (hn : n ≤ 2 ^ 30) :
    ∃ s, Reachable step (Initial (O := Unit)) s ∧ s.table.usedPtidEntries = n ∧
      s.table.nextFreePtid = 0 ∧ Room s.table ∧ (1 ≤ n → 32 ∈ s.live.map Prod.fst) := by
  induction n with
  | zero =>
    exact ⟨startState, .start startState_initial, rfl, rfl, ⟨Nat.le_refl 0, .inl rfl⟩, by simp⟩
  | succ n ih =>
    obtain ⟨s, hreach, hused, hnext, hroom, hfirst⟩ := ih (Nat.le_of_succ_le hn)
    obtain ⟨size, heq, hlt, hsize⟩ := allocPtid_empty hroom hnext (by omega) ()
    have hgrows : (n + 1) % wordSize = n + 1 := by
      apply Nat.mod_eq_of_lt
      unfold wordSize
      omega
    have hused' : (allocated s () true).table.usedPtidEntries = n + 1 := by
      unfold allocated
      rw [heq, ← hgrows, ← hused]
      rfl
    have hid : (allocPtid s.table () true).2 = 4 * (n + 8) % 2 ^ 32 := by
      rw [heq, ← hused]
      exact ptidFromIndex_eq _
    refine ⟨allocated s () true, .next hreach trivial (step_alloc s () true), hused', ?_, ?_, ?_⟩
    · unfold allocated
      rw [heq]
      exact hnext
    · unfold Room
      rw [hused']
      unfold allocated
      rw [heq]
      change n + 1 ≤ size ∧ (size = 0 ∨ 512 ≤ size)
      omega
    intro _
    unfold allocated
    rw [hid]
    split
    · exact hfirst (by omega)
    by_cases hn : n = 0
    · rw [hn]
      exact mem_cons_self
    · exact mem_cons_of_mem _ (hfirst (by omega))

/-- An id that was never given out resolves, and the ids of a table that outgrows them repeat. -/
theorem ptids_resolve_or_repeat :
    (∃ s, run step startState [.alloc () true] = some s ∧ s.live.lookup 33 = none ∧
      getPtidEntry s.table 33 = some ()) ∧
    ¬∀ s, Reachable step (Initial (O := Unit)) s → (s.live.map Prod.fst).Nodup := by
  constructor
  · exact ⟨_, rfl, by decide, by decide⟩
  · intro hunique
    obtain ⟨s, hreach, hused, hnext, hroom, hfirst⟩ := allocate_many (Nat.le_refl (2 ^ 30))
    obtain ⟨size, heq, _⟩ := allocPtid_empty hroom hnext (Nat.le_of_eq hused) ()
    have hid : (allocPtid s.table () true).2 = 32 := by
      rw [heq]
      change ptidFromIndex ((s.table.usedPtidEntries + ptidOffset) % wordSize) = 32
      rw [hused]
      rfl
    have hnodup := hunique (allocated s () true) (.next hreach trivial (step_alloc s () true))
    unfold allocated at hnodup
    rw [hid] at hnodup
    exact (List.nodup_cons.mp hnodup).1 (hfirst (by decide))

end WineForge.Ptids
