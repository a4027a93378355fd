import WineForge.UserHandles.Resolution

/-!
# Runs of allocations and frees

What `get_user_object` finds in every run whose requests do not allocate the type that is asked
for, and how long a freed handle stays unresolved.
-/

namespace WineForge.UserHandles

open Function Library Option

variable {O : Type} [DecidableEq O] {s s' t : Tables O} {asked : Nat}

def Room (s : Tables O) : Prop := s.freelist ≠ noEntry ∨ s.nbHandles < maxUserHandles

/-- Requests do not allocate the type that is asked for, and nothing is allocated in full tables. -/
def Fair (asked : Nat) (s : Tables O) : Op O → Prop
  | .create _ _ _ _ => Room s
  | .allocRequest _ type => type ≠ asked ∧ Room s
  | _ => True

omit [DecidableEq O] in
lemma Valid.allocIndex_lt_iff (h : Valid s) : allocIndex s < maxUserHandles ↔ Room s := by
  unfold Room allocIndex
  by_cases hfree : s.freelist ≠ noEntry
  · obtain ⟨cells, hthread, _, hcells⟩ := h.free
    obtain ⟨rest, rfl, _⟩ := hthread.pop hfree
    have hlt := (hcells s.freelist List.mem_cons_self).1
    rw [if_pos hfree]
    exact iff_of_true (Nat.lt_of_lt_of_le hlt h.bound) (.inl hfree)
  · rw [if_neg hfree]
    exact ⟨.inr, fun hroom => hroom.resolve_left hfree⟩

lemma step_inv {op : Op O} (h : TablesInv asked s) (hfair : Fair asked s op)
    (hstep : step s op = some s') : TablesInv asked s' := by
  cases op with
  | create o offset pid type =>
    rw [step] at hstep
    split at hstep
    · exact some.inj hstep ▸ h
    rename_i hnew
    have hnone : s.objects o = none := not_not.mp fun hsome => hnew (.inl hsome)
    have hroom := h.allocIndex_lt_iff.mpr hfair
    rw [if_neg (Nat.not_le_of_lt hroom)] at hstep
    exact some.inj hstep ▸ create_inv h hnone hroom
  | destroy o =>
    rw [step] at hstep
    split at hstep
    · exact some.inj hstep ▸ h
    · rename_i ho
      exact some.inj hstep ▸ destroy_inv h ho
  | allocRequest pid type =>
    have hroom := h.allocIndex_lt_iff.mpr hfair.2
    rw [step, if_neg (Nat.not_le_of_lt hroom)] at hstep
    exact some.inj hstep ▸ allocRequest_inv h hfair.1 hroom
  | freeRequest handle type => exact some.inj hstep ▸ freeRequest_inv h handle type
  | processExit pid =>
    exact some.inj hstep ▸ freeProcessEntries_inv h (Nat.le_of_eq (Nat.zero_add _))

omit [DecidableEq O] in
lemma NoHandles.inv (h : NoHandles s) : TablesInv asked s := by
  obtain ⟨hfree, hnb, _, hallocated⟩ := h
  refine ⟨⟨⟨[], hfree, List.nodup_nil, by simp⟩, ?_, ?_, ?_⟩, ?_⟩
  · rw [hnb]
    exact Nat.zero_le _
  · intro i hi
    omega
  · intro i _
    exact hallocated i
  · intro i hi
    omega

lemma Fair.has_result {op : Op O} (h : TablesInv asked s) (hfair : Fair asked s op) :
    ∃ s', step s op = some s' := by
  cases op with
  | create o offset pid type =>
    have hroom := h.allocIndex_lt_iff.mpr hfair
    rw [step, if_neg (Nat.not_le_of_lt hroom)]
    split
    · exact ⟨_, rfl⟩
    · exact ⟨_, rfl⟩
  | destroy o =>
    rw [step]
    split
    · exact ⟨_, rfl⟩
    · exact ⟨_, rfl⟩
  | allocRequest pid type =>
    rw [step, if_neg (Nat.not_le_of_lt (h.allocIndex_lt_iff.mpr hfair.2))]
    exact ⟨_, rfl⟩
  | freeRequest handle type | processExit pid => exact ⟨_, rfl⟩

def Later (i : Nat) (s t : Tables O) : Prop :=
  s.allocated i < t.allocated i ∨
    s.allocated i = t.allocated i ∧ ((s.entries i).type = 0 → (t.entries i).type = 0)

omit [DecidableEq O] in
lemma Later.refl (i : Nat) (s : Tables O) : Later i s s := .inr ⟨rfl, id⟩

omit [DecidableEq O] in
lemma Later.trans {i : Nat} {u : Tables O} (h : Later i s t) (h' : Later i t u) : Later i s u := by
  unfold Later at *
  omega

omit [DecidableEq O] in
lemma allocUserHandle_later (s : Tables O) (ptr : Pointer O) (offset pid type i : Nat) :
    Later i s (allocUserHandle s ptr offset pid type).1 := by
  unfold Later allocUserHandle allocUserEntry
  dsimp only
  by_cases heq : i = allocIndex s
  · subst heq
    rw [update_self]
    exact .inl (Nat.lt_succ_self _)
  · rw [update_of_ne heq, update_of_ne heq]
    exact .inr ⟨rfl, id⟩

omit [DecidableEq O] in
lemma freeUserEntry_later (s : Tables O) (j i : Nat) : Later i s (freeUserEntry s j) := by
  refine .inr ⟨rfl, fun hfree => ?_⟩
  unfold freeUserEntry
  dsimp only
  by_cases heq : i = j
  · rw [heq, update_self]
  · rw [update_of_ne heq]
    exact hfree

omit [DecidableEq O] in
lemma freeUserHandle_later (s : Tables O) (handle : UserHandle) (i : Nat) :
    Later i s (freeUserHandle s handle) := by
  unfold freeUserHandle
  split
  · exact Later.refl i s
  · exact freeUserEntry_later
      { s with serverObjects := update s.serverObjects _ none } _ i

omit [DecidableEq O] in
lemma freeProcessEntries_later (pid n j i : Nat) (s : Tables O) :
    Later i s (freeProcessEntries pid n j s) := by
  induction n generalizing j s with
  | zero => exact Later.refl i s
  | succ n ih =>
    rw [freeProcessEntries]
    split
    · exact (freeUserEntry_later s j i).trans (ih (j + 1) _)
    · exact ih (j + 1) s

lemma step_later {op : Op O} (i : Nat) (hstep : step s op = some s') : Later i s s' := by
  cases op with
  | create o offset pid type =>
    rw [step] at hstep
    split at hstep
    · exact some.inj hstep ▸ Later.refl i s
    · split at hstep
      · simp at hstep
      · exact some.inj hstep ▸ allocUserHandle_later s (.object o) offset pid type i
  | destroy o =>
    rw [step] at hstep
    split at hstep
    · exact some.inj hstep ▸ Later.refl i s
    · exact some.inj hstep ▸ freeUserHandle_later s _ i
  | allocRequest pid type =>
    rw [step] at hstep
    split at hstep
    · simp at hstep
    · exact some.inj hstep ▸ allocUserHandle_later s .client 0 pid type i
  | freeRequest handle type =>
    rw [← some.inj hstep, freeRequest]
    split
    · exact Later.refl i s
    · split
      · exact freeUserEntry_later s _ i
      · exact Later.refl i s
  | processExit pid =>
    exact some.inj hstep ▸ freeProcessEntries_later pid s.nbHandles 0 i s

omit [DecidableEq O] in
lemma TablesInv.handle_current {n i j : Nat} (h : TablesInv asked s) (hn : 1 ≤ n)
    (hi : i < maxUserHandles) (hle : n ≤ s.allocated i) (hround : s.allocated i < n + 65534)
    (hentry : handleToEntry s (entryToHandle i (generationOf n)) = some j) :
    n = s.allocated i ∧ j = i ∧ (s.entries i).type ≠ 0 := by
  have hbounds := generationOf_bounds n
  have hgen : generationOf n < 65536 := by omega
  obtain ⟨hindex, hlt, hused, hmatch⟩ := handleToEntry_eq_some.mp hentry
  rw [handleIndex_entryToHandle hi hgen] at hindex
  subst hindex
  refine ⟨?_, rfl, hused⟩
  rw [(h.counted j hlt).2] at hmatch
  unfold Matches at hmatch
  rw [handleGeneration_entryToHandle hi hgen] at hmatch
  apply generationOf_inj hn hle hround
  omega

omit [DecidableEq O] in
lemma TablesInv.resolves {handle : UserHandle} {p : Pointer O} (h : TablesInv asked s)
    (hobject : getUserObject s handle asked = some p) :
    ∃ o allocated, p = .object o ∧ s.objects o = some (allocated, asked) ∧
      handleIndex handle = handleIndex allocated ∧
      Matches handle (handleGeneration allocated) := by
  unfold getUserObject at hobject
  cases hentry : handleToEntry s handle with
  | none =>
    rw [hentry] at hobject
    simp at hobject
  | some i =>
    rw [hentry] at hobject
    dsimp only at hobject
    split at hobject
    · simp at hobject
    rename_i htype
    have htype : (s.entries i).type = asked := not_not.mp htype
    obtain ⟨hindex, hlt, hused, hmatch⟩ := handleToEntry_eq_some.mp hentry
    have hmax := Nat.lt_of_lt_of_le hlt h.bound
    have hgen := h.generation_lt hlt
    obtain ⟨_, hother⟩ | ⟨o, hptr, ho⟩ := h.holds i hlt hused
    · exact absurd htype hother
    rw [hptr] at hobject
    rw [htype] at ho
    refine ⟨o, _, (some.inj hobject).symm, ho, ?_, ?_⟩
    · rw [handleIndex_entryToHandle hmax hgen]
      exact hindex.symm
    · rw [handleGeneration_entryToHandle hmax hgen]
      exact hmatch

/-- User handles resolve safely, as long as no request allocates the type that is asked for and
nothing is allocated in full tables. -/
theorem user_handles_safe (asked : Nat) (s : Tables O)
    (hs : Reaches step (Fair asked) NoHandles s) :
    (∀ handle p, getUserObject s handle asked = some p →
      ∃ o allocated, p = .object o ∧ s.objects o = some (allocated, asked) ∧
        handleIndex handle = handleIndex allocated ∧
        Matches handle (handleGeneration allocated)) ∧
    (∀ handle i, handleToEntry s handle = some i → i < s.nbHandles) ∧
    (s.nbHandles ≤ maxUserHandles ∧ (allocIndex s < maxUserHandles ↔ Room s) ∧
      ∀ op, Fair asked s op → ∃ s', step s op = some s') ∧
    (∀ ptr offset pid type, (allocUserHandle s ptr offset pid type).2 =
      entryToHandle (allocIndex s) (generationOf (s.allocated (allocIndex s) + 1))) ∧
    ∀ n i t, 1 ≤ n → n ≤ s.allocated i → (n < s.allocated i ∨ (s.entries i).type = 0) →
      Reaches step (Fair asked) (· = s) t → t.allocated i < n + 65534 →
      handleToEntry t (entryToHandle i (generationOf n)) = none := by
  have hinv : TablesInv asked s :=
    hs.invariant (fun _ => NoHandles.inv) fun _ _ _ h hfair hstep => step_inv h hfair hstep
  refine ⟨fun handle p => hinv.resolves, fun handle i hentry => ?_,
    ⟨hinv.bound, hinv.allocIndex_lt_iff, fun op => Fair.has_result hinv⟩,
    fun ptr offset pid type => ?_, ?_⟩
  · exact (handleToEntry_eq_some.mp hentry).2.1
  · rw [← hinv.allocGeneration_eq]
    unfold allocUserHandle allocUserEntry
    dsimp only
    rw [update_self]
  · intro n i t hn hle hfreed ht hround
    have hlater : TablesInv asked t ∧ Later i s t := by
      refine ht.invariant (P := fun u => TablesInv asked u ∧ Later i s u) ?_ ?_
      · rintro u rfl
        exact ⟨hinv, Later.refl i u⟩
      · intro u op u' h hfair hstep
        exact ⟨step_inv h.1 hfair hstep, h.2.trans (step_later i hstep)⟩
    have hi : i < maxUserHandles := by
      apply Nat.lt_of_not_le
      intro hge
      have hzero := hinv.unused i (Nat.le_trans hinv.bound hge)
      omega
    obtain ⟨htinv, hlater⟩ := hlater
    unfold Later at hlater
    cases hentry : handleToEntry t (entryToHandle i (generationOf n)) with
    | none => rfl
    | some j =>
      obtain ⟨hlast, _, hused⟩ := htinv.handle_current hn hi (by omega) hround hentry
      omega

def emptyTables : Tables Unit where
  entries _ := ⟨0, 0, 0, 0⟩
  serverObjects _ := none
  freelist := noEntry
  nbHandles := 0
  objects _ := none
  allocated _ := 0

lemma emptyTables_noHandles : NoHandles emptyTables := ⟨rfl, rfl, fun _ => rfl, fun _ => rfl⟩

def menuAndWindow : List (Op Unit) :=
  [.allocRequest 4 ntuserObjMenu, .create () 64 4 ntuserObjWindow, .freeRequest 0x10020 2]

theorem user_handles_safe_window : ∃ s, run step emptyTables menuAndWindow = some s ∧
      getUserObject s 0x10022 ntuserObjWindow = some (.object ()) ∧
      ∃ o allocated, Pointer.object () = .object o ∧
        s.objects o = some (allocated, ntuserObjWindow) ∧
        handleIndex 0x10022 = handleIndex allocated ∧
        Matches 0x10022 (handleGeneration allocated) := by
  have hrun : (run step emptyTables menuAndWindow).isSome = true := by decide
  obtain ⟨s, hs⟩ := isSome_iff_exists.mp hrun
  have hobject : (run step emptyTables menuAndWindow).bind
      (getUserObject · 0x10022 ntuserObjWindow) = some (.object ()) := by decide
  rw [hs] at hobject
  have hreach : Reaches step (Fair ntuserObjWindow) NoHandles s := by
    apply (Reaches.start emptyTables_noHandles).run menuAndWindow _ hs
    exact ⟨⟨by decide, .inr (by decide)⟩, .inr (by decide), trivial, trivial⟩
  exact ⟨s, hs, hobject, (user_handles_safe ntuserObjWindow s hreach).1 0x10022 _ hobject⟩

lemma fill_tables {n : Nat} (hn : n ≤ maxUserHandles) :
    ∃ s, Reachable step (NoHandles (O := Unit)) s ∧ s.freelist = noEntry ∧ s.nbHandles = n := by
  induction n with
  | zero => exact ⟨emptyTables, .start emptyTables_noHandles, rfl, rfl⟩
  | succ n ih =>
    obtain ⟨s, hreach, hfree, hnb⟩ := ih (Nat.le_of_succ_le hn)
    have hfull : ¬s.freelist ≠ noEntry := not_not.mpr hfree
    have hindex : allocIndex s = n := (if_neg hfull).trans hnb
    have hstep : step s (.allocRequest 4 ntuserObjMenu) =
        some (allocRequest s 4 ntuserObjMenu).1 := by
      rw [step, if_neg]
      omega
    refine ⟨_, .next hreach trivial hstep, ?_, ?_⟩
    · exact (if_neg hfull).trans hfree
    · exact (if_neg hfull).trans (by rw [hnb])

/-- A client allocates a handle for a window, which resolves to its pointer, and a client that
fills the tables allocates an entry outside them. -/
theorem client_window_resolves : (∃ s, Reachable step (NoHandles (O := Unit)) s ∧
      getUserObject s 0x10020 ntuserObjWindow = some .client) ∧
    ∃ s, Reachable step (NoHandles (O := Unit)) s ∧ allocIndex s = maxUserHandles ∧
      step s (.allocRequest 4 ntuserObjMenu) = none := by
  constructor
  · have hstep : step emptyTables (.allocRequest 4 ntuserObjWindow) =
        some (allocRequest emptyTables 4 ntuserObjWindow).1 := rfl
    exact ⟨_, .next (.start emptyTables_noHandles) trivial hstep, by decide⟩
  · obtain ⟨s, hreach, hfree, hnb⟩ := fill_tables (Nat.le_refl maxUserHandles)
    have hindex : allocIndex s = maxUserHandles := (if_neg (not_not.mpr hfree)).trans hnb
    refine ⟨s, hreach, hindex, ?_⟩
    rw [step, if_pos (Nat.le_of_eq hindex.symm)]

end WineForge.UserHandles
