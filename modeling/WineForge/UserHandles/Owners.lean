import WineForge.UserHandles.Generations

/-!
# Owners of windows

A window keeps the handle of its owner, which may outlive the owner. `set_window_owner` follows the
handles. `set_parent` leaves them as they are.
-/

namespace WineForge.UserHandles

open Function Library Option

variable {O : Type}

section Chains

variable {next next' : O → Option O} {x : O}

def Link (next : O → Option O) (owner win : O) : Prop := next win = some owner

/-- Chains still end where all new links lead to or from one element, and the chain from it only
loses links and does not come back. -/
lemma acc_relink (hall : ∀ a, Acc (Link next) a) (S : O → Prop)
    (hnew : ∀ a b, next' a = some b → a = x ∨ b = x ∨ next a = some b)
    (hx : ∀ b, next' x = some b → S b)
    (hS : ∀ a, S a → a ≠ x ∧ ∀ b, next' a = some b → next a = some b ∧ S b) (a : O) :
    Acc (Link next') a := by
  have hchain : ∀ a, S a → Acc (Link next') a := by
    intro a ha
    induction hall a with
    | intro a _ ih =>
      refine ⟨a, fun b hb => ?_⟩
      obtain ⟨hlink, hb⟩ := (hS a ha).2 b hb
      exact ih b hlink hb
  have hself : Acc (Link next') x := ⟨x, fun b hb => hchain b (hx b hb)⟩
  induction hall a with
  | intro a _ ih =>
    refine ⟨a, fun b hb => ?_⟩
    obtain rfl | rfl | hlink := hnew a b hb
    · exact hchain b (hx b hb)
    · exact hself
    · exact ih b hlink

end Chains

structure Windows (O : Type) where
  tables : Tables O
  owner : O → UserHandle

/-- `get_window`. The pointer of a client is no window. -/
def getWindow (s : Tables O) (handle : UserHandle) : Option O :=
  match getUserObject s handle ntuserObjWindow with
  | some (.object o) => some o
  | _ => none

namespace Windows

/-- `ptr->owner ? get_window( ptr->owner ) : NULL` -/
def ownerOf (s : Windows O) (ptr : O) : Option O :=
  if s.owner ptr = 0 then none else getWindow s.tables (s.owner ptr)

variable [DecidableEq O]

/-- The loop of `set_window_owner`. It says whether the window is found, if `fuel` steps are enough. -/
def ownerLoop (s : Windows O) (win : O) : Nat → Option O → Option Bool
  | 0, _ => none
  | _ + 1, none => some false
  | fuel + 1, some ptr =>
    if ptr = win then some true else ownerLoop s win fuel (s.ownerOf ptr)

/-- `owner ? owner->handle : 0` -/
def ownerHandle (s : Windows O) : Option O → UserHandle
  | none => 0
  | some owner => ((s.tables.objects owner).map Prod.fst).getD 0

def requestOwner (s : Windows O) (owner : UserHandle) : Option (Option O) :=
  if owner = 0 then some none else (getWindow s.tables owner).map some

/-- The steps that `ownerLoop` takes are enough for it to end. -/
def setWindowOwner (isDesktop : O → Bool) (s : Windows O) (handle owner : UserHandle)
    (fuel : Nat) : Option (Windows O) :=
  match getWindow s.tables handle, s.requestOwner owner with
  | some win, some owner =>
    if isDesktop win then some s
    else do
      let found ← s.ownerLoop win fuel owner
      if found then some s
      else some { s with owner := update s.owner win (s.ownerHandle owner) }
  | _, _ => some s

end Windows

open Windows

inductive WindowOp (O : Type)
  | createWindow (win : O) (offset pid : Nat) (owner : Option O)
  | setWindowOwner (handle owner : UserHandle) (fuel : Nat)
  /-- Any other use of handles, which creates no window. -/
  | handles (op : Op O)

def createsWindow : Op O → Bool
  | .create _ _ _ type => type == ntuserObjWindow
  | _ => false

variable [DecidableEq O] in
def windowStep (isDesktop : O → Bool) (s : Windows O) : WindowOp O → Option (Windows O)
  | .createWindow win offset pid owner =>
    if s.tables.objects win ≠ none then some s
    else do
      let tables ← step s.tables (.create win offset pid ntuserObjWindow)
      some ⟨tables, update s.owner win (s.ownerHandle owner)⟩
  | .setWindowOwner handle owner fuel => s.setWindowOwner isDesktop handle owner fuel
  | .handles op =>
    if createsWindow op then none
    else do
      let tables ← step s.tables op
      some { s with tables := tables }

/-- The handle designates the entry that is allocated next. -/
def DesignatesNext (s : Tables O) (handle : UserHandle) : Prop :=
  handleIndex handle = allocIndex s ∧ Matches handle (allocGeneration s)

/-- The handles of owners that are found from a handle on. -/
inductive Along (s : Windows O) (start : UserHandle) : UserHandle → Prop
  | start : Along s start start
  | next {handle : UserHandle} {win : O} :
    Along s start handle → getWindow s.tables handle = some win → Along s start (s.owner win)

/-- No window is created that an owner handle designates which is found from its own owner on. -/
def Unlinked (s : Windows O) : WindowOp O → Prop
  | .createWindow _ _ _ owner =>
    Room s.tables ∧ ∀ handle, Along s (s.ownerHandle owner) handle →
      ¬DesignatesNext s.tables handle
  | .setWindowOwner .. => True
  | .handles op => Fair ntuserObjWindow s.tables op

def NoWindows (s : Windows O) : Prop := NoHandles s.tables ∧ ∀ o, s.owner o = 0

/-- `n` steps along the owners. -/
def Windows.follow (s : Windows O) : Nat → O → Option O
  | 0, win => some win
  | n + 1, win => (s.ownerOf win).bind (s.follow n)

section Handles

variable {s s' : Tables O} {handle : UserHandle} {win : O}

lemma getWindow_eq_some : getWindow s handle = some win ↔
    handleIndex handle < s.nbHandles ∧ (s.entries (handleIndex handle)).type = ntuserObjWindow ∧
      Matches handle (s.entries (handleIndex handle)).generation ∧
      s.serverObjects (handleIndex handle) = some (.object win) := by
  unfold getWindow getUserObject
  constructor
  · intro h
    cases hentry : handleToEntry s handle with
    | none => simp [hentry] at h
    | some i =>
      obtain ⟨rfl, hlt, -, hmatch⟩ := handleToEntry_eq_some.mp hentry
      simp only [hentry] at h
      split at h
      · rename_i hptr
        split at hptr
        · simp at hptr
        · rename_i htype
          exact ⟨hlt, not_not.mp htype, hmatch, some.inj h ▸ hptr⟩
      · simp at h
  · rintro ⟨hlt, htype, hmatch, hptr⟩
    have hused : (s.entries (handleIndex handle)).type ≠ 0 := by
      rw [htype]
      decide
    rw [handleToEntry_eq_some.mpr ⟨rfl, hlt, hused, hmatch⟩]
    simp [htype, hptr]

/-- Handles designate no other windows than before. -/
def Forgets (s s' : Tables O) : Prop :=
  ∀ handle win, getWindow s' handle = some win → getWindow s handle = some win

lemma freeUserEntry_forgets (s : Tables O) (index : Nat) : Forgets s (freeUserEntry s index) := by
  intro handle win h
  obtain ⟨hlt, htype, hmatch, hptr⟩ := getWindow_eq_some.mp h
  have hne : handleIndex handle ≠ index := by
    intro heq
    simp [freeUserEntry, heq, ntuserObjWindow] at htype
  simp only [freeUserEntry, update_of_ne hne] at htype hmatch
  exact getWindow_eq_some.mpr ⟨hlt, htype, hmatch, hptr⟩

lemma freeUserHandle_forgets (s : Tables O) (handle : UserHandle) :
    Forgets s (freeUserHandle s handle) := by
  unfold freeUserHandle
  split
  · exact fun _ _ h => h
  intro handle win h
  obtain ⟨hlt, htype, hmatch, hptr⟩ := getWindow_eq_some.mp (freeUserEntry_forgets _ _ _ _ h)
  dsimp only at hptr
  rw [update_apply] at hptr
  split at hptr
  · simp at hptr
  · exact getWindow_eq_some.mpr ⟨hlt, htype, hmatch, hptr⟩

lemma freeProcessEntries_forgets (pid n i : Nat) (s : Tables O) :
    Forgets s (freeProcessEntries pid n i s) := by
  induction n generalizing i s with
  | zero => exact fun _ _ h => h
  | succ n ih =>
    rw [freeProcessEntries]
    split
    · exact fun handle win h => freeUserEntry_forgets s i handle win (ih _ _ handle win h)
    · exact ih (i + 1) s

lemma allocUserHandle_window {ptr : Pointer O} {offset pid type : Nat} (h : Valid s)
    (hroom : allocIndex s < maxUserHandles)
    (hwindow : getWindow (allocUserHandle s ptr offset pid type).1 handle = some win) :
    (ptr = .object win ∧ type = ntuserObjWindow ∧ DesignatesNext s handle) ∨
      getWindow s handle = some win := by
  obtain ⟨-, -, hptr, htype, -, hothers⟩ :=
    @allocUserHandle_spec O s ptr offset pid type h hroom
  obtain ⟨hlt, htype', hmatch, hptr'⟩ := getWindow_eq_some.mp hwindow
  by_cases hnew : handleIndex handle = allocIndex s
  · have hgen : ((allocUserHandle s ptr offset pid type).1.entries (allocIndex s)).generation =
        allocGeneration s := by
      simp [allocUserHandle, allocUserEntry]
    rw [hnew] at htype' hmatch hptr'
    rw [hgen] at hmatch
    exact .inl ⟨some.inj (hptr.symm.trans hptr'), htype.symm.trans htype', hnew, hmatch⟩
  obtain ⟨hlt, hentry, hserver⟩ := hothers _ hlt hnew
  rw [hentry] at htype' hmatch
  rw [hserver] at hptr'
  exact .inr (getWindow_eq_some.mpr ⟨hlt, htype', hmatch, hptr'⟩)

variable [DecidableEq O]

lemma step_forgets {op : Op O} (h : TablesInv ntuserObjWindow s)
    (hfair : Fair ntuserObjWindow s op) (hother : ¬createsWindow op = true)
    (hstep : step s op = some s') : Forgets s s' := by
  have hrefl : Forgets s s := fun _ _ h => h
  cases op with
  | create o offset pid type =>
    rw [step] at hstep
    split at hstep
    · exact some.inj hstep ▸ hrefl
    have hroom := h.allocIndex_lt_iff.mpr hfair
    rw [if_neg (Nat.not_le_of_lt hroom)] at hstep
    cases hstep
    intro handle win hwindow
    obtain ⟨-, rfl, -⟩ | hold :=
      @allocUserHandle_window O _ _ _ _ _ _ type h.toValid hroom hwindow
    · simp [createsWindow] at hother
    · exact hold
  | destroy o =>
    rw [step] at hstep
    split at hstep
    · exact some.inj hstep ▸ hrefl
    · cases hstep
      exact freeUserHandle_forgets s _
  | allocRequest pid type =>
    have hroom := h.allocIndex_lt_iff.mpr hfair.2
    rw [step, if_neg (Nat.not_le_of_lt hroom)] at hstep
    cases hstep
    intro handle win hwindow
    obtain ⟨-, rfl, -⟩ | hold := allocUserHandle_window h.toValid hroom hwindow
    · exact absurd rfl hfair.1
    · exact hold
  | freeRequest handle type =>
    cases hstep
    unfold freeRequest
    split
    · exact hrefl
    · split
      · exact freeUserEntry_forgets s _
      · exact hrefl
  | processExit pid =>
    cases hstep
    exact freeProcessEntries_forgets pid s.nbHandles 0 s

omit [DecidableEq O] in
lemma TablesInv.window_handle (h : TablesInv ntuserObjWindow s)
    (hwindow : getWindow s handle = some win) : ∃ own type,
      s.objects win = some (own, type) ∧ getWindow s own = some win := by
  obtain ⟨hlt, htype, -, hptr⟩ := getWindow_eq_some.mp hwindow
  have hused : (s.entries (handleIndex handle)).type ≠ 0 := by
    rw [htype]
    decide
  obtain ⟨_, hother⟩ | ⟨win', hptr', hobject⟩ := h.holds _ hlt hused
  · exact absurd htype hother
  cases hptr.symm.trans hptr'
  obtain ⟨hindex, -, -, hmatch⟩ :=
    handleToEntry_eq_some.mp (h.handle_resolves hlt hused hobject hobject)
  refine ⟨_, _, hobject, getWindow_eq_some.mpr ?_⟩
  rw [← hindex]
  exact ⟨hlt, htype, hmatch, hptr⟩

end Handles

/-- Every chain of owners ends. -/
structure Windows.Inv (s : Windows O) : Prop where
  tables : TablesInv ntuserObjWindow s.tables
  ends : ∀ win, Acc (Link s.ownerOf) win

section Runs

variable [DecidableEq O] {s s' : Windows O} {isDesktop : O → Bool} {win : O}

omit [DecidableEq O] in
lemma Windows.Inv.mono {tables : Tables O} (h : s.Inv) (htables : TablesInv ntuserObjWindow tables)
    (hforgets : Forgets s.tables tables) : Inv { s with tables := tables } := by
  refine ⟨htables, fun win => Subrelation.accessible ?_ (h.ends win)⟩
  intro b a hlink
  unfold Link ownerOf at *
  split at hlink
  · simp at hlink
  · rename_i hzero
    exact (if_neg hzero).trans (hforgets _ _ hlink)

omit [DecidableEq O] in
lemma Windows.ownerOf_eq_some {owner : O} : s.ownerOf win = some owner ↔
    s.owner win ≠ 0 ∧ getWindow s.tables (s.owner win) = some owner := by
  unfold ownerOf
  split
  · rename_i hzero
    exact iff_of_false nofun fun h => h.1 hzero
  · rename_i hzero
    exact (and_iff_right hzero).symm

lemma Windows.Inv.createWindow {offset pid : Nat} {owner : Option O} {tables : Tables O}
    (h : s.Inv) (hnew : s.tables.objects win = none) (hroom : Room s.tables)
    (hunlinked : ∀ handle, Along s (s.ownerHandle owner) handle →
      ¬DesignatesNext s.tables handle)
    (hstep : step s.tables (.create win offset pid ntuserObjWindow) = some tables) :
    Inv ⟨tables, update s.owner win (s.ownerHandle owner)⟩ := by
  have hfair : Fair ntuserObjWindow s.tables (.create win offset pid ntuserObjWindow) := hroom
  have hinv := step_inv h.tables hfair hstep
  have hindex := h.tables.allocIndex_lt_iff.mpr hroom
  rw [step, if_neg (by simp [hnew, serverTypes]), if_neg (Nat.not_le_of_lt hindex)] at hstep
  -- a handle designates the new window or what it did before
  have hwindow : ∀ handle win', getWindow tables handle = some win' →
      win' = win ∧ DesignatesNext s.tables handle ∨ getWindow s.tables handle = some win' := by
    intro handle win' hwin'
    cases hstep
    obtain ⟨hptr, -, hnext⟩ | hold := allocUserHandle_window h.tables.toValid hindex hwin'
    · exact .inl ⟨(Pointer.object.inj hptr).symm, hnext⟩
    · exact .inr hold
  have hlive : ∀ handle, getWindow s.tables handle ≠ some win := by
    intro handle hwin
    obtain ⟨own, type, hobject, -⟩ := h.tables.window_handle hwin
    simp [hnew] at hobject
  have halong : ∀ handle win', Along s (s.ownerHandle owner) handle →
      getWindow tables handle = some win' → getWindow s.tables handle = some win' :=
    fun handle win' hchain hwin' => (hwindow handle win' hwin').resolve_left fun hnext =>
      hunlinked handle hchain hnext.2
  refine ⟨hinv, acc_relink (x := win) h.ends (fun a => ∃ handle,
    Along s (s.ownerHandle owner) handle ∧ getWindow s.tables handle = some a)
    (fun a b hlink => ?_) (fun b hlink => ?_) fun a ha => ?_⟩
  · by_cases heq : a = win
    · exact .inl heq
    obtain ⟨hzero, hb⟩ := ownerOf_eq_some.mp hlink
    simp only [update_of_ne heq] at hzero hb
    obtain ⟨hb, -⟩ | hold := hwindow _ _ hb
    · exact .inr (.inl hb)
    · exact .inr (.inr (ownerOf_eq_some.mpr ⟨hzero, hold⟩))
  · obtain ⟨-, hb⟩ := ownerOf_eq_some.mp hlink
    simp only [update_self] at hb
    exact ⟨_, .start, halong _ _ .start hb⟩
  obtain ⟨handle, hchain, ha⟩ := ha
  have heq : a ≠ win := by
    rintro rfl
    exact hlive handle ha
  refine ⟨heq, fun b hlink => ?_⟩
  obtain ⟨hzero, hb⟩ := ownerOf_eq_some.mp hlink
  simp only [update_of_ne heq] at hzero hb
  have hold := halong _ _ (hchain.next ha) hb
  exact ⟨ownerOf_eq_some.mpr ⟨hzero, hold⟩, _, hchain.next ha, hold⟩

lemma Windows.Inv.setWindowOwner {owner : Option O} {fuel : Nat} {own : UserHandle} (h : s.Inv)
    (hown : ∀ b, own ≠ 0 → getWindow s.tables own = some b → owner = some b)
    (hloop : s.ownerLoop win fuel owner = some false) :
    Inv { s with owner := update s.owner win own } := by
  refine ⟨h.tables, acc_relink (x := win) h.ends
    (fun a => ∃ fuel, s.ownerLoop win fuel (some a) = some false)
    (fun a b hlink => ?_) (fun b hlink => ?_) fun a ⟨fuel, ha⟩ => ?_⟩
  · by_cases heq : a = win
    · exact .inl heq
    · obtain ⟨hzero, hb⟩ := ownerOf_eq_some.mp hlink
      simp only [update_of_ne heq] at hzero hb
      exact .inr (.inr (ownerOf_eq_some.mpr ⟨hzero, hb⟩))
  · obtain ⟨hzero, hb⟩ := ownerOf_eq_some.mp hlink
    simp only [update_self] at hzero hb
    exact ⟨fuel, hown b hzero hb ▸ hloop⟩
  cases fuel with
  | zero => simp [ownerLoop] at ha
  | succ fuel =>
    rw [ownerLoop] at ha
    split at ha
    · simp at ha
    rename_i heq
    refine ⟨heq, fun b hlink => ?_⟩
    obtain ⟨hzero, hb⟩ := ownerOf_eq_some.mp hlink
    simp only [update_of_ne heq] at hzero hb
    have hold := ownerOf_eq_some.mpr ⟨hzero, hb⟩
    rw [hold] at ha
    exact ⟨hold, fuel, ha⟩

lemma windowStep_inv {op : WindowOp O} (h : s.Inv) (hunlinked : Unlinked s op)
    (hstep : windowStep isDesktop s op = some s') : s'.Inv := by
  cases op with
  | createWindow win offset pid owner =>
    rw [windowStep] at hstep
    split at hstep
    · exact some.inj hstep ▸ h
    · rename_i hnew
      obtain ⟨tables, htables, hs⟩ := bind_eq_some_iff.mp hstep
      exact some.inj hs ▸ h.createWindow (not_not.mp hnew) hunlinked.1 hunlinked.2 htables
  | setWindowOwner handle owner fuel =>
    rw [windowStep, Windows.setWindowOwner] at hstep
    split at hstep
    · rename_i win owner' _ howner
      split at hstep
      · exact some.inj hstep ▸ h
      obtain ⟨found, hfound, hs⟩ := bind_eq_some_iff.mp hstep
      split at hs
      · exact some.inj hs ▸ h
      rename_i hnot
      rw [Bool.not_eq_true] at hnot
      subst hnot
      refine some.inj hs ▸ h.setWindowOwner (fun b hzero hb => ?_) hfound
      unfold requestOwner at howner
      split at howner
      · cases howner
        exact absurd rfl hzero
      obtain ⟨win', hwin', rfl⟩ := map_eq_some_iff.mp howner
      obtain ⟨own, type, hobject, hown⟩ := h.tables.window_handle hwin'
      simp only [ownerHandle, hobject, map_some, getD_some] at hb
      rw [hown.symm.trans hb]
    · exact some.inj hstep ▸ h
  | handles op =>
    rw [windowStep] at hstep
    split at hstep
    · cases hstep
    rename_i hother
    obtain ⟨tables, htables, hs⟩ := bind_eq_some_iff.mp hstep
    exact some.inj hs ▸ h.mono (step_inv h.tables hunlinked htables)
      (step_forgets h.tables hunlinked hother htables)

omit [DecidableEq O] in
lemma NoWindows.inv (h : NoWindows s) : s.Inv :=
  ⟨h.1.inv, fun win => ⟨win, fun _ hlink => absurd (h.2 win) (ownerOf_eq_some.mp hlink).1⟩⟩

end Runs

def noWindows : Windows Bool where
  tables := ⟨fun _ => ⟨0, 0, 0, 0⟩, fun _ => none, noEntry, 0, fun _ => none, fun _ => 0⟩
  owner _ := 0

lemma noWindows_start : NoWindows noWindows := ⟨⟨rfl, rfl, fun _ => rfl, fun _ => rfl⟩, fun _ => rfl⟩

/-- A window was created `n` times at the first entry and is destroyed, and the second window has
its first handle for its owner. -/
structure Recycled (n : Nat) (s : Windows Bool) : Prop where
  freed : ∃ pid, s.tables.entries 0 = ⟨noEntry, pid, 0, generationOf n⟩
  kept : s.tables.entries 1 = ⟨64, 4, ntuserObjWindow, 1⟩
  keptObject : s.tables.serverObjects 1 = some (.object false)
  freelist : s.tables.freelist = 0
  nbHandles : s.tables.nbHandles = 2
  first : s.tables.objects true = none
  second : s.tables.objects false = some (0x10022, ntuserObjWindow)
  owner : s.owner false = 0x10020

variable {s : Windows Bool}

lemma Recycled.allocGeneration {n : Nat} (h : Recycled n s) (hn : 1 ≤ n) :
    allocIndex s.tables = 0 ∧ allocGeneration s.tables = generationOf (n + 1) := by
  obtain ⟨pid, hfreed⟩ := h.freed
  rw [← nextGeneration_generationOf hn]
  simp [allocIndex, UserHandles.allocGeneration, h.freelist, noEntry, hfreed]

/-- The first window is created again. -/
lemma Recycled.create {n : Nat} (h : Recycled n s) (hn : 1 ≤ n) (owner : Option Bool) :
    windowStep (fun _ => false) s (.createWindow true 64 4 owner) = some ⟨{ s.tables with
      entries := update s.tables.entries 0 ⟨64, 4, ntuserObjWindow, generationOf (n + 1)⟩
      serverObjects := update s.tables.serverObjects 0 (some (.object true))
      freelist := noEntry
      objects := update s.tables.objects true
        (some (entryToHandle 0 (generationOf (n + 1)), ntuserObjWindow))
      allocated := update s.tables.allocated 0 (s.tables.allocated 0 + 1) },
      update s.owner true (s.ownerHandle owner)⟩ := by
  obtain ⟨hindex, hgen⟩ := h.allocGeneration hn
  obtain ⟨pid, hfreed⟩ := h.freed
  have hroom : ¬0 ≥ maxUserHandles := by decide
  simp [windowStep, step, h.first, serverTypes, hindex, hgen, hroom, allocUserHandle,
    allocUserEntry, h.freelist, hfreed, noEntry]

lemma Recycled.next {n : Nat} (h : Recycled n s) (hn : 1 ≤ n)
    (hs : Reachable (windowStep fun _ => false) NoWindows s) :
    ∃ s', Reachable (windowStep fun _ => false) NoWindows s' ∧ Recycled (n + 1) s' := by
  have hgen : generationOf (n + 1) < 65536 := by
    have := (generationOf_bounds (n + 1)).2
    omega
  have hzero : 0 < maxUserHandles := by decide
  have hcreated := hs.next trivial (h.create hn none)
  generalize hs₁ : (Windows.mk _ _ : Windows Bool) = s₁ at hcreated
  have hobject : s₁.tables.objects true =
      some (entryToHandle 0 (generationOf (n + 1)), ntuserObjWindow) := by
    rw [← hs₁]
    exact update_self true _ s.tables.objects
  have hentry : handleToEntry s₁.tables (entryToHandle 0 (generationOf (n + 1))) = some 0 := by
    refine handleToEntry_eq_some.mpr ⟨(handleIndex_entryToHandle hzero hgen).symm, ?_, ?_,
      .inr (.inr ((handleGeneration_entryToHandle hzero hgen).trans ?_))⟩
    all_goals simp [← hs₁, h.nbHandles, ntuserObjWindow]
  have hdestroy : windowStep (fun _ => false) s₁ (.handles (.destroy true)) =
      some { s₁ with tables := { freeUserHandle s₁.tables
        (entryToHandle 0 (generationOf (n + 1))) with
          objects := update s₁.tables.objects true none } } := by
    simp [windowStep, createsWindow, step, hobject]
  refine ⟨_, hcreated.next trivial hdestroy, ?_⟩
  rw [freeUserHandle, hentry, ← hs₁]
  exact ⟨⟨4, by simp [freeUserEntry]⟩, h.kept, h.keptObject, rfl, h.nbHandles, by simp, by simp [h.second],
    h.owner⟩

def firstWindows : List (WindowOp Bool) :=
  [.createWindow true 64 4 none, .createWindow false 64 4 (some true), .handles (.destroy true)]

lemma reaches_recycled (n : Nat) :
    ∃ s, Reachable (windowStep fun _ => false) NoWindows s ∧ Recycled (n + 1) s := by
  induction n with
  | zero =>
    have hrun : (run (windowStep fun _ => false) noWindows firstWindows).isSome = true := by decide
    obtain ⟨s, hs⟩ := isSome_iff_exists.mp hrun
    refine ⟨s, reachable_of_run (.start noWindows_start) firstWindows hs, ?_⟩
    have hall : (run (windowStep fun _ => false) noWindows firstWindows).all (fun s => decide
        ((s.tables.entries 0 = ⟨noEntry, 4, 0, 1⟩ ∧
            s.tables.entries 1 = ⟨64, 4, ntuserObjWindow, 1⟩) ∧
          s.tables.serverObjects 1 = some (.object false) ∧
          (s.tables.freelist = 0 ∧ s.tables.nbHandles = 2) ∧
          (s.tables.objects true = none ∧
            s.tables.objects false = some (0x10022, ntuserObjWindow)) ∧
          s.owner false = 0x10020)) = true := by
      decide
    rw [hs, all_some, decide_eq_true_eq] at hall
    obtain ⟨⟨hfreed, hkept⟩, hobject, ⟨hfree, hnb⟩, ⟨hfirst, hsecond⟩, howner⟩ := hall
    exact ⟨⟨4, hfreed⟩, hkept, hobject, hfree, hnb, hfirst, hsecond, howner⟩
  | succ n ih =>
    obtain ⟨s, hs, h⟩ := ih
    exact h.next (Nat.le_add_left ..) hs

end WineForge.UserHandles
