import WineForge.Library.Apart
import WineForge.Views.State

/-!
# Sets of views

The views do not meet, each is aligned, lies in the user space and has the tables of its pages, and
a free placeholder has no section flags. Putting a piece of a view in the place of the view keeps
this.
-/

namespace WineForge.Views

open Library List State

def spaceEnd : ℕ := 2 ^ 47

/-- What holds of a view with a tree of tables. -/
structure Proper (host : ℕ) (tables : ℕ → Bool) (view : FileView) : Prop where
  base_pos : 0 < view.base
  pos : 0 < view.size
  host_dvd : host ∣ view.base
  page_dvd : pageSize ∣ view.size
  below : view.stop ≤ spaceEnd
  mapped : ∀ page, view.base / pageSize ≤ page → page < view.stop / pageSize →
    tables (page / 2 ^ 20) = true
  valloc : view.isFreePlaceholder = true → view.isViewValloc = true

structure Valid (host : ℕ) (s : State) : Prop where
  apart : Apart FileView.base FileView.stop s.viewsTree
  proper : ∀ view ∈ s.viewsTree, Proper host s.vprotTables view

def Beside (view view' : FileView) : Prop :=
  view.stop ≤ view'.base ∨ view'.stop ≤ view.base

/-- `view` has given way to `pieces`. -/
structure Replaced (host : ℕ) (s : State) (view : FileView) (pieces : List FileView)
    (s' : State) : Prop where
  valid : Valid host s'
  mem : ∀ v, v ∈ s'.viewsTree ↔ v ∈ pieces ∨ (v ∈ s.viewsTree ∧ v ≠ view)
  tables : s'.vprotTables = s.vprotTables

def Available (memory : Bool) (n : ℕ) (s : State) : Prop :=
  memory = true ∨ n ≤ s.freeViews + s.blockViews

section steps

variable {host base size protect : ℕ} {memory : Bool} {s s' : State} {view v : FileView}

lemma freePlaceholder_valloc : (FileView.mk base size
    (vprotPlaceholder ||| vprotFreePlaceholder)).isViewValloc = true := by
  have heq : (vprotPlaceholder ||| vprotFreePlaceholder) &&&
      (secFile ||| secReserve ||| secCommit) = 0 := by decide
  exact decide_eq_true heq

lemma Proper.part {tables : ℕ → Bool} (h : Proper host tables view) (hbase : view.base ≤ base)
    (hstop : base + size ≤ view.stop) (hpos : 0 < size) (hhost : host ∣ base)
    (hpage : pageSize ∣ size)
    (hprotect : protect = view.protect ∨ protect = vprotPlaceholder ||| vprotFreePlaceholder) :
    Proper host tables ⟨base, size, protect⟩ where
  base_pos := h.base_pos.trans_le hbase
  pos := hpos
  host_dvd := hhost
  page_dvd := hpage
  below := hstop.trans h.below
  mapped page hlo hhi := by
    apply h.mapped page
    · exact (Nat.div_le_div_right hbase).trans hlo
    · exact hhi.trans_le (Nat.div_le_div_right hstop)
  valloc hfree := by
    obtain rfl | rfl := hprotect
    · exact h.valloc hfree
    · exact freePlaceholder_valloc

lemma Valid.base_dvd (h : Valid host s) (hhost : pageSize ∣ host) (hview : view ∈ s.viewsTree) :
    pageSize ∣ view.base :=
  Nat.dvd_trans hhost (h.proper view hview).host_dvd

lemma Valid.stop_dvd (h : Valid host s) (hhost : pageSize ∣ host) (hview : view ∈ s.viewsTree) :
    pageSize ∣ view.stop :=
  Nat.dvd_add (h.base_dvd hhost hview) (h.proper view hview).page_dvd

@[simp] lemma registerView_vprot (s : State) (view : FileView) :
    (s.registerView view).vprot = s.vprot := by
  unfold registerView
  split
  · rfl
  · rfl

@[simp] lemma registerView_vprotTables (s : State) (view : FileView) :
    (s.registerView view).vprotTables = s.vprotTables := by
  unfold registerView
  split
  · rfl
  · rfl

@[simp] lemma available_registerView (n : ℕ) :
    Available memory n (s.registerView view) ↔ Available memory n s := by
  unfold registerView
  split
  · rfl
  · rfl

section

variable (h : Valid host s)

include h

lemma registerView_tree (hpos : 0 < view.size) (hbeside : ∀ v ∈ s.viewsTree, Beside view v) :
    (s.registerView view).viewsTree =
      insertBefore (fun v => decide (view.base < v.base)) view s.viewsTree := by
  unfold registerView
  rw [if_neg]
  rw [any_eq_true]
  rintro ⟨v, hv, heq⟩
  have heq := of_decide_eq_true heq
  have hlt := (h.proper v hv).pos
  have hor := hbeside v hv
  unfold Beside FileView.stop at hor
  omega

lemma mem_registerView (hpos : 0 < view.size) (hbeside : ∀ v ∈ s.viewsTree, Beside view v) :
    v ∈ (s.registerView view).viewsTree ↔ v = view ∨ v ∈ s.viewsTree := by
  rw [registerView_tree h hpos hbeside, mem_insertBefore]

lemma Valid.registerView (hview : Proper host s.vprotTables view)
    (hbeside : ∀ v ∈ s.viewsTree, Beside view v) : Valid host (s.registerView view) where
  apart := by
    rw [registerView_tree h hview.pos hbeside]
    exact h.apart.insertBefore (Nat.lt_add_of_pos_right hview.pos) hbeside
  proper v hv := by
    rw [registerView_vprotTables]
    obtain rfl | hmem := (mem_registerView h hview.pos hbeside).mp hv
    · exact hview
    · exact h.proper v hmem

lemma Valid.unregisterView (view : FileView) :
    Valid host (s.unregisterView view) where
  apart := h.apart.sublist erase_sublist
  proper v hv := h.proper v (mem_of_mem_erase hv)

lemma mem_unregisterView : v ∈ (s.unregisterView view).viewsTree ↔ v ∈ s.viewsTree ∧ v ≠ view := by
  rw [and_comm]
  exact h.apart.nodup.mem_erase_iff

lemma Valid.beside (hview : view ∈ s.viewsTree) (hv : v ∈ s.viewsTree)
    (hne : v ≠ view) {piece : FileView} (hbase : view.base ≤ piece.base)
    (hstop : piece.stop ≤ view.stop) : Beside piece v :=
  (h.apart.beside hview hv hne.symm).imp hstop.trans fun hle => hle.trans hbase

lemma Valid.replace (hview : view ∈ s.viewsTree) (piece : FileView)
    (hpiece : Proper host s.vprotTables piece) (hbase : view.base ≤ piece.base)
    (hstop : piece.stop ≤ view.stop) :
    Replaced host s view [piece] ((s.unregisterView view).registerView piece) := by
  have hbeside : ∀ v ∈ (s.unregisterView view).viewsTree, Beside piece v := by
    intro v hv
    obtain ⟨hmem, hne⟩ := (mem_unregisterView h).mp hv
    exact h.beside hview hmem hne hbase hstop
  refine ⟨(h.unregisterView view).registerView hpiece hbeside, fun v => ?_, ?_⟩
  · rw [mem_registerView (h.unregisterView view) hpiece.pos hbeside, mem_unregisterView h,
      mem_singleton]
  · rw [registerView_vprotTables]
    rfl

end

variable {pieces : List FileView}

lemma Replaced.registerView (h : Replaced host s view pieces s')
    (hvalid : Valid host s) (hview : view ∈ s.viewsTree) (piece : FileView)
    (hpiece : Proper host s.vprotTables piece) (hbase : view.base ≤ piece.base)
    (hstop : piece.stop ≤ view.stop) (hpieces : ∀ v ∈ pieces, Beside piece v) :
    Replaced host s view (pieces ++ [piece]) (s'.registerView piece) := by
  have hbeside : ∀ v ∈ s'.viewsTree, Beside piece v := by
    intro v hv
    obtain hmem | ⟨hmem, hne⟩ := (h.mem v).mp hv
    · exact hpieces v hmem
    · exact hvalid.beside hview hmem hne hbase hstop
  have hpiece' : Proper host s'.vprotTables piece := h.tables ▸ hpiece
  refine ⟨h.valid.registerView hpiece' hbeside, fun v => ?_, ?_⟩
  · rw [mem_registerView h.valid hpiece.pos hbeside, h.mem v, mem_append,
      mem_singleton, ← or_assoc, or_comm (a := v = piece)]
  · rw [registerView_vprotTables, h.tables]

lemma Valid.congr (h : Valid host s) (htree : s'.viewsTree = s.viewsTree)
    (htables : s'.vprotTables = s.vprotTables) : Valid host s' where
  apart := htree ▸ h.apart
  proper v hv := htables ▸ h.proper v (htree ▸ hv)

lemma Replaced.congr {s'' : State} (h : Replaced host s view pieces s')
    (htree : s''.viewsTree = s'.viewsTree) (htables : s''.vprotTables = s'.vprotTables) :
    Replaced host s view pieces s'' where
  valid := h.valid.congr htree htables
  mem v := htree ▸ h.mem v
  tables := htables.trans h.tables

lemma Replaced.of_eq {s₁ : State} (h : Replaced host s₁ view pieces s')
    (htree : s₁.viewsTree = s.viewsTree) (htables : s₁.vprotTables = s.vprotTables) :
    Replaced host s view pieces s' where
  valid := h.valid
  mem v := htree ▸ h.mem v
  tables := h.tables.trans htables

lemma allocView_eq_none : s.allocView memory = none ↔ ¬Available memory 1 s := by
  unfold allocView Available
  split_ifs with hfree hblock hmemory
  · refine ⟨nofun, fun h => absurd (.inr ?_) h⟩
    omega
  · exact ⟨nofun, fun h => absurd (.inl hmemory) h⟩
  · refine iff_of_true rfl (not_or.mpr ⟨hmemory, ?_⟩)
    omega
  · refine ⟨nofun, fun h => absurd (.inr ?_) h⟩
    omega

lemma allocView_eq_some (h : s.allocView memory = some s') :
    s'.viewsTree = s.viewsTree ∧ s'.vprot = s.vprot ∧ s'.vprotTables = s.vprotTables ∧
      ∀ n, Available memory n s' ↔ Available memory (n + 1) s := by
  unfold allocView at h
  split_ifs at h with hfree hblock hmemory
  · obtain rfl := Option.some.inj h
    refine ⟨rfl, rfl, rfl, fun n => or_congr_right ?_⟩
    dsimp only
    omega
  · obtain rfl := Option.some.inj h
    exact ⟨rfl, rfl, rfl, fun n => ⟨fun _ => .inl hmemory, fun _ => .inl hmemory⟩⟩
  obtain rfl := Option.some.inj h
  refine ⟨rfl, rfl, rfl, fun n => or_congr_right ?_⟩
  dsimp only
  omega

end steps

end WineForge.Views
