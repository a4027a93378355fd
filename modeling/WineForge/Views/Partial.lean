import WineForge.Views.Valid

/-!
# Taking pages out of a view

Pages at an end of a view shorten it and pages in the middle split it, which needs one more view
structure. A free placeholder in their place needs one more.
-/

namespace WineForge.Views

open Library State

def partBefore (view : FileView) (base : ℕ) : List FileView :=
  if view.base < base then [⟨view.base, base - view.base, view.protect⟩] else []

def partBehind (view : FileView) (stop : ℕ) : List FileView :=
  if stop < view.stop then [⟨stop, view.stop - stop, view.protect⟩] else []

def Hole (view : FileView) (base size : ℕ) : Prop :=
  view.base ≠ base ∧ base + size ≠ view.stop

instance (view : FileView) (base size : ℕ) : Decidable (Hole view base size) :=
  inferInstanceAs (Decidable (_ ∧ _))

/-- Whole pages of a view. -/
structure PagesOf (view : FileView) (base size : ℕ) : Prop where
  base_le : view.base ≤ base
  stop_le : base + size ≤ view.stop
  pos : 0 < size
  base_dvd : pageSize ∣ base
  size_dvd : pageSize ∣ size

section pages

variable {host base size vprot : ℕ} {memory : Bool} {s s' : State} {view v : FileView}

lemma removePagesFromView_noMemory (hsize : size < view.size) (hhole : Hole view base size)
    (hmemory : ¬Available memory 1 s) :
    s.removePagesFromView memory view base size = some (s, .noMemory) := by
  have hcond : view.base ≠ base ∧ base + size ≠ view.stop := hhole
  rw [removePagesFromView, if_neg (Nat.not_le.mpr hsize), if_pos hcond,
    allocView_eq_none.mpr hmemory]

lemma removePagesFromView_success (h : Valid host s) (hhost : pageSize ∣ host)
    (hview : view ∈ s.viewsTree) (hin : PagesOf view base size) (hsize : size < view.size)
    (hstart : base + size < view.stop → host ∣ base + size)
    (hmemory : Hole view base size → Available memory 1 s) :
    ∃ s', s.removePagesFromView memory view base size = some (s', .success) ∧
      Replaced host s view (partBefore view base ++ partBehind view (base + size)) s' ∧
      s'.vprot = s.vprot ∧
      ∀ n, Available memory n s' ↔
        Available memory (if Hole view base size then n + 1 else n) s := by
  obtain ⟨hbase, hstop, hpos, hbdvd, hsdvd⟩ := hin
  have hproper := h.proper view hview
  have hvb := h.base_dvd hhost hview
  have hvs := h.stop_dvd hhost hview
  have hend : view.stop = view.base + view.size := rfl
  have hbefore : view.base < base →
      Proper host s.vprotTables ⟨view.base, base - view.base, view.protect⟩ := fun hlt =>
    hproper.part (le_refl _) (by omega) (by omega) hproper.host_dvd
      (Nat.dvd_sub hbdvd hvb) (.inl rfl)
  have hbehind : base + size < view.stop →
      Proper host s.vprotTables ⟨base + size, view.stop - (base + size), view.protect⟩ := fun hlt =>
    hproper.part (by omega) (by omega) (by omega) (hstart hlt)
      (Nat.dvd_sub hvs (Nat.dvd_add hbdvd hsdvd)) (.inl rfl)
  rw [removePagesFromView, if_neg (Nat.not_le.mpr hsize)]
  by_cases hhole : Hole view base size
  · have hlt : view.base < base := lt_of_le_of_ne hbase hhole.1
    have hlt' : base + size < view.stop := lt_of_le_of_ne hstop hhole.2
    obtain ⟨s₁, halloc⟩ : ∃ s₁, s.allocView memory = some s₁ := by
      rw [← Option.ne_none_iff_exists', Ne, allocView_eq_none, not_not]
      exact hmemory hhole
    obtain ⟨htree, hvprot, htables, havailable⟩ := allocView_eq_some halloc
    have hvalid := h.congr htree htables
    have hview₁ : view ∈ s₁.viewsTree := htree ▸ hview
    have hfirst := hvalid.replace hview₁ ⟨view.base, base - view.base, view.protect⟩
      (htables ▸ hbefore hlt) (le_refl _)
      (show view.base + (base - view.base) ≤ view.stop by omega)
    have hbeside : ∀ v ∈ [(⟨view.base, base - view.base, view.protect⟩ : FileView)],
        Beside ⟨base + size, view.stop - (base + size), view.protect⟩ v := by
      intro v hv
      rw [List.mem_singleton.mp hv]
      right
      show view.base + (base - view.base) ≤ base + size
      omega
    have hboth := hfirst.registerView hvalid hview₁
      ⟨base + size, view.stop - (base + size), view.protect⟩ (htables ▸ hbehind hlt')
      (show view.base ≤ base + size by omega)
      (show base + size + (view.stop - (base + size)) ≤ view.stop by omega) hbeside
    have hcond : view.base ≠ base ∧ base + size ≠ view.stop := hhole
    rw [if_pos hcond, halloc]
    refine ⟨_, rfl, ?_, ?_, fun n => ?_⟩
    · rw [partBefore, if_pos hlt, partBehind, if_pos hlt']
      exact hboth.of_eq htree htables
    · rw [registerView_vprot, registerView_vprot]
      exact hvprot
    · rw [if_pos hhole, available_registerView, available_registerView]
      exact havailable n
  · have hcond : ¬(view.base ≠ base ∧ base + size ≠ view.stop) := hhole
    rw [if_neg hcond]
    by_cases hfirst : view.base = base
    · have hlt' : base + size < view.stop := by omega
      have hpart : view.size - size = view.stop - (base + size) := by omega
      rw [if_pos hfirst]
      refine ⟨_, rfl, ?_, ?_, fun n => ?_⟩
      · rw [partBefore, if_neg (by omega), partBehind, if_pos hlt', hpart]
        exact h.replace hview ⟨base + size, view.stop - (base + size), view.protect⟩
          (hbehind hlt') (show view.base ≤ base + size by omega)
          (show base + size + (view.stop - (base + size)) ≤ view.stop by omega)
      · rw [registerView_vprot]
        rfl
      · rw [if_neg hhole, available_registerView]
        rfl
    · have hlt : view.base < base := lt_of_le_of_ne hbase hfirst
      rw [if_neg hfirst]
      refine ⟨_, rfl, ?_, ?_, fun n => ?_⟩
      · rw [partBefore, if_pos hlt, partBehind, if_neg (by omega), List.append_nil]
        exact h.replace hview ⟨view.base, base - view.base, view.protect⟩ (hbefore hlt) (le_refl _)
          (show view.base + (base - view.base) ≤ view.stop by omega)
      · rw [registerView_vprot]
        rfl
      · rw [if_neg hhole, available_registerView]
        rfl

end pages

end WineForge.Views
