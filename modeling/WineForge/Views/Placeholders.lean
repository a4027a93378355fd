import WineForge.Views.Partial

/-!
# Releasing pages and keeping their place

Releasing pages checks and allocates what it needs before it changes a view. Turning pages into a
placeholder takes them out of the view first and then needs one more view structure; where there is
none, the view is left without them.
-/

namespace WineForge.Views

open Library List State

/-- The pages from `base` on have no protection and the others are as before. -/
def Cleared (s : State) (base stop : ℕ) (s' : State) : Prop :=
  ∀ page, s'.vprot page =
    if base ≤ page * pageSize ∧ page * pageSize < stop then 0 else s.vprot page

def ReleaseGranted (host : ℕ) (memory : Bool) (s : State) (view : FileView) (base size : ℕ) :
    Prop :=
  size < view.size →
    (view.base = base → host ∣ size) ∧
    (view.base ≠ base → base + size < view.stop → host ∣ base + size) ∧
    (Hole view base size → Available memory 1 s)

def PreserveAllowed (host : ℕ) (view : FileView) (base size : ℕ) : Prop :=
  view.protect &&& vprotPlaceholder ≠ 0 ∧
    (size = view.size → view.isFreePlaceholder = false) ∧
    (size < view.size → host ∣ base ∧ (host ∣ size ∨ base + size = view.stop))

def viewsNeeded (view : FileView) (base size : ℕ) : ℕ :=
  if Hole view base size then 2 else 1

def PreserveGranted (host : ℕ) (memory : Bool) (s : State) (view : FileView) (base size : ℕ) :
    Prop :=
  PreserveAllowed host view base size ∧
    (size < view.size → Available memory (viewsNeeded view base size) s)

/-- The pages can be taken out of the view, but there is no structure for the placeholder. -/
def LateFailure (host : ℕ) (memory : Bool) (s : State) (view : FileView) (base size : ℕ) : Prop :=
  PreserveAllowed host view base size ∧ size < view.size ∧
    (Hole view base size → Available memory 1 s) ∧
    ¬Available memory (viewsNeeded view base size) s

section pages

variable {host base size vprot : ℕ} {memory : Bool} {s s' : State} {view v : FileView}

lemma allocTables_eq {tables : ℕ → Bool} {numbers : List ℕ} (h : ∀ i ∈ numbers, tables i = true) :
    allocTables memory tables numbers = (tables, true) := by
  induction numbers with
  | nil => rfl
  | cons i numbers ih =>
    rw [forall_mem_cons] at h
    rw [allocTables, if_pos h.1]
    exact ih h.2

lemma mapped_tableNumbers {tables : ℕ → Bool} (hbase : pageSize ∣ base) (hsize : pageSize ∣ size)
    (hpos : 0 < size)
    (hmapped : ∀ page, base / pageSize ≤ page → page < (base + size) / pageSize →
      tables (page / 2 ^ 20) = true) : ∀ i ∈ tableNumbers base size, tables i = true := by
  intro i hi
  unfold tableNumbers at hi
  obtain ⟨b, rfl⟩ := hbase
  obtain ⟨n, rfl⟩ := hsize
  dsimp only [pageSize] at *
  have hb : 0x1000 * b / 0x1000 = b := Nat.mul_div_cancel_left b (by decide)
  have hn : (0x1000 * b + 0x1000 * n) / 0x1000 = b + n := by omega
  have hn' : (0x1000 * b + 0x1000 * n + (0x1000 - 1)) / 0x1000 = b + n := by omega
  rw [hb, hn] at hmapped
  rw [hb, hn'] at hi
  obtain ⟨k, hk, rfl⟩ := mem_range'.mp hi
  rw [Nat.one_mul]
  -- a page of the range that is in the table: the first one of the table or of the range
  obtain hlt | hle := Nat.lt_or_ge ((b / 2 ^ 20 + k) * 2 ^ 20) b
  · have hpage := hmapped b (le_refl b) (by omega)
    have hzero : k = 0 := by omega
    rw [hzero]
    exact hpage
  · have hpage := hmapped ((b / 2 ^ 20 + k) * 2 ^ 20) hle (by omega)
    rw [Nat.mul_div_cancel _ (by decide)] at hpage
    exact hpage

lemma createView_eq (hnew : Proper host s.vprotTables ⟨base, size, vprot⟩)
    (hhost : pageSize ∣ host) (hbeside : ∀ v ∈ s.viewsTree, Beside ⟨base, size, vprot⟩ v) :
    s.createView host memory base size vprot =
      match s.allocView memory with
      | none => some (s, .noMemory)
      | some s₁ => some (State.registerView
          { s₁ with vprot := setPageVprot s₁.vprot base size vprot } ⟨base, size, vprot⟩,
          .success) := by
  have hnone : (s.viewsTree.filter fun view =>
      view.base < base + size ∧ base < view.stop) = [] := by
    rw [filter_eq_nil_iff]
    intro v hv
    have hor : base + size ≤ v.base ∨ v.stop ≤ base := hbeside v hv
    rw [decide_eq_true_iff]
    omega
  have haligned : ¬(base % host ≠ 0 ∨ size % pageSize ≠ 0) := by
    rw [not_or, not_not, not_not]
    exact ⟨Nat.mod_eq_zero_of_dvd hnew.host_dvd, Nat.mod_eq_zero_of_dvd hnew.page_dvd⟩
  have hany : ¬([] : List FileView).any (fun view => view.protect &&& vprotSystem = 0) = true := by
    simp
  have htables : allocTables memory s.vprotTables (tableNumbers base size) =
      (s.vprotTables, true) :=
    allocTables_eq (mapped_tableNumbers (Nat.dvd_trans hhost hnew.host_dvd) hnew.page_dvd
      hnew.pos hnew.mapped)
  have htrue : ¬true = false := nofun
  rw [createView, hnone]
  dsimp only [foldl_nil]
  rw [if_neg haligned, if_neg hany, htables]
  exact if_neg htrue

lemma makePlaceholder_replaced (h : Valid host s) (hview : view ∈ s.viewsTree) :
    Replaced host s view [⟨view.base, view.size, vprotPlaceholder ||| vprotFreePlaceholder⟩]
      (s.makePlaceholder view) := by
  have hproper := h.proper view hview
  have hmem : ∀ v, v ∈ (s.makePlaceholder view).viewsTree ↔
      v ∈ [(⟨view.base, view.size, vprotPlaceholder ||| vprotFreePlaceholder⟩ : FileView)] ∨
        (v ∈ s.viewsTree ∧ v ≠ view) := by
    intro v
    rw [mem_singleton, makePlaceholder, mem_map]
    constructor
    · rintro ⟨w, hw, rfl⟩
      split
      · exact .inl rfl
      next hne => exact .inr ⟨hw, hne⟩
    · rintro (rfl | ⟨hv, hne⟩)
      · exact ⟨view, hview, if_pos rfl⟩
      · exact ⟨v, hv, if_neg hne⟩
  refine ⟨⟨?_, fun v hv => ?_⟩, hmem, rfl⟩
  · refine h.apart.map (fun v => ?_) fun v => ?_
    · split
      next heq => rw [heq]
      next => rfl
    split
    next heq =>
      rw [heq]
      rfl
    next => rfl
  obtain hpiece | ⟨hv, _⟩ := (hmem v).mp hv
  · rw [mem_singleton.mp hpiece]
    exact hproper.part (le_refl _) (le_refl _) hproper.pos hproper.host_dvd hproper.page_dvd
      (.inr rfl)
  · exact h.proper v hv

lemma setPageVprot_eq (hbase : pageSize ∣ base) (hsize : pageSize ∣ size) (vprot : ℕ → ℕ)
    (byte page : ℕ) : setPageVprot vprot base size byte page =
      if base ≤ page * pageSize ∧ page * pageSize < base + size then byte % 0x100
      else vprot page := by
  obtain ⟨b, rfl⟩ := hbase
  obtain ⟨n, rfl⟩ := hsize
  have hiff : (pageSize * b / pageSize ≤ page ∧
      page < (pageSize * b + pageSize * n + (pageSize - 1)) / pageSize) ↔
      pageSize * b ≤ page * pageSize ∧ page * pageSize < pageSize * b + pageSize * n := by
    unfold pageSize
    omega
  exact if_congr hiff rfl rfl

lemma PagesOf.whole (h : PagesOf view base size) (hsize : size = view.size) : base = view.base := by
  have hle := h.base_le
  have hstop : base + size ≤ view.base + view.size := h.stop_le
  omega

lemma PagesOf.size_le (h : PagesOf view base size) : size ≤ view.size := by
  have hle := h.base_le
  have hstop : base + size ≤ view.base + view.size := h.stop_le
  omega

lemma deleteView_replaced (h : Valid host s) (view : FileView) :
    Replaced host s view [] (s.deleteView view) where
  valid := (h.unregisterView view).congr rfl rfl
  mem v := by
    rw [mem_nil_iff, false_or]
    exact h.apart.nodup.mem_erase_iff.trans and_comm
  tables := rfl

lemma freePages_granted (h : Valid host s) (hhost : pageSize ∣ host) (hview : view ∈ s.viewsTree)
    (hin : PagesOf view base size) (hgranted : ReleaseGranted host memory s view base size) :
    ∃ s', s.freePages host memory view base size = some (s', .success) ∧
      Replaced host s view (partBefore view base ++ partBehind view (base + size)) s' ∧
      Cleared s base (base + size) s' := by
  obtain hsize | hsize := eq_or_lt_of_le hin.size_le
  · have hbase := hin.whole hsize
    refine ⟨s.deleteView view, ?_, ?_, fun page => ?_⟩
    · rw [freePages, if_pos hsize, if_pos hbase]
    · have hstop : ¬base + size < view.stop := by
        rw [hbase, hsize]
        exact lt_irrefl _
      rw [partBefore, if_neg (by omega), partBehind, if_neg hstop]
      exact deleteView_replaced h view
    · rw [hbase, hsize]
      exact setPageVprot_eq (hbase ▸ hin.base_dvd) (hsize ▸ hin.size_dvd) s.vprot 0 page
  obtain ⟨hfirst, hmiddle, hmemory⟩ := hgranted hsize
  have hstart : base + size < view.stop → host ∣ base + size := by
    intro hlt
    by_cases hbase : view.base = base
    · exact Nat.dvd_add (hbase ▸ (h.proper view hview).host_dvd) (hfirst hbase)
    · exact hmiddle hbase hlt
  obtain ⟨s', hremoved, hreplaced, hvprot, _⟩ :=
    removePagesFromView_success h hhost hview hin hsize hstart hmemory
  have hpart : s.freePart memory view base size =
      some ({ s' with vprot := setPageVprot s'.vprot base size 0 }, .success) := by
    rw [freePart, hremoved]
    exact if_pos rfl
  refine ⟨{ s' with vprot := setPageVprot s'.vprot base size 0 }, ?_,
    hreplaced.congr rfl rfl, fun page => ?_⟩
  · rw [freePages, if_neg (ne_of_lt hsize)]
    by_cases hbase : view.base = base
    · have hmod : ¬size % host ≠ 0 := fun hne => hne (Nat.mod_eq_zero_of_dvd (hfirst hbase))
      rw [if_pos hbase, if_neg hmod, hpart]
    · have hmod : ¬(base + size < view.stop ∧ (base + size) % host ≠ 0) :=
        fun hne => hne.2 (Nat.mod_eq_zero_of_dvd (hstart hne.1))
      rw [if_neg hbase, if_neg hmod, hpart]
  · rw [← hvprot]
    exact setPageVprot_eq hin.base_dvd hin.size_dvd s'.vprot 0 page

lemma freePages_refused (hrefused : ¬ReleaseGranted host memory s view base size) :
    ∃ status, status ≠ .success ∧ s.freePages host memory view base size = some (s, status) := by
  unfold ReleaseGranted at hrefused
  rw [Classical.not_imp] at hrefused
  obtain ⟨hsize, hcond⟩ := hrefused
  have hpart : Hole view base size → ¬Available memory 1 s →
      s.freePart memory view base size = some (s, .noMemory) := by
    intro hhole hmemory
    rw [freePart, removePagesFromView_noMemory hsize hhole hmemory]
    exact if_neg nofun
  rw [freePages, if_neg (ne_of_lt hsize)]
  by_cases hbase : view.base = base
  · rw [if_pos hbase]
    by_cases hmod : size % host ≠ 0
    · rw [if_pos hmod]
      exact ⟨.conflictingAddresses, nofun, rfl⟩
    · exact absurd ⟨fun _ => Nat.dvd_of_mod_eq_zero (not_not.mp hmod),
        fun hne => absurd hbase hne, fun hhole => absurd hbase hhole.1⟩ hcond
  rw [if_neg hbase]
  by_cases hmod : base + size < view.stop ∧ (base + size) % host ≠ 0
  · rw [if_pos hmod]
    exact ⟨.conflictingAddresses, nofun, rfl⟩
  have hnot : ¬(Hole view base size → Available memory 1 s) := by
    intro hmemory
    apply hcond
    refine ⟨fun heq => absurd heq hbase, fun _ hlt => ?_, hmemory⟩
    by_contra hdvd
    exact hmod ⟨hlt, fun hzero => hdvd (Nat.dvd_of_mod_eq_zero hzero)⟩
  rw [Classical.not_imp] at hnot
  rw [if_neg hmod, hpart hnot.1 hnot.2]
  exact ⟨.noMemory, nofun, rfl⟩

lemma viewsNeeded_eq (view : FileView) (base size : ℕ) :
    viewsNeeded view base size = if Hole view base size then 1 + 1 else 1 := rfl

lemma freePagesPreservePlaceholder_refused (hpos : 0 < size)
    (hrefused : ¬PreserveAllowed host view base size ∨
      (size < view.size ∧ Hole view base size ∧ ¬Available memory 1 s)) :
    ∃ status, status ≠ .success ∧
      s.freePagesPreservePlaceholder host memory view base size = some (s, status) := by
  rw [freePagesPreservePlaceholder, if_neg (ne_of_gt hpos)]
  split
  · exact ⟨.conflictingAddresses, nofun, rfl⟩
  next hplaceholder =>
    split
    · exact ⟨.conflictingAddresses, nofun, rfl⟩
    next hfree =>
      have hwhole : size = view.size → view.isFreePlaceholder = false := by
        intro heq
        rw [← Bool.not_eq_true]
        exact fun htrue => hfree ⟨htrue, heq⟩
      split
      next hsize =>
        split
        · exact ⟨.conflictingAddresses, nofun, rfl⟩
        next hmod =>
          rw [not_or, not_and_or, not_not, not_not, not_not] at hmod
          have hallowed : PreserveAllowed host view base size :=
            ⟨hplaceholder, hwhole, fun _ => ⟨Nat.dvd_of_mod_eq_zero hmod.1,
              hmod.2.imp Nat.dvd_of_mod_eq_zero id⟩⟩
          obtain ⟨_, hhole, hmemory⟩ := hrefused.resolve_left fun h => h hallowed
          rw [removePagesFromView_noMemory hsize hhole hmemory]
          exact ⟨.noMemory, nofun, if_pos nofun⟩
      next hsize =>
        obtain hnot | hless := hrefused
        · exact absurd ⟨hplaceholder, hwhole, fun hlt => absurd hlt hsize⟩ hnot
        · exact absurd hless.1 hsize

lemma freePagesPreservePlaceholder_part (h : Valid host s) (hhost : pageSize ∣ host)
    (hview : view ∈ s.viewsTree) (hin : PagesOf view base size)
    (hallowed : PreserveAllowed host view base size) (hsize : size < view.size)
    (hmemory : Hole view base size → Available memory 1 s) :
    ∃ s₁, Replaced host s view (partBefore view base ++ partBehind view (base + size)) s₁ ∧
      s₁.vprot = s.vprot ∧
      (Available memory 1 s₁ ↔ Available memory (viewsNeeded view base size) s) ∧
      s.freePagesPreservePlaceholder host memory view base size =
        match s₁.createView host memory base size (vprotPlaceholder ||| vprotFreePlaceholder) with
        | none => none
        | some (s₂, status) =>
          if status ≠ .success then some (s₂, status)
          else some (s₂.makePlaceholder
            ⟨base, size, vprotPlaceholder ||| vprotFreePlaceholder⟩, .success) := by
  obtain ⟨hplaceholder, hwhole, hpart⟩ := hallowed
  obtain ⟨hbase, hdvd⟩ := hpart hsize
  have hstart : base + size < view.stop → host ∣ base + size := fun hlt =>
    Nat.dvd_add hbase (hdvd.resolve_right (Nat.ne_of_lt hlt))
  obtain ⟨s₁, hremoved, hreplaced, hvprot, havailable⟩ :=
    removePagesFromView_success h hhost hview hin hsize hstart hmemory
  refine ⟨s₁, hreplaced, hvprot, ?_, ?_⟩
  · rw [havailable 1, viewsNeeded_eq]
  have hmod : ¬(base % host ≠ 0 ∨ (size % host ≠ 0 ∧ base + size ≠ view.stop)) := by
    rw [not_or, not_and_or, not_not, not_not, not_not]
    exact ⟨Nat.mod_eq_zero_of_dvd hbase, hdvd.imp Nat.mod_eq_zero_of_dvd id⟩
  have hless : ¬(view.isFreePlaceholder = true ∧ size = view.size) :=
    fun hcond => absurd hcond.2 (Nat.ne_of_lt hsize)
  rw [freePagesPreservePlaceholder, if_neg (Nat.ne_of_gt hin.pos), if_neg hplaceholder,
    if_neg hless, if_pos hsize, if_neg hmod, hremoved]
  exact if_neg (not_not.mpr rfl)

lemma parts_beside (hin : PagesOf view base size) (protect : ℕ) :
    ∀ v ∈ partBefore view base ++ partBehind view (base + size),
      Beside ⟨base, size, protect⟩ v := by
  intro v hv
  obtain hv | hv := mem_append.mp hv
  · unfold partBefore at hv
    split at hv
    · rw [mem_singleton.mp hv]
      right
      show view.base + (base - view.base) ≤ base
      omega
    · exact absurd hv not_mem_nil
  unfold partBehind at hv
  split at hv
  · rw [mem_singleton.mp hv]
    exact .inl (le_refl _)
  · exact absurd hv not_mem_nil

lemma placeholder_proper (h : Valid host s) (hview : view ∈ s.viewsTree)
    (hin : PagesOf view base size) (hbase : host ∣ base) :
    Proper host s.vprotTables ⟨base, size, vprotPlaceholder ||| vprotFreePlaceholder⟩ :=
  (h.proper view hview).part hin.base_le hin.stop_le hin.pos hbase hin.size_dvd (.inr rfl)

lemma freePagesPreservePlaceholder_late (h : Valid host s) (hhost : pageSize ∣ host)
    (hview : view ∈ s.viewsTree) (hin : PagesOf view base size)
    (hlate : LateFailure host memory s view base size) :
    ∃ s₁, Replaced host s view (partBefore view base ++ partBehind view (base + size)) s₁ ∧
      s.freePagesPreservePlaceholder host memory view base size = some (s₁, .noMemory) := by
  obtain ⟨hallowed, hsize, hmemory, hneeded⟩ := hlate
  obtain ⟨s₁, hreplaced, _, havailable, heq⟩ :=
    freePagesPreservePlaceholder_part h hhost hview hin hallowed hsize hmemory
  have hnew := hreplaced.tables ▸ placeholder_proper h hview hin (hallowed.2.2 hsize).1
  have hbeside : ∀ v ∈ s₁.viewsTree,
      Beside ⟨base, size, vprotPlaceholder ||| vprotFreePlaceholder⟩ v := by
    intro v hv
    obtain hmem | ⟨hmem, hne⟩ := (hreplaced.mem v).mp hv
    · exact parts_beside hin _ v hmem
    · exact h.beside hview hmem hne hin.base_le hin.stop_le
  refine ⟨s₁, hreplaced, ?_⟩
  rw [heq, createView_eq hnew hhost hbeside,
    allocView_eq_none.mpr fun hone => hneeded (havailable.mp hone)]
  exact if_pos nofun

lemma makePlaceholder_tree {placeholder : FileView}
    (h : placeholder.protect = vprotPlaceholder ||| vprotFreePlaceholder) (s : State) :
    (s.makePlaceholder placeholder).viewsTree = s.viewsTree := by
  have hid : ∀ v ∈ s.viewsTree, (if v = placeholder then
      { placeholder with protect := vprotPlaceholder ||| vprotFreePlaceholder } else v) = id v := by
    intro v _
    split
    next heq =>
      rw [heq, ← h]
      rfl
    next => rfl
  exact (map_congr_left hid).trans (map_id _)

lemma freePagesPreservePlaceholder_granted (h : Valid host s) (hhost : pageSize ∣ host)
    (hview : view ∈ s.viewsTree) (hin : PagesOf view base size)
    (hgranted : PreserveGranted host memory s view base size) :
    ∃ s', s.freePagesPreservePlaceholder host memory view base size = some (s', .success) ∧
      Replaced host s view (partBefore view base ++ partBehind view (base + size) ++
        [⟨base, size, vprotPlaceholder ||| vprotFreePlaceholder⟩]) s' ∧
      Cleared s base (base + size) s' := by
  obtain ⟨hallowed, hneeded⟩ := hgranted
  obtain hsize | hsize := eq_or_lt_of_le hin.size_le
  · have hbase := hin.whole hsize
    have hstop : ¬base + size < view.stop := by
      rw [hbase, hsize]
      exact lt_irrefl _
    have hless : ¬(view.isFreePlaceholder = true ∧ size = view.size) := by
      rw [hallowed.2.1 hsize]
      exact fun hcond => Bool.false_ne_true hcond.1
    refine ⟨s.makePlaceholder view, ?_, ?_, fun page => ?_⟩
    · rw [freePagesPreservePlaceholder, if_neg (ne_of_gt hin.pos), if_neg hallowed.1,
        if_neg hless, if_neg (hsize ▸ lt_irrefl _)]
    · rw [partBefore, if_neg (by omega), partBehind, if_neg hstop, hbase, hsize]
      exact makePlaceholder_replaced h hview
    · rw [hbase, hsize]
      exact setPageVprot_eq (hbase ▸ hin.base_dvd) (hsize ▸ hin.size_dvd) s.vprot 0 page
  · have hmemory : Hole view base size → Available memory 1 s := by
      intro hhole
      have htwo := hneeded hsize
      rw [viewsNeeded, if_pos hhole] at htwo
      exact htwo.imp id fun hle => by omega
    obtain ⟨s₁, hreplaced, hvprot, havailable, heq⟩ :=
      freePagesPreservePlaceholder_part h hhost hview hin hallowed hsize hmemory
    have hnew := placeholder_proper h hview hin (hallowed.2.2 hsize).1
    have hparts := parts_beside hin (vprotPlaceholder ||| vprotFreePlaceholder)
    have hbeside : ∀ v ∈ s₁.viewsTree,
        Beside ⟨base, size, vprotPlaceholder ||| vprotFreePlaceholder⟩ v := by
      intro v hv
      obtain hmem | ⟨hmem, hne⟩ := (hreplaced.mem v).mp hv
      · exact hparts v hmem
      · exact h.beside hview hmem hne hin.base_le hin.stop_le
    obtain ⟨s₂, halloc⟩ : ∃ s₂, s₁.allocView memory = some s₂ := by
      rw [← Option.ne_none_iff_exists', Ne, allocView_eq_none, not_not]
      exact havailable.mpr (hneeded hsize)
    obtain ⟨htree, hvprot₂, htables, _⟩ := allocView_eq_some halloc
    rw [heq, createView_eq (hreplaced.tables ▸ hnew) hhost hbeside, halloc]
    refine ⟨_, if_neg (not_not.mpr rfl), ?_, fun page => ?_⟩
    · have hset : Replaced host s view (partBefore view base ++ partBehind view (base + size))
          { s₂ with
            vprot := setPageVprot s₂.vprot base size
              (vprotPlaceholder ||| vprotFreePlaceholder) } :=
        hreplaced.congr htree htables
      exact (hset.registerView h hview _ hnew hin.base_le hin.stop_le hparts).congr
        (makePlaceholder_tree rfl _) rfl
    show setPageVprot (State.registerView _ _).vprot base size 0 page = _
    rw [setPageVprot_eq hin.base_dvd hin.size_dvd, registerView_vprot]
    dsimp only
    rw [setPageVprot_eq hin.base_dvd hin.size_dvd, hvprot₂, hvprot]
    by_cases hpage : base ≤ page * pageSize ∧ page * pageSize < base + size
    · rw [if_pos hpage, if_pos hpage]
    · rw [if_neg hpage, if_neg hpage, if_neg hpage]

end pages

end WineForge.Views
