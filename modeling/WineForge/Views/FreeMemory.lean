import WineForge.Views.Coalesce

/-!
# Freeing memory

What a request asks for is taken without a limit to its size, and compared with what the call does.
The two differ where the structure for a placeholder is missing after the pages have been taken out
of their view, and where the size wraps when it is rounded to pages.
-/

namespace WineForge.Views

open Library List Option State

def requestBase (addr : ℕ) : ℕ := roundAddr addr pageSize

def requestStop (addr size : ℕ) : ℕ :=
  if size = 0 then requestBase addr else (addr + size + (pageSize - 1)) / pageSize * pageSize

def roundedSize (addr size : ℕ) : ℕ := if size = 0 then 0 else roundSize addr size pageSize

/-- The views are as before, but for `pieces` in the place of `view`. -/
def Swapped (s : State) (view : FileView) (pieces : List FileView) (s' : State) : Prop :=
  ∀ v, v ∈ s'.viewsTree ↔ v ∈ pieces ∨ (v ∈ s.viewsTree ∧ v ≠ view)

/-- The pages that a release takes from a view; without a size it takes the whole view. -/
def releasedStop (view : FileView) (addr size : ℕ) : ℕ :=
  if size = 0 then view.stop else min (requestStop addr size) view.stop

/-- A call that fails has changed nothing and one that succeeds has done what was asked. -/
structure FreedExactly (s : State) (addr size type : ℕ) (s' : State) (status : Status) :
    Prop where
  failed : status ≠ .success → s'.viewsTree = s.viewsTree ∧ s'.vprot = s.vprot
  released : status = .success → type = memRelease → ∃ view ∈ s.viewsTree,
    view.base ≤ requestBase addr ∧ requestBase addr < view.stop ∧
    Swapped s view (partBefore view (requestBase addr) ++
      partBehind view (releasedStop view addr size)) s' ∧
    Cleared s (requestBase addr) (releasedStop view addr size) s'
  preserved : status = .success → type = memRelease ||| memPreservePlaceholder →
    ∃ view ∈ s.viewsTree, view.base ≤ requestBase addr ∧ requestStop addr size ≤ view.stop ∧
    Swapped s view (partBefore view (requestBase addr) ++ partBehind view (requestStop addr size) ++
      [⟨requestBase addr, requestStop addr size - requestBase addr,
        vprotPlaceholder ||| vprotFreePlaceholder⟩]) s' ∧
    Cleared s (requestBase addr) (requestStop addr size) s'
  coalesced : type = memRelease ||| memCoalescePlaceholders →
    (status = .success ↔ Coalescable s (requestBase addr) (requestStop addr size)) ∧
    (status = .success → ∃ merged : FileView, merged.base = requestBase addr ∧
      merged.stop = requestStop addr size ∧ merged.isFreePlaceholder = true ∧
      s'.vprot = s.vprot ∧ ∀ v, v ∈ s'.viewsTree ↔ v = merged ∨ (v ∈ s.viewsTree ∧
        ¬(requestBase addr ≤ v.base ∧ v.base < requestStop addr size)))

/-- No placeholder lacks its structure when the pages are already out of their view, and a size
that wraps is not taken for a page of the view. -/
def FreesExactly (host : ℕ) (memory : Bool) (s : State) (addr size type : ℕ) : Prop :=
  ∀ view, s.findView (requestBase addr) = some view → view.isViewValloc = true →
    PagesOf view (requestBase addr) (roundedSize addr size) →
    (type = memRelease ||| memPreservePlaceholder →
      ¬LateFailure host memory s view (requestBase addr) (roundedSize addr size)) ∧
    (requestBase addr + roundedSize addr size ≠ requestStop addr size →
      (type = memRelease →
        ReleaseGranted host memory s view (requestBase addr) (roundedSize addr size) →
        requestBase addr + roundedSize addr size = view.stop) ∧
      (type = memRelease ||| memPreservePlaceholder →
        ¬PreserveGranted host memory s view (requestBase addr) (roundedSize addr size)))

section request

variable {host addr size type base : ℕ} {memory : Bool} {s s' : State} {view v : FileView}
  {status : Status}

lemma pageSize_dvd_requestBase (addr : ℕ) : pageSize ∣ requestBase addr :=
  Nat.dvd_sub_mod addr

lemma pageSize_dvd_roundedSize (addr size : ℕ) : pageSize ∣ roundedSize addr size := by
  unfold roundedSize
  split
  · exact Nat.dvd_zero pageSize
  · exact Nat.dvd_sub_mod _

lemma roundedSize_cases (addr : ℕ) (hsize : size < 2 ^ 64) :
    requestBase addr + roundedSize addr size = requestStop addr size ∨
      (size ≠ 0 ∧ roundedSize addr size ≤ pageSize ∧ 2 ^ 64 ≤ requestStop addr size) := by
  unfold roundedSize requestStop
  by_cases hzero : size = 0
  · rw [if_pos hzero, if_pos hzero]
    exact .inl rfl
  rw [if_neg hzero, if_neg hzero]
  unfold requestBase roundSize roundAddr pageSize
  dsimp only
  omega

lemma findView_some (h : s.findView base = some view) :
    view ∈ s.viewsTree ∧ view.base ≤ base ∧ base < view.stop := by
  exact ⟨mem_of_find?_eq_some h, of_decide_eq_true
    (find?_some (p := fun v : FileView => decide (v.base ≤ base ∧ base < v.stop)) h)⟩

lemma findView_of_mem (h : Valid host s) (hview : view ∈ s.viewsTree) (hbase : view.base ≤ base)
    (hstop : base < view.stop) : s.findView base = some view := by
  cases hfound : s.findView base with
  | none =>
    have hnone := find?_eq_none.mp hfound view hview
    exact absurd (decide_eq_true ⟨hbase, hstop⟩) hnone
  | some found =>
    obtain ⟨hmem, hin⟩ := findView_some hfound
    rw [h.apart.eq_of_meet hmem hview hin ⟨hbase, hstop⟩]

lemma Coalescable.first {stop : ℕ} (h : Valid host s) (hcover : Coalescable s base stop) :
    ∃ view ∈ s.viewsTree, view.base = base ∧ view.isFreePlaceholder = true ∧
      s.findView base = some view ∧ base + 2 * pageSize ≤ stop ∧ stop ≤ spaceEnd := by
  obtain ⟨chain, htwo, hall, hcovers⟩ := hcover
  match chain with
  | [] => exact absurd htwo (by decide)
  | [_] => simp at htwo
  | first :: second :: chain =>
    have hnonempty : ∀ v ∈ first :: second :: chain, v.base < v.stop := fun v hv =>
      h.apart.nonempty v (hall v hv).1
    have hfirst := hall first mem_cons_self
    have hsecond := hall second (by simp)
    have hbase : first.base = base := hcovers.1
    have hnext : second.base = first.base + first.size := hcovers.2.1
    have hle : second.base + second.size ≤ stop :=
      (hcovers.hi_le hnonempty).2 second (by simp)
    have hbig : ∀ v ∈ s.viewsTree, pageSize ≤ v.size := fun v hv =>
      Nat.le_of_dvd (h.proper v hv).pos (h.proper v hv).page_dvd
    have hone := hbig first hfirst.1
    have htwo := hbig second hsecond.1
    have hpos : 0 < pageSize := by decide
    obtain ⟨last, hlast, _, hend⟩ :=
      hcovers.exists_mem (p := stop - 1) (by omega) (by omega)
    have hbelow := (h.proper last (hall last hlast).1).below
    refine ⟨first, hfirst.1, hbase, hfirst.2, ?_, by omega, by omega⟩
    exact findView_of_mem h hfirst.1 hbase.le (hbase ▸ h.apart.nonempty first hfirst.1)

lemma FreedExactly.of_failed (hstatus : status ≠ .success)
    (hcover : type = memRelease ||| memCoalescePlaceholders →
      ¬Coalescable s (requestBase addr) (requestStop addr size)) :
    FreedExactly s addr size type s status where
  failed _ := ⟨rfl, rfl⟩
  released hsuccess := absurd hsuccess hstatus
  preserved hsuccess := absurd hsuccess hstatus
  coalesced htype := ⟨iff_of_false hstatus (hcover htype), fun hsuccess => absurd hsuccess hstatus⟩

lemma freesExactly_of_type (hrelease : type ≠ memRelease)
    (hpreserve : type ≠ memRelease ||| memPreservePlaceholder) :
    FreesExactly host memory s addr size type := fun _ _ _ _ =>
  ⟨fun htype => absurd htype hpreserve,
    fun _ => ⟨fun htype => absurd htype hrelease, fun htype => absurd htype hpreserve⟩⟩

lemma releasedStop_cases (hsize : size < 2 ^ 64) (hbelow : view.stop ≤ spaceEnd)
    (hbase : roundedSize addr size = 0 → requestBase addr = view.base)
    (hfit : requestBase addr + roundedSize addr size ≤ view.stop) {n : ℕ}
    (hn : n = if roundedSize addr size = 0 then view.size else roundedSize addr size) :
    releasedStop view addr size = requestBase addr + n ∨
      (0 < roundedSize addr size ∧ n = roundedSize addr size ∧
        requestBase addr + roundedSize addr size ≠ requestStop addr size ∧
        releasedStop view addr size = view.stop ∧ requestBase addr + n < view.stop) := by
  have hstop : view.stop = view.base + view.size := rfl
  have hend : spaceEnd < 2 ^ 64 := by decide
  unfold releasedStop
  by_cases hzero : size = 0
  · have hrounded : roundedSize addr size = 0 := if_pos hzero
    rw [if_pos hrounded] at hn
    rw [if_pos hzero, hbase hrounded, hn]
    exact .inl hstop
  rw [if_neg hzero]
  have hcases := roundedSize_cases addr hsize
  split at hn
  next hrounded =>
    left
    have hgt : requestBase addr < requestStop addr size := by
      rw [requestStop, if_neg hzero, requestBase, roundAddr]
      unfold pageSize
      omega
    omega
  next hrounded => omega

lemma freedExactly_release (h : Valid host s) (hview : view ∈ s.viewsTree) {n : ℕ}
    (hin : PagesOf view (requestBase addr) n)
    (hreplaced : Replaced host s view (partBefore view (requestBase addr) ++
      partBehind view (requestBase addr + n)) s')
    (hcleared : Cleared s (requestBase addr) (requestBase addr + n) s')
    (hcases : releasedStop view addr size = requestBase addr + n ∨
      (releasedStop view addr size = view.stop ∧ requestBase addr + n < view.stop)) :
    FreedExactly s addr size memRelease s' .success ↔
      releasedStop view addr size = requestBase addr + n := by
  have hinside : view.base ≤ requestBase addr ∧ requestBase addr < view.stop := by
    have hpos := hin.pos
    have hstop := hin.stop_le
    exact ⟨hin.base_le, by omega⟩
  constructor
  · intro hfreed
    refine hcases.resolve_right ?_
    rintro ⟨hstop, hlt⟩
    obtain ⟨view', hview', hbase', hstop', hswapped, _⟩ := hfreed.released rfl rfl
    obtain rfl := h.apart.eq_of_meet hview' hview ⟨hbase', hstop'⟩ hinside
    -- the part behind the pages that were taken is still there
    have hpart : (⟨requestBase addr + n, view'.stop - (requestBase addr + n), view'.protect⟩ :
        FileView) ∈ s'.viewsTree := by
      rw [hreplaced.mem]
      left
      apply mem_append_right
      rw [partBehind, if_pos hlt]
      exact mem_singleton_self _
    obtain hpiece | ⟨hold, hne⟩ := (hswapped _).mp hpart
    · rw [hstop, partBehind, if_neg (lt_irrefl _), append_nil, partBefore] at hpiece
      split at hpiece
      · have heq := congrArg FileView.base (mem_singleton.mp hpiece)
        have heq : requestBase addr + n = view'.base := heq
        omega
      · exact absurd hpiece not_mem_nil
    apply hne
    apply h.apart.eq_of_meet (p := requestBase addr + n) hold hview
    · exact ⟨le_refl _, Nat.lt_add_of_pos_right (Nat.sub_pos_of_lt hlt)⟩
    · exact ⟨by omega, hlt⟩
  · intro hstop
    refine ⟨(by simp), fun _ _ => ?_, fun _ htype => absurd htype (by decide),
      fun htype => absurd htype (by decide)⟩
    refine ⟨view, hview, hinside.1, hinside.2, ?_, ?_⟩
    · rw [hstop]
      exact hreplaced.mem
    · rw [hstop]
      exact hcleared

/-- The `switch` does what was asked exactly under the condition on the request. -/
def Settled (host : ℕ) (memory : Bool) (s : State) (addr size type : ℕ)
    (result : Option (State × Status)) : Prop :=
  ∃ s' status, result = some (s', status) ∧ Valid host s' ∧
    (FreedExactly s addr size type s' status ↔ FreesExactly host memory s addr size type)

lemma Settled.of_failed (h : Valid host s) (hstatus : status ≠ .success)
    (hcover : type = memRelease ||| memCoalescePlaceholders →
      ¬Coalescable s (requestBase addr) (requestStop addr size))
    (hexact : FreesExactly host memory s addr size type) :
    Settled host memory s addr size type (some (s, status)) :=
  ⟨s, status, rfl, h, iff_of_true (FreedExactly.of_failed hstatus hcover) hexact⟩

lemma settled_release (h : Valid host s) (hhost : pageSize ∣ host) (hsize : size < 2 ^ 64)
    (hfound : s.findView (requestBase addr) = some view) (hvalloc : view.isViewValloc = true)
    (hbase : roundedSize addr size = 0 → requestBase addr = view.base)
    (hfit : requestBase addr + roundedSize addr size ≤ view.stop) :
    Settled host memory s addr size memRelease (s.freePages host memory view (requestBase addr)
      (if roundedSize addr size = 0 then view.size else roundedSize addr size)) := by
  obtain ⟨hview, hin⟩ := findView_some hfound
  have hproper := h.proper view hview
  generalize hn : (if roundedSize addr size = 0 then view.size else roundedSize addr size) = n
  have hpages : PagesOf view (requestBase addr) n := by
    refine ⟨hin.1, ?_, ?_, pageSize_dvd_requestBase addr, ?_⟩
    all_goals rw [← hn]
    all_goals split
    · rename_i hzero
      rw [hbase hzero]
      exact le_refl _
    · exact hfit
    · exact hproper.pos
    · rename_i hzero
      exact Nat.pos_of_ne_zero hzero
    · exact hproper.page_dvd
    · exact pageSize_dvd_roundedSize addr size
  have hcases := releasedStop_cases hsize hproper.below hbase hfit hn.symm
  have hexact : FreesExactly host memory s addr size memRelease ↔
      (0 < roundedSize addr size →
        requestBase addr + roundedSize addr size ≠ requestStop addr size →
        ReleaseGranted host memory s view (requestBase addr) (roundedSize addr size) →
        requestBase addr + roundedSize addr size = view.stop) := by
    constructor
    · intro hexact hpos hne
      have hwhole : PagesOf view (requestBase addr) (roundedSize addr size) :=
        ⟨hin.1, hfit, hpos, pageSize_dvd_requestBase addr, pageSize_dvd_roundedSize addr size⟩
      exact ((hexact view hfound hvalloc hwhole).2 hne).1 rfl
    · intro hcond view' hfound' _ hpages'
      obtain rfl := some.inj (hfound.symm.trans hfound')
      exact ⟨fun htype => absurd htype (by decide), fun hne =>
        ⟨fun _ => hcond hpages'.pos hne, fun htype => absurd htype (by decide)⟩⟩
  by_cases hgranted : ReleaseGranted host memory s view (requestBase addr) n
  · obtain ⟨s', hfreed, hreplaced, hcleared⟩ := freePages_granted h hhost hview hpages hgranted
    refine ⟨s', .success, hfreed, hreplaced.valid, ?_⟩
    rw [freedExactly_release h hview hpages hreplaced hcleared
      (hcases.imp id fun hless => hless.2.2.2), hexact]
    obtain heq | ⟨hpos, hn', hne, hstop, hlt⟩ := hcases
    · refine iff_of_true heq fun hpos _ _ => ?_
      rw [if_neg (ne_of_gt hpos)] at hn
      unfold releasedStop at heq
      split at heq
      next hzero =>
        rw [hn]
        exact heq.symm
      next => omega
    rw [hn'] at hgranted hlt
    refine iff_of_false ?_ fun hcond => ?_
    · rw [hstop, hn']
      exact ne_of_gt hlt
    · exact absurd (hcond hpos hne hgranted) (ne_of_lt hlt)
  · obtain ⟨status, hstatus, hfreed⟩ := freePages_refused hgranted
    rw [hfreed]
    refine Settled.of_failed h hstatus (fun htype => absurd htype (by decide)) ?_
    rw [hexact]
    intro hpos _ hgranted'
    rw [if_neg (ne_of_gt hpos)] at hn
    exact absurd (hn ▸ hgranted') hgranted

lemma not_freedExactly_late (h : Valid host s) (hview : view ∈ s.viewsTree) {n : ℕ}
    (hin : PagesOf view (requestBase addr) n)
    (hreplaced : Replaced host s view (partBefore view (requestBase addr) ++
      partBehind view (requestBase addr + n)) s') :
    ¬FreedExactly s addr size type s' .noMemory := by
  intro hfreed
  have hpos := hin.pos
  have hstop := hin.stop_le
  have hmem : view ∈ s'.viewsTree := by
    rw [(hfreed.failed nofun).1]
    exact hview
  obtain hpart | ⟨_, hne⟩ := (hreplaced.mem view).mp hmem
  · -- each part is shorter than the view
    have hend : view.stop = view.base + view.size := rfl
    have hle := hin.base_le
    obtain hpart | hpart := mem_append.mp hpart
    · unfold partBefore at hpart
      split at hpart
      · have heq := congrArg FileView.size (mem_singleton.mp hpart)
        have heq : view.size = requestBase addr - view.base := heq
        omega
      · exact absurd hpart not_mem_nil
    unfold partBehind at hpart
    split at hpart
    · have heq := congrArg FileView.size (mem_singleton.mp hpart)
      have heq : view.size = view.stop - (requestBase addr + n) := heq
      omega
    · exact absurd hpart not_mem_nil
  · exact hne rfl

lemma settled_preserve (h : Valid host s) (hhost : pageSize ∣ host) (hsize : size < 2 ^ 64)
    (hfound : s.findView (requestBase addr) = some view) (hvalloc : view.isViewValloc = true)
    (hfit : requestBase addr + roundedSize addr size ≤ view.stop) :
    Settled host memory s addr size (memRelease ||| memPreservePlaceholder)
      (s.freePagesPreservePlaceholder host memory view (requestBase addr)
        (roundedSize addr size)) := by
  obtain ⟨hview, hin⟩ := findView_some hfound
  have hnever : memRelease ||| memPreservePlaceholder = memRelease ||| memCoalescePlaceholders →
      ¬Coalescable s (requestBase addr) (requestStop addr size) := fun htype =>
    absurd htype (by decide)
  by_cases hpos : 0 < roundedSize addr size
  · have hpages : PagesOf view (requestBase addr) (roundedSize addr size) :=
      ⟨hin.1, hfit, hpos, pageSize_dvd_requestBase addr, pageSize_dvd_roundedSize addr size⟩
    have hexact : FreesExactly host memory s addr size (memRelease ||| memPreservePlaceholder) ↔
        ¬LateFailure host memory s view (requestBase addr) (roundedSize addr size) ∧
        (requestBase addr + roundedSize addr size ≠ requestStop addr size →
          ¬PreserveGranted host memory s view (requestBase addr) (roundedSize addr size)) := by
      constructor
      · intro hexact
        obtain ⟨hlate, hwrap⟩ := hexact view hfound hvalloc hpages
        exact ⟨hlate rfl, fun hne => (hwrap hne).2 rfl⟩
      · rintro ⟨hlate, hwrap⟩ view' hfound' _ _
        obtain rfl := some.inj (hfound.symm.trans hfound')
        exact ⟨fun _ => hlate, fun hne => ⟨fun htype => absurd htype (by decide),
          fun _ => hwrap hne⟩⟩
    by_cases hrefused : ¬PreserveAllowed host view (requestBase addr) (roundedSize addr size) ∨
        (roundedSize addr size < view.size ∧
          Hole view (requestBase addr) (roundedSize addr size) ∧ ¬Available memory 1 s)
    · obtain ⟨status, hstatus, hfreed⟩ := freePagesPreservePlaceholder_refused hpos hrefused
      rw [hfreed]
      refine Settled.of_failed h hstatus hnever (hexact.mpr ⟨?_, fun _ => ?_⟩)
      · rintro ⟨hallowed, hless, hmemory, _⟩
        obtain ⟨_, hhole, hnone⟩ := hrefused.resolve_left fun hnot => hnot hallowed
        exact hnone (hmemory hhole)
      rintro ⟨hallowed, hneeded⟩
      obtain ⟨hless, hhole, hnone⟩ := hrefused.resolve_left fun hnot => hnot hallowed
      have htwo := hneeded hless
      rw [viewsNeeded, if_pos hhole] at htwo
      exact hnone (htwo.imp id fun hle => by omega)
    · rw [not_or, not_not, not_and, not_and, not_not] at hrefused
      obtain ⟨hallowed, hmemory⟩ := hrefused
      by_cases hneeded : roundedSize addr size < view.size →
          Available memory (viewsNeeded view (requestBase addr) (roundedSize addr size)) s
      · obtain ⟨s', hfreed, hreplaced, hcleared⟩ :=
          freePagesPreservePlaceholder_granted h hhost hview hpages ⟨hallowed, hneeded⟩
        refine ⟨s', .success, hfreed, hreplaced.valid, ?_⟩
        rw [hexact]
        obtain heq | ⟨_, _, hwrap⟩ := roundedSize_cases addr hsize
        · refine iff_of_true ?_ ⟨fun hlate => hlate.2.2.2 (hneeded hlate.2.1), fun hne =>
            absurd heq hne⟩
          refine ⟨(by simp), fun _ htype => absurd htype (by decide), fun _ _ => ?_,
            fun htype => absurd htype (by decide)⟩
          rw [← heq, Nat.add_sub_cancel_left]
          exact ⟨view, hview, hin.1, hfit, hreplaced.mem, hcleared⟩
        have hend : spaceEnd < 2 ^ 64 := by decide
        have hbelow := (h.proper view hview).below
        refine iff_of_false ?_ fun hcond =>
          hcond.2 (by omega) ⟨hallowed, hneeded⟩
        intro hexactly
        obtain ⟨view', hview', _, hstop, _⟩ := hexactly.preserved rfl rfl
        have hbelow' := (h.proper view' hview').below
        omega
      · rw [Classical.not_imp] at hneeded
        have hlate : LateFailure host memory s view (requestBase addr) (roundedSize addr size) :=
          ⟨hallowed, hneeded.1, hmemory hneeded.1, hneeded.2⟩
        obtain ⟨s', hreplaced, hfreed⟩ :=
          freePagesPreservePlaceholder_late h hhost hview hpages hlate
        refine ⟨s', .noMemory, hfreed, hreplaced.valid, iff_of_false ?_ ?_⟩
        · exact not_freedExactly_late h hview hpages hreplaced
        · rw [hexact]
          exact fun hcond => hcond.1 hlate
  · have hzero : roundedSize addr size = 0 := Nat.eq_zero_of_not_pos hpos
    rw [freePagesPreservePlaceholder, if_pos hzero]
    refine Settled.of_failed h (by rintro ⟨⟩) hnever ?_
    exact fun _ _ _ hpages => absurd hpages.pos hpos

lemma settled_coalesce (h : Valid host s) (hhost : pageSize ∣ host) (hsize : size < 2 ^ 64)
    (hfound : s.findView (requestBase addr) = some view) :
    Settled host memory s addr size (memRelease ||| memCoalescePlaceholders)
      (s.coalescePlaceholders view (requestBase addr) (roundedSize addr size)) := by
  obtain ⟨hview, _⟩ := findView_some hfound
  have hexact : FreesExactly host memory s addr size (memRelease ||| memCoalescePlaceholders) :=
    freesExactly_of_type (by decide) (by decide)
  have hend : spaceEnd < 2 ^ 64 := by decide
  by_cases hcover : Coalescable s (requestBase addr) (requestBase addr + roundedSize addr size)
  · obtain ⟨first, _, hbase, _, hfirst, hbig, _⟩ := hcover.first h
    obtain rfl := some.inj (hfound.symm.trans hfirst)
    have hpage : 0 < pageSize := by decide
    have heq : requestBase addr + roundedSize addr size = requestStop addr size :=
      (roundedSize_cases addr hsize).resolve_right fun hwrap => by omega
    rw [← hbase] at hcover
    obtain ⟨s', hfreed, hvalid, hfree, hvprot, hmem⟩ := coalescePlaceholders_success h hhost hview
      (pageSize_dvd_roundedSize addr size) hcover
    rw [hbase] at hfreed hmem hcover
    rw [heq] at hmem hcover
    refine ⟨s', .success, hfreed, hvalid, iff_of_true ?_ hexact⟩
    refine ⟨nofun, fun _ htype => absurd htype (by decide),
      fun _ htype => absurd htype (by decide), fun _ => ⟨iff_of_true rfl hcover, fun _ => ?_⟩⟩
    exact ⟨⟨requestBase addr, roundedSize addr size, view.protect⟩, rfl, heq, hfree, hvprot, hmem⟩
  · obtain ⟨status, hstatus, hfreed⟩ := coalescePlaceholders_refused h hview hcover
    rw [hfreed]
    refine Settled.of_failed h hstatus (fun _ hcover' => ?_) hexact
    obtain ⟨_, _, _, _, _, _, hle⟩ := hcover'.first h
    obtain heq | ⟨_, _, hwrap⟩ := roundedSize_cases addr hsize
    · exact hcover (heq ▸ hcover')
    · omega

lemma settled_freeByType (h : Valid host s) (hhost : pageSize ∣ host) (hsize : size < 2 ^ 64)
    (hfound : s.findView (requestBase addr) = some view) (hvalloc : view.isViewValloc = true)
    (hbase : roundedSize addr size = 0 → requestBase addr = view.base)
    (hfit : type &&& memCoalescePlaceholders = 0 →
      requestBase addr + roundedSize addr size ≤ view.stop) :
    Settled host memory s addr size type
      (s.freeByType host memory view (requestBase addr) (roundedSize addr size) type).1 := by
  unfold freeByType
  split
  next htype =>
    subst htype
    refine ⟨_, .success, rfl, h.congr rfl rfl,
      iff_of_true ?_ (freesExactly_of_type (by decide) (by decide))⟩
    exact ⟨fun hne => absurd rfl hne, fun _ htype => absurd htype (by decide),
      fun _ htype => absurd htype (by decide), fun htype => absurd htype (by decide)⟩
  next =>
    split
    next htype =>
      subst htype
      exact settled_release h hhost hsize hfound hvalloc hbase (hfit (by decide))
    next hrelease =>
      split
      next htype =>
        subst htype
        exact settled_preserve h hhost hsize hfound hvalloc (hfit (by decide))
      next hpreserve =>
        have hexact : FreesExactly host memory s addr size type :=
          freesExactly_of_type hrelease hpreserve
        split
        next htype =>
          subst htype
          exact settled_coalesce h hhost hsize hfound
        next hcoalesce =>
          have hnever : type = memRelease ||| memCoalescePlaceholders →
              ¬Coalescable s (requestBase addr) (requestStop addr size) := fun htype =>
            absurd htype hcoalesce
          split
          · exact Settled.of_failed h nofun hnever hexact
          · exact Settled.of_failed h nofun hnever hexact

def Answered (host : ℕ) (memory : Bool) (s : State) (addr size type : ℕ)
    (result : Option (State × Reply)) : Prop :=
  ∃ s' reply, result = some (s', reply) ∧ Valid host s' ∧
    (FreedExactly s addr size type s' reply.status ↔ FreesExactly host memory s addr size type)

lemma Answered.of_failed (h : Valid host s) (hstatus : status ≠ .success)
    (hcover : type = memRelease ||| memCoalescePlaceholders →
      ¬Coalescable s (requestBase addr) (requestStop addr size))
    (hexact : FreesExactly host memory s addr size type) :
    Answered host memory s addr size type (some (s, ⟨status, addr, size⟩)) :=
  ⟨s, ⟨status, addr, size⟩, rfl, h, iff_of_true (FreedExactly.of_failed hstatus hcover) hexact⟩

lemma Answered.of_settled {result : Option (State × Status)} {size' : ℕ}
    (h : Settled host memory s addr size type result) :
    Answered host memory s addr size type (result.map fun result =>
      if result.2 = .success then (result.1, ⟨.success, requestBase addr, size'⟩)
      else (result.1, ⟨result.2, addr, size⟩)) := by
  obtain ⟨s', status, rfl, hvalid, hiff⟩ := h
  by_cases hstatus : status = .success
  · subst hstatus
    exact ⟨s', ⟨.success, requestBase addr, size'⟩, rfl, hvalid, hiff⟩
  · exact ⟨s', ⟨status, addr, size⟩, congrArg some (if_neg hstatus), hvalid, hiff⟩

lemma answered_found (hhost : pageSize ∣ host) (h : Valid host s) (hsize : size < 2 ^ 64)
    (hfound : s.findView (requestBase addr) = some view) :
    Answered host memory s addr size type
      (if view.isViewValloc = false then some (s, ⟨.invalidParameter, addr, size⟩)
      else if roundedSize addr size = 0 ∧ requestBase addr ≠ view.base then
        some (s, ⟨.freeVmNotAtBase, addr, size⟩)
      else if view.stop - requestBase addr < roundedSize addr size ∧
          type &&& memCoalescePlaceholders = 0 then some (s, ⟨.unableToFreeVm, addr, size⟩)
      else
        let freed := s.freeByType host memory view (requestBase addr) (roundedSize addr size) type
        freed.1.map fun result =>
          if result.2 = .success then (result.1, ⟨.success, requestBase addr, freed.2⟩)
          else (result.1, ⟨result.2, addr, size⟩)) := by
  obtain ⟨hview, hbase, hstop⟩ := findView_some hfound
  have hsame : ∀ view', s.findView (requestBase addr) = some view' → view' = view :=
    fun view' hview' => some.inj (hview'.symm.trans hfound)
  split
  next hvalloc =>
    refine Answered.of_failed h nofun ?_ ?_
    · intro _ hcover
      obtain ⟨first, hfirst, _, hfree, hfound', _⟩ := hcover.first h
      have htrue := (h.proper first hfirst).valloc hfree
      rw [hsame first hfound', hvalloc] at htrue
      exact absurd htrue nofun
    · intro view' hfound' htrue
      rw [hsame view' hfound', hvalloc] at htrue
      exact absurd htrue nofun
  next hvalloc =>
    split
    next hnone =>
      refine Answered.of_failed h nofun ?_ ?_
      · intro _ hcover
        obtain ⟨first, _, hfirst, _, hfound', _⟩ := hcover.first h
        exact hnone.2 (hsame first hfound' ▸ hfirst.symm)
      · intro view' _ _ hpages
        exact absurd hnone.1 (ne_of_gt hpages.pos)
    next hnone =>
      split
      next hlong =>
        refine Answered.of_failed h nofun ?_ ?_
        · intro htype
          rw [htype] at hlong
          exact absurd hlong.2 (by decide)
        intro view' hfound' _ hpages
        have hle := hpages.stop_le
        rw [hsame view' hfound'] at hle
        omega
      next hlong =>
        apply Answered.of_settled
        apply settled_freeByType h hhost hsize hfound (eq_true_of_ne_false hvalloc)
        · intro hzero
          by_contra hne
          exact hnone ⟨hzero, hne⟩
        · intro hcoalesce
          omega

end request

/-- A request for valid views ends with valid views. It changes nothing or does what was asked
exactly where no placeholder lacks its structure after the pages have been taken out of their view
and no size that wraps is granted as a part of a view. -/
theorem free_virtual_memory {host : ℕ} (hhost : pageSize ∣ host) (memory : Bool) {s : State}
    (h : Valid host s) (addr : ℕ) {size : ℕ} (hsize : size < 2 ^ 64) (type : ℕ) :
    ∃ s' reply, s.ntFreeVirtualMemory host memory addr size type = some (s', reply) ∧
      Valid host s' ∧
      (FreedExactly s addr size type s' reply.status ↔
        FreesExactly host memory s addr size type) := by
  show Answered host memory s addr size type
    (if requestBase addr = 0 then some (s, ⟨.invalidParameter, addr, size⟩) else _)
  split
  next hzero =>
    refine Answered.of_failed h nofun ?_ ?_
    · intro _ hcover
      obtain ⟨first, hfirst, hbase, _⟩ := hcover.first h
      have hpos := (h.proper first hfirst).base_pos
      omega
    · intro view hfound _ hpages
      obtain ⟨hview, _⟩ := findView_some hfound
      have hpos := (h.proper view hview).base_pos
      omega
  next =>
    cases hfound : s.findView (requestBase addr) with
    | none =>
      have hnone : s.findView (roundAddr addr pageSize) = none := hfound
      rw [hnone]
      refine Answered.of_failed h nofun ?_ ?_
      · intro _ hcover
        obtain ⟨_, _, _, _, hfirst, _⟩ := hcover.first h
        exact absurd (hfound.symm.trans hfirst) nofun
      · exact fun view hview => absurd (hfound.symm.trans hview) nofun
    | some view =>
      have hsome : s.findView (roundAddr addr pageSize) = some view := hfound
      rw [hsome]
      exact answered_found hhost h hsize hfound

/-- A view of three pages that may have placeholders, and one structure for a view. -/
def threePages : State where
  viewsTree := [⟨0x10000, 0x3000, vprotPlaceholder⟩]
  vprot := fun _ => vprotCommitted
  vprotTables := fun _ => true
  freeViews := 1
  blockViews := 0

lemma threePages_valid : Valid pageSize threePages where
  apart := by
    refine ⟨?_, pairwise_singleton _ _⟩
    decide
  proper := by
    rw [threePages, forall_mem_singleton]
    exact ⟨by decide, by decide, by decide, by decide, by decide, fun _ _ _ => rfl, by decide⟩

/-- The second page released into a placeholder. -/
theorem free_virtual_memory_three_pages :
    ∃ s' reply, threePages.ntFreeVirtualMemory pageSize false 0x11000 0x1000
        (memRelease ||| memPreservePlaceholder) = some (s', reply) ∧
      Valid pageSize s' ∧
      (FreedExactly threePages 0x11000 0x1000 (memRelease ||| memPreservePlaceholder) s'
          reply.status ↔
        FreesExactly pageSize false threePages 0x11000 0x1000
          (memRelease ||| memPreservePlaceholder)) :=
  free_virtual_memory (Nat.dvd_refl pageSize) false threePages_valid 0x11000 (by decide) _

/-- The structure is used for the third page, and the second one is lost; a size that wraps is
taken for one page. -/
theorem middle_page_lost : Valid pageSize threePages ∧
    (threePages.ntFreeVirtualMemory pageSize false 0x11000 0x1000
        (memRelease ||| memPreservePlaceholder)).map (fun r => (r.1.viewsTree, r.2.status)) =
      some ([⟨0x10000, 0x1000, vprotPlaceholder⟩, ⟨0x12000, 0x1000, vprotPlaceholder⟩], .noMemory) ∧
    (threePages.ntFreeVirtualMemory pageSize false 0x10002 0xffffffffffffffff memRelease).map
        (fun r => (r.1.viewsTree, r.2)) =
      some ([⟨0x11000, 0x2000, vprotPlaceholder⟩], ⟨.success, 0x10000, 0x1000⟩) := by
  refine ⟨threePages_valid, ?_⟩
  decide +kernel

end WineForge.Views
