import WineForge.Views.Placeholders

/-!
# Coalescing placeholders

The walk over the views behind the first one takes a run of free placeholders without gaps. It ends
with the size of the request exactly where such a run covers the request.
-/

namespace WineForge.Views

open Library List State

/-- Two free placeholders at least cover the addresses from `base` to `stop`. -/
def Coalescable (s : State) (base stop : ℕ) : Prop :=
  ∃ chain : List FileView, 2 ≤ chain.length ∧
    (∀ v ∈ chain, v ∈ s.viewsTree ∧ v.isFreePlaceholder = true) ∧
    Covers FileView.base FileView.stop base stop chain

section walk

variable {size start n viewCount viewsSize : ℕ} {views chain : List FileView}

lemma coalesceWalk_chain (size : ℕ) (views : List FileView) (viewCount viewsSize : ℕ) :
    ∃ chain n, chain <+: views ∧ (∀ v ∈ chain, v.isFreePlaceholder = true) ∧
      coalesceWalk size views viewCount viewsSize = (viewCount + chain.length, viewsSize + n) ∧
      ∀ start, (∀ v, views.head? = some v → v.base = start) →
        Covers FileView.base FileView.stop start (start + n) chain := by
  induction views generalizing viewCount viewsSize with
  | nil => exact ⟨[], 0, nil_prefix, nofun, rfl, fun start _ => rfl⟩
  | cons curr rest ih =>
    by_cases hfree : curr.isFreePlaceholder = true
    · have hone : ∃ chain n, chain <+: curr :: rest ∧ (∀ v ∈ chain, v.isFreePlaceholder = true) ∧
          (viewCount + 1, viewsSize + curr.size) = (viewCount + chain.length, viewsSize + n) ∧
          ∀ start, (∀ v, (curr :: rest).head? = some v → v.base = start) →
            Covers FileView.base FileView.stop start (start + n) chain := by
        refine ⟨[curr], curr.size, ⟨rest, rfl⟩, ?_, rfl, fun start hstart => ?_⟩
        · rw [forall_mem_singleton]
          exact hfree
        · have hbase := hstart curr rfl
          exact ⟨hbase, hbase ▸ rfl⟩
      unfold coalesceWalk
      rw [if_pos hfree]
      split
      · exact hone
      split
      · exact hone
      next next rest =>
        split
        · exact hone
        next hstop =>
          obtain ⟨chain, n, hchain, hall, hwalk, hcovers⟩ :=
            ih (viewCount + 1) (viewsSize + curr.size)
          refine ⟨curr :: chain, curr.size + n, (prefix_cons_inj curr).mpr hchain, ?_, ?_,
            fun start hstart => ?_⟩
          · rw [forall_mem_cons]
            exact ⟨hfree, hall⟩
          · rw [hwalk, length_cons]
            simp only [Nat.add_assoc, Nat.add_comm 1]
          have hbase := hstart curr rfl
          have hnext := hcovers curr.stop (by
            rintro v hv
            rw [← Option.some.inj hv]
            exact (not_not.mp hstop).symm)
          refine ⟨hbase, ?_⟩
          rw [← hbase, ← Nat.add_assoc]
          exact hnext
    · refine ⟨[], 0, nil_prefix, nofun, ?_, fun start _ => rfl⟩
      unfold coalesceWalk
      rw [if_neg hfree]
      rfl

lemma coalesceWalk_of_chain (hpos : ∀ v ∈ chain, 0 < v.size) (hne : chain ≠ [])
    (hchain : chain <+: views) (hall : ∀ v ∈ chain, v.isFreePlaceholder = true)
    (hcovers : Covers FileView.base FileView.stop start (start + n) chain)
    (hsize : viewsSize + n = size) :
    coalesceWalk size views viewCount viewsSize = (viewCount + chain.length, size) := by
  induction chain generalizing views start n viewCount viewsSize with
  | nil => exact absurd rfl hne
  | cons curr chain ih =>
    obtain ⟨rest, rfl⟩ := hchain
    rw [forall_mem_cons] at hpos hall
    obtain ⟨hbase, hcovers⟩ := hcovers
    rw [cons_append]
    unfold coalesceWalk
    rw [if_pos hall.1]
    cases chain with
    | nil =>
      have hn : curr.base + curr.size = start + n := hcovers
      rw [if_pos (by omega), length_singleton]
      congr 1
      omega
    | cons next chain =>
      have hnonempty : ∀ v ∈ next :: chain, v.base < v.stop := fun v hv =>
        Nat.lt_add_of_pos_right (hpos.2 v hv)
      have hle := (hcovers.2.hi_le fun v hv =>
        hnonempty v (mem_cons_of_mem next hv)).1
      have hlt := hnonempty next mem_cons_self
      have hnext : next.base = curr.stop := hcovers.1
      have hcurr : curr.stop = curr.base + curr.size := rfl
      obtain ⟨m, hm⟩ : ∃ m, start + n = curr.stop + m := ⟨start + n - curr.stop, by omega⟩
      rw [hm] at hcovers
      rw [if_neg (by omega)]
      dsimp only [cons_append]
      rw [if_neg (not_not.mpr hnext.symm)]
      have hrest : coalesceWalk size (next :: chain ++ rest) (viewCount + 1)
          (viewsSize + curr.size) = (viewCount + 1 + (next :: chain).length, size) :=
        ih hpos.2 (cons_ne_nil next chain) ⟨rest, rfl⟩ hall.2 hcovers (by omega)
      rw [cons_append] at hrest
      rw [hrest, length_cons (a := curr)]
      congr 1
      omega

end walk

section free

variable {host base size n : ℕ} {s s' : State} {view : FileView}

section

variable (h : Valid host s)

include h

lemma exists_filter_base (hview : view ∈ s.viewsTree) :
    ∃ rest, (s.viewsTree.filter fun v => view.base ≤ v.base) = view :: rest ∧
      (s.viewsTree.filter fun v => decide (view.base < v.base)) = rest := by
  have hapart : Apart FileView.base FileView.stop
      (s.viewsTree.filter fun v => view.base ≤ v.base) := h.apart.sublist filter_sublist
  have hmem : view ∈ s.viewsTree.filter fun v => view.base ≤ v.base :=
    mem_filter.mpr ⟨hview, decide_eq_true (le_refl _)⟩
  obtain ⟨first, rest, heq⟩ := exists_cons_of_ne_nil (ne_nil_of_mem hmem)
  rw [heq] at hapart hmem
  have hfirst : view = first := by
    refine (mem_cons.mp hmem).resolve_right fun hrest => ?_
    have hle := hapart.behind hrest
    have hlt := hapart.nonempty first mem_cons_self
    have hge : first ∈ s.viewsTree.filter fun v => view.base ≤ v.base :=
      heq ▸ mem_cons_self
    have hge := of_decide_eq_true (mem_filter.mp hge).2
    omega
  subst hfirst
  have hbehind : ∀ v ∈ rest, view.base < v.base := fun v hv =>
    (hapart.nonempty view mem_cons_self).trans_le (hapart.behind hv)
  have hfilter : (s.viewsTree.filter fun v => decide (view.base < v.base)) =
      (s.viewsTree.filter fun v => view.base ≤ v.base).filter
        fun v => decide (view.base < v.base) := by
    rw [filter_filter]
    apply filter_congr
    intro v _
    rw [← Bool.decide_and]
    apply decide_eq_decide.mpr
    omega
  refine ⟨rest, heq, ?_⟩
  rw [hfilter, heq, filter_cons_of_neg (by simp)]
  exact filter_eq_self.mpr fun v hv => decide_eq_true (hbehind v hv)

lemma freeNext_spec {front back : List FileView}
    (hbehind : (s.viewsTree.filter fun v => decide (view.base < v.base)) = front ++ back) :
    ∃ s', freeNext view front.length s = some s' ∧ Valid host s' ∧
      (∀ v, v ∈ s'.viewsTree ↔ v ∈ s.viewsTree ∧ v ∉ front) ∧ s'.vprot = s.vprot ∧
      s'.vprotTables = s.vprotTables := by
  induction front generalizing s with
  | nil => exact ⟨s, rfl, h, fun v => by simp, rfl, rfl⟩
  | cons curr front ih =>
    have hnext : s.rbNext view = some curr := by
      rw [rbNext, ← head?_filter, hbehind]
      rfl
    have hnodup : (curr :: front ++ back).Nodup := hbehind ▸ h.apart.nodup.filter _
    have hrest : ((s.unregisterView curr).freeView.viewsTree.filter
        fun v => decide (view.base < v.base)) = front ++ back := by
      show (s.viewsTree.erase curr).filter _ = front ++ back
      rw [h.apart.nodup.erase_eq_filter, filter_comm, hbehind, cons_append,
        filter_cons_of_neg (by simp)]
      apply filter_eq_self.mpr
      intro v hv
      rw [cons_append, nodup_cons] at hnodup
      rw [bne_iff_ne]
      rintro rfl
      exact hnodup.1 hv
    have hfreed₁ : Valid host (s.unregisterView curr).freeView :=
      (h.unregisterView curr).congr rfl rfl
    obtain ⟨s', hfreed, hvalid, hmem, hvprot, htables⟩ := ih hfreed₁ hrest
    refine ⟨s', ?_, hvalid, fun v => ?_, hvprot, htables⟩
    · rw [length_cons, freeNext, hnext]
      exact hfreed
    · rw [hmem v, mem_cons, not_or, ← and_assoc]
      exact and_congr_left' (mem_unregisterView h)

lemma mem_chain_iff {start stop : ℕ} {chain : List FileView} (hchain : ∀ v ∈ chain, v ∈ s.viewsTree)
    (hcovers : Covers FileView.base FileView.stop start stop chain) (v : FileView) :
    v ∈ chain ↔ v ∈ s.viewsTree ∧ start ≤ v.base ∧ v.base < stop := by
  have hnonempty : ∀ v ∈ chain, v.base < v.stop := fun v hv => h.apart.nonempty v (hchain v hv)
  constructor
  · intro hv
    exact ⟨hchain v hv, hcovers.lo_ge hnonempty v hv,
      (hnonempty v hv).trans_le ((hcovers.hi_le hnonempty).2 v hv)⟩
  · rintro ⟨hv, hstart, hstop⟩
    obtain ⟨w, hw, hin⟩ := hcovers.exists_mem hstart hstop
    have heq := h.apart.eq_of_meet hv (hchain w hw) ⟨le_refl _, h.apart.nonempty v hv⟩ hin
    exact heq ▸ hw

lemma merged_proper (hhost : pageSize ∣ host) (hview : view ∈ s.viewsTree)
    (hsize : pageSize ∣ size) (hpos : 0 < size) {chain : List FileView}
    (hchain : ∀ v ∈ chain, v ∈ s.viewsTree)
    (hcovers : Covers FileView.base FileView.stop view.base (view.base + size) chain) :
    Proper host s.vprotTables ⟨view.base, size, view.protect⟩ where
  base_pos := (h.proper view hview).base_pos
  pos := hpos
  host_dvd := (h.proper view hview).host_dvd
  page_dvd := hsize
  below := by
    obtain ⟨v, hv, _, hlt⟩ := hcovers.exists_mem (p := view.base + size - 1) (by omega) (by omega)
    have hbelow := (h.proper v (hchain v hv)).below
    show view.base + size ≤ spaceEnd
    omega
  mapped page hlo hhi := by
    have hhi : page < (view.base + size) / pageSize := hhi
    obtain ⟨b, hb⟩ := h.base_dvd hhost hview
    obtain ⟨k, hk⟩ := hsize
    have hlo' : view.base ≤ page * pageSize := by
      rw [hb] at hlo ⊢
      unfold pageSize at *
      omega
    have hhi' : page * pageSize < view.base + size := by
      rw [hb, hk] at hhi ⊢
      unfold pageSize at *
      omega
    obtain ⟨v, hv, hvlo, hvhi⟩ := hcovers.exists_mem hlo' hhi'
    have hvstop := h.stop_dvd hhost (hchain v hv)
    apply (h.proper v (hchain v hv)).mapped page
    · apply Nat.div_le_of_le_mul
      rw [Nat.mul_comm]
      exact hvlo
    obtain ⟨e, he⟩ := hvstop
    rw [he] at hvhi ⊢
    unfold pageSize at *
    omega
  valloc := (h.proper view hview).valloc

lemma coalescePlaceholders_success (hhost : pageSize ∣ host)
    (hview : view ∈ s.viewsTree) (hsize : pageSize ∣ size)
    (hcoalescable : Coalescable s view.base (view.base + size)) :
    ∃ s', s.coalescePlaceholders view view.base size = some (s', .success) ∧ Valid host s' ∧
      view.isFreePlaceholder = true ∧ s'.vprot = s.vprot ∧
      ∀ v, v ∈ s'.viewsTree ↔ v = ⟨view.base, size, view.protect⟩ ∨
        (v ∈ s.viewsTree ∧ ¬(view.base ≤ v.base ∧ v.base < view.base + size)) := by
  obtain ⟨chain, htwo, hall, hcovers⟩ := hcoalescable
  have hchain : ∀ v ∈ chain, v ∈ s.viewsTree := fun v hv => (hall v hv).1
  have hmem := mem_chain_iff h hchain hcovers
  have hpositive : ∀ v ∈ chain, 0 < v.size := fun v hv => (h.proper v (hchain v hv)).pos
  have hne : chain ≠ [] := by
    rintro rfl
    exact absurd htwo (by decide)
  obtain ⟨rest, hfrom, hbehind⟩ := exists_filter_base h hview
  have hapart : Apart FileView.base FileView.stop (view :: rest) :=
    hfrom ▸ h.apart.sublist filter_sublist
  have hrun : chain <+: view :: rest := by
    apply Covers.isPrefix hapart hcovers
    intro v hv
    rw [← hfrom]
    exact mem_filter.mpr ⟨hchain v hv, decide_eq_true ((hmem v).mp hv).2.1⟩
  have hwalk : coalesceWalk size (view :: rest) 0 0 = (0 + chain.length, size) :=
    coalesceWalk_of_chain hpositive hne hrun (fun v hv => (hall v hv).2) hcovers (Nat.zero_add size)
  -- the chain is the view and those that are freed
  obtain ⟨front, rfl⟩ : ∃ front, chain = view :: front := by
    obtain ⟨first, front, rfl⟩ := exists_cons_of_ne_nil hne
    obtain ⟨back, hback⟩ := hrun
    exact ⟨front, congrArg (· :: front) (cons_eq_cons.mp hback).1⟩
  obtain ⟨back, hback⟩ := hrun
  have hback : front ++ back = rest := (cons_eq_cons.mp hback).2
  obtain ⟨s₁, hfreed, hvalid, hmem₁, hvprot, htables⟩ := freeNext_spec h (hbehind.trans hback.symm)
  have hpos : 0 < size := by
    have hlt := (h.proper view hview).pos
    have hle := (hcovers.hi_le fun v hv => h.apart.nonempty v (hchain v hv)).2 view mem_cons_self
    have hle : view.base + view.size ≤ view.base + size := hle
    omega
  have hmerged := merged_proper h hhost hview hsize hpos hchain hcovers
  have hleft : ∀ v, v ∈ (s₁.unregisterView view).viewsTree ↔
      v ∈ s.viewsTree ∧ ¬(view.base ≤ v.base ∧ v.base < view.base + size) := by
    intro v
    have hiff := hmem v
    rw [mem_cons] at hiff
    rw [mem_unregisterView hvalid, hmem₁ v]
    tauto
  have hbeside : ∀ v ∈ (s₁.unregisterView view).viewsTree,
      Beside ⟨view.base, size, view.protect⟩ v := by
    intro v hv
    obtain ⟨hv, hout⟩ := (hleft v).mp hv
    have hlt := h.apart.nonempty view hview
    obtain hlt' | hge := lt_or_ge v.base view.base
    · right
      refine (h.apart.beside hview hv ?_).resolve_left fun hle => by omega
      rintro rfl
      exact absurd hlt' (lt_irrefl _)
    · left
      show view.base + size ≤ v.base
      omega
  refine ⟨(s₁.unregisterView view).registerView ⟨view.base, size, view.protect⟩, ?_, ?_,
    (hall view mem_cons_self).2, ?_, fun v => ?_⟩
  · have hwalked : ¬((0 + (view :: front).length < 2) ∨ size ≠ size) := by
      rw [length_cons] at htwo ⊢
      omega
    rw [coalescePlaceholders, if_neg (ne_of_gt hpos), if_neg (not_not.mpr rfl), hfrom, hwalk]
    rw [if_neg hwalked, show 0 + (view :: front).length - 1 = front.length by simp, hfreed]
  · exact (hvalid.unregisterView view).registerView (htables ▸ hmerged) hbeside
  · rw [registerView_vprot]
    exact hvprot
  · rw [mem_registerView (hvalid.unregisterView view) hpos hbeside, hleft v]

lemma coalescePlaceholders_refused (hview : view ∈ s.viewsTree)
    (hrefused : ¬Coalescable s base (base + size)) :
    ∃ status, status ≠ .success ∧ s.coalescePlaceholders view base size = some (s, status) := by
  rw [coalescePlaceholders]
  split
  · exact ⟨.invalidParameter3, nofun, rfl⟩
  split
  · exact ⟨.conflictingAddresses, nofun, rfl⟩
  next hbase =>
    obtain ⟨rest, hfrom, _⟩ := exists_filter_base h hview
    obtain ⟨chain, n, hrun, hall, hwalk, hcovers⟩ := coalesceWalk_chain size (view :: rest) 0 0
    rw [hfrom, hwalk]
    dsimp only
    rw [if_pos]
    · exact ⟨.conflictingAddresses, nofun, rfl⟩
    by_contra hwalked
    rw [not_or, not_lt, not_not] at hwalked
    apply hrefused
    refine ⟨chain, by omega, fun v hv => ⟨?_, hall v hv⟩, ?_⟩
    · have hmem := hrun.subset hv
      rw [← hfrom] at hmem
      exact (mem_filter.mp hmem).1
    rw [hwalked.2, Nat.zero_add]
    apply hcovers base
    intro v hv
    rw [← Option.some.inj hv]
    exact (not_not.mp hbase).symm

end

end free

end WineForge.Views
