import WineForge.Library.SortedInsert
import Mathlib.Data.Set.Lattice

/-!
# Blocks that do not meet

A list of blocks with a lower and an upper end each, in order and without common points. A chain
is a list of blocks in which each begins where the one before it ends.
-/

namespace WineForge.Library

open List

variable {α κ : Type*} [LinearOrder κ] {lo hi : α → κ} {xs : List α} {x y : α}

/-- No block is empty, and each ends before the next begins. -/
structure Apart (lo hi : α → κ) (xs : List α) : Prop where
  nonempty : ∀ x ∈ xs, lo x < hi x
  ordered : xs.Pairwise fun x y => hi x ≤ lo y

lemma Apart.sublist {ys : List α} (h : Apart lo hi ys) (hsub : xs.Sublist ys) : Apart lo hi xs where
  nonempty x hx := h.nonempty x (hsub.subset hx)
  ordered := h.ordered.sublist hsub

lemma Apart.behind (h : Apart lo hi (x :: xs)) (hy : y ∈ xs) : hi x ≤ lo y :=
  (pairwise_cons.mp h.ordered).1 y hy

lemma Apart.tail (h : Apart lo hi (x :: xs)) : Apart lo hi xs :=
  h.sublist (sublist_cons_self x xs)

lemma Apart.map {f : α → α} (h : Apart lo hi xs) (hlo : ∀ x, lo (f x) = lo x)
    (hhi : ∀ x, hi (f x) = hi x) : Apart lo hi (xs.map f) where
  nonempty y hy := by
    obtain ⟨x, hx, rfl⟩ := mem_map.mp hy
    rw [hlo, hhi]
    exact h.nonempty x hx
  ordered := by
    rw [pairwise_map]
    refine h.ordered.imp fun {x y} hle => ?_
    rw [hlo, hhi]
    exact hle

lemma Apart.eq_of_meet (h : Apart lo hi xs) (hx : x ∈ xs) (hy : y ∈ xs) {p : κ}
    (hxp : lo x ≤ p ∧ p < hi x) (hyp : lo y ≤ p ∧ p < hi y) : x = y := by
  induction xs with
  | nil => exact absurd hx not_mem_nil
  | cons z xs ih =>
    obtain rfl | hxmem := mem_cons.mp hx
    · obtain rfl | hymem := mem_cons.mp hy
      · rfl
      · exact absurd (hxp.2.trans_le ((h.behind hymem).trans hyp.1)) (lt_irrefl p)
    · obtain rfl | hymem := mem_cons.mp hy
      · exact absurd (hyp.2.trans_le ((h.behind hxmem).trans hxp.1)) (lt_irrefl p)
      · exact ih h.tail hxmem hymem

lemma Apart.eq_of_lo (h : Apart lo hi xs) (hx : x ∈ xs) (hy : y ∈ xs) (heq : lo x = lo y) : x = y :=
  h.eq_of_meet hx hy ⟨le_refl (lo x), h.nonempty x hx⟩ ⟨heq.ge, heq.trans_lt (h.nonempty y hy)⟩

lemma Apart.beside (h : Apart lo hi xs) (hx : x ∈ xs) (hy : y ∈ xs) (hne : x ≠ y) :
    hi x ≤ lo y ∨ hi y ≤ lo x := by
  obtain hle | hle := le_total (lo x) (lo y)
  · left
    by_contra hlt
    exact hne (h.eq_of_meet hx hy ⟨hle, not_le.mp hlt⟩ ⟨le_refl (lo y), h.nonempty y hy⟩)
  · right
    by_contra hlt
    exact hne (h.eq_of_meet hx hy ⟨le_refl (lo x), h.nonempty x hx⟩ ⟨hle, not_le.mp hlt⟩)

lemma Apart.nodup (h : Apart lo hi xs) : xs.Nodup := by
  refine List.Pairwise.imp_of_mem (fun {x y} hx _ hle => ?_) h.ordered
  rintro rfl
  exact absurd (h.nonempty x hx) (not_lt.mpr hle)

lemma Apart.insertBefore (h : Apart lo hi xs) (hx : lo x < hi x)
    (hapart : ∀ y ∈ xs, hi x ≤ lo y ∨ hi y ≤ lo x) :
    Apart lo hi (insertBefore (fun y => decide (lo x < lo y)) x xs) := by
  refine ⟨fun y hy => ?_, ?_⟩
  · obtain rfl | hmem := mem_insertBefore.mp hy
    · exact hx
    · exact h.nonempty y hmem
  induction xs with
  | nil => exact pairwise_singleton _ x
  | cons y ys ih =>
    have hy := h.nonempty y mem_cons_self
    rw [Library.insertBefore]
    split
    next hlt =>
      have hlt := of_decide_eq_true hlt
      have hle : hi x ≤ lo y := (hapart y mem_cons_self).resolve_right
        fun hle => absurd (hlt.trans hy) (not_lt.mpr hle)
      refine pairwise_cons.mpr ⟨fun z hz => ?_, h.ordered⟩
      obtain rfl | hz := mem_cons.mp hz
      · exact hle
      · exact hle.trans (hy.le.trans (h.behind hz))
    next hlt =>
      have hge : lo y ≤ lo x := not_lt.mp fun hlt' => hlt (decide_eq_true hlt')
      have hle : hi y ≤ lo x := (hapart y mem_cons_self).resolve_left
        fun hle => absurd (hx.trans_le hle) (not_lt.mpr hge)
      have hrest := ih h.tail fun z hz => hapart z (mem_cons_of_mem y hz)
      refine pairwise_cons.mpr ⟨fun z hz => ?_, hrest⟩
      obtain rfl | hz := mem_insertBefore.mp hz
      · exact hle
      · exact h.behind hz

/-- Each block begins where the one before it ends, from `start` to `stop`. -/
def Covers (lo hi : α → κ) : κ → κ → List α → Prop
  | start, stop, [] => start = stop
  | start, stop, x :: xs => lo x = start ∧ Covers lo hi (hi x) stop xs

variable {start stop : κ} {chain : List α}

lemma Covers.lo_ge (h : Covers lo hi start stop chain)
    (hne : ∀ x ∈ chain, lo x < hi x) : ∀ x ∈ chain, start ≤ lo x := by
  induction chain generalizing start with
  | nil => exact nofun
  | cons x chain ih =>
    rw [forall_mem_cons] at hne ⊢
    refine ⟨h.1.ge, fun y hy => ?_⟩
    exact h.1.ge.trans (hne.1.le.trans (ih h.2 hne.2 y hy))

lemma Covers.hi_le (h : Covers lo hi start stop chain)
    (hne : ∀ x ∈ chain, lo x < hi x) : start ≤ stop ∧ ∀ x ∈ chain, hi x ≤ stop := by
  induction chain generalizing start with
  | nil => exact ⟨h.le, nofun⟩
  | cons x chain ih =>
    rw [forall_mem_cons] at hne ⊢
    obtain ⟨hle, hrest⟩ := ih h.2 hne.2
    exact ⟨h.1.ge.trans (hne.1.le.trans hle), hle, hrest⟩

lemma Covers.exists_mem {p : κ} (h : Covers lo hi start stop chain)
    (hstart : start ≤ p) (hstop : p < stop) : ∃ x ∈ chain, lo x ≤ p ∧ p < hi x := by
  induction chain generalizing start with
  | nil => exact absurd (hstart.trans_lt hstop) (not_lt.mpr (h : start = stop).ge)
  | cons x chain ih =>
    obtain hlt | hle := lt_or_ge p (hi x)
    · exact ⟨x, mem_cons_self, h.1.le.trans hstart, hlt⟩
    · obtain ⟨y, hy, hin⟩ := ih h.2 hle
      exact ⟨y, mem_cons_of_mem x hy, hin⟩

lemma Covers.isPrefix (h : Apart lo hi (x :: xs))
    (hchain : Covers lo hi (lo x) stop chain) (hmem : ∀ y ∈ chain, y ∈ x :: xs) :
    chain <+: x :: xs := by
  induction xs generalizing x chain with
  | nil =>
    match chain with
    | [] => exact nil_prefix
    | [c] =>
      have hc := mem_singleton.mp (hmem c mem_cons_self)
      subst hc
      exact prefix_refl [c]
    | c :: d :: chain =>
      have hc := mem_singleton.mp (hmem c mem_cons_self)
      have hd := mem_singleton.mp (hmem d (by simp))
      have hlt := h.nonempty x mem_cons_self
      have hlo := hchain.2.1
      rw [hc, hd] at hlo
      exact absurd hlt (not_lt.mpr hlo.ge)
  | cons y xs ih =>
    match chain with
    | [] => exact nil_prefix
    | c :: chain =>
      rw [forall_mem_cons] at hmem
      obtain rfl := h.eq_of_lo hmem.1 mem_cons_self hchain.1
      rw [prefix_cons_inj]
      have hlt := h.nonempty c mem_cons_self
      have hge := hchain.2.lo_ge fun z hz => h.nonempty z (hmem.2 z hz)
      have hrest : ∀ z ∈ chain, z ∈ y :: xs := by
        intro z hz
        refine (mem_cons.mp (hmem.2 z hz)).resolve_left ?_
        rintro rfl
        exact absurd hlt (not_lt.mpr (hge z hz))
      cases chain with
      | nil => exact nil_prefix
      | cons d chain =>
        have hlo : lo y = hi c := by
          obtain rfl | hd := mem_cons.mp (hrest d mem_cons_self)
          · exact hchain.2.1
          · have hle := (h.tail.nonempty y mem_cons_self).le.trans (h.tail.behind hd)
            rw [hchain.2.1] at hle
            exact le_antisymm hle (h.behind mem_cons_self)
        exact ih h.tail (hlo ▸ hchain.2) hrest

/-!
## What blocks cover

The points that lie in one of the blocks of a list, each of which has a lower and an upper end.
-/

variable {α κ : Type*} [LinearOrder κ] {lo hi : α → κ} {x : α} {xs ys : List α} {p : κ}

def covered (lo hi : α → κ) (xs : List α) : Set κ := {p | ∃ x ∈ xs, lo x ≤ p ∧ p < hi x}

@[simp] lemma covered_nil : covered lo hi ([] : List α) = ∅ := by
  ext p
  simp [covered]

@[simp] lemma mem_covered_cons :
    p ∈ covered lo hi (x :: xs) ↔ (lo x ≤ p ∧ p < hi x) ∨ p ∈ covered lo hi xs := by
  simp [covered]

@[simp] lemma mem_covered_append :
    p ∈ covered lo hi (xs ++ ys) ↔ p ∈ covered lo hi xs ∨ p ∈ covered lo hi ys := by
  simp only [covered, mem_append, Set.mem_setOf_eq, or_and_right, exists_or]

lemma covered_perm (h : xs.Perm ys) : covered lo hi xs = covered lo hi ys := by
  ext p
  simp only [covered, Set.mem_setOf_eq, h.mem_iff]

lemma covered_above {b : κ} (h : ∀ x ∈ xs, b < lo x) (hp : p ∈ covered lo hi xs) : b < p := by
  obtain ⟨x, hx, hle, _⟩ := hp
  exact (h x hx).trans_le hle

/-- From `p` on all points up to `p + n` are in the set or all are outside of it, and this ends
there or at `limit`. -/
structure MaximalRun (s : Set ℕ) (p limit : ℕ) (inside : Bool) (n : ℕ) : Prop where
  pos : 0 < n
  within : p + n ≤ limit
  constant : ∀ q, p ≤ q → q < p + n → (q ∈ s ↔ inside = true)
  ends : p + n < limit → (p + n ∈ s ↔ inside = false)

end WineForge.Library
