import Mathlib.Algebra.Order.Ring.Int

/-!
# Linked lists through a table

A list of the cells of a table that is threaded through the cells themselves: each one holds the
next, and the last one holds `nil`.
-/

namespace WineForge.Library

open Function List

variable {ι : Type*}

/-- The cells from `head` on are those of the list. -/
def Threaded (nil : ι) (link : ι → ι) : ι → List ι → Prop
  | head, [] => head = nil
  | head, i :: rest => head = i ∧ i ≠ nil ∧ Threaded nil link (link i) rest

variable {nil head : ι} {link link' : ι → ι} {cells : List ι}

lemma Threaded.congr (h : Threaded nil link head cells) (hlink : ∀ i ∈ cells, link' i = link i) :
    Threaded nil link' head cells := by
  induction cells generalizing head with
  | nil => exact h
  | cons i rest ih =>
    obtain ⟨hhead, hne, hrest⟩ := h
    refine ⟨hhead, hne, ?_⟩
    rw [hlink i mem_cons_self]
    exact ih hrest fun j hj => hlink j (mem_cons_of_mem i hj)

lemma Threaded.eq_nil (h : Threaded nil link nil cells) : cells = [] := by
  cases cells with
  | nil => rfl
  | cons i rest => exact absurd h.1.symm h.2.1

lemma Threaded.pop (h : Threaded nil link head cells) (hhead : head ≠ nil) :
    ∃ rest, cells = head :: rest ∧ Threaded nil link (link head) rest := by
  cases cells with
  | nil => exact absurd h hhead
  | cons i rest =>
    obtain ⟨rfl, _, hrest⟩ := h
    exact ⟨rest, rfl, hrest⟩

lemma Threaded.push [DecidableEq ι] {i : ι} (h : Threaded nil link head cells) (hi : i ∉ cells)
    (hne : i ≠ nil) : Threaded nil (update link i head) i (i :: cells) := by
  refine ⟨rfl, hne, ?_⟩
  rw [update_self]
  apply h.congr
  intro j hj
  refine update_of_ne ?_ _ _
  rintro rfl
  exact hi hj

lemma Threaded.append {i last : ι} (h : Threaded nil link head (cells ++ [last]))
    (hsame : ∀ j ∈ cells, link' j = link j) (hlast : link' last = i) (hend : link' i = nil)
    (hne : i ≠ nil) : Threaded nil link' head (cells ++ [last] ++ [i]) := by
  induction cells generalizing head with
  | nil =>
    obtain ⟨hhead, hlastne, _⟩ := h
    exact ⟨hhead, hlastne, hlast, hne, hlast.symm ▸ hend⟩
  | cons j rest ih =>
    obtain ⟨hhead, hjne, hrest⟩ := h
    refine ⟨hhead, hjne, ?_⟩
    rw [hsame j mem_cons_self]
    exact ih hrest fun k hk => hsame k (mem_cons_of_mem j hk)

end WineForge.Library
