import Mathlib.Data.List.GetD
import Mathlib.Tactic.Ring
import Mathlib.Algebra.Order.Ring.Int

/-!
# Byte memory

Memory is a byte for every address. `Holds mem a bs` says that the bytes `bs` stand at address
`a`. It splits over concatenation, so a record that is laid out as a concatenation of its fields
is read back field by field.
-/

namespace WineForge.Library

open List

abbrev ByteMemory := Nat → UInt8

namespace ByteMemory

/-- The `n` bytes from address `a` on. -/
def fetch (mem : ByteMemory) (a n : Nat) : List UInt8 :=
  (List.range n).map fun i => mem (a + i)

/-- The little-endian number in the `w` bytes from address `a` on. -/
def readLE (mem : ByteMemory) (a : Nat) : Nat → Nat
  | 0 => 0
  | w + 1 => (mem a).toNat + 256 * readLE mem (a + 1) w

/-- The `w` little-endian bytes of `n`. -/
def leBytes : Nat → Nat → List UInt8
  | 0, _ => []
  | w + 1, n => UInt8.ofNat n :: leBytes w (n / 256)

/-- The memory that starts with `bs`. -/
def ofList (bs : List UInt8) : ByteMemory := fun a => bs.getD a 0

/-- The bytes `bs` stand at address `a`. -/
def Holds (mem : ByteMemory) : Nat → List UInt8 → Prop
  | _, [] => True
  | a, b :: bs => mem a = b ∧ Holds mem (a + 1) bs

/-- The bytes `bs` are written to address `a`. -/
def store (mem : ByteMemory) (a : Nat) (bs : List UInt8) : ByteMemory := fun i =>
  if a ≤ i ∧ i < a + bs.length then bs.getD (i - a) 0 else mem i

variable {mem : ByteMemory} {a : Nat}

@[simp] lemma length_fetch (n : Nat) : (mem.fetch a n).length = n := by
  simp [fetch]

@[simp] lemma length_leBytes (w n : Nat) : (leBytes w n).length = w := by
  induction w generalizing n with
  | zero => rfl
  | succ w ih => simp [leBytes, ih]

lemma fetch_succ (n : Nat) : mem.fetch a (n + 1) = mem a :: mem.fetch (a + 1) n := by
  unfold fetch
  rw [range_succ_eq_map]
  simp [add_assoc, add_comm 1]

@[simp] lemma holds_nil : Holds mem a [] := trivial

variable {bs : List UInt8} {i b : Nat}

lemma holds_cons {b : UInt8} : Holds mem a (b :: bs) ↔ mem a = b ∧ Holds mem (a + 1) bs := Iff.rfl

lemma holds_append {xs ys : List UInt8} :
    Holds mem a (xs ++ ys) ↔ Holds mem a xs ∧ Holds mem (a + xs.length) ys := by
  induction xs generalizing a with
  | nil => simp
  | cons x xs ih =>
    have hlen : a + (x :: xs).length = a + 1 + xs.length := by simp; omega
    rw [cons_append, holds_cons, holds_cons, ih, hlen, and_assoc]

lemma Holds.fetch (h : Holds mem a bs) : mem.fetch a bs.length = bs := by
  induction bs generalizing a with
  | nil => rfl
  | cons b bs ih =>
    rw [length_cons, fetch_succ, h.1, ih h.2]

lemma Holds.readLE {w n : Nat} (h : Holds mem a (leBytes w n)) (hn : n < 256 ^ w) :
    mem.readLE a w = n := by
  induction w generalizing a n with
  | zero =>
    have hn' : n = 0 := by simpa using hn
    simp [ByteMemory.readLE, hn']
  | succ w ih =>
    have hdiv : n / 256 < 256 ^ w := by
      rw [Nat.div_lt_iff_lt_mul (by norm_num)]
      rwa [pow_succ] at hn
    rw [ByteMemory.readLE, h.1, ih h.2 hdiv]
    have hbyte : (UInt8.ofNat n).toNat = n % 256 := by simp
    rw [hbyte]
    omega

lemma holds_of_getD (h : ∀ i < bs.length, mem (a + i) = bs.getD i 0) : Holds mem a bs := by
  induction bs generalizing a with
  | nil => trivial
  | cons b bs ih =>
    have hb : mem a = b := by simpa using h 0 (by simp)
    refine ⟨hb, ih fun i hi => ?_⟩
    have hstep := h (i + 1) (by simpa using hi)
    simpa [add_assoc, add_comm 1] using hstep

lemma holds_ofList (bs : List UInt8) : Holds (ofList bs) 0 bs := by
  apply holds_of_getD
  intro i _
  simp [ofList]

lemma holds_fetch (n : Nat) : Holds mem a (mem.fetch a n) := by
  induction n generalizing a with
  | zero => trivial
  | succ n ih =>
    rw [fetch_succ]
    exact ⟨rfl, ih⟩

lemma fetch_eq_iff : mem.fetch a bs.length = bs ↔ Holds mem a bs := by
  constructor
  · intro h
    rw [← h]
    exact holds_fetch bs.length
  · exact Holds.fetch

lemma store_of_outside (h : i < a ∨ a + bs.length ≤ i) : mem.store a bs i = mem i := by
  unfold store
  rw [if_neg (by omega)]

lemma holds_store (mem : ByteMemory) (a : Nat) (bs : List UInt8) : Holds (mem.store a bs) a bs := by
  apply holds_of_getD
  intro i hi
  unfold store
  rw [if_pos (by omega), Nat.add_sub_cancel_left]

lemma store_store {xs ys : List UInt8} (hb : b = a + xs.length) :
    (mem.store a xs).store b ys = mem.store a (xs ++ ys) := by
  funext i
  unfold store
  rw [length_append]
  by_cases hxs : i < a + xs.length
  · rw [if_neg (by omega)]
    by_cases hi : a ≤ i
    · rw [if_pos (by omega), if_pos (by omega), getD_append _ _ _ _ (by omega)]
    · rw [if_neg (by omega), if_neg (by omega)]
  by_cases hys : i < b + ys.length
  · rw [if_pos (by omega), if_pos (by omega), getD_append_right _ _ _ _ (by omega)]
    congr 1
    omega
  · rw [if_neg (by omega), if_neg (by omega), if_neg (by omega)]

/-- Two memories have the same `n` bytes from address `a` on. -/
def Agree (mem mem' : ByteMemory) (a n : Nat) : Prop :=
  ∀ i, a ≤ i → i < a + n → mem' i = mem i

variable {mem' : ByteMemory} {n : Nat}

lemma Agree.mono {m : Nat} (h : Agree mem mem' a n) (hstart : a ≤ b) (hstop : b + m ≤ a + n) :
    Agree mem mem' b m := by
  intro i hle hlt
  exact h i (by omega) (by omega)

lemma Agree.holds (h : Agree mem mem' a bs.length) (hbs : Holds mem a bs) : Holds mem' a bs := by
  induction bs generalizing a with
  | nil => trivial
  | cons b bs ih =>
    rw [length_cons] at h
    exact ⟨(h a le_rfl (by omega)).trans hbs.1, ih (h.mono (by omega) (by omega)) hbs.2⟩

lemma Holds.store {cs : List UInt8} (h : Holds mem a bs)
    (hbeside : a + bs.length ≤ b ∨ b + cs.length ≤ a) : Holds (mem.store b cs) a bs := by
  apply Agree.holds _ h
  intro i hle hlt
  exact store_of_outside (by omega)

lemma readLE_lt (w : Nat) : mem.readLE a w < 256 ^ w := by
  induction w generalizing a with
  | zero => simp [ByteMemory.readLE]
  | succ w ih =>
    have hbyte := (mem a).toNat_lt
    have hrest := @ih (a + 1)
    rw [ByteMemory.readLE, pow_succ]
    omega

lemma Agree.readLE (h : Agree mem mem' a n) : mem'.readLE a n = mem.readLE a n := by
  induction n generalizing a with
  | zero => rfl
  | succ n ih =>
    have hrest : Agree mem mem' (a + 1) n := h.mono (by omega) (by omega)
    rw [ByteMemory.readLE, ByteMemory.readLE, h a le_rfl (by omega), ih hrest]

lemma Agree.fetch (h : Agree mem mem' a n) : mem'.fetch a n = mem.fetch a n := by
  apply map_congr_left
  intro i hi
  rw [mem_range] at hi
  exact h (a + i) (by omega) (by omega)

lemma ofList_fetch (hi : i < n) : ofList (mem.fetch a n) i = mem (a + i) := by
  simp [ofList, ByteMemory.fetch, getD_eq_getElem?_getD, hi]

lemma readLE_ofList_fetch {w : Nat} (h : i + w ≤ n) :
    (ofList (mem.fetch a n)).readLE i w = mem.readLE (a + i) w := by
  induction w generalizing i with
  | zero => rfl
  | succ w ih =>
    rw [ByteMemory.readLE, ByteMemory.readLE, ofList_fetch (by omega), ih (by omega),
      add_assoc a i 1]

end ByteMemory

end WineForge.Library
