import WineForge.Views.State

/-!
# The size of a range of equal protection

The protection bytes lie in tables of the second level. `get_vprot_range_size` compares eight of
them at a time. A call has no result where it reads or writes a byte outside the tables that there
are. A range of pages lies in the user space, so that sums of addresses do not wrap.
-/

namespace WineForge.Views.Tables

open Option

/-- `pages_vprot_mask + 1` -/
def tableSize : ℕ := 2 ^ 20

abbrev PagesVprot := ℕ → Option (ℕ → BitVec 8)

/-- A pointer into a table of the second level. -/
structure Pointer where
  table : ℕ
  offset : ℕ

def pageOf (idx : ℕ) : Pointer := ⟨idx / tableSize, idx % tableSize⟩

def Pointer.add (ptr : Pointer) (n : ℕ) : Pointer := ⟨ptr.table, ptr.offset + n⟩

section Words

/-- The bytes in memory as a number. -/
def wordOf : (n : ℕ) → (ℕ → BitVec 8) → BitVec (8 * n)
  | 0, _ => 0#0
  | n + 1, f => wordOf n (fun i => f (i + 1)) ++ f 0

def wordFromByte (byte : BitVec 8) : BitVec 64 := 0x101010101010101 * byte.setWidth 64

lemma wordFromByte_eq : ∀ byte : BitVec 8, wordFromByte byte = wordOf 8 fun _ => byte := by
  decide +kernel

lemma append_eq_zero {v w : ℕ} (x : BitVec v) (y : BitVec w) :
    x ++ y = 0#(v + w) ↔ x = 0#v ∧ y = 0#w := by
  simp [← BitVec.toNat_inj, BitVec.toNat_append, Nat.or_eq_zero_iff, Nat.shiftLeft_eq_zero_iff]

variable (byte mask : BitVec 8)

lemma wordOf_agrees (n : ℕ) (f : ℕ → BitVec 8) :
    (wordOf n (fun _ => byte) ^^^ wordOf n f) &&& wordOf n (fun _ => mask) = 0#(8 * n) ↔
      ∀ i < n, (byte ^^^ f i) &&& mask = 0 := by
  induction n generalizing f with
  | zero => simp [wordOf]
  | succ n ih =>
    change ((wordOf n fun _ => byte) ++ byte ^^^ (wordOf n fun i => f (i + 1)) ++ f 0) &&&
      (wordOf n fun _ => mask) ++ mask = 0#(8 * n + 8) ↔ _
    rw [BitVec.xor_append, BitVec.and_append, append_eq_zero, ih, Nat.forall_lt_succ_left,
      and_comm]
    rfl

/-- A word differs under the mask exactly if one of its bytes does. -/
lemma word_agrees (f : ℕ → BitVec 8) :
    (wordFromByte byte ^^^ wordOf 8 f) &&& wordFromByte mask = 0#64 ↔
      ∀ i < 8, (byte ^^^ f i) &&& mask = 0 := by
  rw [wordFromByte_eq, wordFromByte_eq]
  exact wordOf_agrees byte mask 8 f

end Words

variable (pages : PagesVprot)

def readByte (ptr : Pointer) : Option (BitVec 8) :=
  if ptr.offset < tableSize then (pages ptr.table).map fun bytes => bytes ptr.offset else none

def readWord (ptr : Pointer) : Option (BitVec 64) :=
  if ptr.offset + 8 ≤ tableSize then
    (pages ptr.table).map fun bytes => wordOf 8 fun i => bytes (ptr.offset + i)
  else none

/-- The loop over bytes, and where it stops. -/
def byteLoop (vprot mask : BitVec 8) (idx stop : ℕ) (ptr : Pointer) : Option (ℕ × Pointer) :=
  if idx < stop then do
    let byte ← readByte pages ptr
    if (vprot ^^^ byte) &&& mask ≠ 0 then some (idx, ptr)
    else byteLoop vprot mask (idx + 1) stop (ptr.add 1)
  else some (idx, ptr)
termination_by stop - idx

def wordLoop (vprot mask : BitVec 8) (start size idx stop : ℕ) (ptr : Pointer) : Option ℕ :=
  if idx < stop then do
    let ptr := if idx % tableSize = 0 then ⟨idx / tableSize, 0⟩ else ptr
    let word ← readWord pages ptr
    if (wordFromByte vprot ^^^ word) &&& wordFromByte mask ≠ 0 then
      let (idx, _) ← byteLoop pages vprot mask idx stop ptr
      some ((idx - start) * pageSize)
    else wordLoop vprot mask start size (idx + 8) stop (ptr.add 8)
  else some size
termination_by stop - idx

def getVprotRangeSize (base size : ℕ) (mask : BitVec 8) : Option (ℕ × BitVec 8) := do
  let start := base / pageSize
  let stop := start + size / pageSize
  let alignedStart := min ((start + 7) / 8 * 8) stop
  let vprot ← readByte pages (pageOf start)
  let (idx, ptr) ← byteLoop pages vprot mask start alignedStart (pageOf start)
  if idx < alignedStart then some ((idx - start) * pageSize, vprot)
  else
    let range ← wordLoop pages vprot mask start size idx stop ptr
    some (range, vprot)

def memset (ptr : Pointer) (byte : BitVec 8) (n : ℕ) : Option PagesVprot :=
  if n = 0 then some pages
  else if ptr.offset + n ≤ tableSize then
    (pages ptr.table).map fun bytes => Function.update pages ptr.table <| some fun i =>
      if ptr.offset ≤ i ∧ i < ptr.offset + n then byte else bytes i
  else none

/-- The loop of `set_page_vprot`; `idx` is not behind `stop`. -/
def setLoop (pages : PagesVprot) (byte : BitVec 8) (idx stop : ℕ) : Option PagesVprot :=
  if idx / tableSize < stop / tableSize then do
    let dirSize := tableSize - idx % tableSize
    setLoop (← memset pages (pageOf idx) byte dirSize) byte (idx + dirSize) stop
  else memset pages (pageOf idx) byte (stop - idx)
termination_by stop - idx
decreasing_by
  have := Nat.mod_lt idx (show 0 < tableSize by decide)
  have := Nat.div_mul_le_self stop tableSize
  have := Nat.lt_of_div_lt_div ‹_›
  omega

def setPageVprot (addr size : ℕ) (byte : BitVec 8) : Option PagesVprot :=
  setLoop pages byte (addr / pageSize) ((addr + size + (pageSize - 1)) / pageSize)

def setBits (set clear : BitVec 8) (pages : PagesVprot) (idx : ℕ) : Option PagesVprot := do
  let byte ← readByte pages (pageOf idx)
  memset pages (pageOf idx) (byte &&& ~~~clear ||| set) 1

def setPageVprotBits (addr size : ℕ) (set clear : BitVec 8) : Option PagesVprot :=
  let idx := addr / pageSize
  (List.range' idx ((addr + size + (pageSize - 1)) / pageSize - idx)).foldlM (setBits set clear)
    pages

inductive Write
  | pageVprot (addr size : ℕ) (byte : BitVec 8)
  | pageVprotBits (addr size : ℕ) (set clear : BitVec 8)

namespace Write

def run (pages : PagesVprot) : Write → Option PagesVprot
  | pageVprot addr size byte => setPageVprot pages addr size byte
  | pageVprotBits addr size set clear => setPageVprotBits pages addr size set clear

/-- The write of the flat table of the model of the views. -/
def flat (vprot : ℕ → ℕ) : Write → ℕ → ℕ
  | pageVprot addr size byte => Views.setPageVprot vprot addr size byte.toNat
  | pageVprotBits addr size set clear => Views.setPageVprotBits vprot addr size set.toNat clear.toNat

def Covers : Write → ℕ → Prop
  | pageVprot addr size _, idx | pageVprotBits addr size _ _, idx =>
    addr / pageSize ≤ idx ∧ idx < (addr + size + (pageSize - 1)) / pageSize

end Write

/-- There is a table for the page. -/
def Allocated (idx : ℕ) : Prop := (pages (idx / tableSize)).isSome = true

def byteAt (idx : ℕ) : BitVec 8 :=
  ((pages (idx / tableSize)).map fun bytes => bytes (idx % tableSize)).getD 0

def bytes (idx : ℕ) : ℕ := (byteAt pages idx).toNat

/-- A scan of the pages from `idx` on stops at `last`. -/
def Scan (agrees : ℕ → Prop) (idx stop last : ℕ) : Prop :=
  idx ≤ last ∧ last ≤ stop ∧ (∀ i, idx ≤ i → i < last → agrees i) ∧ (last < stop → ¬agrees last)

def Agrees (vprot mask : BitVec 8) (idx : ℕ) : Prop :=
  (vprot ^^^ byteAt pages idx) &&& mask = 0

/-- The pointer points to the byte of a page, or behind the last byte of its table. -/
def Points (ptr : Pointer) (idx : ℕ) : Prop :=
  tableSize * ptr.table + ptr.offset = idx ∧ ptr.offset ≤ tableSize

section Scans

variable {pages} {vprot mask : BitVec 8} {start size idx stop : ℕ} {ptr : Pointer}

lemma pageOf_points (idx : ℕ) : Points (pageOf idx) idx :=
  ⟨Nat.div_add_mod idx tableSize, (Nat.mod_lt idx (by decide)).le⟩

lemma Points.eq (h : Points ptr idx) (hlt : ptr.offset < tableSize) :
    ptr.table = idx / tableSize ∧ ptr.offset = idx % tableSize := by
  obtain ⟨rfl, -⟩ := h
  rw [Nat.mul_add_div (by decide), Nat.div_eq_of_lt hlt, Nat.mul_add_mod, Nat.mod_eq_of_lt hlt]
  exact ⟨rfl, rfl⟩

lemma Points.add (h : Points ptr idx) {n : ℕ} (hn : ptr.offset + n ≤ tableSize) :
    Points (ptr.add n) (idx + n) :=
  ⟨(Nat.add_assoc ..).symm.trans (congrArg (· + n) h.1), hn⟩

lemma readByte_eq (h : Points ptr idx) (hlt : ptr.offset < tableSize) (ha : Allocated pages idx) :
    readByte pages ptr = some (byteAt pages idx) := by
  obtain ⟨htable, hoffset⟩ := h.eq hlt
  obtain ⟨bytes, hbytes⟩ := isSome_iff_exists.mp ha
  rw [readByte, if_pos hlt, byteAt, htable, hoffset, hbytes]
  rfl

lemma readWord_eq (h : Points ptr idx) (hlt : ptr.offset + 8 ≤ tableSize)
    (ha : Allocated pages idx) : ∃ f, readWord pages ptr = some (wordOf 8 f) ∧
      ∀ i < 8, f i = byteAt pages (idx + i) := by
  obtain ⟨htable, hoffset⟩ := h.eq (by omega)
  obtain ⟨bytes, hbytes⟩ := isSome_iff_exists.mp ha
  rw [readWord, if_pos hlt, htable, hbytes]
  refine ⟨_, rfl, fun i hi => ?_⟩
  obtain ⟨htable', hoffset'⟩ := (h.add (n := i) (by omega)).eq (show ptr.offset + i < _ by omega)
  rw [byteAt, ← hoffset', ← htable']
  simp only [Pointer.add, htable, hbytes]
  rfl

lemma byteLoop_spec (hptr : Points ptr idx) (hidx : idx ≤ stop)
    (hstop : stop ≤ tableSize * (ptr.table + 1) ∨
      ∃ i, idx ≤ i ∧ i < tableSize * (ptr.table + 1) ∧ ¬Agrees pages vprot mask i)
    (ha : ∀ i, idx ≤ i → i < stop → Allocated pages i) :
    ∃ last ptr', byteLoop pages vprot mask idx stop ptr = some (last, ptr') ∧ Points ptr' last ∧
      Scan (Agrees pages vprot mask) idx stop last := by
  induction hn : stop - idx generalizing idx ptr with
  | zero =>
    rw [byteLoop, if_neg (by omega)]
    exact ⟨idx, ptr, rfl, hptr, le_rfl, hidx, fun i h1 h2 => by omega, fun h => by omega⟩
  | succ n ih =>
    have hlt : ptr.offset < tableSize := by
      have := hptr.1
      rw [Nat.mul_succ] at hstop
      obtain h | ⟨i, h⟩ := hstop <;> omega
    rw [byteLoop, if_pos (by omega), readByte_eq hptr hlt (ha idx le_rfl (by omega))]
    by_cases hagree : Agrees pages vprot mask idx
    · have hrest : stop ≤ tableSize * (ptr.table + 1) ∨
          ∃ i, idx + 1 ≤ i ∧ i < tableSize * (ptr.table + 1) ∧ ¬Agrees pages vprot mask i := by
        obtain h | ⟨i, hi, hlt, hne⟩ := hstop
        · exact .inl h
        · refine .inr ⟨i, lt_of_le_of_ne hi ?_, hlt, hne⟩
          rintro rfl
          exact hne hagree
      obtain ⟨last, ptr', heq, hptr', hle, hlast, hall, hne⟩ := ih (hptr.add hlt)
        (Nat.lt_of_sub_eq_succ hn) hrest (fun i hi => ha i (Nat.le_of_lt hi))
        ((Nat.sub_succ' ..).trans (congrArg Nat.pred hn))
      refine ⟨last, ptr', (if_neg (not_not_intro hagree)).trans heq, hptr', by omega, hlast,
        fun i hi hlt => ?_, hne⟩
      obtain rfl | hi := hi.eq_or_lt
      · exact hagree
      · exact hall i hi hlt
    · exact ⟨idx, ptr, if_pos hagree, hptr, le_rfl, hidx, fun i h1 h2 => by omega,
        fun _ => hagree⟩

lemma wordLoop_spec (hptr : Points ptr idx) (hstart : start ≤ stop)
    (hsize : size = (stop - start) * pageSize) (hidx : idx < stop → start ≤ idx ∧ idx % 8 = 0)
    (hall : ∀ i, start ≤ i → i < idx → i < stop → Agrees pages vprot mask i)
    (ha : ∀ i, start ≤ i → i < stop → Allocated pages i) :
    ∃ last, wordLoop pages vprot mask start size idx stop ptr = some ((last - start) * pageSize) ∧
      Scan (Agrees pages vprot mask) start stop last := by
  induction hn : stop - idx using Nat.strong_induction_on generalizing idx ptr with
  | h n ih =>
    rw [wordLoop]
    by_cases hlt : idx < stop
    · obtain ⟨hle, h8⟩ := hidx hlt
      rw [if_pos hlt]
      generalize hload : (if idx % tableSize = 0 then (⟨idx / tableSize, 0⟩ : Pointer) else ptr) =
        load
      have hpoints : Points load idx ∧ load.offset + 8 ≤ tableSize := by
        subst hload
        split <;> simp only [Points, tableSize] at * <;> omega
      obtain ⟨f, hread, hf⟩ := readWord_eq hpoints.1 hpoints.2 (ha idx hle hlt)
      have hword : (wordFromByte vprot ^^^ wordOf 8 f) &&& wordFromByte mask = 0#64 ↔
          ∀ i < 8, Agrees pages vprot mask (idx + i) := by
        rw [word_agrees]
        exact forall₂_congr fun i hi => by rw [hf i hi]; rfl
      simp only [hread, bind_eq_bind, bind_some]
      split
      · rename_i hdiffer
        obtain ⟨i, hi, hne⟩ : ∃ i < 8, ¬Agrees pages vprot mask (idx + i) := by
          simpa using mt hword.mpr hdiffer
        have hend : idx + i < tableSize * (load.table + 1) := by
          rw [Nat.mul_succ, ← hpoints.1.1]
          omega
        obtain ⟨last, ptr', heq, -, hl, hl', hscan, hne⟩ := byteLoop_spec hpoints.1 hlt.le
          (.inr ⟨idx + i, Nat.le_add_right .., hend, hne⟩) fun j hj => ha j (by omega)
        rw [heq]
        refine ⟨last, rfl, by omega, hl', fun j hj hjl => ?_, hne⟩
        by_cases hji : j < idx
        · exact hall j hj hji (by omega)
        · exact hscan j (by omega) hjl
      · rename_i hsame
        refine ih _ (by omega) (hpoints.1.add hpoints.2) (fun h => ⟨by omega, by omega⟩)
          (fun j hj hj8 hjs => ?_) rfl
        · by_cases hji : j < idx
          · exact hall j hj hji hjs
          · have := hword.mp (not_not.mp hsame) (j - idx) (by omega)
            rwa [Nat.add_sub_cancel' (by omega)] at this
    · rw [if_neg hlt, hsize]
      exact ⟨stop, rfl, hstart, le_rfl, fun i hi his => hall i hi (by omega) his,
        fun h => by omega⟩

/-- The scan by words stops where a scan page by page does. -/
lemma getVprotRangeSize_spec {base : ℕ} (mask : BitVec 8) (hsize : size % pageSize = 0)
    (hfirst : Allocated pages (base / pageSize))
    (ha : ∀ i, base / pageSize ≤ i → i < base / pageSize + size / pageSize →
      Allocated pages i) :
    ∃ last, getVprotRangeSize pages base size mask =
        some ((last - base / pageSize) * pageSize, byteAt pages (base / pageSize)) ∧
      Scan (Agrees pages (byteAt pages (base / pageSize)) mask) (base / pageSize)
        (base / pageSize + size / pageSize) last := by
  rw [getVprotRangeSize]
  have hsize : size = size / pageSize * pageSize := by
    simp only [pageSize] at *
    omega
  generalize base / pageSize = start at *
  generalize size / pageSize = count at *
  have hpoints := pageOf_points start
  have hoff : (pageOf start).offset < tableSize := Nat.mod_lt start (by decide)
  have htable : (start + 7) / 8 * 8 ≤ tableSize * ((pageOf start).table + 1) := by
    simp only [pageOf, tableSize]
    omega
  obtain ⟨last, ptr, heq, hptr, hle, hlast, hscan, hne⟩ :=
    @byteLoop_spec pages (byteAt pages start) mask start
      (min ((start + 7) / 8 * 8) (start + count)) (pageOf start) hpoints (by omega)
      (.inl (by omega)) fun i hi his => ha i hi (by omega)
  simp only [readByte_eq hpoints hoff hfirst, heq, Option.bind_eq_bind, Option.bind_some]
  split
  · rename_i hlt
    exact ⟨last, rfl, hle, by omega, hscan, fun _ => hne hlt⟩
  obtain ⟨last', hword, h⟩ := wordLoop_spec hptr (Nat.le_add_right start count)
    (show size = _ by rw [Nat.add_sub_cancel_left, ← hsize])
    (fun h => ⟨hle, by omega⟩) (fun i hi hil _ => hscan i hi hil) ha
  exact ⟨last', by rw [hword]; rfl, h⟩

end Scans

section Writes

variable {pages} {idx stop : ℕ} {byte : BitVec 8}

/-- The tables stay, and the bytes are those of `content`. -/
def Written (pages pages' : PagesVprot) (content : ℕ → BitVec 8) : Prop :=
  (∀ i, Allocated pages' i ↔ Allocated pages i) ∧ byteAt pages' = content

lemma memset_spec (byte : BitVec 8) {ptr : Pointer} (n : ℕ) (hptr : Points ptr idx)
    (hn : ptr.offset + n ≤ tableSize) (ha : 0 < n → Allocated pages idx) :
    ∃ pages', memset pages ptr byte n = some pages' ∧ Written pages pages' fun i =>
      if idx ≤ i ∧ i < idx + n then byte else byteAt pages i := by
  obtain rfl | hpos := n.eq_zero_or_pos
  · refine ⟨pages, if_pos rfl, fun i => Iff.rfl, funext fun i => ?_⟩
    rw [if_neg (by omega)]
  obtain ⟨htable, hoffset⟩ := hptr.eq (by omega)
  obtain ⟨bytes, hbytes⟩ := isSome_iff_exists.mp (ha hpos)
  rw [memset, if_neg hpos.ne', if_pos hn, htable, hbytes]
  refine ⟨_, rfl, fun i => ?_, funext fun i => ?_⟩
  · by_cases hi : i / tableSize = idx / tableSize <;> simp [Allocated, hi, hbytes]
  have hin : i / tableSize = idx / tableSize →
      (ptr.offset ≤ i % tableSize ∧ i % tableSize < ptr.offset + n ↔
        idx ≤ i ∧ i < idx + n) := by
    simp only [tableSize] at *
    omega
  have hout : idx ≤ i ∧ i < idx + n → i / tableSize = idx / tableSize := by
    simp only [tableSize] at *
    omega
  by_cases hi : i / tableSize = idx / tableSize
  · simp [byteAt, hi, hbytes, hin hi]
  · rw [if_neg (mt hout hi)]
    simp [byteAt, hi]

lemma setLoop_spec (hle : idx ≤ stop) (ha : ∀ i, idx ≤ i → i < stop → Allocated pages i) :
    ∃ pages', setLoop pages byte idx stop = some pages' ∧ Written pages pages' fun i =>
      if idx ≤ i ∧ i < stop then byte else byteAt pages i := by
  induction hn : stop - idx using Nat.strong_induction_on generalizing pages idx with
  | h n ih =>
    rw [setLoop]
    split
    · generalize hsize : tableSize - idx % tableSize = dirSize
      have hrest : 0 < dirSize ∧ idx + dirSize ≤ stop := by
        simp only [tableSize] at *
        omega
      obtain ⟨pages', heq, halloc, hbytes⟩ := memset_spec byte dirSize (pageOf_points idx)
        (hsize ▸ Nat.add_sub_cancel' (Nat.mod_lt idx (by decide)).le).le
        (fun _ => ha idx le_rfl (by omega))
      obtain ⟨written, heq', halloc', hbytes'⟩ := ih (stop - (idx + dirSize)) (by omega) hrest.2
        (fun i hi => (halloc i).mpr ∘ ha i (by omega)) rfl
      refine ⟨written, ?_, fun i => (halloc' i).trans (halloc i), ?_⟩
      · simp only [heq, Option.bind_eq_bind, Option.bind_some]
        exact heq'
      · funext i
        grind
    · obtain ⟨pages', heq, h⟩ := memset_spec byte (stop - idx) (pageOf_points idx)
        (show idx % tableSize + (stop - idx) ≤ tableSize by simp only [tableSize] at *; omega)
        (fun _ => ha idx le_rfl (by omega))
      rw [Nat.add_sub_cancel' hle] at h
      exact ⟨pages', heq, h⟩

variable {set clear : BitVec 8}

lemma setBits_spec {n : ℕ} (ha : ∀ i, idx ≤ i → i < idx + n → Allocated pages i) :
    ∃ pages', (List.range' idx n).foldlM (setBits set clear) pages = some pages' ∧
      Written pages pages' fun i =>
        if idx ≤ i ∧ i < idx + n then byteAt pages i &&& ~~~clear ||| set else byteAt pages i := by
  induction n generalizing pages idx with
  | zero =>
    refine ⟨pages, rfl, fun i => Iff.rfl, funext fun i => ?_⟩
    rw [if_neg (by omega)]
  | succ n ih =>
    have hpage := ha idx le_rfl (by omega)
    have hoff : (pageOf idx).offset < tableSize := Nat.mod_lt idx (by decide)
    obtain ⟨pages', heq, halloc, hbytes⟩ := memset_spec
      (byteAt pages idx &&& ~~~clear ||| set) 1 (pageOf_points idx) hoff fun _ => hpage
    have hrest : ∀ i, idx + 1 ≤ i → i < idx + 1 + n → Allocated pages' i := fun i hi his =>
      (halloc i).mpr (ha i (by omega) (by omega))
    obtain ⟨written, heq', halloc', hbytes'⟩ := ih hrest
    refine ⟨written, ?_, fun i => (halloc' i).trans (halloc i), ?_⟩
    · simp only [List.range'_succ, List.foldlM_cons, setBits,
        readByte_eq (pageOf_points idx) hoff hpage, heq, bind_eq_bind, bind_some]
      exact heq'
    · funext i
      grind

lemma toNat_not_eq : ∀ clear : BitVec 8, (~~~clear).toNat = 0xff ^^^ clear.toNat := by
  decide

lemma Write.run_spec (write : Write) (ha : ∀ i, write.Covers i → Allocated pages i) :
    ∃ pages', write.run pages = some pages' ∧ (∀ i, Allocated pages' i ↔ Allocated pages i) ∧
      bytes pages' = write.flat (bytes pages) := by
  cases write with
  | pageVprot addr size byte =>
    have hle : addr / pageSize ≤ (addr + size + (pageSize - 1)) / pageSize :=
      Nat.div_le_div_right (by omega)
    obtain ⟨pages', heq, halloc, hbytes⟩ := @setLoop_spec pages _ _ byte hle
      fun i hi his => ha i ⟨hi, his⟩
    refine ⟨pages', heq, halloc, funext fun i => ?_⟩
    rw [bytes, hbytes, Write.flat, Views.setPageVprot, Nat.mod_eq_of_lt byte.isLt]
    exact apply_ite ..
  | pageVprotBits addr size set clear =>
    have hle : addr / pageSize ≤ (addr + size + (pageSize - 1)) / pageSize :=
      Nat.div_le_div_right (by omega)
    have hstop := Nat.add_sub_cancel' hle
    obtain ⟨pages', heq, halloc, hbytes⟩ := @setBits_spec pages _ set clear
      ((addr + size + (pageSize - 1)) / pageSize - addr / pageSize)
      fun i hi his => ha i ⟨hi, hstop ▸ his⟩
    refine ⟨pages', heq, halloc, funext fun i => ?_⟩
    rw [bytes, hbytes, Write.flat, Views.setPageVprotBits, hstop, bytes, ← toNat_not_eq,
      ← BitVec.toNat_and, ← BitVec.toNat_or]
    exact apply_ite ..

def runWrites (pages : PagesVprot) (writes : List Write) : Option PagesVprot :=
  writes.foldlM Write.run pages

lemma runWrites_spec (writes : List Write)
    (ha : ∀ write ∈ writes, ∀ i, write.Covers i → Allocated pages i) :
    ∃ pages', runWrites pages writes = some pages' ∧
      (∀ i, Allocated pages' i ↔ Allocated pages i) ∧
      bytes pages' = writes.foldl Write.flat (bytes pages) := by
  induction writes generalizing pages with
  | nil => exact ⟨pages, rfl, fun i => Iff.rfl, rfl⟩
  | cons write writes ih =>
    obtain ⟨pages₁, heq, halloc, hbytes⟩ := write.run_spec (ha write (List.mem_cons_self ..))
    obtain ⟨pages₂, heq', halloc', hbytes'⟩ := @ih pages₁ fun w hw i hi =>
      (halloc i).mpr (ha w (List.mem_cons_of_mem _ hw) i hi)
    refine ⟨pages₂, ?_, fun i => (halloc' i).trans (halloc i), ?_⟩
    · rw [runWrites, List.foldlM_cons, heq]
      exact heq'
    · rw [hbytes', hbytes, List.foldl_cons]

end Writes

/-- After any writes, the result is the size of the longest range of pages whose bytes agree under
the mask with the byte of the first page. -/
theorem vprot_range_scanned (pages : PagesVprot) (writes : List Write) (view : FileView)
    (base size : ℕ) (mask : BitVec 8)
    (hview : ∀ i, view.base / pageSize ≤ i → i * pageSize < view.stop → Allocated pages i)
    (hwrites : ∀ write ∈ writes, ∀ i, write.Covers i → Allocated pages i)
    (hbase : base % pageSize = 0) (hsize : size % pageSize = 0)
    (hfirst : view.base ≤ base ∧ base < view.stop) (hrange : base + size ≤ view.stop) :
    ∃ written count vprot, runWrites pages writes = some written ∧
      getVprotRangeSize written base size mask = some (count * pageSize, vprot) ∧
      let table := writes.foldl Write.flat (bytes pages)
      let idx := base / pageSize
      vprot.toNat = table idx ∧ count ≤ size / pageSize ∧
        (∀ i < count, (table idx ^^^ table (idx + i)) &&& mask.toNat = 0) ∧
        (count < size / pageSize → (table idx ^^^ table (idx + count)) &&& mask.toNat ≠ 0) := by
  obtain ⟨written, hrun, halloc, hbytes⟩ := runWrites_spec writes hwrites
  have hagrees : ∀ idx i, Agrees written (byteAt written idx) mask i ↔
      (bytes written idx ^^^ bytes written i) &&& mask.toNat = 0 := by
    intro idx i
    rw [Agrees, ← BitVec.toNat_inj, BitVec.toNat_and, BitVec.toNat_xor]
    rfl
  have hmem : ∀ i, base / pageSize ≤ i → i * pageSize < view.stop → Allocated written i :=
    fun i hi his => (halloc i).mpr (hview i ((Nat.div_le_div_right hfirst.1).trans hi) his)
  obtain ⟨last, heq, hle, hlast, hall, hne⟩ := getVprotRangeSize_spec mask hsize
    (hmem _ le_rfl (by simp only [pageSize] at *; omega))
    (fun i hi his => hmem i hi (by simp only [pageSize] at *; omega))
  refine ⟨written, last - base / pageSize, _, hrun, heq, ?_⟩
  simp only [← hbytes, ← hagrees]
  refine ⟨rfl, by omega, fun i hi => hall _ (by omega) (by omega), fun hlt => ?_⟩
  rw [Nat.add_sub_cancel' hle, Ne, ← hagrees]
  exact hne (by omega)

theorem vprot_range_scanned_two : ∃ written count vprot,
    runWrites (fun _ => some fun _ => 0) [.pageVprot 0x1000 0x2000 7] = some written ∧
      getVprotRangeSize written 0x1000 0x3000 1 = some (count * pageSize, vprot) ∧
      let table := [Write.pageVprot 0x1000 0x2000 7].foldl Write.flat
        (bytes fun _ => some fun _ => 0)
      vprot.toNat = table 1 ∧ count ≤ 3 ∧
        (∀ i < count, (table 1 ^^^ table (1 + i)) &&& 1 = 0) ∧
        (count < 3 → (table 1 ^^^ table (1 + count)) &&& 1 ≠ 0) :=
  vprot_range_scanned (fun _ => some fun _ => 0) _ ⟨0x1000, 0x4000, 0⟩ 0x1000 0x3000 1
    (fun _ _ _ => rfl) (fun _ _ _ _ => rfl) rfl rfl (by decide) (by decide)

end WineForge.Views.Tables
