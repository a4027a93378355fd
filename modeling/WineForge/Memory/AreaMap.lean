import WineForge.Memory.AreaStates

/-!
# The memory areas as a map

The array is the run-length form of the function that gives every address the state that was set
last for it.
-/

namespace WineForge.Memory

open Library List Option

lemma low_byte (word : ℕ) : word &&& 0xff = word % 0x100 := Nat.and_two_pow_sub_one_eq_mod word 8

variable {base state : ℕ}

lemma makeMemArea_eq (hbase : 0x100 ∣ base) (hstate : state < 0x100) :
    makeMemArea base state = base + state := by
  obtain ⟨k, rfl⟩ := hbase
  have hshift : 0x100 * k = k <<< 8 := by rw [Nat.shiftLeft_eq, Nat.mul_comm]
  rw [makeMemArea, hshift]
  exact (Nat.shiftLeft_add_eq_or_of_lt hstate k).symm

lemma memAreaState_lt (word : ℕ) : memAreaState word < 0x100 := by
  rw [memAreaState, low_byte]
  exact Nat.mod_lt _ (by decide)

lemma dvd_memAreaBase (word : ℕ) : 0x100 ∣ memAreaBase word := by
  rw [memAreaBase, low_byte]
  exact Nat.dvd_sub_mod word

lemma memAreaBase_make (hbase : 0x100 ∣ base) (hstate : state < 0x100) :
    memAreaBase (makeMemArea base state) = base := by
  rw [makeMemArea_eq hbase hstate, memAreaBase, low_byte]
  omega

lemma memAreaState_make (hbase : 0x100 ∣ base) (hstate : state < 0x100) :
    memAreaState (makeMemArea base state) = state := by
  rw [makeMemArea_eq hbase hstate, memAreaState, low_byte]
  omega

lemma makeMemArea_self (word : ℕ) : makeMemArea (memAreaBase word) (memAreaState word) = word := by
  rw [makeMemArea_eq (dvd_memAreaBase word) (memAreaState_lt word), memAreaBase, memAreaState]
  exact Nat.sub_add_cancel Nat.and_le_left

lemma AreaState.code_lt (state : AreaState) : state.code < 4 := by
  cases state
  all_goals decide

/-- The array is in order, neighbours have different states, and the last entry is the one of the
initial array. -/
structure AreasValid (w : ℕ) (words : List ℕ) : Prop where
  stepwise : Stepwise memAreaBase memAreaState words
  first : baseAt words 0 = 0
  last : words.getLast? = some (2 ^ w - 1)
  size : words.length ≤ memAreasSize w

variable {w : ℕ} {words : List ℕ} {pos addr stop : ℕ}

lemma word_at (h : pos < words.length) : words[pos]? = some (words.getD pos 0) := by
  rw [getD_eq_getElem?_getD, getElem?_eq_getElem h]
  rfl

lemma split_at (h : pos < words.length) :
    words = words.take pos ++ words.getD pos 0 :: words.drop (pos + 1) := by
  conv_lhs => rw [← take_append_drop pos words]
  rw [drop_eq_getElem_cons h, getD_eq_getElem _ _ h]

lemma AreasValid.base_lt (h : AreasValid w words) {i j : ℕ} (hij : i < j)
    (hj : j < words.length) : baseAt words i < baseAt words j := by
  have hlt := pairwise_iff_getElem.mp h.stepwise.pairwise i j (hij.trans hj) hj hij
  rw [baseAt, baseAt, getD_eq_getElem _ _ (hij.trans hj), getD_eq_getElem _ _ hj]
  exact hlt

lemma AreasValid.state_ne (h : AreasValid w words) (hpos : pos + 1 < words.length) :
    stateAt words pos ≠ stateAt words (pos + 1) := by
  have hne := List.isChain_iff_getElem.mp h.stepwise pos hpos
  rw [stateAt, stateAt, getD_eq_getElem _ _ (Nat.lt_of_succ_lt hpos), getD_eq_getElem _ _ hpos]
  exact hne.2

lemma AreasValid.last_eq (h : AreasValid w words) : words.getD (words.length - 1) 0 = 2 ^ w - 1 := by
  have hlast := h.last
  rw [getLast?_eq_getElem?] at hlast
  rw [getD_eq_getElem?_getD, hlast]
  rfl

lemma put_one {α : Type*} (front : List α) (old new : α) (back : List α) :
    put (front ++ old :: back) front.length [new] = some (front ++ new :: back) := by
  rw [put_eq (by simp)]
  simp [drop_append]

lemma writeAreas_eq {p e startPos code : ℕ} (hp : p < words.length) (he : e < words.length)
    (hfirst : (startPos + 1) % 2 ^ 32 = p) (hsecond : (startPos + 2) % 2 ^ 32 = p + 1) :
    writeAreas (words.take (p + 1) ++ words.drop e) startPos addr stop code =
      .ok (words.take p ++ makeMemArea addr code ::
        makeMemArea stop (stateAt words e) :: words.drop (e + 1)) := by
  have hfront : (words.take p).length = p := length_take_of_le (le_of_lt hp)
  have htake : words.take (p + 1) = words.take p ++ [words[p]] :=
    take_succ_eq_append_getElem hp
  have hback : words.drop e = words.getD e 0 :: words.drop (e + 1) := by
    rw [getD_eq_getElem _ _ he]
    exact drop_eq_getElem_cons he
  have hmoved : words.take (p + 1) ++ words.drop e =
      words.take p ++ words[p] :: words.getD e 0 :: words.drop (e + 1) := by
    rw [htake, hback, append_assoc]
    rfl
  have hput := put_one (words.take p) words[p] (makeMemArea addr code)
    (words.getD e 0 :: words.drop (e + 1))
  have hput' := put_one (words.take p ++ [makeMemArea addr code]) (words.getD e 0)
    (makeMemArea stop (stateAt words e)) (words.drop (e + 1))
  rw [hfront] at hput
  rw [length_append, hfront, append_assoc, append_assoc] at hput'
  have hstate : stateAt (words.take p ++ makeMemArea addr code :: words.getD e 0 ::
      words.drop (e + 1)) (p + 1) = stateAt words e := by
    rw [stateAt, stateAt, getD_append_right _ _ _ _ (by omega), hfront, Nat.add_sub_cancel_left]
    rfl
  rw [writeAreas, hfirst, hmoved, hput, hsecond]
  dsimp only
  simp only [singleton_append, length_singleton] at hput'
  rw [hstate, hput']

/-- What a replacement keeps, and the two entries in between. -/
structure Replaced (words : List ℕ) (addr stop code p e : ℕ) : Prop where
  front : p < words.length
  back : e < words.length
  dvd_addr : 0x100 ∣ addr
  dvd_stop : 0x100 ∣ stop
  state : code < 0x100
  before : 0 < p → baseAt words (p - 1) < addr ∧ stateAt words (p - 1) ≠ code
  behind : ∀ i, p ≤ i → i < words.length → addr ≤ baseAt words i
  nonempty : addr < stop
  next_state : code ≠ stateAt words e
  base_le : baseAt words e ≤ stop
  lt_next : e + 1 < words.length → stop < baseAt words (e + 1)
  end_eq : e + 1 < words.length ∨ stop = baseAt words e

def replacement (words : List ℕ) (addr stop code p e : ℕ) : List ℕ :=
  words.take p ++ makeMemArea addr code :: makeMemArea stop (stateAt words e) :: words.drop (e + 1)

variable {code p e : ℕ}

lemma Replaced.read_back (hr : Replaced words addr stop code p e) :
    memAreaBase (makeMemArea addr code) = addr ∧ memAreaState (makeMemArea addr code) = code ∧
      memAreaBase (makeMemArea stop (stateAt words e)) = stop ∧
      memAreaState (makeMemArea stop (stateAt words e)) = stateAt words e := by
  have hlt : stateAt words e < 0x100 := memAreaState_lt _
  exact ⟨memAreaBase_make hr.dvd_addr hr.state, memAreaState_make hr.dvd_addr hr.state,
    memAreaBase_make hr.dvd_stop hlt, memAreaState_make hr.dvd_stop hlt⟩

lemma Replaced.stepwise (h : AreasValid w words) (hr : Replaced words addr stop code p e) :
    Stepwise memAreaBase memAreaState (replacement words addr stop code p e) := by
  obtain ⟨haddr, hcode, hstop, hstate⟩ := hr.read_back
  have hchain : Stepwise memAreaBase memAreaState (words.drop (e + 1)) := h.stepwise.drop _
  refine isChain_append.mpr ⟨h.stepwise.take p, ?_, ?_⟩
  · refine isChain_cons_cons.mpr ⟨⟨by rw [haddr, hstop]; exact hr.nonempty, ?_⟩, ?_⟩
    · rw [hcode, hstate]
      exact hr.next_state
    refine isChain_cons.mpr ⟨fun b hb => ?_, hchain⟩
    rw [head?_drop] at hb
    have hlen : e + 1 < words.length := (List.getElem?_eq_some_iff.mp hb).1
    rw [word_at hlen, mem_some_iff] at hb
    rw [hstop, hstate, ← hb]
    exact ⟨hr.lt_next hlen, h.state_ne hlen⟩
  rintro a ha b ⟨⟩
  rw [getLast?_take] at ha
  split at ha
  · nomatch ha
  rename_i hpos
  have hfront := hr.front
  rw [word_at (by omega : p - 1 < words.length), some_or, mem_some_iff] at ha
  rw [haddr, hcode, ← ha]
  exact hr.before (Nat.pos_of_ne_zero hpos)

lemma Replaced.last (h : AreasValid w words) (hr : Replaced words addr stop code p e) :
    (replacement words addr stop code p e).getLast? = some (2 ^ w - 1) := by
  rw [replacement, getLast?_append, getLast?_cons, getLast?_cons, some_or, getLast?_drop]
  obtain hnext | hstop := hr.end_eq
  · rw [if_neg (by omega), h.last]
    rfl
  by_cases hnext : e + 1 < words.length
  · rw [if_neg (by omega), h.last]
    rfl
  have hback := hr.back
  have he : e = words.length - 1 := by omega
  rw [if_pos (by omega), getD_none, getD_some, hstop, baseAt, stateAt,
    makeMemArea_self, he, h.last_eq]

lemma Replaced.first (h : AreasValid w words) (hr : Replaced words addr stop code p e) :
    baseAt (replacement words addr stop code p e) 0 = 0 := by
  have hfront := hr.front
  rw [replacement, baseAt]
  by_cases hzero : p = 0
  · have hle := hr.behind 0 (le_of_eq hzero) (by omega)
    rw [h.first] at hle
    rw [hzero, take_zero, nil_append, getD_cons_zero, memAreaBase_make hr.dvd_addr hr.state]
    exact Nat.le_zero.mp hle
  have hget : (words.take p).getD 0 0 = words.getD 0 0 := by
    rw [getD_eq_getElem?_getD, getD_eq_getElem?_getD, getElem?_take_of_lt (by omega)]
  rw [getD_append _ _ _ _ (by rw [length_take]; omega), hget]
  exact h.first

lemma Replaced.at_address (h : AreasValid w words) (hr : Replaced words addr stop code p e)
    (d x : ℕ) :
    stepAt memAreaBase memAreaState d (replacement words addr stop code p e) x =
      if addr ≤ x ∧ x < stop then code else stepAt memAreaBase memAreaState d words x := by
  obtain ⟨haddr, hcode, hstop, hstate⟩ := hr.read_back
  have hbehind : ∀ c ∈ words.drop p, memAreaBase (makeMemArea addr code) ≤ memAreaBase c := by
    intro c hc
    obtain ⟨i, hi, rfl⟩ := mem_iff_getElem.mp hc
    rw [length_drop] at hi
    have hle := hr.behind (p + i) (Nat.le_add_right p i) (by omega)
    rw [baseAt, getD_eq_getElem _ _ (by omega)] at hle
    rw [haddr, getElem_drop]
    exact hle
  have hsplice := h.stepwise.splice (d := d) (x := x) (take_append_drop p words).symm
    (split_at hr.back) (hr.stepwise h) hbehind (by rw [hstop]; exact hr.base_le) hstate
  rw [haddr, hstop, hcode] at hsplice
  exact hsplice

lemma moveMemAreas_eq {dst src : ℕ} (hdst : dst ≤ words.length) (hsrc : src ≤ words.length) :
    moveMemAreas w words dst src =
      if memAreasSize w < words.length + dst - src then .error .size
      else .ok (words.take dst ++ words.drop src) := by
  rw [moveMemAreas, if_neg (by omega)]

def mergedEnd (words : List ℕ) (endPos stop code : ℕ) : ℕ × ℕ :=
  if stateAt words endPos = code then (endPos + 1, baseAt words (endPos + 1)) else (endPos, stop)

def keptFront (words : List ℕ) (startPos addr : ℕ) : ℕ :=
  if addr = baseAt words startPos then startPos else startPos + 1

lemma replaceAreas_eq {startPos endPos : ℕ} {state : AreaState} (hsmall : startPos + 2 < 2 ^ 32)
    (hfront : keptFront words startPos addr < words.length)
    (hback : (mergedEnd words endPos stop state.code).1 < words.length) :
    replaceAreas w words startPos endPos addr stop state =
      if memAreasSize w < words.length + (keptFront words startPos addr + 1) -
          (mergedEnd words endPos stop state.code).1 then .error .size
      else .ok (replacement words addr (mergedEnd words endPos stop state.code).2 state.code
        (keptFront words startPos addr) (mergedEnd words endPos stop state.code).1) := by
  have hend : (if decide (stateAt words endPos = state.code) = true then endPos + 1 else endPos) =
      (mergedEnd words endPos stop state.code).1 := by
    unfold mergedEnd
    split_ifs with h₁ h₂ h₂
    · rfl
    · exact absurd (of_decide_eq_true h₁) h₂
    · exact absurd (decide_eq_true h₂) h₁
    · rfl
  have hstop : (if decide (stateAt words endPos = state.code) = true
      then baseAt words (endPos + 1) else stop) = (mergedEnd words endPos stop state.code).2 := by
    unfold mergedEnd
    split_ifs with h₁ h₂ h₂
    · rfl
    · exact absurd (of_decide_eq_true h₁) h₂
    · exact absurd (decide_eq_true h₂) h₁
    · rfl
  generalize hstart : (if addr = baseAt words startPos then (startPos + 2 ^ 32 - 1) % 2 ^ 32
    else startPos) = startPos'
  have hpositions : (startPos' + 1) % 2 ^ 32 = keptFront words startPos addr ∧
      (startPos' + 2) % 2 ^ 32 = keptFront words startPos addr + 1 := by
    rw [← hstart, keptFront]
    split
    · omega
    · omega
  unfold replaceAreas
  dsimp only
  rw [hend, hstop, hstart, hpositions.2, moveMemAreas_eq hfront (le_of_lt hback)]
  by_cases hfull : memAreasSize w < words.length + (keptFront words startPos addr + 1) -
      (mergedEnd words endPos stop state.code).1
  · rw [if_pos hfull, if_pos hfull]
  · rw [if_neg hfull, if_neg hfull]
    exact writeAreas_eq hfront hback hpositions.1 hpositions.2

lemma endArea_spec (hstop : stop < baseAt words (words.length - 1))
    {turns : ℕ} (hpos : pos + 1 < words.length) (hturns : words.length ≤ pos + turns)
    (hbase : baseAt words pos ≤ stop) :
    ∃ endPos, endArea words stop turns pos = .ok endPos ∧ pos ≤ endPos ∧
      endPos + 1 < words.length ∧ baseAt words endPos ≤ stop ∧ stop < baseAt words (endPos + 1) := by
  induction turns generalizing pos with
  | zero => omega
  | succ turns ih =>
    rw [endArea, word_at hpos]
    dsimp only
    by_cases hnext : stop ≥ memAreaBase (words.getD (pos + 1) 0)
    · have hpos' : pos + 1 + 1 < words.length := by
        by_contra hlast
        have heq : pos + 1 = words.length - 1 := by omega
        rw [heq] at hnext
        exact absurd hnext (Nat.not_le.mpr hstop)
      rw [if_pos hnext]
      obtain ⟨endPos, hend, hle, hrest⟩ := ih hpos' (by omega) hnext
      exact ⟨endPos, hend, Nat.le_of_succ_le hle, hrest⟩
    · rw [if_neg hnext]
      exact ⟨pos, rfl, Nat.le_refl pos, hpos, hbase, Nat.lt_of_not_le hnext⟩

lemma AreasValid.state_between (h : AreasValid w words) {x : ℕ} (hpos : pos + 1 < words.length)
    (hbase : baseAt words pos ≤ x) (hx : x < baseAt words (pos + 1)) (d : ℕ) :
    stepAt memAreaBase memAreaState d words x = stateAt words pos := by
  have hnext : words.drop (pos + 1) = words.getD (pos + 1) 0 :: words.drop (pos + 1 + 1) := by
    rw [getD_eq_getElem _ _ hpos]
    exact drop_eq_getElem_cons hpos
  have hsplit := split_at (Nat.lt_of_succ_lt hpos)
  rw [hnext] at hsplit
  have hstepwise := h.stepwise
  rw [hsplit] at hstepwise
  have hvalue := hstepwise.between (d := d) hbase hx
  rw [← hsplit] at hvalue
  exact hvalue

lemma areasOf_base (hpos : pos < words.length) : (areasOf words).base pos = baseAt words pos := by
  rw [MemAreas.base, areasOf, baseAt, getD_eq_getElem?_getD, getElem?_map, word_at hpos]
  rfl

lemma AreasValid.two_le (h : AreasValid w words) (hw : 16 < w) : 2 ≤ words.length := by
  have hlast := h.last_eq
  have hfirst := h.first
  have hbig : 2 ^ 16 < 2 ^ w := Nat.pow_lt_pow_right (by decide) hw
  by_contra hshort
  have hzero : words.length - 1 = 0 := by omega
  rw [hzero] at hlast
  rw [baseAt, hlast, memAreaBase, low_byte] at hfirst
  omega

lemma AreasValid.increasing (h : AreasValid w words) (hw : 16 < w) :
    (areasOf words).Increasing := by
  have htwo := h.two_le hw
  have hlength : (areasOf words).length = words.length := length_map _
  refine ⟨hlength ▸ htwo, ?_, fun i hi => ?_⟩
  · rw [areasOf_base (by omega)]
    exact h.first
  · rw [hlength] at hi
    rw [areasOf_base (by omega), areasOf_base hi]
    exact h.base_lt (Nat.lt_succ_self i) hi

lemma AreasValid.base_last (h : AreasValid w words) (hw : 16 < w) :
    baseAt words (words.length - 1) = 2 ^ w - 0x100 := by
  have hpow : 2 ^ w = 2 ^ 8 * 2 ^ (w - 8) := by
    rw [← pow_add]
    congr 1
    omega
  rw [baseAt, h.last_eq, memAreaBase, low_byte]
  omega

lemma AreasValid.find (h : AreasValid w words) (hw : 16 < w) {x : ℕ} (hx : x < 2 ^ w - 0x100) :
    findMemArea (areasOf words) x + 1 < words.length ∧
      baseAt words (findMemArea (areasOf words) x) ≤ x ∧
      x < baseAt words (findMemArea (areasOf words) x + 1) := by
  have hlength : (areasOf words).length = words.length := length_map _
  obtain ⟨hlen, hle, habove⟩ := findMemArea_last (h.increasing hw) x
  rw [hlength] at hlen habove
  rw [areasOf_base hlen] at hle
  have hnext : findMemArea (areasOf words) x + 1 < words.length := by
    by_contra hlast
    have heq : findMemArea (areasOf words) x = words.length - 1 := by omega
    rw [heq, h.base_last hw] at hle
    omega
  have habove' := habove _ (Nat.lt_succ_self _) hnext
  rw [areasOf_base hnext] at habove'
  exact ⟨hnext, hle, habove'⟩

/-- The front of the new area: it begins at the range or in front of it, where the state is the new
one already. -/
structure FrontEnd (words : List ℕ) (addr code startPos front : ℕ) : Prop where
  inside : startPos + 1 < words.length
  le : front ≤ addr
  dvd : 0x100 ∣ front
  before : 0 < keptFront words startPos front →
    baseAt words (keptFront words startPos front - 1) < front ∧
      stateAt words (keptFront words startPos front - 1) ≠ code
  behind : ∀ i, keptFront words startPos front ≤ i → i < words.length → front ≤ baseAt words i
  same : ∀ x, front ≤ x → x < addr → stepAt memAreaBase memAreaState 0 words x = code

/-- The end of the new area. -/
structure BackEnd (words : List ℕ) (stop code e back : ℕ) : Prop where
  lt : e < words.length
  le : stop ≤ back
  dvd : 0x100 ∣ back
  next_state : code ≠ stateAt words e
  base_le : baseAt words e ≤ back
  lt_next : e + 1 < words.length → back < baseAt words (e + 1)
  end_eq : e + 1 < words.length ∨ back = baseAt words e
  same : ∀ x, stop ≤ x → x < back → stepAt memAreaBase memAreaState 0 words x = code

lemma frontEnd_merge (h : AreasValid w words) (hpos : pos + 1 < words.length)
    (hstate : stateAt words pos = code) (hbase : baseAt words pos ≤ addr)
    (hnext : addr ≤ baseAt words (pos + 1)) :
    FrontEnd words addr code pos (baseAt words pos) := by
  have hkept : keptFront words pos (baseAt words pos) = pos := if_pos rfl
  refine ⟨hpos, hbase, dvd_memAreaBase _, fun hfront => ?_, fun i hi hlen => ?_, fun x hx hlt => ?_⟩
  · rw [hkept] at hfront ⊢
    have hprev : pos - 1 + 1 = pos := Nat.sub_add_cancel hfront
    refine ⟨h.base_lt (by omega) (by omega), fun heq => ?_⟩
    have hne := @AreasValid.state_ne w words (pos - 1) h (by omega)
    rw [hprev, heq, hstate] at hne
    exact hne rfl
  · rw [hkept] at hi
    obtain hlt | rfl := Nat.lt_or_eq_of_le hi
    · exact Nat.le_of_lt (h.base_lt hlt hlen)
    · exact Nat.le_refl _
  · rw [h.state_between hpos hx (lt_of_lt_of_le hlt hnext), hstate]

lemma frontEnd_new (h : AreasValid w words) (hpos : pos + 1 < words.length)
    (hstate : stateAt words pos ≠ code) (hbase : baseAt words pos ≤ addr)
    (hnext : addr < baseAt words (pos + 1)) (hdvd : 0x100 ∣ addr)
    (hprev : ¬ (pos ≠ 0 ∧ stateAt words (pos - 1) = code ∧ addr = baseAt words pos)) :
    FrontEnd words addr code pos addr := by
  by_cases heq : addr = baseAt words pos
  · have hkept : keptFront words pos addr = pos := if_pos heq
    refine ⟨hpos, le_refl _, hdvd, fun hfront => ?_, fun i hi hlen => ?_, fun x hx hlt => ?_⟩
    · rw [hkept] at hfront ⊢
      rw [heq]
      exact ⟨h.base_lt (by omega) (by omega), fun hsame => hprev ⟨by omega, hsame, heq⟩⟩
    · rw [hkept] at hi
      rw [heq]
      obtain hlt | rfl := lt_or_eq_of_le hi
      · exact le_of_lt (h.base_lt hlt hlen)
      · exact le_refl _
    · exact absurd hlt (Nat.not_lt.mpr hx)
  · have hkept : keptFront words pos addr = pos + 1 := if_neg heq
    refine ⟨hpos, le_refl _, hdvd, fun _ => ?_, fun i hi hlen => ?_, fun x hx hlt => ?_⟩
    · rw [hkept, Nat.add_sub_cancel]
      exact ⟨by omega, hstate⟩
    · rw [hkept] at hi
      obtain hlt | rfl := lt_or_eq_of_le hi
      · exact (le_of_lt hnext).trans (le_of_lt (h.base_lt hlt hlen))
      · exact le_of_lt hnext
    · exact absurd hlt (Nat.not_lt.mpr hx)

lemma backEnd (h : AreasValid w words) (hpos : pos + 1 < words.length)
    (hbase : baseAt words pos ≤ stop) (hnext : stop < baseAt words (pos + 1)) (hdvd : 0x100 ∣ stop) :
    BackEnd words stop code (mergedEnd words pos stop code).1 (mergedEnd words pos stop code).2 := by
  unfold mergedEnd
  split
  · rename_i hstate
    refine ⟨hpos, le_of_lt hnext, dvd_memAreaBase _, hstate ▸ h.state_ne hpos, le_refl _,
      fun hlen => h.base_lt (Nat.lt_succ_self _) hlen, .inr rfl, fun x hx hlt => ?_⟩
    rw [h.state_between hpos (hbase.trans hx) hlt, hstate]
  · rename_i hstate
    exact ⟨Nat.lt_of_succ_lt hpos, Nat.le_refl _, hdvd, Ne.symm hstate, hbase, fun _ => hnext,
      .inl hpos, fun x hx hlt => absurd hlt (Nat.not_lt.mpr hx)⟩

lemma Replaced.of_ends {startPos front back : ℕ} (hcode : code < 0x100) (hlt : addr < stop)
    (hf : FrontEnd words addr code startPos front) (hb : BackEnd words stop code e back) :
    Replaced words front back code (keptFront words startPos front) e where
  front := by
    have hpos := hf.inside
    unfold keptFront
    split
    · omega
    · omega
  back := hb.lt
  dvd_addr := hf.dvd
  dvd_stop := hb.dvd
  state := hcode
  before := hf.before
  behind := hf.behind
  nonempty := lt_of_le_of_lt hf.le (lt_of_lt_of_le hlt hb.le)
  next_state := hb.next_state
  base_le := hb.base_le
  lt_next := hb.lt_next
  end_eq := hb.end_eq

def Updates (w : ℕ) (words : List ℕ) (addr stop code : ℕ) (r : Except AreaFault (List ℕ)) : Prop :=
  r = .error .size ∨ ∃ words', r = .ok words' ∧ AreasValid w words' ∧
    ∀ x, stepAt memAreaBase memAreaState 0 words' x =
      if addr ≤ x ∧ x < stop then code else stepAt memAreaBase memAreaState 0 words x

lemma replaceAreas_updates (h : AreasValid w words) (hsmall : words.length < 2 ^ 32)
    {state : AreaState} {startPos endPos front : ℕ} (hlt : addr < stop)
    (hf : FrontEnd words addr state.code startPos front) (hpos : endPos + 1 < words.length)
    (hbase : baseAt words endPos ≤ stop) (hnext : stop < baseAt words (endPos + 1))
    (hdvd : 0x100 ∣ stop) :
    Updates w words addr stop state.code
      (replaceAreas w words startPos endPos front stop state) := by
  have hcode : state.code < 0x100 := state.code_lt.trans (by decide)
  have hb : BackEnd words stop state.code _ _ := backEnd h hpos hbase hnext hdvd
  have hr := Replaced.of_ends hcode hlt hf hb
  have hstart := hf.inside
  rw [replaceAreas_eq (by omega) hr.front hr.back]
  split
  · exact .inl rfl
  refine .inr ⟨_, rfl, ⟨hr.stepwise h, hr.first h, hr.last h, ?_⟩, fun x => ?_⟩
  · have hback := hr.back
    simp only [replacement, length_append, length_cons, length_take, length_drop]
    omega
  rw [hr.at_address h]
  split
  · rename_i hin
    split
    · rfl
    · obtain hleft | hright : x < addr ∨ stop ≤ x := by omega
      · exact (hf.same x hin.1 hleft).symm
      · exact (hb.same x hright hin.2).symm
  · have hle := hf.le
    have hge := hb.le
    rw [if_neg (by omega)]

lemma AreaUpdate.Valid.stop_eq {u : AreaUpdate} (h : u.Valid w) (hw : 16 < w) :
    u.stop w = min (u.addr + u.size) (2 ^ w - 0x10000) ∧ 0x10000 ∣ u.stop w := by
  have hpow : 0x10000 ∣ 2 ^ w := Nat.pow_dvd_pow 2 (Nat.le_of_lt hw)
  have hsum : 0x10000 ∣ u.addr + u.size := Nat.dvd_add h.addr h.size
  have hpos := h.size_pos
  unfold AreaUpdate.stop
  obtain hlt | heq := Nat.lt_or_eq_of_le h.inside
  · rw [Nat.mod_eq_of_lt hlt, if_neg (by omega)]
    exact ⟨by omega, hsum⟩
  · rw [heq, Nat.mod_self, if_pos rfl]
    exact ⟨(Nat.min_eq_right (Nat.sub_le _ _)).symm, Nat.dvd_sub hpow (Nat.dvd_refl _)⟩

lemma setMemAreaState_updates (h : AreasValid w words) (hw : w = 32 ∨ w = 64) {u : AreaUpdate}
    (hu : u.Valid w) : Updates w words u.addr (u.stop w) u.state.code (setMemAreaState w words u) := by
  have hwide : 16 < w := by omega
  have hsmall : words.length < 2 ^ 32 := by
    refine lt_of_le_of_lt h.size ?_
    obtain rfl | rfl := hw
    · decide
    · decide
  obtain ⟨hstop, hdvd⟩ := hu.stop_eq hwide
  have hbelow := hu.below
  have hpos := hu.size_pos
  have hlt : u.addr < u.stop w := by omega
  have hbyte : 0x100 ∣ u.stop w := dvd_trans (by decide) hdvd
  have hlast : u.stop w < baseAt words (words.length - 1) := by
    rw [h.base_last hwide]
    omega
  have hinside : u.addr < 2 ^ w - 0x100 :=
    Nat.lt_of_lt_of_le hbelow (Nat.sub_le_sub_left (by decide) _)
  obtain ⟨hnext, hbase, habove⟩ := h.find hwide hinside
  obtain ⟨endPos, hend, hle, hendNext, hendBase, hendAbove⟩ := endArea_spec hlast hnext
    (Nat.le_add_left _ _) (hbase.trans (Nat.le_of_lt hlt))
  have haligned : ¬ (u.addr % 0x10000 ≠ 0 ∨ u.size % 0x10000 ≠ 0) := by
    have haddr := Nat.mod_eq_zero_of_dvd hu.addr
    have hsize := Nat.mod_eq_zero_of_dvd hu.size
    omega
  have hreplace : ∀ {startPos front}, FrontEnd words u.addr u.state.code startPos front →
      Updates w words u.addr (u.stop w) u.state.code
        (replaceAreas w words startPos endPos front (u.stop w) u.state) := fun hf =>
    replaceAreas_updates h hsmall hlt hf hendNext hendBase hendAbove hbyte
  rw [setMemAreaState, if_neg haligned]
  dsimp only
  rw [hend]
  dsimp only
  generalize findMemArea (areasOf words) u.addr = startPos at *
  by_cases hstate : stateAt words startPos = u.state.code
  · rw [if_pos hstate]
    by_cases hsame : startPos = endPos
    · rw [if_pos hsame]
      refine .inr ⟨words, rfl, h, fun x => ?_⟩
      split
      · rename_i hin
        rw [h.state_between hnext (hbase.trans hin.1) (hin.2.trans (hsame ▸ hendAbove)), hstate]
      · rfl
    · rw [if_neg hsame]
      exact hreplace (frontEnd_merge h hnext hstate hbase (le_of_lt habove))
  rw [if_neg hstate]
  by_cases hprev : startPos ≠ 0 ∧ stateAt words (startPos - 1) = u.state.code ∧
      u.addr = baseAt words startPos
  · have hback : startPos - 1 + 1 = startPos := Nat.sub_add_cancel (Nat.pos_of_ne_zero hprev.1)
    rw [if_pos hprev]
    refine hreplace (frontEnd_merge h (by omega) hprev.2.1 ?_ ?_)
    · rw [hprev.2.2]
      exact le_of_lt (h.base_lt (by omega) (by omega))
    · rw [hback]
      exact le_of_eq hprev.2.2
  · rw [if_neg hprev]
    exact hreplace (frontEnd_new h hnext hstate hbase habove
      (dvd_trans (by decide) hu.addr) hprev)

lemma initialMemAreas_valid (hw : w = 32 ∨ w = 64) : AreasValid w (initialMemAreas w) := by
  have hchain : memAreaBase 0 < memAreaBase (2 ^ w - 1) ∧
      memAreaState 0 ≠ memAreaState (2 ^ w - 1) := by
    obtain rfl | rfl := hw
    · decide +kernel
    · decide +kernel
  have hsize : 2 ≤ memAreasSize w := by
    obtain rfl | rfl := hw
    · decide +kernel
    · decide +kernel
  have hfirst : memAreaBase 0 = 0 := by decide
  exact ⟨isChain_cons_cons.mpr ⟨hchain, isChain_singleton _⟩, hfirst, rfl, hsize⟩

lemma setMemAreaStates_updates (h : AreasValid w words) (hw : w = 32 ∨ w = 64)
    {us : List AreaUpdate} (hus : ∀ u ∈ us, u.Valid w) :
    setMemAreaStates w words us = .error .size ∨ ∃ words', setMemAreaStates w words us = .ok words' ∧
      AreasValid w words' ∧ ∀ x (state : AreaState), stepAt memAreaBase memAreaState 0 words x = state.code →
        stepAt memAreaBase memAreaState 0 words' x =
          (us.foldl (fun state (u : AreaUpdate) => if u.Covers w x then u.state else state)
            state).code := by
  induction us generalizing words with
  | nil => exact .inr ⟨words, rfl, h, fun _ _ hx => hx⟩
  | cons u us ih =>
    have hu := hus u (mem_cons_self ..)
    have hstop := (hu.stop_eq (show 16 < w by omega)).1
    rw [setMemAreaStates]
    obtain hfull | ⟨words', hcall, hvalid, hstate⟩ := setMemAreaState_updates h hw hu
    · rw [hfull]
      exact .inl rfl
    rw [hcall]
    obtain hfull | ⟨words'', hcalls, hvalid', hstates⟩ :=
      ih hvalid fun u' hu' => hus u' (mem_cons_of_mem u hu')
    · exact .inl hfull
    refine .inr ⟨words'', hcalls, hvalid', fun x state hx => ?_⟩
    rw [foldl_cons]
    apply hstates
    rw [hstate x, hstop]
    by_cases hin : u.Covers w x
    · rw [if_pos hin]
      exact if_pos hin
    · rw [if_neg hin, ← hx]
      exact if_neg hin

/-- After any sequence of calls that fits into the array, it is in order, ends with the entry of
the initial one, has different states in neighbouring areas, and the area that is found for an
address has the state that was set last for it. The only assertion that may fail is the one about
the size of the array. -/
theorem mem_areas_map (w : ℕ) (hw : w = 32 ∨ w = 64) (us : List AreaUpdate)
    (hus : ∀ u ∈ us, u.Valid w) :
    setMemAreaStates w (initialMemAreas w) us = .error .size ∨
      ∃ words, setMemAreaStates w (initialMemAreas w) us = .ok words ∧
        words.IsChain (fun a b => memAreaBase a < memAreaBase b ∧
          memAreaState a ≠ memAreaState b) ∧
        words.getLast? = some (2 ^ w - 1) ∧
        ∀ x < 2 ^ w - 0x100, stateAt words (findMemArea (areasOf words) x) =
          (lastState w us x).code := by
  have hwide : 16 < w := by omega
  obtain hfull | ⟨words, hcalls, hvalid, hstates⟩ :=
    setMemAreaStates_updates (initialMemAreas_valid hw) hw hus
  · exact .inl hfull
  refine .inr ⟨words, hcalls, hvalid.stepwise, hvalid.last, fun x hx => ?_⟩
  obtain ⟨hnext, hbase, habove⟩ := hvalid.find hwide hx
  rw [← hvalid.state_between hnext hbase habove 0]
  apply hstates
  have hinitial := (initialMemAreas_valid hw).find hwide hx
  have hzero : findMemArea (areasOf (initialMemAreas w)) x = 0 :=
    Nat.le_zero.mp (Nat.le_of_lt_succ (Nat.lt_of_succ_lt_succ hinitial.1))
  rw [hzero] at hinitial
  have hfree : stateAt (initialMemAreas w) 0 = AreaState.free.code := by
    have hstate : memAreaState 0 = AreaState.free.code := by decide
    exact hstate
  rw [← hfree]
  exact (initialMemAreas_valid hw).state_between hinitial.1 hinitial.2.1 hinitial.2.2 0

/-- A reserved range and a part of it that is freed again. -/
theorem mem_areas_map_freed : setMemAreaStates 64 (initialMemAreas 64)
        [⟨0x10000, 0x30000, .reserved⟩, ⟨0x20000, 0x10000, .free⟩] = .error .size ∨
      ∃ words, setMemAreaStates 64 (initialMemAreas 64)
          [⟨0x10000, 0x30000, .reserved⟩, ⟨0x20000, 0x10000, .free⟩] = .ok words ∧
        words.IsChain (fun a b => memAreaBase a < memAreaBase b ∧
          memAreaState a ≠ memAreaState b) ∧
        words.getLast? = some (2 ^ 64 - 1) ∧
        ∀ x < 2 ^ 64 - 0x100, stateAt words (findMemArea (areasOf words) x) =
          (lastState 64 [⟨0x10000, 0x30000, .reserved⟩, ⟨0x20000, 0x10000, .free⟩] x).code := by
  refine mem_areas_map 64 (.inr rfl) _ fun u hu => ?_
  obtain rfl | hu := mem_cons.mp hu
  · exact ⟨by decide, by decide, by decide, by decide +kernel, by decide +kernel⟩
  · rw [mem_singleton.mp hu]
    exact ⟨by decide, by decide, by decide, by decide +kernel, by decide +kernel⟩

/-- A range up to the top of the address space leaves its last 64K as they were. -/
theorem mem_areas_top :
    ∃ words, setMemAreaState 32 (initialMemAreas 32) ⟨0xfffe0000, 0x20000, .blocked⟩ = .ok words ∧
      stateAt words (findMemArea (areasOf words) 0xffff0000) = AreaState.free.code := by
  refine ⟨[0, 0xfffe0002, 0xffff0000, 0xffffffff], ?_, ?_⟩
  · decide +kernel
  · decide +kernel

end WineForge.Memory
