import WineForge.VersionResource.State

/-!
# What the walk over a version resource reads

The scan of a key looks at a character before it compares the length of the entry, and the end of a
child list is rounded up, so some entries at the end of the resource make the walk read behind it.
All that is read of an accepted entry lies in the entry.
-/

namespace WineForge.VersionResource

open List

variable {res : List UInt8} {ptr stop pos : ℕ} {e : VersionEntry}

def wordAt (res : List UInt8) (pos : ℕ) : ℕ :=
  (res.getD pos 0).toNat + 256 * (res.getD (pos + 1) 0).toNat

/-- The scan of the key of an entry comes to a character behind the end of the resource. -/
def ScanOverruns (res : List UInt8) (info infoLen len : ℕ) : Prop :=
  ∃ k ≥ len, res.length < info + keyOffset (k + 1) ∧
    ∀ j ≥ len, j < k → wordAt res (info + keyOffset j) ≠ 0 ∧ keyOffset (j + 1) ≤ infoLen

/-- An entry in front of `stop` whose length or whose key is read behind the end. -/
def Overruns (res : List UInt8) (ptr stop : ℕ) : Prop :=
  ptr + 8 ≤ stop ∧ (res.length < ptr + 2 ∨
    ptr + wordAt res ptr ≤ stop ∧ ScanOverruns res ptr (wordAt res ptr) 0)

/-- What a function does that reads behind the end exactly where `bad` holds. -/
def Outcome {α : Type} (x : Except Fault α) (bad : Prop) (Q : α → Prop) : Prop :=
  x = .error .outside ∧ bad ∨ ∃ a, x = .ok a ∧ ¬bad ∧ Q a

variable {α : Type}

lemma Outcome.iff {x : Except Fault α} {bad : Prop} {Q : α → Prop}
    (h : Outcome x bad Q) : (∃ a, x = .ok a) ↔ ¬bad := by
  obtain ⟨rfl, hbad⟩ | ⟨a, rfl, hnot, _⟩ := h
  · exact iff_of_false nofun (not_not.mpr hbad)
  · exact iff_of_true ⟨a, rfl⟩ hnot

lemma Outcome.ok {bad : Prop} {Q : α → Prop} {a : α} (hbad : ¬bad) (h : Q a) :
    Outcome (.ok a) bad Q := .inr ⟨a, rfl, hbad, h⟩

lemma Outcome.bind {α β : Type} {x : Except Fault α} {f : α → Except Fault β} {bad bad' : Prop}
    {Q : α → Prop} {R : β → Prop} (h : Outcome x bad Q) (hbad : bad → bad')
    (hf : ∀ a, Q a → ¬bad → Outcome (f a) bad' R) : Outcome (x >>= f) bad' R := by
  obtain ⟨rfl, hover⟩ | ⟨a, rfl, hnot, ha⟩ := h
  · exact .inl ⟨rfl, hbad hover⟩
  · exact hf a ha hnot

lemma readWord_spec (res : List UInt8) (pos : ℕ) :
    Outcome (readWord res pos) (res.length < pos + 2) (· = wordAt res pos) := by
  unfold readWord wordAt
  by_cases hpos : pos + 2 ≤ res.length
  · right
    have hlo : pos < res.length := by omega
    have hhi : pos + 1 < res.length := by omega
    refine ⟨_, ?_, by omega, rfl⟩
    simp [hlo, hhi]
  left
  have hhi : res[pos + 1]? = none := getElem?_eq_none_iff.mpr (by omega)
  rw [hhi]
  refine ⟨?_, by omega⟩
  cases res[pos]? <;> rfl

lemma readWord_ok (h : pos + 2 ≤ res.length) : readWord res pos = .ok (wordAt res pos) := by
  obtain ⟨_, hbad⟩ | ⟨a, ha, _, rfl⟩ := readWord_spec res pos
  · omega
  · exact ha

lemma scanOverruns_iff {info infoLen len : ℕ} :
    ScanOverruns res info infoLen len ↔ res.length < info + keyOffset (len + 1) ∨
      wordAt res (info + keyOffset len) ≠ 0 ∧ keyOffset (len + 1) ≤ infoLen ∧
        ScanOverruns res info infoLen (len + 1) := by
  constructor
  · rintro ⟨k, hle, hout, hbefore⟩
    obtain rfl | hlt := Nat.eq_or_lt_of_le hle
    · exact .inl hout
    · obtain ⟨hchar, hoffset⟩ := hbefore len (Nat.le_refl _) hlt
      exact .inr ⟨hchar, hoffset, k, hlt, hout, fun j hj => hbefore j (by omega)⟩
  · rintro (hout | ⟨hchar, hoffset, k, hle, hout, hbefore⟩)
    · exact ⟨len, Nat.le_refl _, hout, fun j hj hlt => absurd hlt (by omega)⟩
    refine ⟨k, by omega, hout, fun j hj hlt => ?_⟩
    obtain rfl | hj := Nat.eq_or_lt_of_le hj
    · exact ⟨hchar, hoffset⟩
    · exact hbefore j hj hlt

/-- The key that is scanned from `len` on ends at `m`. -/
def EndsAt (res : List UInt8) (info len m : ℕ) : Prop :=
  len ≤ m ∧ wordAt res (info + keyOffset m) = 0 ∧
    ∀ j ≥ len, j < m → wordAt res (info + keyOffset j) ≠ 0

lemma endsAt_iff {info len m : ℕ} (h : wordAt res (info + keyOffset len) ≠ 0) :
    EndsAt res info len m ↔ EndsAt res info (len + 1) m := by
  constructor
  · rintro ⟨hle, hzero, hbefore⟩
    have hne : len ≠ m := by
      rintro rfl
      exact h hzero
    exact ⟨by omega, hzero, fun j hj => hbefore j (by omega)⟩
  · rintro ⟨hle, hzero, hbefore⟩
    refine ⟨by omega, hzero, fun j hj hlt => ?_⟩
    obtain rfl | hj := Nat.eq_or_lt_of_le hj
    · exact h
    · exact hbefore j hj hlt

lemma EndsAt.unique {info len m m' : ℕ} (h : EndsAt res info len m) (h' : EndsAt res info len m') :
    m = m' := by
  obtain hlt | heq | hlt := Nat.lt_trichotomy m m'
  · exact absurd h.2.1 (h'.2.2 m h.1 hlt)
  · exact heq
  · exact absurd h'.2.1 (h.2.2 m' h'.1 hlt)

lemma scanKey_spec {info infoLen : ℕ} (turns len : ℕ) (hturns : infoLen < turns + 2 * len)
    (hlen : len = 0 ∨ keyOffset len ≤ infoLen) :
    Outcome (scanKey res info infoLen turns len) (ScanOverruns res info infoLen len) fun r =>
      match r with
      | none => ∀ m, EndsAt res info len m → infoLen < keyOffset (m + 1)
      | some m => EndsAt res info len m ∧ info + keyOffset (m + 1) ≤ res.length := by
  induction turns generalizing len with
  | zero =>
    unfold keyOffset at hlen
    omega
  | succ turns ih =>
    have hword := readWord_spec res (info + keyOffset len)
    have hnext : info + keyOffset len + 2 = info + keyOffset (len + 1) := by
      unfold keyOffset
      omega
    apply hword.bind fun hout => scanOverruns_iff.mpr (.inl hout)
    rintro c rfl hin
    have hsame : ScanOverruns res info infoLen len ↔ wordAt res (info + keyOffset len) ≠ 0 ∧
        keyOffset (len + 1) ≤ infoLen ∧ ScanOverruns res info infoLen (len + 1) :=
      scanOverruns_iff.trans (or_iff_right hin)
    rw [hsame]
    split
    · rename_i hzero
      refine .ok (fun h => h.1 hzero) ⟨⟨Nat.le_refl _, hzero, fun j hj hlt => ?_⟩, Nat.not_lt.mp hin⟩
      exact absurd hlt (by omega)
    rename_i hchar
    split
    · rename_i hshort
      refine .ok (fun h => absurd h.2.1 (Nat.not_le.mpr hshort)) fun m hm => ?_
      have hle := hm.1
      unfold keyOffset at hshort ⊢
      omega
    rename_i hlong
    have hrest := ih (len + 1) (by omega) (.inr (Nat.not_lt.mp hlong))
    rw [and_iff_right hchar, and_iff_right (Nat.not_lt.mp hlong)]
    simp only [endsAt_iff hchar]
    exact hrest

/-- The entry in front of `stop` has its key and its value in itself. -/
structure IsEntry (res : List UInt8) (ptr stop : ℕ) (e : VersionEntry) : Prop where
  header : ptr + 8 ≤ stop
  fits : ptr + wordAt res ptr ≤ stop
  key : ∃ len, EndsAt res ptr 0 len ∧ ptr + keyOffset (len + 1) ≤ res.length ∧
    e.value = ptr + round4 (keyOffset (len + 1))
  inside : e.value + valueSize (wordAt res (ptr + 2)) (wordAt res (ptr + 4)) ≤ ptr + wordAt res ptr
  info : e.info = ptr
  child : e.child = e.value + round4 (valueSize (wordAt res (ptr + 2)) (wordAt res (ptr + 4)))
  next : e.next = ptr + round4 (wordAt res ptr)

lemma IsEntry.unique {e' : VersionEntry} (h : IsEntry res ptr stop e)
    (h' : IsEntry res ptr stop e') : e = e' := by
  obtain ⟨len, hends, _, hvalue⟩ := h.key
  obtain ⟨len', hends', _, hvalue'⟩ := h'.key
  obtain rfl := hends.unique hends'
  have hsame : e.value = e'.value := hvalue.trans hvalue'.symm
  have hchild : e.child = e'.child := by rw [h.child, h'.child, hsame]
  have hnext : e.next = e'.next := h.next.trans h'.next.symm
  have hinfo : e.info = e'.info := h.info.trans h'.info.symm
  cases e
  cases e'
  simp_all

lemma getVersionEntry_spec (res : List UInt8) (ptr stop : ℕ) :
    Outcome (getVersionEntry res ptr stop) (Overruns res ptr stop) fun r =>
      ∀ e, r = some e ↔ IsEntry res ptr stop e := by
  have hnone : ∀ (hnot : ¬Overruns res ptr stop) (h : ∀ e, ¬IsEntry res ptr stop e),
      Outcome (.ok none) (Overruns res ptr stop) fun r => ∀ e, r = some e ↔ IsEntry res ptr stop e :=
    fun hnot h => .ok hnot fun e => iff_of_false nofun (h e)
  unfold getVersionEntry
  split
  · exact hnone (fun h => absurd h.1 (by omega)) fun e he => absurd he.header (by omega)
  apply (readWord_spec res ptr).bind fun hout => ⟨by omega, .inl hout⟩
  rintro infoLen rfl hin
  split
  · rename_i hlong
    exact hnone (fun h => h.2.elim hin fun h => Nat.not_le.mpr hlong h.1) fun e he =>
      absurd he.fits (by omega)
  have hscan := @scanKey_spec res ptr (wordAt res ptr) (wordAt res ptr + 1) 0 (by omega)
    (.inl rfl)
  apply hscan.bind fun h => ⟨by omega, .inr ⟨by omega, h⟩⟩
  intro r hr hnot
  have hnot' : ¬Overruns res ptr stop := fun h => h.2.elim hin fun h => hnot h.2
  cases r with
  | none =>
    refine hnone hnot' fun e he => ?_
    obtain ⟨len, hends, _, hvalue⟩ := he.key
    have hshort := hr len hends
    have hinside := he.inside
    unfold round4 at hvalue
    omega
  | some len =>
    obtain ⟨hends, hinside⟩ := hr
    have hoffset : keyOffset (len + 1) = 8 + 2 * len := by
      unfold keyOffset
      omega
    rw [readWord_ok (by omega), readWord_ok (by omega)]
    change Outcome (ite _ _ _) _ _
    split
    · refine hnone hnot' fun e he => ?_
      obtain ⟨len', hends', _, hvalue'⟩ := he.key
      have hin' := he.inside
      rw [hends'.unique hends] at hvalue'
      omega
    rename_i hvalue
    have hentry : IsEntry res ptr stop ⟨ptr, ptr + round4 (keyOffset (len + 1)),
        ptr + round4 (wordAt res ptr), ptr + round4 (keyOffset (len + 1)) +
          round4 (valueSize (wordAt res (ptr + 2)) (wordAt res (ptr + 4)))⟩ :=
      ⟨by omega, by omega, ⟨len, hends, hinside, rfl⟩, by dsimp only; omega, rfl, rfl, rfl⟩
    refine .ok hnot' fun e => ⟨fun he => Option.some.inj he ▸ hentry, fun he => ?_⟩
    exact congrArg some (hentry.unique he)

lemma IsEntry.value_ge (h : IsEntry res ptr stop e) : ptr + 8 ≤ e.value := by
  obtain ⟨len, _, _, hvalue⟩ := h.key
  rw [hvalue]
  unfold round4 keyOffset
  omega

lemma IsEntry.next_ge (h : IsEntry res ptr stop e) : ptr + 8 ≤ e.next := by
  have hvalue := h.value_ge
  have hinside := h.inside
  rw [h.next]
  unfold round4
  omega

lemma wcsicmp_ok (upper : ℕ → ℕ) (name : List ℕ) {len : ℕ}
    (hzero : wordAt res (pos + 2 * len) = 0) (hlen : pos + 2 * len + 2 ≤ res.length) :
    ∃ b, wcsicmp upper res pos name = .ok b := by
  induction name generalizing pos len with
  | nil =>
    unfold wcsicmp
    rw [readWord_ok (by omega)]
    exact ⟨_, rfl⟩
  | cons d name ih =>
    unfold wcsicmp
    rw [readWord_ok (by omega)]
    change ∃ b, ite _ _ _ = _
    split
    · exact ⟨_, rfl⟩
    split
    · exact ⟨_, rfl⟩
    rename_i hchar
    cases len with
    | zero => exact absurd hzero hchar
    | succ len =>
      have hpos : pos + 2 + 2 * len = pos + 2 * (len + 1) := by omega
      exact ih (by rwa [hpos]) (by omega)

def KeyIs (upper : ℕ → ℕ) (res : List UInt8) (e : VersionEntry) (name : List ℕ) : Prop :=
  wcsicmp upper res (e.info + keyOffset 0) name = .ok true

lemma IsEntry.compares (h : IsEntry res ptr stop e) (upper : ℕ → ℕ) (name : List ℕ) :
    ∃ b, wcsicmp upper res (e.info + keyOffset 0) name = .ok b := by
  obtain ⟨len, ⟨_, hzero, _⟩, hlen, _⟩ := h.key
  have hkey : e.info + keyOffset 0 + 2 * len = ptr + keyOffset len := by
    rw [h.info]
    unfold keyOffset
    omega
  have hnext : keyOffset (len + 1) = keyOffset len + 2 := by
    unfold keyOffset
    omega
  exact wcsicmp_ok upper name (by rwa [hkey]) (by omega)

/-- The search for a name that looks at one place looks at the other one as well. -/
inductive Passes (upper : ℕ → ℕ) (res : List UInt8) (name : List ℕ) (stop : ℕ) : ℕ → ℕ → Prop
  | refl (ptr : ℕ) : Passes upper res name stop ptr ptr
  | next {ptr q : ℕ} {e : VersionEntry} : IsEntry res ptr stop e → ¬KeyIs upper res e name →
    Passes upper res name stop e.next q → Passes upper res name stop ptr q

def SearchOverruns (upper : ℕ → ℕ) (res : List UInt8) (name : List ℕ) (stop ptr : ℕ) : Prop :=
  ∃ q, Passes upper res name stop ptr q ∧ Overruns res q stop

def Finds (upper : ℕ → ℕ) (res : List UInt8) (name : List ℕ) (stop ptr : ℕ) (e : VersionEntry) :
    Prop :=
  ∃ q, Passes upper res name stop ptr q ∧ IsEntry res q stop e ∧ KeyIs upper res e name

variable {upper : ℕ → ℕ} {name : List ℕ}

lemma passes_iff {q : ℕ} (h : IsEntry res ptr stop e) (hkey : ¬KeyIs upper res e name) :
    Passes upper res name stop ptr q ↔ q = ptr ∨ Passes upper res name stop e.next q := by
  constructor
  · intro hq
    cases hq with
    | refl => exact .inl rfl
    | next he _ hq => exact .inr (h.unique he ▸ hq)
  · rintro (rfl | hq)
    · exact .refl q
    · exact .next h hkey hq

lemma passes_found {q : ℕ} (h : IsEntry res ptr stop e)
    (hkey : KeyIs upper res e name) : Passes upper res name stop ptr q ↔ q = ptr := by
  constructor
  · intro hq
    cases hq with
    | refl => rfl
    | next he hnot _ => exact absurd (h.unique he ▸ hkey) hnot
  · rintro rfl
    exact .refl q

lemma searchOverruns_of_not_entry (hnone : ∀ e, ¬IsEntry res ptr stop e) :
    SearchOverruns upper res name stop ptr ↔ Overruns res ptr stop := by
  constructor
  · rintro ⟨q, hq, hover⟩
    cases hq with
    | refl => exact hover
    | next he _ _ => exact absurd he (hnone _)
  · exact fun hover => ⟨ptr, .refl ptr, hover⟩

lemma findKeyLoop_spec (upper : ℕ → ℕ) (name : List ℕ) (turns : ℕ)
    (h : IsEntry res ptr stop e) (hover : ¬Overruns res ptr stop) (hturns : stop ≤ ptr + 8 * turns) :
    Outcome (findKeyLoop upper res name stop turns e) (SearchOverruns upper res name stop ptr)
      fun r => ∀ e', r = some e' ↔ Finds upper res name stop ptr e' := by
  induction turns generalizing ptr e with
  | zero =>
    have hheader := h.header
    omega
  | succ turns ih =>
    obtain ⟨b, hb⟩ := h.compares upper name
    unfold findKeyLoop
    rw [hb]
    change Outcome (ite _ _ _) _ _
    cases b with
    | true =>
      apply Outcome.ok
      · rintro ⟨q, hq, hbad⟩
        exact hover ((passes_found h hb).mp hq ▸ hbad)
      intro e'
      constructor
      · intro he
        exact Option.some.inj he ▸ ⟨ptr, .refl ptr, h, hb⟩
      · rintro ⟨q, hq, he, _⟩
        rw [(passes_found h hb).mp hq] at he
        rw [h.unique he]
    | false =>
      have hkey : ¬KeyIs upper res e name := by
        unfold KeyIs
        rw [hb]
        simp
      have hsearch : SearchOverruns upper res name stop ptr ↔
          SearchOverruns upper res name stop e.next := by
        constructor
        · rintro ⟨q, hq, hbad⟩
          obtain rfl | hq := (passes_iff h hkey).mp hq
          · exact absurd hbad hover
          · exact ⟨q, hq, hbad⟩
        · exact fun ⟨q, hq, hbad⟩ => ⟨q, (passes_iff h hkey).mpr (.inr hq), hbad⟩
      have hfinds : ∀ e', Finds upper res name stop ptr e' ↔ Finds upper res name stop e.next e' := by
        intro e'
        constructor
        · rintro ⟨q, hq, he, hname⟩
          obtain rfl | hq := (passes_iff h hkey).mp hq
          · exact absurd (h.unique he ▸ hname) hkey
          · exact ⟨q, hq, he, hname⟩
        · exact fun ⟨q, hq, hfound⟩ => ⟨q, (passes_iff h hkey).mpr (.inr hq), hfound⟩
      rw [hsearch]
      simp only [hfinds]
      have hnext := h.next_ge
      apply (getVersionEntry_spec res e.next stop).bind fun hbad => ⟨e.next, .refl _, hbad⟩
      intro r hr hnot
      cases r with
      | none =>
        have hnone : ∀ e', ¬IsEntry res e.next stop e' := fun e' he => nomatch (hr e').mpr he
        refine .ok (fun hbad => hnot ((searchOverruns_of_not_entry hnone).mp hbad)) fun e' => ?_
        refine iff_of_false nofun ?_
        rintro ⟨q, hq, he, _⟩
        cases hq with
        | refl => exact hnone e' he
        | next hfirst _ _ => exact hnone _ hfirst
      | some e' => exact ih ((hr e').mp rfl) hnot (by omega)

lemma versionFindKey_spec (upper : ℕ → ℕ) (parent : VersionEntry) (name : List ℕ) :
    Outcome (versionFindKey upper res parent name)
      (SearchOverruns upper res name parent.next parent.child) fun r =>
        ∀ e', r = some e' ↔ Finds upper res name parent.next parent.child e' := by
  apply (getVersionEntry_spec res parent.child parent.next).bind fun hbad =>
    ⟨parent.child, .refl _, hbad⟩
  intro r hr hnot
  cases r with
  | none =>
    have hnone : ∀ e', ¬IsEntry res parent.child parent.next e' :=
      fun e' he => nomatch (hr e').mpr he
    refine .ok (fun hbad => hnot ((searchOverruns_of_not_entry hnone).mp hbad)) fun e' => ?_
    refine iff_of_false nofun ?_
    rintro ⟨q, hq, he, _⟩
    cases hq with
    | refl => exact hnone e' he
    | next hfirst _ _ => exact hnone _ hfirst
  | some e' =>
    have he := (hr e').mp rfl
    exact findKeyLoop_spec upper name parent.next he hnot (by omega)

lemma wcsnicmp_ok (upper : ℕ → ℕ) (name : List ℕ) (h : pos + 2 * name.length ≤ res.length) :
    ∃ b, wcsnicmp upper res pos name = .ok b := by
  induction name generalizing pos with
  | nil => exact ⟨true, rfl⟩
  | cons d name ih =>
    rw [length_cons] at h
    unfold wcsnicmp
    rw [readWord_ok (by omega)]
    change ∃ b, ite _ _ _ = _
    split
    · exact ⟨_, rfl⟩
    · split
      · exact ⟨_, rfl⟩
      · exact ih (by omega)

lemma findVendor_ok (upper : ℕ → ℕ) (table : List (List ℕ × LoadOrder)) {len : ℕ}
    (h : pos + 2 * len ≤ res.length) : ∃ lo, findVendor upper res pos len table = .ok lo := by
  induction table with
  | nil => exact ⟨_, rfl⟩
  | cons vendor table ih =>
    unfold findVendor
    split
    · exact ih
    obtain ⟨b, hb⟩ := @wcsnicmp_ok res pos upper vendor.1 (by omega)
    rw [hb]
    cases b with
    | true => exact ⟨_, rfl⟩
    | false => exact ih

def CompanyOverruns (res : List UInt8) (e : VersionEntry) : Prop :=
  wordAt res (e.info + 4) ≠ 0 ∧ wordAt res (e.info + 2) ≠ 0 ∧
    res.length < e.value + 2 * wordAt res (e.info + 2)

lemma companyOrder_spec (upper : ℕ → ℕ) (h : e.info + 6 ≤ res.length) :
    Outcome (companyOrder upper res e) (CompanyOverruns res e) fun _ => True := by
  unfold companyOrder
  rw [readWord_ok (by omega), readWord_ok (by omega)]
  change Outcome (ite _ _ _) _ _
  split
  · rename_i hnone
    exact .ok (fun hbad => hnone.elim hbad.1 hbad.2.1) trivial
  rename_i hsome
  obtain ⟨htype, hlen⟩ := not_or.mp hsome
  have hbad : CompanyOverruns res e ↔
      res.length < e.value + 2 * (wordAt res (e.info + 2) - 1) + 2 := by
    unfold CompanyOverruns
    omega
  rw [hbad]
  apply (readWord_spec res _).bind id
  rintro last - hin
  have hinside : e.value + 2 * (if last = 0 then wordAt res (e.info + 2) - 1
      else wordAt res (e.info + 2)) ≤ res.length := by
    split <;> omega
  obtain ⟨lo, hlo⟩ := findVendor_ok upper vendors hinside
  exact hlo ▸ .ok hin trivial

lemma IsEntry.header_inside (h : IsEntry res ptr stop e) : e.info + 8 ≤ res.length := by
  obtain ⟨len, _, hinside, _⟩ := h.key
  rw [h.info]
  unfold keyOffset at hinside
  omega

/-- The first entry has a `VS_FIXEDFILEINFO` for its value. -/
def HasFixedInfo (res : List UInt8) (e : VersionEntry) : Prop :=
  52 ≤ wordAt res (e.info + 2) ∧
    wordAt res e.value + 65536 * wordAt res (e.value + 2) = 0xfeef04bd

/-- The walk comes to an entry that is read behind the end, or to such a company name. -/
def WalkOverruns (upper : ℕ → ℕ) (res : List UInt8) : Prop :=
  Overruns res 0 res.length ∨ ∃ root, IsEntry res 0 res.length root ∧ HasFixedInfo res root ∧
    (SearchOverruns upper res fileinfoW root.next root.child ∨
      ∃ strings, Finds upper res fileinfoW root.next root.child strings ∧
        (Overruns res strings.child strings.next ∨
          ∃ table, IsEntry res strings.child strings.next table ∧
            (SearchOverruns upper res companyW table.next table.child ∨
              ∃ company, Finds upper res companyW table.next table.child company ∧
                CompanyOverruns res company)))

lemma le_valueSize (valLen type : ℕ) : valLen ≤ valueSize valLen type := by
  unfold valueSize
  split <;> omega

lemma readDword_ok (h : pos + 4 ≤ res.length) :
    readDword res pos = .ok (wordAt res pos + 65536 * wordAt res (pos + 2)) := by
  unfold readDword
  rw [readWord_ok (by omega), readWord_ok (by omega)]
  rfl

lemma Outcome.found {x : Except Fault (Option VersionEntry)} {bad bad' : Prop}
    {P : VersionEntry → Prop} {f : Option VersionEntry → Except Fault α} {Q : α → Prop}
    {rest : VersionEntry → Prop} {a : α}
    (h : Outcome x bad fun r => ∀ e, r = some e ↔ P e)
    (hbad : bad' ↔ bad ∨ ∃ e, P e ∧ rest e) (hunique : ∀ e e', P e → P e' → e = e')
    (hnone : f none = .ok a) (ha : Q a) (hf : ∀ e, P e → Outcome (f (some e)) (rest e) Q) :
    Outcome (x >>= f) bad' Q := by
  apply h.bind fun hover => hbad.mpr (.inl hover)
  intro r hr hnot
  cases r with
  | none =>
    rw [hnone]
    refine .ok (fun hover => ?_) ha
    obtain hover | ⟨e, he, _⟩ := hbad.mp hover
    · exact hnot hover
    · exact nomatch (hr e).mpr he
  | some e =>
    have he := (hr e).mp rfl
    have hsame : bad' ↔ rest e := by
      rw [hbad, or_iff_right hnot]
      constructor
      · rintro ⟨e', he', hrest⟩
        exact hunique e' e he' he ▸ hrest
      · exact fun hrest => ⟨e, he, hrest⟩
    rw [hsame]
    exact hf e he

lemma Finds.unique {e' : VersionEntry}
    (h : Finds upper res name stop ptr e) (h' : Finds upper res name stop ptr e') : e = e' := by
  obtain ⟨q, hq, he, hkey⟩ := h
  obtain ⟨q', hq', he', hkey'⟩ := h'
  induction hq with
  | refl p =>
    rw [(passes_found he hkey).mp hq'] at he'
    exact he.unique he'
  | next hfirst hother _ ih =>
    obtain rfl | hq' := (passes_iff hfirst hother).mp hq'
    · exact absurd (hfirst.unique he' ▸ hkey') hother
    · exact ih he hq'

lemma walk_spec (upper : ℕ → ℕ) (res : List UInt8) :
    Outcome (walk upper res) (WalkOverruns upper res) fun _ => True := by
  refine (getVersionEntry_spec res 0 res.length).found Iff.rfl (fun _ _ => IsEntry.unique) rfl trivial
    fun root hroot => ?_
  have hheader := hroot.header_inside
  have hinside := hroot.inside
  have hfits := hroot.fits
  have hsize := le_valueSize (wordAt res (0 + 2)) (wordAt res (0 + 4))
  dsimp only
  rw [readWord_ok (by omega)]
  change Outcome (ite _ _ _) _ _
  split
  · exact .ok (fun hbad => absurd hbad.1.1 (by omega)) trivial
  rename_i hlong
  rw [readDword_ok (by rw [hroot.info] at hlong; omega)]
  change Outcome (ite _ _ _) _ _
  split
  · rename_i hsignature
    exact .ok (fun hbad => hsignature hbad.1.2) trivial
  rename_i hsignature
  have hfixed : HasFixedInfo res root := ⟨by omega, not_not.mp hsignature⟩
  refine (versionFindKey_spec upper root fileinfoW).found (and_iff_right hfixed)
    (fun _ _ => Finds.unique) rfl trivial fun strings _ => ?_
  refine (getVersionEntry_spec res strings.child strings.next).found Iff.rfl
    (fun _ _ => IsEntry.unique) rfl trivial fun table _ => ?_
  refine (versionFindKey_spec upper table companyW).found Iff.rfl (fun _ _ => Finds.unique) rfl
    trivial fun company hcompany => ?_
  obtain ⟨_, _, hentry, _⟩ := hcompany
  have hheader := hentry.header_inside
  exact companyOrder_spec upper (by omega)

def Extends {α : Type} (x y : Except Fault α) : Prop :=
  ∀ a, x = .ok a → y = .ok a

lemma Extends.bind {α β : Type} {x y : Except Fault α} {f g : α → Except Fault β}
    (h : Extends x y) (hf : ∀ a, Extends (f a) (g a)) : Extends (x >>= f) (y >>= g) := by
  intro b hb
  cases hx : x with
  | error fault =>
    rw [hx] at hb
    nomatch hb
  | ok a =>
    rw [hx] at hb
    rw [h a hx]
    exact hf a b hb

lemma Extends.ite {c : Prop} [Decidable c] {x y x' y' : Except Fault α}
    (h : Extends x y) (h' : Extends x' y') : Extends (if c then x else x') (if c then y else y') := by
  split
  · exact h
  · exact h'

lemma readWord_extends (n pos : ℕ) : Extends (readWord (res.take n) pos) (readWord res pos) := by
  intro c hc
  obtain ⟨hfault, _⟩ | ⟨_, hread, hin, rfl⟩ := readWord_spec (res.take n) pos
  · rw [hfault] at hc
    nomatch hc
  rw [length_take] at hin
  have hlo : pos < n := by omega
  have hhi : pos + 1 < n := by omega
  have hsame : wordAt (res.take n) pos = wordAt res pos := by
    unfold wordAt
    simp [getD_eq_getElem?_getD, hlo, hhi]
  rw [readWord_ok (by omega), ← hsame, ← hread]
  exact hc

lemma wcsnicmp_extends (upper : ℕ → ℕ) (n : ℕ) (name : List ℕ) (pos : ℕ) :
    Extends (wcsnicmp upper (res.take n) pos name) (wcsnicmp upper res pos name) := by
  induction name generalizing pos with
  | nil => exact fun _ h => h
  | cons d name ih =>
    apply (readWord_extends n pos).bind
    intro c
    exact .ite (fun _ h => h) (.ite (fun _ h => h) (ih (pos + 2)))

lemma findVendor_extends (upper : ℕ → ℕ) (n len : ℕ) (table : List (List ℕ × LoadOrder)) :
    Extends (findVendor upper (res.take n) pos len table) (findVendor upper res pos len table) := by
  induction table with
  | nil => exact fun _ h => h
  | cons vendor table ih =>
    refine .ite ih ((wcsnicmp_extends upper n vendor.1 pos).bind fun b => ?_)
    exact .ite (fun _ h => h) ih

lemma companyOrder_extends (upper : ℕ → ℕ) (n : ℕ) :
    Extends (companyOrder upper (res.take n) e) (companyOrder upper res e) := by
  refine (readWord_extends n _).bind fun type => (readWord_extends n _).bind fun len => ?_
  refine .ite (fun _ h => h) ((readWord_extends n _).bind fun last => ?_)
  exact findVendor_extends upper n _ vendors

lemma IsEntry.companyOrder_take (h : IsEntry res ptr stop e) (upper : ℕ → ℕ) :
    companyOrder upper (res.take (ptr + wordAt res ptr)) e = companyOrder upper res e := by
  obtain hle | hle := Nat.le_total res.length (ptr + wordAt res ptr)
  · rw [take_of_length_le hle]
  have hlength := length_take_of_le hle
  have hvalue := h.value_ge
  have hinside := h.inside
  have hinfo := h.info
  have hword : ∀ k, k + 2 ≤ ptr + wordAt res ptr →
      wordAt (res.take (ptr + wordAt res ptr)) k = wordAt res k := by
    intro k hk
    have hread := @readWord_extends res _ k _ (readWord_ok (hk.trans_eq hlength.symm))
    rw [readWord_ok (by omega)] at hread
    exact (Except.ok.inj hread).symm
  obtain ⟨_, hbad⟩ | ⟨lo, hlo, _⟩ :=
    @companyOrder_spec (res.take (ptr + wordAt res ptr)) e upper (by omega)
  · obtain ⟨htype, hlen, hout⟩ := hbad
    rw [hword _ (by omega)] at htype hout
    rw [hlength, hinfo] at hout
    rw [hinfo] at htype
    unfold valueSize at hinside
    rw [if_pos htype] at hinside
    omega
  · rw [hlo, companyOrder_extends upper _ lo hlo]

lemma IsEntry.readDword_take (h : IsEntry res ptr stop e) (hlen : 52 ≤ wordAt res (ptr + 2)) :
    readDword (res.take (ptr + wordAt res ptr)) e.value = readDword res e.value := by
  have hinside := h.inside
  have hsize := le_valueSize (wordAt res (ptr + 2)) (wordAt res (ptr + 4))
  obtain hle | hle := Nat.le_total res.length (ptr + wordAt res ptr)
  · rw [take_of_length_le hle]
  have hlength := length_take_of_le hle
  have hread := @readDword_ok (res.take (ptr + wordAt res ptr)) e.value (by omega)
  have hextends : Extends (readDword (res.take (ptr + wordAt res ptr)) e.value)
      (readDword res e.value) :=
    (readWord_extends _ _).bind fun lo => (readWord_extends _ _).bind fun hi _ h => h
  rw [hread, hextends _ hread]

lemma getVersionEntry_some (h : getVersionEntry res ptr stop = .ok (some e)) :
    IsEntry res ptr stop e := by
  obtain ⟨hfault, _⟩ | ⟨r, hr, _, hentry⟩ := getVersionEntry_spec res ptr stop
  · exact nomatch h.symm.trans hfault
  · exact (hentry e).mp (Except.ok.inj (hr.symm.trans h))

/-- Where the walk stays in the resource. It terminates, its siblings rise, and an entry that it
accepts has its key, its value and what is read of them in itself. -/
theorem version_walk_bounded (upper : ℕ → ℕ) (res : List UInt8) :
    (∀ ptr stop, (∃ r, getVersionEntry res ptr stop = .ok r) ↔ ¬Overruns res ptr stop) ∧
    (∀ parent name, (∃ r, versionFindKey upper res parent name = .ok r) ↔
      ¬SearchOverruns upper res name parent.next parent.child) ∧
    (∀ parent name, versionFindKey upper res parent name ≠ .error .endless) ∧
    (∀ mapping, mapping.versionRes = res →
      ((∃ lo, versionHeuristics upper (some mapping) = .ok lo) ↔
        mapping.wineBuiltin ∨ mapping.wineFakedll ∨ res = [] ∨ ¬WalkOverruns upper res)) ∧
    ∀ ptr stop e, getVersionEntry res ptr stop = .ok (some e) →
      (∃ len, EndsAt res ptr 0 len ∧ keyOffset (len + 1) ≤ wordAt res ptr) ∧
      ptr + 8 ≤ e.value ∧ e.value + valueSize (wordAt res (ptr + 2)) (wordAt res (ptr + 4)) ≤
        ptr + wordAt res ptr ∧
      ptr + wordAt res ptr ≤ stop ∧ ptr < e.next ∧
      companyOrder upper (res.take (ptr + wordAt res ptr)) e = companyOrder upper res e ∧
      (52 ≤ wordAt res (ptr + 2) →
        readDword (res.take (ptr + wordAt res ptr)) e.value = readDword res e.value) := by
  refine ⟨fun ptr stop => (getVersionEntry_spec res ptr stop).iff,
    fun parent name => (versionFindKey_spec upper parent name).iff, ?_, ?_, ?_⟩
  · intro parent name hend
    obtain ⟨hfault, _⟩ | ⟨r, hr, _⟩ := @versionFindKey_spec res upper parent name
    · exact nomatch hend.symm.trans hfault
    · exact nomatch hend.symm.trans hr
  · rintro mapping rfl
    change (∃ lo, ite _ _ _ = _) ↔ _
    split
    · rename_i hwine
      rw [Bool.or_eq_true] at hwine
      exact iff_of_true ⟨_, rfl⟩ (hwine.elim .inl fun h => .inr (.inl h))
    · rename_i hwine
      rw [Bool.or_eq_true, not_or] at hwine
      rw [or_iff_right hwine.1, or_iff_right hwine.2]
      split
      · rename_i hempty
        exact iff_of_true ⟨_, rfl⟩ (.inl (length_eq_zero_iff.mp hempty))
      · rename_i hsome
        rw [or_iff_right (mt length_eq_zero_iff.mpr hsome)]
        exact (walk_spec upper mapping.versionRes).iff
  · intro ptr stop e he
    have hentry := getVersionEntry_some he
    have hvalue := hentry.value_ge
    have hnext := hentry.next_ge
    have hinside := hentry.inside
    obtain ⟨len, hends, _, hkey⟩ := hentry.key
    refine ⟨⟨len, hends, ?_⟩, hvalue, hinside, hentry.fits, by omega,
      hentry.companyOrder_take upper, hentry.readDword_take⟩
    unfold round4 at hkey
    omega

def blank : List UInt8 := [60, 0, 52, 0, 0, 0, 0, 0] ++ List.replicate 52 0

theorem version_walk_bounded_blank :
    ((∃ lo, versionHeuristics id (some ⟨false, false, blank⟩) = .ok lo) ↔
      (false : Bool) ∨ (false : Bool) ∨ blank = [] ∨ ¬WalkOverruns id blank) ∧
    readDword (blank.take (0 + wordAt blank 0)) 8 = readDword blank 8 := by
  have h := version_walk_bounded id blank
  have hentry := h.2.2.2.2 0 60 ⟨0, 8, 60, 60⟩ (by decide)
  exact ⟨h.2.2.2.1 ⟨false, false, blank⟩ rfl, hentry.2.2.2.2.2.2 (by decide)⟩

/-- The resource ends behind a key that has no end. -/
theorem version_walk_reads_behind_end :
    versionHeuristics id (some ⟨false, false, [8, 0, 0, 0, 0, 0, 65, 0]⟩) = .error .outside := by
  decide

end WineForge.VersionResource
