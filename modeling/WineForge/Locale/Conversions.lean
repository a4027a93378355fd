import WineForge.Locale.Chunks

/-!
# The results of the conversions

Each function computes a part of the full conversion: its length, as many whole characters as there
is room for, or as many units as there is room for.
-/

namespace WineForge.Locale

open Library List Option

lemma length_wcChunk_le (ch : UInt16) (src : List UInt16) :
    (wcChunk ch src).2.length ≤ src.length := by
  unfold wcChunk
  split
  · exact le_refl _
  · simp only [length_drop]
    omega

def wcChunks : List UInt16 → List (Chunk UInt8)
  | [] => []
  | ch :: src => (wcChunk ch src).1 :: wcChunks (wcChunk ch src).2
termination_by src => src.length
decreasing_by exact Nat.lt_succ_of_le (length_wcChunk_le ch src)

def mbChunks : List UInt8 → List (Chunk UInt16)
  | [] => []
  | ch :: src => (mbChunk ch src).1 :: mbChunks (mbChunk ch src).2
termination_by src => src.length
decreasing_by exact Nat.lt_succ_of_le (length_mbChunk_le ch src)

section Output

variable {α : Type}

def pieces (chunks : List (Chunk α)) : List (List α) := chunks.map Chunk.out

def output (chunks : List (Chunk α)) : List α := (pieces chunks).flatten

def statusFrom (chunks : List (Chunk α)) (status : Status) : Status :=
  chunks.foldl (fun status chunk => chunk.status status) status

@[simp] lemma output_nil : output ([] : List (Chunk α)) = [] := rfl

@[simp] lemma output_cons (chunk : Chunk α) (chunks : List (Chunk α)) :
    output (chunk :: chunks) = chunk.out ++ output chunks := rfl

@[simp] lemma pieces_cons (chunk : Chunk α) (chunks : List (Chunk α)) :
    pieces (chunk :: chunks) = chunk.out :: pieces chunks := rfl

@[simp] lemma statusFrom_cons (chunk : Chunk α) (chunks : List (Chunk α)) (status : Status) :
    statusFrom (chunk :: chunks) status = statusFrom chunks (chunk.status status) := rfl

lemma Chunk.status_ne (chunk : Chunk α) {status : Status} (h : status ≠ .bufferTooSmall) :
    chunk.status status ≠ .bufferTooSmall := by
  unfold Chunk.status
  split
  · exact h
  · decide

lemma statusFrom_ne (chunks : List (Chunk α)) {status : Status} (h : status ≠ .bufferTooSmall) :
    statusFrom chunks status ≠ .bufferTooSmall := by
  induction chunks generalizing status with
  | nil => exact h
  | cons chunk chunks ih => exact ih (chunk.status_ne h)

end Output

lemma wcstombsSizeLoop_spec (src : List UInt16) {len : Nat} (hlen : len < 2 ^ 32) (status : Status) :
    wcstombsSizeLoop src len status =
      (statusFrom (wcChunks src) status, (len + (output (wcChunks src)).length) % 2 ^ 32) := by
  induction src using wcChunks.induct generalizing len status with
  | case1 =>
    rw [wcstombsSizeLoop, wcChunks, output_nil, length_nil, Nat.add_zero, Nat.mod_eq_of_lt hlen]
    rfl
  | case2 ch src ih =>
    rw [wcstombsSizeLoop_cons, ih (Nat.mod_lt _ (by decide)), wcChunks, statusFrom_cons, output_cons,
      length_append, Nat.mod_add_mod, Nat.add_assoc]

lemma mbstowcsSizeLoop_spec (src : List UInt8) {len : Nat} (hlen : len < 2 ^ 32) (status : Status) :
    mbstowcsSizeLoop src len status =
      (statusFrom (mbChunks src) status, (len + (output (mbChunks src)).length) % 2 ^ 32) := by
  induction src using mbChunks.induct generalizing len status with
  | case1 =>
    rw [mbstowcsSizeLoop, mbChunks, output_nil, length_nil, Nat.add_zero, Nat.mod_eq_of_lt hlen]
    rfl
  | case2 ch src ih =>
    rw [mbstowcsSizeLoop_cons, ih (Nat.mod_lt _ (by decide)), mbChunks, statusFrom_cons, output_cons,
      length_append, Nat.mod_add_mod, Nat.add_assoc]

theorem utf8WcstombsSize_eq (src : List UInt16) : utf8WcstombsSize src =
    (statusFrom (wcChunks src) .success, (output (wcChunks src)).length % 2 ^ 32) := by
  rw [utf8WcstombsSize, wcstombsSizeLoop_spec src (by decide), Nat.zero_add]

theorem utf8MbstowcsSize_eq (src : List UInt8) : utf8MbstowcsSize src =
    (statusFrom (mbChunks src) .success, (output (mbChunks src)).length % 2 ^ 32) := by
  rw [utf8MbstowcsSize, mbstowcsSizeLoop_spec src (by decide), Nat.zero_add]

lemma encodeLoop_spec {loop : List UInt8 → Nat → List UInt16 → Status → Option (Conversion UInt8)}
    {turn : UInt16 → List UInt16 → Chunk UInt8 × List UInt16}
    {turns : List UInt16 → List (Chunk UInt8)}
    (hshorter : ∀ ch src, (turn ch src).2.length ≤ src.length) (hturns : turns [] = [])
    (hturnscons : ∀ ch src, turns (ch :: src) = (turn ch src).1 :: turns (turn ch src).2)
    (hnil : ∀ dst pos status, loop dst pos [] status = some ⟨status, pos, dst⟩)
    (hcons : ∀ dst pos ch src status, loop dst pos (ch :: src) status =
      if pos + (turn ch src).1.out.length > dst.length then some ⟨.bufferTooSmall, pos, dst⟩
      else (put dst pos (turn ch src).1.out).bind fun dst =>
        loop dst (pos + (turn ch src).1.out.length) (turn ch src).2 ((turn ch src).1.status status))
    (n : Nat) (src : List UInt16) (hn : src.length ≤ n) {dst : List UInt8} {pos : Nat}
    (hpos : pos ≤ dst.length) (status : Status) :
    loop dst pos src status =
      (put dst pos (fitting (dst.length - pos) (pieces (turns src))).flatten).map fun dst' =>
        ⟨if (output (turns src)).length ≤ dst.length - pos then statusFrom (turns src) status
          else .bufferTooSmall,
          pos + (fitting (dst.length - pos) (pieces (turns src))).flatten.length, dst'⟩ := by
  have hempty : ∀ {dst : List UInt8} {pos : Nat} (status : Status), pos ≤ dst.length →
      loop dst pos [] status =
      (put dst pos (fitting (dst.length - pos) (pieces (turns []))).flatten).map fun dst' =>
        ⟨if (output (turns [])).length ≤ dst.length - pos then statusFrom (turns []) status
          else .bufferTooSmall,
          pos + (fitting (dst.length - pos) (pieces (turns []))).flatten.length, dst'⟩ := by
    intro dst pos status hpos
    have hput : put dst pos (fitting (dst.length - pos) (pieces ([] : List (Chunk UInt8)))).flatten =
        some dst := put_nil hpos
    rw [hnil, hturns, hput, map_some, output_nil, length_nil, if_pos (Nat.zero_le _)]
    rfl
  induction n generalizing src dst pos status with
  | zero =>
    rw [eq_nil_of_length_eq_zero (Nat.le_zero.mp hn)]
    exact hempty status hpos
  | succ n ih =>
    cases src with
    | nil => exact hempty status hpos
    | cons ch src =>
      have hrest : (turn ch src).2.length ≤ n :=
        (hshorter ch src).trans (Nat.le_of_lt_succ hn)
      rw [hcons, hturnscons, output_cons, pieces_cons, fitting, length_append]
      generalize (turn ch src).1 = chunk at ih ⊢
      by_cases hfit : chunk.out.length ≤ dst.length - pos
      · have hle : pos + chunk.out.length ≤ dst.length := by omega
        have hput := put_eq hle
        have hlength := length_of_put hput
        rw [if_neg (by omega), if_pos hfit, hput, bind_some, ih _ hrest (by omega), hlength,
          statusFrom_cons, flatten_cons, length_append, ← Nat.add_assoc]
        have hroom : dst.length - (pos + chunk.out.length) = dst.length - pos - chunk.out.length := by
          omega
        rw [hroom]
        have hrest := length_fitting_le (dst.length - pos - chunk.out.length)
          (pieces (turns (turn ch src).2))
        rw [put_put hput (by omega)]
        have hiff : (output (turns (turn ch src).2)).length ≤ dst.length - pos - chunk.out.length ↔
            chunk.out.length + (output (turns (turn ch src).2)).length ≤ dst.length - pos := by
          omega
        simp only [hiff]
      · rw [if_pos (by omega), if_neg hfit, if_neg (by omega)]
        have hput : put dst pos ([] : List (List UInt8)).flatten = some dst := put_nil hpos
        rw [hput]
        rfl

lemma wcstombsLoop_spec (src : List UInt16) {dst : List UInt8} {pos : Nat} (hpos : pos ≤ dst.length)
    (status : Status) :
    wcstombsLoop dst pos src status =
      (put dst pos (fitting (dst.length - pos) (pieces (wcChunks src))).flatten).map fun dst' =>
        ⟨if (output (wcChunks src)).length ≤ dst.length - pos then statusFrom (wcChunks src) status
          else .bufferTooSmall,
          pos + (fitting (dst.length - pos) (pieces (wcChunks src))).flatten.length, dst'⟩ := by
  have hturns : ∀ ch src, wcChunks (ch :: src) = (wcChunk ch src).1 :: wcChunks (wcChunk ch src).2 :=
    fun ch src => by rw [wcChunks]
  have hnil : ∀ (dst : List UInt8) pos status,
      wcstombsLoop dst pos [] status = some ⟨status, pos, dst⟩ :=
    fun dst pos status => by rw [wcstombsLoop]
  exact encodeLoop_spec length_wcChunk_le wcChunks.eq_1 hturns hnil wcstombsLoop_cons
    src.length src (le_refl _) hpos status

lemma mbstowcsLoop_spec (src : List UInt8) {dst : List UInt16} {pos : Nat} (hpos : pos ≤ dst.length)
    (status : Status) :
    mbstowcsLoop dst pos src status =
      (put dst pos ((output (mbChunks src)).take (dst.length - pos))).map fun dst' =>
        ⟨if (output (mbChunks src)).length ≤ dst.length - pos then statusFrom (mbChunks src) status
          else .bufferTooSmall, pos + ((output (mbChunks src)).take (dst.length - pos)).length, dst'⟩ := by
  induction src using mbChunks.induct generalizing dst pos status with
  | case1 =>
    rw [mbstowcsLoop, mbChunks, output_nil, take_nil, put_nil hpos, map_some, length_nil,
      if_pos (Nat.zero_le _)]
    split <;> rfl
  | case2 ch src ih =>
    have hout := mbChunk_out ch src
    by_cases hlt : pos < dst.length
    · rw [mbstowcsLoop_cons dst pos ch src status hlt, mbChunks, output_cons, length_append]
      generalize (mbChunk ch src).1 = chunk at hout ih ⊢
      by_cases hfit : pos + chunk.out.length ≤ dst.length
      · have hput := put_eq hfit
        have hlength := length_of_put hput
        have htake : (chunk.out ++ output (mbChunks (mbChunk ch src).2)).take (dst.length - pos) =
            chunk.out ++ (output (mbChunks (mbChunk ch src).2)).take
              (dst.length - (pos + chunk.out.length)) := by
          rw [take_append, take_of_length_le (by omega), Nat.sub_sub]
        rw [if_pos hfit, hput, bind_some, ih (by omega), hlength, statusFrom_cons, htake,
          put_put hput (by simp only [length_take]; omega), length_append, ← Nat.add_assoc]
        have hiff : (output (mbChunks (mbChunk ch src).2)).length ≤
              dst.length - (pos + chunk.out.length) ↔
            chunk.out.length + (output (mbChunks (mbChunk ch src).2)).length ≤ dst.length - pos := by
          omega
        simp only [hiff]
      · have hroom : dst.length - pos = 1 := by omega
        have htake : (chunk.out ++ output (mbChunks (mbChunk ch src).2)).take 1 = chunk.out.take 1 :=
          take_append_of_le_length (by omega)
        have hone : (chunk.out.take 1).length = 1 := by
          rw [length_take]
          omega
        rw [if_neg hfit, hroom, htake, if_neg (by omega), hone]
    · have hroom : dst.length - pos = 0 := by omega
      rw [mbstowcsLoop, if_neg hlt, mbChunks, output_cons, hroom, take_zero, put_nil hpos,
        map_some, if_neg (by simp), if_neg (by rw [length_append]; omega)]
      rfl

theorem utf8Wcstombs_eq (dst : List UInt8) (src : List UInt16) : utf8Wcstombs dst src =
    (put dst 0 (fitting dst.length (pieces (wcChunks src))).flatten).map fun dst' =>
      ⟨if (output (wcChunks src)).length ≤ dst.length then statusFrom (wcChunks src) .success
        else .bufferTooSmall, (fitting dst.length (pieces (wcChunks src))).flatten.length, dst'⟩ := by
  rw [utf8Wcstombs, wcstombsLoop_spec src (Nat.zero_le _)]
  simp only [Nat.sub_zero, Nat.zero_add]

theorem utf8Mbstowcs_eq (dst : List UInt16) (src : List UInt8) : utf8Mbstowcs dst src =
    (put dst 0 ((output (mbChunks src)).take dst.length)).map fun dst' =>
      ⟨if (output (mbChunks src)).length ≤ dst.length then statusFrom (mbChunks src) .success
        else .bufferTooSmall, ((output (mbChunks src)).take dst.length).length, dst'⟩ := by
  rw [utf8Mbstowcs, mbstowcsLoop_spec src (Nat.zero_le _)]
  simp only [Nat.sub_zero, Nat.zero_add]

end WineForge.Locale
