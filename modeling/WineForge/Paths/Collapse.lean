import WineForge.Library.Separated

/-!
# Collapsing a DOS path

`collapse_path` of `ntdll/path.c`. The path is the text before its terminator. A position `p` in it
is a pair of the characters before it, the nearest first, and those from it on, so `p-1` is the
head of the first list, `p > path + mark` compares the length of that list with `mark`, and a
`memmove` to `p` replaces the second list.
-/

namespace WineForge.Paths

open List Option

def slash : UInt16 := 0x2f

def backslash : UInt16 := 0x5c

def dot : UInt16 := 0x2e

def space : UInt16 := 0x20

/-- Every `/` becomes a `\`. -/
def convertSlashes (path : List UInt16) : List UInt16 :=
  path.map fun c => if c = slash then backslash else c

/-- Repeated backslashes; `front` is what has been written. -/
def collapseBackslashes (front : List UInt16) : List UInt16 → List UInt16
  | [] => front
  | c :: rest =>
    if c ≠ backslash ∨ front.head? ≠ some backslash then collapseBackslashes (c :: front) rest
    else collapseBackslashes front rest

/-- `while (p > path + mark && p[-1] != '\\') p--;` -/
def backToSeparator (mark : ℕ) : List UInt16 → List UInt16
  | [] => []
  | c :: front =>
    if mark < front.length + 1 ∧ c ≠ backslash then backToSeparator mark front else c :: front

/-- `if (p > path + mark) p--;` -/
def stepBack (mark : ℕ) (front : List UInt16) : List UInt16 :=
  if mark < front.length then front.tail else front

/-- Back over the component before `p`. -/
def backUp (mark : ℕ) (front : List UInt16) : List UInt16 :=
  if mark < front.length then backToSeparator mark front.tail else front

def skipComponent (mark : ℕ) (front rest : List UInt16) : List UInt16 × List UInt16 :=
  let front := (rest.takeWhile (· ≠ backslash)).reverse ++ front
  match rest.dropWhile (· ≠ backslash) with
  | [] => (front, [])
  | c :: rest =>
    if mark < front.length ∧ front.head? = some dot then (c :: front.tail, rest)
    else (c :: front, rest)

def collapseTurn (mark : ℕ) (front rest : List UInt16) : List UInt16 × List UInt16 :=
  match rest with
  | [] => (front, [])
  | c :: next =>
    if c = dot then
      match next with
      | [] => (stepBack mark front, [])
      | d :: next =>
        if d = backslash then (front, next)
        else if d = dot then
          match next with
          | [] => (stepBack mark (backUp mark front), [])
          | e :: next =>
            if e = backslash then (backUp mark front, next) else skipComponent mark front rest
        else skipComponent mark front rest
    else skipComponent mark front rest

lemma length_skipComponent (mark : ℕ) (front : List UInt16) {rest : List UInt16} (h : rest ≠ []) :
    (skipComponent mark front rest).2.length < rest.length := by
  have hpos : 0 < rest.length := length_pos_iff.mpr h
  have hle := (dropWhile_suffix (p := fun c => decide (c ≠ backslash)) (l := rest)).length_le
  unfold skipComponent
  cases hdrop : rest.dropWhile (fun c => decide (c ≠ backslash)) with
  | nil => exact hpos
  | cons c next =>
    rw [hdrop, length_cons] at hle
    dsimp only
    split
    · exact hle
    · exact hle

lemma length_collapseTurn (mark : ℕ) (front : List UInt16) {rest : List UInt16} (h : rest ≠ []) :
    (collapseTurn mark front rest).2.length < rest.length := by
  have hskip := length_skipComponent mark front h
  unfold collapseTurn
  grind

/-- `while (*p)`; what is left is the text before the end. -/
def collapseLoop (mark : ℕ) (front rest : List UInt16) : List UInt16 :=
  if _h : rest = [] then front
  else collapseLoop mark (collapseTurn mark front rest).1 (collapseTurn mark front rest).2
termination_by rest.length
decreasing_by exact length_collapseTurn mark front _h

def trimEnd (mark : ℕ) : List UInt16 → List UInt16
  | [] => []
  | c :: front =>
    if mark < front.length + 1 ∧ (c = space ∨ c = dot) then trimEnd mark front else c :: front

def collapsePath (path : List UInt16) (mark : ℕ) : Option (List UInt16) :=
  let path := convertSlashes path
  let start := max 1 mark
  if path.length < start then none
  else
    let path := (collapseBackslashes (path.take start).reverse (path.drop start)).reverse
    let front := collapseLoop mark (path.take mark).reverse (path.drop mark)
    some (trimEnd mark front).reverse

/-!
## Collapsing as a machine over components

The text after the mark is a list of directory names and a last name. A stack holds the names that
are kept: the machine enters one directory name after the other and then leaves with the last name.
The in-place loops have the text of the stack before the position they have reached.
-/

open Library

def leading (mark : ℕ) : ℕ :=
  if mark = 0 then 1 else 0

def presentNames (mark : ℕ) (dirs : List (List UInt16)) : List (List UInt16) :=
  dirs.take (leading mark) ++ (dirs.drop (leading mark)).filter (· ≠ [])

def withoutFinalDot (name : List UInt16) : List UInt16 :=
  if name.getLast? = some dot then name.dropLast else name

def enter (stack : List (List UInt16)) (name : List UInt16) : List (List UInt16) :=
  if name = [dot] then stack
  else if name = [dot, dot] then stack.dropLast
  else stack ++ [withoutFinalDot name]

def joined (stack : List (List UInt16)) : List UInt16 :=
  (separated backslash stack []).dropLast

def leave (stack : List (List UInt16)) (last : List UInt16) : List UInt16 :=
  if last = [dot] then joined stack
  else if last = [dot, dot] then joined stack.dropLast
  else separated backslash stack last

def trimmed (text : List UInt16) : List UInt16 :=
  text.rdropWhile fun c => c = space ∨ c = dot

/-- The components of `text` from left to right. -/
def machine (mark : ℕ) (text : List UInt16) : List UInt16 :=
  let names := text.splitOn backslash
  trimmed (leave ((presentNames mark names.dropLast).foldl enter []) (names.getLastD []))

lemma backslash_ne_dot : backslash ≠ dot := by
  decide

lemma backslash_not_trimmed : decide (backslash = space ∨ backslash = dot) = false := by
  decide

/-- What is before the position: the text of the stack after the part that is kept. -/
def frontOf (pre : List UInt16) (stack : List (List UInt16)) : List UInt16 :=
  (separated backslash stack []).reverse ++ pre

section front

variable {pre : List UInt16} {mark : ℕ} {stack : List (List UInt16)} {d last rest : List UInt16}

lemma frontOf_concat (pre : List UInt16) (stack : List (List UInt16)) (d : List UInt16) :
    frontOf pre (stack ++ [d]) = backslash :: (d.reverse ++ frontOf pre stack) := by
  have htext : separated backslash stack d = separated backslash stack [] ++ d :=
    separated_append backslash stack [] d
  unfold frontOf
  rw [separated_concat, htext]
  simp

lemma length_frontOf (pre : List UInt16) (stack : List (List UInt16)) :
    pre.length ≤ (frontOf pre stack).length := by
  rw [frontOf, length_append]
  omega

lemma frontOf_stops (pre : List UInt16) (stack : List (List UInt16)) :
    (frontOf pre stack).length = pre.length ∨ (frontOf pre stack).head? = some backslash := by
  obtain rfl | ⟨s, d, rfl⟩ := eq_nil_or_concat stack
  · exact .inl rfl
  · rw [concat_eq_append, frontOf_concat]
    exact .inr rfl

lemma backToSeparator_append {front : List UInt16} (hle : mark ≤ front.length)
    (hstop : front.length = mark ∨ front.head? = some backslash) {xs : List UInt16}
    (hxs : backslash ∉ xs) : backToSeparator mark (xs ++ front) = front := by
  induction xs with
  | nil =>
    cases front with
    | nil => rfl
    | cons c front =>
      rw [nil_append, backToSeparator]
      apply if_neg
      rintro ⟨hlt, hne⟩
      obtain hlen | hhead := hstop
      · rw [length_cons] at hlen
        omega
      · exact hne (some.inj hhead)
  | cons x xs ih =>
    rw [mem_cons, not_or] at hxs
    have hlt : mark < (xs ++ front).length + 1 := by
      rw [length_append]
      omega
    rw [cons_append, backToSeparator, if_pos ⟨hlt, Ne.symm hxs.1⟩]
    exact ih hxs.2

lemma backUp_frontOf (hpre : pre.length = mark) (hstack : ∀ d ∈ stack, backslash ∉ d) :
    backUp mark (frontOf pre stack) = frontOf pre stack.dropLast := by
  obtain rfl | ⟨s, d, rfl⟩ := eq_nil_or_concat stack
  · exact if_neg (by simp [frontOf, separated_nil, hpre])
  have hd : backslash ∉ d.reverse := by
    rw [mem_reverse]
    exact hstack d (by simp)
  have hle := length_frontOf pre s
  have hlt : mark < (backslash :: (d.reverse ++ frontOf pre s)).length := by
    rw [length_cons, length_append]
    omega
  rw [concat_eq_append, frontOf_concat, dropLast_concat, backUp, if_pos hlt]
  exact backToSeparator_append (hpre ▸ hle) (hpre ▸ frontOf_stops pre s) hd

lemma stepBack_frontOf (hpre : pre.length = mark) :
    stepBack mark (frontOf pre stack) = (joined stack).reverse ++ pre := by
  obtain rfl | ⟨s, d, rfl⟩ := eq_nil_or_concat stack
  · exact if_neg (by simp [frontOf, separated_nil, hpre])
  have hlt : mark < (frontOf pre (s ++ [d])).length := by
    have hle := length_frontOf pre s
    rw [frontOf_concat, length_cons, length_append]
    omega
  rw [concat_eq_append, stepBack, if_pos hlt, joined, separated_concat,
    dropLast_concat, frontOf_concat]
  have htext : separated backslash s d = separated backslash s [] ++ d :=
    separated_append backslash s [] d
  rw [htext, tail_cons, reverse_append, append_assoc]
  rfl

lemma notSeparator (h : backslash ∉ d) : ∀ c ∈ d, decide (c ≠ backslash) = true := by
  intro c hc
  rw [decide_eq_true_iff]
  rintro rfl
  exact h hc

lemma skipComponent_dir (hpre : pre.length = mark) (hd : backslash ∉ d) :
    skipComponent mark (frontOf pre stack) (d ++ backslash :: rest) =
      (frontOf pre (stack ++ [withoutFinalDot d]), rest) := by
  have hle := length_frontOf pre stack
  have htake : (d ++ backslash :: rest).takeWhile (fun c => decide (c ≠ backslash)) = d := by
    rw [takeWhile_append_of_pos (notSeparator hd)]
    simp
  have hdrop : (d ++ backslash :: rest).dropWhile (fun c => decide (c ≠ backslash)) =
      backslash :: rest := by
    rw [dropWhile_append_of_pos (notSeparator hd)]
    simp
  rw [skipComponent, htake, hdrop, frontOf_concat]
  dsimp only
  obtain rfl | ⟨name, c, rfl⟩ := eq_nil_or_concat d
  · -- an empty name has no last dot: before it is a separator or the mark
    rw [if_neg, withoutFinalDot, if_neg (by simp)]
    rintro ⟨hlt, hhead⟩
    rw [reverse_nil, nil_append] at hlt hhead
    obtain hlen | hsep := frontOf_stops pre stack
    · omega
    · rw [hsep] at hhead
      exact backslash_ne_dot (some.inj hhead)
  rw [concat_eq_append, reverse_append, reverse_singleton, withoutFinalDot, getLast?_concat]
  by_cases hc : c = dot
  · have hlt : mark < ([c] ++ name.reverse ++ frontOf pre stack).length := by
      simp only [length_append, length_singleton]
      omega
    rw [if_pos ⟨hlt, congrArg some hc⟩, if_pos (congrArg some hc), dropLast_concat]
    rfl
  · rw [if_neg fun h => hc (some.inj h.2), if_neg fun h => hc (some.inj h), reverse_append]
    rfl

lemma skipComponent_last (front : List UInt16) (hlast : backslash ∉ last) :
    skipComponent mark front last = (last.reverse ++ front, []) := by
  have htake : last.takeWhile (fun c => decide (c ≠ backslash)) = last :=
    takeWhile_eq_self_iff.mpr (notSeparator hlast)
  have hdrop : last.dropWhile (fun c => decide (c ≠ backslash)) = [] :=
    dropWhile_eq_nil_iff.mpr (notSeparator hlast)
  rw [skipComponent, htake, hdrop]

lemma collapseTurn_dir_skip (front : List UInt16) (hd : backslash ∉ d) (hdot : d ≠ [dot])
    (hdots : d ≠ [dot, dot]) :
    collapseTurn mark front (d ++ backslash :: rest) =
      skipComponent mark front (d ++ backslash :: rest) := by
  match d with
  | [] => simp only [collapseTurn, nil_append, if_neg backslash_ne_dot]
  | [c] =>
    have hc : c ≠ dot := fun h => hdot (h ▸ rfl)
    exact if_neg hc
  | [c, c'] =>
    simp only [mem_cons, not_mem_nil, or_false, not_or] at hd
    by_cases hc : c = dot
    · have hc' : c' ≠ dot := fun h => hdots (by rw [hc, h])
      simp only [collapseTurn, cons_append, if_pos hc, if_neg (Ne.symm hd.2), if_neg hc']
    · simp only [collapseTurn, cons_append, if_neg hc]
  | c :: c' :: c'' :: d =>
    simp only [mem_cons, not_or] at hd
    simp only [collapseTurn, cons_append, if_neg (Ne.symm hd.2.1),
      if_neg (Ne.symm hd.2.2.1), ite_self]

lemma collapseTurn_last_skip (front : List UInt16) (hlast : backslash ∉ last)
    (hdot : last ≠ [dot]) (hdots : last ≠ [dot, dot]) (hne : last ≠ []) :
    collapseTurn mark front last = skipComponent mark front last := by
  match last with
  | [] => exact absurd rfl hne
  | [c] =>
    have hc : c ≠ dot := fun h => hdot (h ▸ rfl)
    exact if_neg hc
  | [c, c'] =>
    simp only [mem_cons, not_mem_nil, or_false, not_or] at hlast
    by_cases hc : c = dot
    · have hc' : c' ≠ dot := fun h => hdots (by rw [hc, h])
      simp only [collapseTurn, if_pos hc, if_neg (Ne.symm hlast.2), if_neg hc']
    · simp only [collapseTurn, if_neg hc]
  | c :: c' :: c'' :: last =>
    simp only [mem_cons, not_or] at hlast
    simp only [collapseTurn, if_neg (Ne.symm hlast.2.1), if_neg (Ne.symm hlast.2.2.1), ite_self]

lemma collapseTurn_dir (hpre : pre.length = mark) (hstack : ∀ name ∈ stack, backslash ∉ name)
    (hd : backslash ∉ d) :
    collapseTurn mark (frontOf pre stack) (d ++ backslash :: rest) =
      (frontOf pre (enter stack d), rest) := by
  unfold enter
  split_ifs with hdot hdots
  · subst hdot
    rfl
  · subst hdots
    rw [← backUp_frontOf hpre hstack]
    rfl
  · rw [collapseTurn_dir_skip (frontOf pre stack) hd hdot hdots]
    exact skipComponent_dir hpre hd

lemma collapseTurn_last (hpre : pre.length = mark) (hstack : ∀ name ∈ stack, backslash ∉ name)
    (hlast : backslash ∉ last) (hne : last ≠ []) :
    collapseTurn mark (frontOf pre stack) last = ((leave stack last).reverse ++ pre, []) := by
  unfold leave
  split_ifs with hdot hdots
  · subst hdot
    rw [← stepBack_frontOf hpre]
    rfl
  · subst hdots
    rw [← stepBack_frontOf hpre, ← backUp_frontOf hpre hstack]
    rfl
  have htext : separated backslash stack last = separated backslash stack [] ++ last :=
    separated_append backslash stack [] last
  rw [collapseTurn_last_skip (frontOf pre stack) hlast hdot hdots hne,
    skipComponent_last (frontOf pre stack) hlast, htext, reverse_append,
    append_assoc]
  rfl

lemma collapseLoop_nil (mark : ℕ) (front : List UInt16) : collapseLoop mark front [] = front := by
  rw [collapseLoop, dif_pos rfl]

lemma collapseLoop_of_turn {mark : ℕ} {front rest front' rest' : List UInt16} (hne : rest ≠ [])
    (hturn : collapseTurn mark front rest = (front', rest')) :
    collapseLoop mark front rest = collapseLoop mark front' rest' := by
  rw [collapseLoop, dif_neg hne, hturn]

lemma withoutFinalDot_isPrefix (name : List UInt16) : withoutFinalDot name <+: name := by
  unfold withoutFinalDot
  split
  · exact dropLast_prefix name
  · exact prefix_refl name

lemma mem_enter {stack : List (List UInt16)} {d name : List UInt16} (h : name ∈ enter stack d) :
    name ∈ stack ∨ (d ≠ [dot] ∧ d ≠ [dot, dot] ∧ name = withoutFinalDot d) := by
  unfold enter at h
  split_ifs at h with hdot hdots
  · exact .inl h
  · exact .inl (dropLast_subset stack h)
  · rw [mem_append, mem_singleton] at h
    exact h.imp id fun heq => ⟨hdot, hdots, heq⟩

lemma not_mem_enter (hstack : ∀ name ∈ stack, backslash ∉ name) (hd : backslash ∉ d) :
    ∀ name ∈ enter stack d, backslash ∉ name := by
  intro name hname
  obtain hmem | ⟨_, _, rfl⟩ := mem_enter hname
  · exact hstack name hmem
  · exact fun h => hd ((withoutFinalDot_isPrefix d).subset h)

lemma collapseLoop_separated (hpre : pre.length = mark) {dirs : List (List UInt16)}
    (hstack : ∀ name ∈ stack, backslash ∉ name) (hdirs : ∀ name ∈ dirs, backslash ∉ name)
    (hlast : backslash ∉ last) :
    collapseLoop mark (frontOf pre stack) (separated backslash dirs last) =
      (leave (dirs.foldl enter stack) last).reverse ++ pre := by
  induction dirs generalizing stack with
  | nil =>
    rw [separated_nil]
    by_cases hne : last = []
    · subst hne
      rw [collapseLoop_nil]
      rfl
    · rw [collapseLoop_of_turn hne (collapseTurn_last hpre hstack hlast hne), collapseLoop_nil]
      rfl
  | cons d dirs ih =>
    rw [forall_mem_cons] at hdirs
    rw [separated_cons, collapseLoop_of_turn (by simp) (collapseTurn_dir hpre hstack hdirs.1)]
    exact ih (not_mem_enter hstack hdirs.1) hdirs.2

lemma trimEnd_append (hpre : pre.length = mark) (text : List UInt16) :
    trimEnd mark (text.reverse ++ pre) = (trimmed text).reverse ++ pre := by
  induction text using List.reverseRecOn with
  | nil =>
    cases pre with
    | nil => rfl
    | cons c pre =>
      apply if_neg
      rintro ⟨hlt, _⟩
      rw [length_cons] at hpre
      omega
  | append_singleton text c ih =>
    have hlt : mark < (text.reverse ++ pre).length + 1 := by
      rw [length_append]
      omega
    rw [reverse_append, reverse_singleton, trimmed]
    by_cases hc : c = space ∨ c = dot
    · rw [rdropWhile_concat_pos _ text c (decide_eq_true hc)]
      exact (if_pos ⟨hlt, hc⟩).trans ih
    · rw [rdropWhile_concat_neg _ text c (by rw [decide_eq_true_iff]; exact hc), reverse_append]
      exact if_neg fun h => hc h.2

end front

section squeeze

variable {front d rest : List UInt16}

lemma collapseBackslashes_name (hd : backslash ∉ d) :
    collapseBackslashes front (d ++ rest) = collapseBackslashes (d.reverse ++ front) rest := by
  induction d generalizing front with
  | nil => rfl
  | cons c d ih =>
    rw [mem_cons, not_or] at hd
    rw [cons_append, collapseBackslashes, if_pos (.inl (Ne.symm hd.1)), ih hd.2,
      reverse_cons, append_assoc]
    rfl

variable {last : List UInt16}

lemma collapseBackslashes_last (hlast : backslash ∉ last) :
    collapseBackslashes front last = last.reverse ++ front := by
  have hname : collapseBackslashes front (last ++ []) = last.reverse ++ front :=
    collapseBackslashes_name hlast
  rw [append_nil] at hname
  exact hname

lemma head?_reverse_append (hd : backslash ∉ d) (hne : d ≠ [] ∨ front.head? ≠ some backslash) :
    (d.reverse ++ front).head? ≠ some backslash := by
  obtain rfl | ⟨name, c, rfl⟩ := eq_nil_or_concat d
  · exact hne.resolve_left fun h => h rfl
  · rw [concat_eq_append, reverse_append]
    intro h
    exact hd (by rw [← some.inj h]; simp)

lemma collapseBackslashes_separated {dirs : List (List UInt16)}
    (hdirs : ∀ name ∈ dirs, backslash ∉ name) (hlast : backslash ∉ last)
    (hfront : front.head? = some backslash) :
    collapseBackslashes front (separated backslash dirs last) =
      (separated backslash (dirs.filter (· ≠ [])) last).reverse ++ front := by
  induction dirs generalizing front with
  | nil => exact collapseBackslashes_last hlast
  | cons d dirs ih =>
    rw [forall_mem_cons] at hdirs
    rw [separated_cons, collapseBackslashes_name hdirs.1, collapseBackslashes]
    by_cases hne : d = []
    · subst hne
      rw [if_neg (by simp [hfront]), filter_cons_of_neg (by simp)]
      exact ih hdirs.2 hfront
    · rw [if_pos (.inr (head?_reverse_append hdirs.1 (.inl hne))), ih hdirs.2 rfl,
        filter_cons_of_pos (by simpa using hne), separated_cons]
      simp

lemma collapseBackslashes_first {dirs : List (List UInt16)}
    (hdirs : ∀ name ∈ dirs, backslash ∉ name) (hlast : backslash ∉ last) :
    collapseBackslashes [] (separated backslash dirs last) =
      (separated backslash (dirs.take 1 ++ (dirs.drop 1).filter (· ≠ [])) last).reverse := by
  cases dirs with
  | nil => exact (collapseBackslashes_last hlast).trans (append_nil _)
  | cons d dirs =>
    rw [forall_mem_cons] at hdirs
    have hhead : (d.reverse ++ []).head? ≠ some backslash :=
      head?_reverse_append hdirs.1 (.inr nofun)
    rw [separated_cons, collapseBackslashes_name hdirs.1, collapseBackslashes, if_pos (.inr hhead),
      collapseBackslashes_separated hdirs.2 hlast rfl]
    simp [separated_cons]

lemma collapseBackslashes_start {path : List UInt16} {mark : ℕ} (h : max 1 mark ≤ path.length) :
    collapseBackslashes (path.take (max 1 mark)).reverse (path.drop (max 1 mark)) =
      collapseBackslashes (path.take mark).reverse (path.drop mark) := by
  cases mark with
  | zero =>
    cases path with
    | nil => simp at h
    | cons c path =>
      symm
      exact if_pos (.inr nofun)
  | succ mark => rw [max_eq_right (Nat.le_add_left 1 mark)]

end squeeze

end WineForge.Paths
