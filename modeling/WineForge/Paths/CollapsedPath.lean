import Mathlib.Data.List.Infix
import WineForge.Paths.Collapse

/-!
# The collapsed path

Collapsing gives what the machine over components gives. Each name that is kept is a directory name
of the path without its last dot, so a name of three dots is kept as `..`, and a path with such a
name, or with any directory name that ends in a dot, changes again when it is collapsed once more.
-/

namespace WineForge.Paths

open Library List

def AtComponent (path : List UInt16) (mark : ℕ) : Prop :=
  mark ≤ path.length ∧
    (0 < mark → path[mark - 1]? = some slash ∨ path[mark - 1]? = some backslash)

instance (path : List UInt16) (mark : ℕ) : Decidable (AtComponent path mark) :=
  inferInstanceAs (Decidable (_ ∧ _))

def componentsAfter (path : List UInt16) (mark : ℕ) : List (List UInt16) :=
  (path.drop mark).splitOn backslash

/-- `result` is the path, collapsed. -/
structure Collapsed (path : List UInt16) (mark : ℕ) (result : List UInt16) : Prop where
  take_eq : result.take mark = (convertSlashes path).take mark
  length_le : result.length ≤ path.length
  drop_eq : result.drop mark = machine mark ((convertSlashes path).drop mark)
  not_dot : [dot] ∉ componentsAfter result mark
  of_dots : [dot, dot] ∈ componentsAfter result mark →
    [dot, dot, dot] ∈ (componentsAfter (convertSlashes path) mark).dropLast
  ne_nil : ∀ name ∈ (componentsAfter result mark).dropLast.drop (leading mark), name ≠ []
  again : 0 < mark ∨ result ≠ [] →
    (collapsePath result mark = some result ↔
      ∀ name ∈ (componentsAfter result mark).dropLast, name.getLast? ≠ some dot)

variable {last : List UInt16}

lemma machine_separated {mark : ℕ} {dirs : List (List UInt16)}
    (hdirs : ∀ name ∈ dirs, backslash ∉ name) (hlast : backslash ∉ last) :
    machine mark (separated backslash dirs last) =
      trimmed (leave ((presentNames mark dirs).foldl enter []) last) := by
  rw [machine, splitOn_separated hdirs hlast]
  simp

lemma presentNames_sublist (mark : ℕ) (dirs : List (List UInt16)) :
    (presentNames mark dirs).Sublist dirs := by
  have hfilter := (filter_sublist (p := fun name => decide (name ≠ []))
    (l := dirs.drop (leading mark))).append_left (dirs.take (leading mark))
  rw [take_append_drop] at hfilter
  exact hfilter

section machine

variable {mark : ℕ} {stack dirs : List (List UInt16)} {last name : List UInt16}

lemma mem_foldl_enter (h : name ∈ dirs.foldl enter stack) :
    name ∈ stack ∨ ∃ d ∈ dirs, d ≠ [dot] ∧ d ≠ [dot, dot] ∧ name = withoutFinalDot d := by
  induction dirs generalizing stack with
  | nil => exact .inl h
  | cons d dirs ih =>
    obtain hmem | ⟨d', hd', hname⟩ := ih h
    · exact (mem_enter hmem).imp id fun hname => ⟨d, mem_cons_self, hname⟩
    · exact .inr ⟨d', mem_cons_of_mem d hd', hname⟩

lemma withoutFinalDot_ne_nil (hdot : name ≠ [dot]) (hne : name ≠ []) :
    withoutFinalDot name ≠ [] := by
  unfold withoutFinalDot
  split
  next hlast =>
    intro hnil
    have hname := dropLast_append_getLast? dot hlast
    rw [hnil] at hname
    exact hdot hname.symm
  next => exact hne

lemma withoutFinalDot_ne_dot (hdot : name ≠ [dot]) (hdots : name ≠ [dot, dot]) :
    withoutFinalDot name ≠ [dot] := by
  unfold withoutFinalDot
  split
  next hlast =>
    intro heq
    have hname := dropLast_append_getLast? dot hlast
    rw [heq] at hname
    exact hdots hname.symm
  next => exact hdot

lemma eq_three_dots (hdots : name ≠ [dot, dot]) (h : withoutFinalDot name = [dot, dot]) :
    name = [dot, dot, dot] := by
  unfold withoutFinalDot at h
  split at h
  next hlast =>
    have hname := dropLast_append_getLast? dot hlast
    rw [h] at hname
    exact hname.symm
  next => exact absurd h hdots

lemma length_foldl_enter_le (stack dirs : List (List UInt16)) :
    (dirs.foldl enter stack).length ≤ stack.length + dirs.length := by
  induction dirs generalizing stack with
  | nil => exact le_refl _
  | cons d dirs ih =>
    have henter : (enter stack d).length ≤ stack.length + 1 := by
      unfold enter
      split_ifs
      · exact Nat.le_succ _
      · exact (dropLast_sublist stack).length_le.trans (Nat.le_succ _)
      · rw [length_append, length_singleton]
    have hrest := ih (enter stack d)
    rw [foldl_cons, length_cons]
    omega

lemma enter_ne_nil {k : ℕ} (hstack : ∀ name ∈ stack.drop k, name ≠ []) {d : List UInt16}
    (hd : d ≠ []) : ∀ name ∈ (enter stack d).drop k, name ≠ [] := by
  unfold enter
  split_ifs with hdot
  · exact hstack
  · exact fun name hname => hstack name (((dropLast_sublist stack).drop k).subset hname)
  intro name hname
  rw [drop_append, mem_append] at hname
  obtain hmem | hmem := hname
  · exact hstack name hmem
  · rw [mem_singleton.mp (mem_of_mem_drop hmem)]
    exact withoutFinalDot_ne_nil hdot hd

lemma foldl_enter_ne_nil {k : ℕ} (hstack : ∀ name ∈ stack.drop k, name ≠ [])
    (hdirs : ∀ d ∈ dirs, d ≠ []) : ∀ name ∈ (dirs.foldl enter stack).drop k, name ≠ [] := by
  induction dirs generalizing stack with
  | nil => exact hstack
  | cons d dirs ih =>
    rw [forall_mem_cons] at hdirs
    exact ih (enter_ne_nil hstack hdirs.1) hdirs.2

lemma entered_ne_nil (mark : ℕ) (dirs : List (List UInt16)) :
    ∀ name ∈ ((presentNames mark dirs).foldl enter []).drop (leading mark), name ≠ [] := by
  rw [presentNames, foldl_append]
  apply foldl_enter_ne_nil
  · have hlength := length_foldl_enter_le [] (dirs.take (leading mark))
    have htake := length_take_le (leading mark) dirs
    have hnil : ((dirs.take (leading mark)).foldl enter []).drop (leading mark) = [] := by
      rw [drop_eq_nil_iff]
      rw [length_nil] at hlength
      omega
    rw [hnil]
    exact nofun
  · intro d hd
    exact of_decide_eq_true (mem_filter.mp hd).2

lemma foldl_enter_ordinary (h : ∀ name ∈ dirs, name.getLast? ≠ some dot) :
    dirs.foldl enter stack = stack ++ dirs := by
  induction dirs generalizing stack with
  | nil => exact (append_nil stack).symm
  | cons d dirs ih =>
    rw [forall_mem_cons] at h
    have hdot : d ≠ [dot] := fun heq => h.1 (heq ▸ rfl)
    have hdots : d ≠ [dot, dot] := fun heq => h.1 (heq ▸ rfl)
    rw [foldl_cons, ih h.2, enter, if_neg hdot, if_neg hdots, withoutFinalDot, if_neg h.1,
      append_assoc]
    rfl

lemma length_withoutFinalDot (name : List UInt16) :
    (withoutFinalDot name).length + (if name.getLast? = some dot then 1 else 0) = name.length := by
  unfold withoutFinalDot
  split
  next hlast =>
    have hlength := congrArg List.length (dropLast_append_getLast? dot hlast)
    rw [length_append, length_singleton] at hlength
    exact hlength
  next => rfl

lemma length_enter (stack : List (List UInt16)) (d : List UInt16) :
    (separated backslash (enter stack d) []).length + (if d.getLast? = some dot then 1 else 0) ≤
      (separated backslash stack []).length + (d.length + 1) := by
  have hname := length_withoutFinalDot d
  have hle := (separated_sublist backslash (dropLast_sublist stack) []).length_le
  by_cases hdot : d = [dot]
  · rw [enter, if_pos hdot]
    omega
  by_cases hdots : d = [dot, dot]
  · rw [enter, if_neg hdot, if_pos hdots]
    omega
  have htext : separated backslash stack (withoutFinalDot d) =
      separated backslash stack [] ++ withoutFinalDot d :=
    separated_append backslash stack [] (withoutFinalDot d)
  rw [enter, if_neg hdot, if_neg hdots, separated_concat, htext, length_append,
    length_append, length_singleton]
  omega

lemma length_foldl_enter (dirs stack : List (List UInt16)) :
    (separated backslash (dirs.foldl enter stack) []).length +
        dirs.countP (fun d => d.getLast? = some dot) ≤
      (separated backslash stack []).length + (separated backslash dirs []).length := by
  induction dirs generalizing stack with
  | nil => exact le_refl _
  | cons d dirs ih =>
    have hd := length_enter stack d
    have hrest := ih (enter stack d)
    rw [foldl_cons, countP_cons, separated_cons, length_append, length_cons]
    simp only [decide_eq_true_eq]
    omega

lemma length_leave (stack : List (List UInt16)) (last : List UInt16) :
    (leave stack last).length ≤ (separated backslash stack []).length + last.length := by
  have hdrop := (separated_sublist backslash (dropLast_sublist stack) []).length_le
  unfold leave joined
  split_ifs
  · rw [length_dropLast]
    omega
  · rw [length_dropLast]
    omega
  · rw [← nil_append last, separated_append, length_append, nil_append]

lemma trimmed_isPrefix (text : List UInt16) : trimmed text <+: text :=
  rdropWhile_prefix _ text

lemma trimmed_trimmed (text : List UInt16) : trimmed (trimmed text) = trimmed text :=
  rdropWhile_idempotent _ text

lemma trimmed_separated (dirs : List (List UInt16)) (last : List UInt16) :
    trimmed (separated backslash dirs last) = separated backslash dirs (trimmed last) :=
  rdropWhile_separated (p := fun c => decide (c = space ∨ c = dot)) backslash_not_trimmed dirs last

lemma length_trimmed (text : List UInt16) : (trimmed text).length ≤ text.length :=
  (trimmed_isPrefix text).length_le

lemma length_machine (mark : ℕ) (hdirs : ∀ name ∈ dirs, backslash ∉ name)
    (hlast : backslash ∉ last) :
    (machine mark (separated backslash dirs last)).length +
        (presentNames mark dirs).countP (fun d => d.getLast? = some dot) ≤
      (separated backslash dirs last).length := by
  have htrim := length_trimmed (leave ((presentNames mark dirs).foldl enter []) last)
  have hleave := length_leave ((presentNames mark dirs).foldl enter []) last
  have hfold := length_foldl_enter (presentNames mark dirs) []
  have hpresent := (separated_sublist backslash (presentNames_sublist mark dirs) []).length_le
  rw [machine_separated hdirs hlast, ← nil_append last, separated_append, length_append, nil_append]
  rw [separated_nil, length_nil] at hfold
  omega

lemma leave_shape (stack : List (List UInt16)) (last : List UInt16) :
    ∃ dirs' last', trimmed (leave stack last) = separated backslash dirs' last' ∧
      dirs' <+: stack ∧ trimmed last' = last' ∧ ∃ d ∈ stack ++ [last], last' <+: d := by
  have hjoined : ∀ names : List (List UInt16), names <+: stack →
      ∃ dirs' last', trimmed (joined names) = separated backslash dirs' last' ∧
        dirs' <+: stack ∧ trimmed last' = last' ∧ ∃ d ∈ stack ++ [last], last' <+: d := by
    intro names hnames
    obtain rfl | ⟨front, d, rfl⟩ := eq_nil_or_concat names
    · exact ⟨[], [], rfl, nil_prefix, rfl, last, by simp, nil_prefix⟩
    rw [concat_eq_append] at hnames
    refine ⟨front, trimmed d, ?_, (prefix_append front [d]).trans hnames,
      trimmed_trimmed d, d, ?_, trimmed_isPrefix d⟩
    · rw [concat_eq_append, joined, separated_concat, dropLast_concat]
      exact trimmed_separated front d
    · exact mem_append_left [last] (hnames.subset (by simp))
  unfold leave
  split_ifs
  · exact hjoined stack (prefix_refl stack)
  · exact hjoined stack.dropLast <| dropLast_prefix stack
  · exact ⟨stack, trimmed last, trimmed_separated stack last, prefix_refl stack,
      trimmed_trimmed last, last, by simp, trimmed_isPrefix last⟩

lemma getLast?_ne_dot (h : trimmed last = last) : last.getLast? ≠ some dot := by
  intro hlast
  have hne : last ≠ [] := by
    rintro rfl
    simp at hlast
  apply rdropWhile_eq_self_iff.mp h hne
  rw [getLast?_eq_some_getLast hne, Option.some_inj] at hlast
  rw [hlast]
  decide

lemma machine_shape (mark : ℕ) (hdirs : ∀ name ∈ dirs, backslash ∉ name)
    (hlast : backslash ∉ last) :
    ∃ dirs' last', machine mark (separated backslash dirs last) =
        separated backslash dirs' last' ∧ trimmed last' = last' ∧
      (∀ name ∈ dirs', ∃ d ∈ dirs, d ≠ [dot] ∧ d ≠ [dot, dot] ∧ name = withoutFinalDot d) ∧
      (∀ name ∈ dirs'.drop (leading mark), name ≠ []) ∧
      ∀ name ∈ dirs' ++ [last'], ∃ d ∈ dirs ++ [last], name <+: d := by
  obtain ⟨dirs', last', hshape, hbelow, htrimmed, whole, hwhole, hpart⟩ :=
    leave_shape ((presentNames mark dirs).foldl enter []) last
  have hentered : ∀ name ∈ (presentNames mark dirs).foldl enter [],
      ∃ d ∈ dirs, d ≠ [dot] ∧ d ≠ [dot, dot] ∧ name = withoutFinalDot d := by
    intro name hname
    obtain hmem | ⟨d, hd, hfound⟩ := mem_foldl_enter hname
    · exact absurd hmem not_mem_nil
    · exact ⟨d, (presentNames_sublist mark dirs).subset hd, hfound⟩
  have hinside : ∀ name ∈ (presentNames mark dirs).foldl enter [],
      ∃ d ∈ dirs ++ [last], name <+: d := by
    intro name hname
    obtain ⟨d, hd, _, _, rfl⟩ := hentered name hname
    exact ⟨d, mem_append_left [last] hd, withoutFinalDot_isPrefix d⟩
  refine ⟨dirs', last', (machine_separated hdirs hlast).trans hshape, htrimmed,
    fun name hname => hentered name (hbelow.subset hname),
    fun name hname => entered_ne_nil mark dirs name ?_, fun name hname => ?_⟩
  · exact (List.IsPrefix.drop hbelow (leading mark)).subset hname
  rw [mem_append, mem_singleton] at hname hwhole
  obtain hname | rfl := hname
  · exact hinside name (hbelow.subset hname)
  obtain hmem | rfl := hwhole
  · obtain ⟨d, hd, hbelow⟩ := hinside whole hmem
    exact ⟨d, hd, hpart.trans hbelow⟩
  · exact ⟨whole, by simp, hpart⟩

lemma machine_again (hnil : ∀ name ∈ dirs.drop (leading mark), name ≠ [])
    (hdirs : ∀ name ∈ dirs, backslash ∉ name) (hlast : backslash ∉ last)
    (htrimmed : trimmed last = last) :
    machine mark (separated backslash dirs last) = separated backslash dirs last ↔
      ∀ name ∈ dirs, name.getLast? ≠ some dot := by
  have hpresent : presentNames mark dirs = dirs := by
    have hfilter : (dirs.drop (leading mark)).filter (· ≠ []) = dirs.drop (leading mark) := by
      rw [filter_eq_self]
      exact fun name hname => decide_eq_true (hnil name hname)
    rw [presentNames, hfilter, take_append_drop]
  constructor
  · intro heq name hname hdot
    have hlength := length_machine mark hdirs hlast
    have hcount : 0 < dirs.countP (fun d => d.getLast? = some dot) :=
      countP_pos_iff.mpr ⟨name, hname, decide_eq_true hdot⟩
    rw [heq, hpresent] at hlength
    omega
  · intro hordinary
    have hend := getLast?_ne_dot htrimmed
    have hdot : last ≠ [dot] := fun heq => hend (heq ▸ rfl)
    have hdots : last ≠ [dot, dot] := fun heq => hend (heq ▸ rfl)
    rw [machine_separated hdirs hlast, hpresent, foldl_enter_ordinary hordinary, nil_append,
      leave, if_neg hdot, if_neg hdots, trimmed_separated, htrimmed]

end machine

section convert

variable {path : List UInt16} {mark : ℕ}

lemma slash_not_mem_convertSlashes (path : List UInt16) : slash ∉ convertSlashes path := by
  rw [convertSlashes, mem_map]
  rintro ⟨c, _, hc⟩
  split at hc
  next => exact absurd hc (by decide)
  next hne => exact hne hc

lemma convertSlashes_eq_self (h : slash ∉ path) : convertSlashes path = path := by
  have hid : ∀ c ∈ path, (if c = slash then backslash else c) = id c := by
    intro c hc
    apply if_neg
    rintro rfl
    exact h hc
  rw [convertSlashes, map_congr_left hid, map_id]

lemma length_convertSlashes (path : List UInt16) : (convertSlashes path).length = path.length :=
  length_map _

lemma head?_kept (h : AtComponent path mark) :
    mark = 0 ∨ ((convertSlashes path).take mark).reverse.head? = some backslash := by
  obtain hzero | hpos := Nat.eq_zero_or_pos mark
  · exact .inl hzero
  right
  rw [head?_reverse, getLast?_take, if_neg (Nat.ne_of_gt hpos), convertSlashes, getElem?_map]
  obtain hslash | hback := h.2 hpos
  · rw [hslash]
    rfl
  · rw [hback]
    rfl

lemma collapseBackslashes_present {pre : List UInt16} (hpre : pre.length = mark)
    (hstop : mark = 0 ∨ pre.head? = some backslash) {dirs : List (List UInt16)}
    (hdirs : ∀ name ∈ dirs, backslash ∉ name) (hlast : backslash ∉ last) :
    collapseBackslashes pre (separated backslash dirs last) =
      (separated backslash (presentNames mark dirs) last).reverse ++ pre := by
  obtain rfl | hpos := Nat.eq_zero_or_pos mark
  · obtain rfl := eq_nil_of_length_eq_zero hpre
    rw [collapseBackslashes_first hdirs hlast, append_nil]
    rfl
  · have hlead : leading mark = 0 := if_neg (Nat.ne_of_gt hpos)
    rw [presentNames, hlead]
    exact collapseBackslashes_separated hdirs hlast (hstop.resolve_left (Nat.ne_of_gt hpos))

/-- The in-place loops do what the machine does. -/
theorem collapsePath_eq (hmark : AtComponent path mark) (hne : 0 < mark ∨ path ≠ []) :
    collapsePath path mark =
      some ((convertSlashes path).take mark ++ machine mark ((convertSlashes path).drop mark)) := by
  obtain ⟨dirs, last, hbody, hdirs, hlast⟩ :=
    exists_separated backslash ((convertSlashes path).drop mark)
  have hmax : max 1 mark ≤ (convertSlashes path).length := by
    rw [length_convertSlashes]
    have hpos : 0 < mark ∨ 0 < path.length := hne.imp id length_pos_iff.mpr
    have hle := hmark.1
    omega
  have hpre : ((convertSlashes path).take mark).reverse.length = mark := by
    rw [length_reverse, length_take, length_convertSlashes]
    exact min_eq_left hmark.1
  have hpresent : ∀ name ∈ presentNames mark dirs, backslash ∉ name :=
    fun name hname => hdirs name ((presentNames_sublist mark dirs).subset hname)
  have hkept : ((convertSlashes path).take mark).length = mark := by
    rw [← length_reverse, hpre]
  rw [collapsePath]
  dsimp only
  rw [if_neg (Nat.not_lt.mpr hmax), collapseBackslashes_start hmax, hbody,
    collapseBackslashes_present hpre (head?_kept hmark) hdirs hlast, reverse_append,
    reverse_reverse, reverse_reverse, take_left' hkept, drop_left' hkept]
  have hnone : ∀ name ∈ ([] : List (List UInt16)), backslash ∉ name := nofun
  have hloop : collapseLoop mark ((convertSlashes path).take mark).reverse
      (separated backslash (presentNames mark dirs) last) =
        (leave ((presentNames mark dirs).foldl enter []) last).reverse ++
          ((convertSlashes path).take mark).reverse :=
    collapseLoop_separated hpre hnone hpresent hlast
  rw [hloop, trimEnd_append hpre, reverse_append, reverse_reverse, reverse_reverse,
    machine_separated hdirs hlast]

end convert

/-- `collapse_path` is a machine over a stack of components: it keeps the part before the mark and
leaves no `.`, a `..` only where a directory name was `...`, and no empty name but the last one and
the first one of a path whose mark is its start. Collapsing once more changes nothing exactly
where no directory name ends in a dot. -/
theorem collapse_path_components (path : List UInt16) (mark : ℕ) (hmark : AtComponent path mark)
    (hne : 0 < mark ∨ path ≠ []) :
    ∃ result, collapsePath path mark = some result ∧ Collapsed path mark result := by
  obtain ⟨dirs, last, hbody, hdirs, hlast⟩ :=
    exists_separated backslash ((convertSlashes path).drop mark)
  obtain ⟨dirs', last', hshape, htrimmed, hfrom, hnil, hinside⟩ := machine_shape mark hdirs hlast
  have hnot : ∀ c, (∀ d ∈ dirs ++ [last], c ∉ d) → ∀ name ∈ dirs' ++ [last'], c ∉ name := by
    intro c hc name hname hmem
    obtain ⟨d, hd, hpart⟩ := hinside name hname
    exact hc d hd (hpart.subset hmem)
  have hsep : ∀ name ∈ dirs' ++ [last'], backslash ∉ name := by
    apply hnot
    rw [forall_mem_append]
    exact ⟨hdirs, by simpa using hlast⟩
  have hslash : ∀ name ∈ dirs' ++ [last'], slash ∉ name := by
    apply hnot
    intro d hd hmem
    apply slash_not_mem_convertSlashes path
    have hbelow := mem_separated_of_mem backslash hd hmem
    rw [← hbody] at hbelow
    exact mem_of_mem_drop hbelow
  rw [forall_mem_append, forall_mem_singleton] at hsep
  have hkept : ((convertSlashes path).take mark).length = mark := by
    rw [length_take, length_convertSlashes]
    exact min_eq_left hmark.1
  have hnames : componentsAfter ((convertSlashes path).take mark ++
      separated backslash dirs' last') mark = dirs' ++ [last'] := by
    rw [componentsAfter, drop_left' hkept]
    exact splitOn_separated hsep.1 hsep.2
  refine ⟨_, collapsePath_eq hmark hne, ?_⟩
  rw [hbody, hshape]
  constructor
  · exact take_left' hkept
  · have hlength := length_machine mark hdirs hlast
    have htotal := congrArg List.length (take_append_drop mark (convertSlashes path))
    rw [length_append, hbody, length_convertSlashes] at htotal
    rw [hshape] at hlength
    rw [length_append]
    omega
  · rw [drop_left' hkept, hbody, hshape]
  · rw [hnames, mem_append, mem_singleton]
    rintro (hdot | hdot)
    · obtain ⟨d, _, hne, hnes, hname⟩ := hfrom [dot] hdot
      exact withoutFinalDot_ne_dot hne hnes hname.symm
    · exact getLast?_ne_dot htrimmed (hdot ▸ rfl)
  · rw [hnames, mem_append, mem_singleton, componentsAfter, hbody,
      splitOn_separated hdirs hlast, dropLast_concat]
    rintro (hdots | hdots)
    · obtain ⟨d, hd, _, hnes, hname⟩ := hfrom [dot, dot] hdots
      exact eq_three_dots hnes hname.symm ▸ hd
    · exact absurd (hdots ▸ rfl) (getLast?_ne_dot htrimmed)
  · rw [hnames, dropLast_concat]
    exact hnil
  · intro hne'
    rw [hnames, dropLast_concat, ← machine_again hnil hsep.1 hsep.2 htrimmed]
    have hat : AtComponent ((convertSlashes path).take mark ++ separated backslash dirs' last')
        mark := by
      constructor
      · rw [length_append]
        omega
      · intro hpos
        have hhead := (head?_kept hmark).resolve_left (ne_of_gt hpos)
        rw [head?_reverse, getLast?_eq_getElem?, hkept] at hhead
        rw [getElem?_append_left (by omega)]
        exact .inr hhead
    have hconverted : slash ∉
        (convertSlashes path).take mark ++ separated backslash dirs' last' := by
      rw [mem_append]
      rintro (hmem | hmem)
      · exact slash_not_mem_convertSlashes path (mem_of_mem_take hmem)
      · obtain heq | ⟨d, hd, hc⟩ := mem_separated hmem
        · exact absurd heq (by decide)
        · exact hslash d hd hc
    rw [collapsePath_eq hat hne', convertSlashes_eq_self hconverted, take_left' hkept,
      drop_left' hkept, Option.some_inj, append_cancel_left_eq]

/-- The path `c:\...\a`. -/
def threeDots : List UInt16 :=
  [0x63, 0x3a, backslash, dot, dot, dot, backslash, 0x61]

/-- The directory name of three dots becomes `..`. -/
theorem collapse_path_components_three_dots :
    AtComponent threeDots 3 ∧ ∃ result, collapsePath threeDots 3 = some result ∧
      Collapsed threeDots 3 result :=
  have hmark : AtComponent threeDots 3 := by decide +kernel
  ⟨hmark, collapse_path_components threeDots 3 hmark (.inl (by decide))⟩

/-- A path with the name of three dots is left with `..` and changes again, and the first name of
`\a` is left empty. -/
theorem component_left_special : collapsePath threeDots 3 =
        some [0x63, 0x3a, backslash, dot, dot, backslash, 0x61] ∧
      [dot, dot] ∈ componentsAfter [0x63, 0x3a, backslash, dot, dot, backslash, 0x61] 3 ∧
      collapsePath [0x63, 0x3a, backslash, dot, dot, backslash, 0x61] 3 =
        some [0x63, 0x3a, backslash, 0x61] ∧
      collapsePath [backslash, 0x61] 0 = some [backslash, 0x61] ∧
      [] ∈ (componentsAfter [backslash, 0x61] 0).dropLast ∧
      collapsePath [] 0 = none := by
  have hmark : AtComponent threeDots 3 := by decide +kernel
  have hmark' : AtComponent [0x63, 0x3a, backslash, dot, dot, backslash, 0x61] 3 := by
    decide +kernel
  have hstart : AtComponent [backslash, 0x61] 0 := by decide +kernel
  rw [collapsePath_eq hmark (.inl (by decide)), collapsePath_eq hmark' (.inl (by decide)),
    collapsePath_eq hstart (.inr (by simp))]
  decide +kernel

end WineForge.Paths
