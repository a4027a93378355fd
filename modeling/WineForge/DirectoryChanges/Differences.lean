import WineForge.DirectoryChanges.Polling

/-!
# What a scan tells

Seen at one name, a scan compares the entry of the name with the file of the name. Names do not
touch each other.
-/

namespace WineForge.DirectoryChanges

open List

def fileAt (files : List (String × Stat)) (name : String) : Option Stat :=
  if name = "." ∨ name = ".." then none
  else (files.find? fun file => file.1 = name).map Prod.snd

def snapshotAt (entries : List PollEntry) (name : String) : Option Stat :=
  (findEntry entries name).map PollEntry.st

def passing (dirFilter : UInt32) (action : FileAction) (filter : UInt32) (name : String) :
    List Report :=
  if filter &&& dirFilter = 0 then [] else [⟨action, name⟩]

def difference (filter : UInt32) (name : String) : Option Stat → Option Stat → List Report
  | none, none => []
  | none, some st => passing filter .added (changePollNameFilter st ||| fileNotifyChangeCreation) name
  | some st, none => passing filter .removed (changePollNameFilter st) name
  | some oldSt, some newSt => passing filter .modified (changePollModifiedFilter oldSt newSt) name

def aboutName (reports : List Report) (name : String) : List Report :=
  reports.filter fun report => report.name = name

/-- The entries are those of different files. -/
structure EntriesValid (entries : List PollEntry) : Prop where
  nodup : (entries.map PollEntry.name).Nodup
  dot : ∀ entry ∈ entries, entry.name ≠ "." ∧ entry.name ≠ ".."

variable {entries : List PollEntry} {name : String} {st : Stat} {r : Scan} {initial : Bool}
  {file : String × Stat}

lemma findEntry_cons (entry : PollEntry) : findEntry (entry :: entries) name =
      if entry.name = name then some entry else findEntry entries name := by
  unfold findEntry
  by_cases h : entry.name = name
  · simp [h]
  · simp [h]

lemma findEntry_eq_none : findEntry entries name = none ↔ ∀ entry ∈ entries, entry.name ≠ name := by
  rw [findEntry, find?_eq_none]
  simp

lemma findEntry_append (entry : PollEntry) : findEntry (entries ++ [entry]) name =
      (findEntry entries name).or (if entry.name = name then some entry else none) := by
  rw [findEntry, find?_append]
  exact congrArg _ (findEntry_cons entry)

lemma map_name_refreshEntry (name : String) (st : Stat) (entries : List PollEntry) :
    (refreshEntry name st entries).map PollEntry.name = entries.map PollEntry.name := by
  induction entries with
  | nil => rfl
  | cons entry entries ih =>
    rw [refreshEntry]
    split
    · rename_i hname
      rw [map_cons, map_cons, hname]
    · rw [map_cons, map_cons, ih]

lemma findEntry_refreshEntry (other : String) : findEntry (refreshEntry name st entries) other =
      if other = name then (findEntry entries name).map fun _ => ⟨name, st, true⟩
      else findEntry entries other := by
  induction entries with
  | nil =>
    split
    · rfl
    · rfl
  | cons entry entries ih =>
    rw [refreshEntry, findEntry_cons entry, findEntry_cons entry]
    by_cases hname : entry.name = name
    · rw [if_pos hname, if_pos hname, findEntry_cons, hname]
      by_cases hother : other = name
      · rw [if_pos hother, if_pos hother.symm]
        rfl
      · rw [if_neg hother, if_neg (Ne.symm hother), if_neg (Ne.symm hother)]
    rw [if_neg hname, if_neg hname, findEntry_cons, ih]
    by_cases hentry : entry.name = other
    · have hother : ¬ other = name := fun h => hname (hentry.trans h)
      rw [if_pos hentry, if_neg hother, if_pos hentry]
    · rw [if_neg hentry, if_neg hentry]

lemma EntriesValid.refresh (h : EntriesValid entries) :
    EntriesValid (refreshEntry name st entries) := by
  have hnames := map_name_refreshEntry name st entries
  refine ⟨hnames ▸ h.nodup, fun entry hentry => ?_⟩
  have hmem : entry.name ∈ entries.map PollEntry.name := by
    rw [← hnames]
    exact mem_map_of_mem hentry
  obtain ⟨old, hold, hname⟩ := mem_map.mp hmem
  exact hname ▸ h.dot old hold

lemma EntriesValid.append (h : EntriesValid entries) (hnew : findEntry entries name = none)
    (hdot : ¬ (name = "." ∨ name = "..")) :
    EntriesValid (entries ++ [⟨name, st, true⟩]) := by
  constructor
  · rw [map_append]
    refine nodup_append.mpr ⟨h.nodup, pairwise_singleton _ _, ?_⟩
    rintro a ha b hb rfl
    obtain ⟨entry, hentry, hname⟩ := mem_map.mp ha
    have hsame : a = name := mem_singleton.mp hb
    exact findEntry_eq_none.mp hnew entry hentry (hname.trans hsame)
  · intro entry hentry
    obtain hentry | hentry := mem_append.mp hentry
    · exact h.dot entry hentry
    · rw [mem_singleton.mp hentry]
      exact not_or.mp hdot

lemma notify_pollEntries (r : Scan) (action : FileAction) (filter : UInt32) (name : String) :
    (r.notify action filter name).dir.pollEntries = r.dir.pollEntries := by
  unfold Scan.notify
  split
  · rfl
  · rfl

lemma notify_filter (r : Scan) (action : FileAction) (filter : UInt32) (name : String) :
    (r.notify action filter name).dir.filter = r.dir.filter := by
  unfold Scan.notify
  split
  · rfl
  · rfl

lemma notify_about (r : Scan) (action : FileAction) (filter : UInt32) (name other : String) :
    aboutName (r.notify action filter name).reports other = aboutName r.reports other ++
        if other = name then passing r.dir.filter action filter name else [] := by
  unfold Scan.notify passing aboutName
  split
  · rw [ite_self, append_nil]
  congr 1
  by_cases h : other = name
  · simp [h]
  · simp [h, Ne.symm h]

def found (initial : Bool) (filter : UInt32) (name : String) (entry : Option PollEntry) (st : Stat) :
    List Report :=
  if initial then [] else difference filter name (entry.map PollEntry.st) (some st)

lemma visit_filter : (r.visit initial file).dir.filter = r.dir.filter := by
  unfold Scan.visit
  split
  · rfl
  split
  · split
    · rfl
    · exact notify_filter _ _ _ _
  dsimp only
  split
  · exact notify_filter _ _ _ _
  · rfl

lemma visit_valid (h : EntriesValid r.dir.pollEntries) :
    EntriesValid (r.visit initial file).dir.pollEntries := by
  unfold Scan.visit
  split
  · exact h
  rename_i hdot
  split
  · rename_i hnone
    have happend : EntriesValid (r.dir.pollEntries ++ [⟨file.1, file.2, true⟩]) :=
      h.append hnone hdot
    split
    · exact happend
    · rw [notify_pollEntries]
      exact happend
  dsimp only
  split
  · rw [notify_pollEntries]
    exact h.refresh
  · exact h.refresh

lemma visit_other (hname : name ≠ file.1) :
    findEntry (r.visit initial file).dir.pollEntries name = findEntry r.dir.pollEntries name ∧
      aboutName (r.visit initial file).reports name = aboutName r.reports name := by
  have hquiet : ∀ (r' : Scan) action filter,
      aboutName (r'.notify action filter file.1).reports name = aboutName r'.reports name := by
    intro r' action filter
    rw [notify_about, if_neg hname, append_nil]
  have happend : findEntry (r.dir.pollEntries ++ [⟨file.1, file.2, true⟩]) name =
      findEntry r.dir.pollEntries name := by
    rw [findEntry_append, if_neg (Ne.symm hname), Option.or_none]
  have hrefresh : findEntry (refreshEntry file.1 file.2 r.dir.pollEntries) name =
      findEntry r.dir.pollEntries name := by
    rw [findEntry_refreshEntry, if_neg hname]
  unfold Scan.visit
  split
  · exact ⟨rfl, rfl⟩
  split
  · split
    · exact ⟨happend, rfl⟩
    · rw [notify_pollEntries, hquiet]
      exact ⟨happend, rfl⟩
  dsimp only
  split
  · rw [notify_pollEntries, hquiet]
    exact ⟨hrefresh, rfl⟩
  · exact ⟨hrefresh, rfl⟩

lemma visit_self (hdot : ¬ (file.1 = "." ∨ file.1 = "..")) :
    findEntry (r.visit initial file).dir.pollEntries file.1 = some ⟨file.1, file.2, true⟩ ∧
      aboutName (r.visit initial file).reports file.1 = aboutName r.reports file.1 ++
        found initial r.dir.filter file.1 (findEntry r.dir.pollEntries file.1) file.2 := by
  unfold Scan.visit found
  rw [if_neg hdot]
  cases hfind : findEntry r.dir.pollEntries file.1 with
  | none =>
    have happend : findEntry (r.dir.pollEntries ++ [⟨file.1, file.2, true⟩]) file.1 =
        some ⟨file.1, file.2, true⟩ := by
      rw [findEntry_append, hfind, if_pos rfl]
      rfl
    cases initial with
    | true => exact ⟨happend, (append_nil _).symm⟩
    | false =>
      rw [if_neg Bool.false_ne_true, if_neg Bool.false_ne_true, notify_pollEntries, notify_about,
        if_pos rfl]
      exact ⟨happend, rfl⟩
  | some entry =>
    have hrefresh : findEntry (refreshEntry file.1 file.2 r.dir.pollEntries) file.1 =
        some ⟨file.1, file.2, true⟩ := by
      rw [findEntry_refreshEntry, if_pos rfl, hfind]
      rfl
    dsimp only
    cases initial with
    | true => exact ⟨hrefresh, (append_nil _).symm⟩
    | false =>
      rw [if_neg Bool.false_ne_true]
      by_cases hsame : changePollModifiedFilter entry.st file.2 = 0
      · have hnone : difference r.dir.filter file.1 (some entry.st) (some file.2) = [] := by
          rw [difference, hsame, passing, UInt32.zero_and, if_pos rfl]
        rw [if_neg fun h => h.2 hsame]
        refine ⟨hrefresh, ?_⟩
        rw [Option.map_some, hnone, append_nil]
        rfl
      · rw [if_pos ⟨rfl, hsame⟩, notify_pollEntries, notify_about, if_pos rfl]
        exact ⟨hrefresh, rfl⟩

lemma fileAt_cons (files : List (String × Stat)) (name : String) : fileAt (file :: files) name =
      if file.1 = name ∧ ¬ (name = "." ∨ name = "..") then some file.2 else fileAt files name := by
  unfold fileAt
  by_cases hdot : name = "." ∨ name = ".."
  · rw [if_pos hdot, if_pos hdot, if_neg fun h => h.2 hdot]
  · by_cases hname : file.1 = name
    · simp [hname, hdot]
    · simp [hname]

variable {files : List (String × Stat)}

lemma fileAt_eq_none (h : name ∉ files.map Prod.fst) : fileAt files name = none := by
  induction files with
  | nil => simp [fileAt]
  | cons file files ih =>
    obtain ⟨hne, hrest⟩ := not_or.mp (mt mem_cons.mpr h)
    rw [fileAt_cons, if_neg fun heq => hne heq.1.symm]
    exact ih hrest

lemma visit_dot (hdot : file.1 = "." ∨ file.1 = "..") : r.visit initial file = r := if_pos hdot

/-- What the loop over the directory does at one name. -/
structure Visited (initial : Bool) (files : List (String × Stat)) (r r' : Scan) : Prop where
  filter : r'.dir.filter = r.dir.filter
  valid : EntriesValid r'.dir.pollEntries
  entry : ∀ name, findEntry r'.dir.pollEntries name =
    match fileAt files name with
    | some st => some ⟨name, st, true⟩
    | none => findEntry r.dir.pollEntries name
  told : ∀ name, aboutName r'.reports name = aboutName r.reports name ++
    match fileAt files name with
    | some st => found initial r.dir.filter name (findEntry r.dir.pollEntries name) st
    | none => []

lemma visited (h : EntriesValid r.dir.pollEntries) (hnodup : (files.map Prod.fst).Nodup) :
    Visited initial files r (files.foldl (Scan.visit initial) r) := by
  induction files generalizing r with
  | nil =>
    have hnone : ∀ name, fileAt [] name = none := fun name => fileAt_eq_none not_mem_nil
    refine ⟨rfl, h, fun name => ?_, fun name => ?_⟩
    · rw [hnone]
      rfl
    · rw [hnone]
      exact (append_nil _).symm
  | cons file files ih =>
    obtain ⟨hfresh, hrest⟩ := nodup_cons.mp hnodup
    have hvalid : EntriesValid (r.visit initial file).dir.pollEntries := visit_valid h
    have hih := ih hvalid hrest
    rw [foldl_cons]
    refine ⟨hih.filter.trans visit_filter, hih.valid, fun name => ?_, fun name => ?_⟩
    · rw [hih.entry, fileAt_cons]
      by_cases hname : file.1 = name
      · rw [← hname, fileAt_eq_none hfresh]
        by_cases hdot : file.1 = "." ∨ file.1 = ".."
        · rw [if_neg fun hin => hin.2 hdot, visit_dot hdot]
        · rw [if_pos ⟨rfl, hdot⟩]
          exact (visit_self hdot).1
      · rw [if_neg fun hin => hname hin.1, (visit_other (Ne.symm hname)).1]
    rw [hih.told, fileAt_cons, visit_filter]
    by_cases hname : file.1 = name
    · rw [← hname, fileAt_eq_none hfresh]
      by_cases hdot : file.1 = "." ∨ file.1 = ".."
      · rw [if_neg fun hin => hin.2 hdot, visit_dot hdot]
      · rw [if_pos ⟨rfl, hdot⟩, append_nil]
        exact (visit_self hdot).2
    · rw [if_neg fun hin => hname hin.1, (visit_other (Ne.symm hname)).1,
        (visit_other (Ne.symm hname)).2]

/-! ### The loop over the entries that were not seen -/

lemma remove_told (initial : Bool) (r : Scan) {unseen : List PollEntry}
    (hnodup : (unseen.map PollEntry.name).Nodup) :
    (unseen.foldl (Scan.remove initial) r).dir.pollEntries = r.dir.pollEntries ∧
      (unseen.foldl (Scan.remove initial) r).dir.filter = r.dir.filter ∧
      ∀ name, aboutName (unseen.foldl (Scan.remove initial) r).reports name =
        aboutName r.reports name ++
          match findEntry unseen name with
          | some entry => if initial then [] else difference r.dir.filter name (some entry.st) none
          | none => [] := by
  induction unseen generalizing r with
  | nil => exact ⟨rfl, rfl, fun name => (append_nil _).symm⟩
  | cons entry unseen ih =>
    obtain ⟨hfresh, hrest⟩ := nodup_cons.mp hnodup
    obtain ⟨hentries, hfilter, htold⟩ := ih (r.remove initial entry) hrest
    have hsame : (r.remove initial entry).dir.pollEntries = r.dir.pollEntries ∧
        (r.remove initial entry).dir.filter = r.dir.filter := by
      unfold Scan.remove
      split
      · exact ⟨rfl, rfl⟩
      · exact ⟨notify_pollEntries _ _ _ _, notify_filter _ _ _ _⟩
    rw [foldl_cons]
    refine ⟨hentries.trans hsame.1, hfilter.trans hsame.2, fun name => ?_⟩
    rw [htold, hsame.2, findEntry_cons]
    have hremove : aboutName (r.remove initial entry).reports name = aboutName r.reports name ++
        if name = entry.name ∧ initial = false then
          passing r.dir.filter .removed (changePollNameFilter entry.st) name else [] := by
      unfold Scan.remove
      cases initial with
      | true => simp
      | false =>
        rw [if_neg Bool.false_ne_true, notify_about]
        by_cases hname : name = entry.name
        · simp [hname]
        · simp [hname]
    rw [hremove]
    by_cases hname : entry.name = name
    · have hnone : findEntry unseen name = none := by
        rw [findEntry_eq_none]
        intro other hother heq
        exact hfresh (mem_map.mpr ⟨other, hother, heq.trans hname.symm⟩)
      rw [if_pos hname, hnone, append_nil]
      cases initial with
      | true => simp
      | false => simp [hname, difference]
    · rw [if_neg hname, if_neg fun h => hname h.1.symm, append_nil]

lemma findEntry_map {f : PollEntry → PollEntry} (hf : ∀ entry, (f entry).name = entry.name) :
    findEntry (entries.map f) name = (findEntry entries name).map f := by
  induction entries with
  | nil => rfl
  | cons entry entries ih =>
    rw [map_cons, findEntry_cons, findEntry_cons, hf]
    split
    · rfl
    · exact ih

lemma findEntry_filter (h : (entries.map PollEntry.name).Nodup) (p : PollEntry → Bool) :
    findEntry (entries.filter p) name = (findEntry entries name).filter p := by
  induction entries with
  | nil => rfl
  | cons entry entries ih =>
    obtain ⟨hfresh, hrest⟩ := nodup_cons.mp h
    rw [filter_cons, findEntry_cons]
    by_cases hp : p entry = true
    · rw [if_pos hp, findEntry_cons]
      split
      · rw [Option.filter_some, if_pos hp]
      · exact ih hrest
    rw [if_neg hp, ih hrest]
    split
    · rename_i hname
      have hnone : findEntry entries name = none := by
        rw [findEntry_eq_none]
        intro other hother heq
        exact hfresh (mem_map.mpr ⟨other, hother, heq.trans hname.symm⟩)
      rw [hnone, Option.filter_some, if_neg hp]
      rfl
    · rfl

lemma EntriesValid.filter (h : EntriesValid entries) (p : PollEntry → Bool) :
    EntriesValid (entries.filter p) :=
  ⟨h.nodup.sublist ((filter_sublist).map _), fun entry hentry =>
    h.dot entry (mem_of_mem_filter hentry)⟩

/-- A scan leaves the files of the directory as the entries, and unless it is the first one it
tells the differences from the entries before. -/
structure Scanned (dir : Dir) (files : List (String × Stat)) (initial : Bool) (r : Scan) : Prop where
  filter : r.dir.filter = dir.filter
  valid : EntriesValid r.dir.pollEntries
  snapshot : ∀ name, snapshotAt r.dir.pollEntries name = fileAt files name
  told : ∀ name, aboutName r.reports name =
    if initial then []
    else difference dir.filter name (snapshotAt dir.pollEntries name) (fileAt files name)

lemma scanned {dir : Dir} (h : EntriesValid dir.pollEntries)
    (hnodup : (files.map Prod.fst).Nodup) (initial : Bool) :
    Scanned dir files initial (changePollScanDir dir files initial) := by
  unfold changePollScanDir
  dsimp only
  generalize hstart : (⟨{ dir with
    pollEntries := dir.pollEntries.map fun entry => { entry with seen := false } }, []⟩ : Scan) = r₀
  have hfilter₀ : r₀.dir.filter = dir.filter := by rw [← hstart]
  have htold₀ : ∀ name, aboutName r₀.reports name = [] := by
    intro name
    rw [← hstart]
    rfl
  have hentry₀ : ∀ name, findEntry r₀.dir.pollEntries name =
      (findEntry dir.pollEntries name).map fun entry => { entry with seen := false } := by
    intro name
    rw [← hstart]
    exact findEntry_map fun _ => rfl
  have hvalid₀ : EntriesValid r₀.dir.pollEntries := by
    rw [← hstart]
    constructor
    · have hnames := h.nodup
      simpa [map_map, Function.comp_def] using hnames
    · intro entry hentry
      obtain ⟨old, hold, rfl⟩ := mem_map.mp hentry
      exact h.dot old hold
  have hv : Visited initial files r₀ (files.foldl (Scan.visit initial) r₀) :=
    visited hvalid₀ hnodup
  generalize files.foldl (Scan.visit initial) r₀ = r₁ at hv
  have hunseen := remove_told initial r₁ (hv.valid.filter fun entry => !entry.seen).nodup
  generalize (r₁.dir.pollEntries.filter fun entry => !entry.seen).foldl (Scan.remove initial) r₁ = r₂
    at hunseen
  obtain ⟨hentries₂, hfilter₂, htold₂⟩ := hunseen
  refine ⟨hfilter₂.trans (hv.filter.trans hfilter₀), ?_, fun name => ?_, fun name => ?_⟩
  · have hvalid : EntriesValid (r₂.dir.pollEntries.filter fun entry => entry.seen) := by
      rw [hentries₂]
      exact hv.valid.filter _
    exact hvalid
  · have hentry : snapshotAt (r₂.dir.pollEntries.filter fun entry => entry.seen) name =
        fileAt files name := by
      rw [snapshotAt, hentries₂, findEntry_filter hv.valid.nodup, hv.entry, hentry₀]
      cases fileAt files name with
      | some st => rfl
      | none =>
        cases findEntry dir.pollEntries name with
        | none => rfl
        | some entry => rfl
    exact hentry
  have htold : aboutName r₂.reports name = if initial then []
      else difference dir.filter name (snapshotAt dir.pollEntries name) (fileAt files name) := by
    rw [htold₂, findEntry_filter hv.valid.nodup, hv.entry, hv.told, hentry₀, htold₀, hv.filter,
      hfilter₀, nil_append, snapshotAt]
    unfold found
    cases fileAt files name with
    | some st =>
      cases findEntry dir.pollEntries name with
      | none | some entry => simp [Option.filter]
    | none =>
      cases findEntry dir.pollEntries name with
      | none => simp [difference]
      | some entry => simp [Option.filter]
  exact htold

end WineForge.DirectoryChanges
