import WineForge.DirectoryChanges.Differences
import WineForge.Library.Transition

/-!
# What the polling reports over a run

Every scan tells the differences since the scan before, except for the one that a request makes
when the directory was empty at its last scan: it is taken for the first one.
-/

namespace WineForge.DirectoryChanges

open Function Library List Option

/-- A scan that is not the first one of its directory tells exactly the differences. -/
def ScanRecord.Exact (scan : ScanRecord) : Prop :=
  ∀ before, scan.before = some before → ∀ name, aboutName scan.reports name =
    difference scan.filter name (fileAt before name) (fileAt scan.now name)

def Faithful (s : ChangeServer) : Prop := ∀ scan ∈ s.scans, scan.Exact

def Armed (s : ChangeServer) : Prop :=
  ∀ d dir, s.dirs d = some dir → dir.filter ≠ 0 → s.changePollTimer = true

/-- A request for a directory that has been scanned before, and was empty then, finds no file in it
that passes the filter. -/
def Unabsorbed (s : ChangeServer) : ChangeAction → Prop
  | .readDirectoryChanges d filter _ _ =>
    ∀ dir, s.dirs d = some dir → filter ≠ 0 → dir.filter ≠ 0 → dir.pollEntries = [] →
      ∀ name st, fileAt (s.files d) name = some st →
        (changePollNameFilter st ||| fileNotifyChangeCreation) &&& dir.filter = 0
  | _ => True

/-- The entries of a directory are those of its last scan. -/
structure DirInv (last : Option (List (String × Stat))) (dir : Dir) : Prop where
  valid : EntriesValid dir.pollEntries
  unscanned : dir.filter = 0 → last = none ∧ dir.pollEntries = []
  scanned : dir.filter ≠ 0 →
    ∃ before, last = some before ∧ ∀ name, snapshotAt dir.pollEntries name = fileAt before name

structure ServerInv (s : ChangeServer) : Prop where
  dirs : ∀ d dir, s.dirs d = some dir → DirInv (s.lastScan d) dir
  missing : ∀ d, s.dirs d = none → s.lastScan d = none
  files : ∀ d, ((s.files d).map Prod.fst).Nodup
  listed : ∀ d, d ∈ s.changeList ↔ ∃ dir, s.dirs d = some dir ∧ dir.filter ≠ 0
  nodup : s.changeList.Nodup

variable {s s' : ChangeServer} {d : ℕ} {dir : Dir}

lemma ServerInv.put (h : ServerInv s) {last : Option (List (String × Stat))}
    (hdir : DirInv last dir) (hdirs : s'.dirs = update s.dirs d (some dir))
    (hlast : s'.lastScan = update s.lastScan d last) (hfiles : s'.files = s.files)
    (hlisted : ∀ d', d' ∈ s'.changeList ↔ if d' = d then dir.filter ≠ 0 else d' ∈ s.changeList)
    (hnodup : s'.changeList.Nodup) : ServerInv s' := by
  refine ⟨fun d' dir' hd' => ?_, fun d' hd' => ?_, fun d' => hfiles ▸ h.files d', fun d' => ?_,
    hnodup⟩
  · rw [hdirs] at hd'
    rw [hlast]
    by_cases heq : d' = d
    · rw [heq, update_self] at hd'
      rw [heq, update_self]
      cases hd'
      exact hdir
    · rw [update_of_ne heq] at hd'
      rw [update_of_ne heq]
      exact h.dirs d' dir' hd'
  · rw [hdirs] at hd'
    by_cases heq : d' = d
    · rw [heq, update_self] at hd'
      nomatch hd'
    · rw [update_of_ne heq] at hd'
      rw [hlast, update_of_ne heq]
      exact h.missing d' hd'
  rw [hlisted, hdirs]
  by_cases heq : d' = d
  · rw [if_pos heq, heq, update_self]
    constructor
    · exact fun hfilter => ⟨dir, rfl, hfilter⟩
    · rintro ⟨_, ⟨⟩, hfilter⟩
      exact hfilter
  · rw [if_neg heq, update_of_ne heq]
    exact h.listed d'

lemma dirInv_scan (hvalid : EntriesValid dir.pollEntries) (hfilter : dir.filter ≠ 0)
    {files : List (String × Stat)} (hnodup : (files.map Prod.fst).Nodup) (initial : Bool) :
    DirInv (some files) (changePollScanDir dir files initial).dir := by
  have hscan := scanned hvalid hnodup initial
  rw [← hscan.filter] at hfilter
  exact ⟨hscan.valid, fun h => absurd h hfilter, fun _ => ⟨files, rfl, hscan.snapshot⟩⟩

lemma scan_exact (hdir : DirInv (s.lastScan d) dir) (hfiles : ((s.files d).map Prod.fst).Nodup)
    (hfilter : dir.filter ≠ 0) :
    ScanRecord.Exact ⟨dir.filter, s.lastScan d, s.files d,
      (changePollScanDir dir (s.files d) false).reports⟩ := by
  intro before hbefore name
  obtain ⟨last, hlast, hsnapshot⟩ := hdir.scanned hfilter
  have hsame : last = before := some.inj (hlast.symm.trans hbefore)
  have htold := (scanned hdir.valid hfiles false).told name
  rw [if_neg Bool.false_ne_true, hsnapshot, hsame] at htold
  exact htold

lemma faithful_append (scan : ScanRecord) (h : s'.scans = s.scans ++ [scan]) :
    Faithful s' ↔ Faithful s ∧ scan.Exact := by
  unfold Faithful
  rw [h]
  constructor
  · intro hall
    exact ⟨fun r hr => hall r (mem_append_left _ hr),
      hall scan (mem_append_right _ (mem_singleton_self scan))⟩
  · rintro ⟨hall, hscan⟩ r hr
    obtain hr | hr := mem_append.mp hr
    · exact hall r hr
    · rw [mem_singleton.mp hr]
      exact hscan

lemma scanAll_spec (h : ServerInv s) (ds : List ℕ) :
    ServerInv (s.scanAll ds) ∧ (Faithful (s.scanAll ds) ↔ Faithful s) ∧
      (s.scanAll ds).changeList = s.changeList := by
  induction ds generalizing s with
  | nil => exact ⟨h, Iff.rfl, rfl⟩
  | cons d ds ih =>
    have hstep : ∀ s₁, ServerInv s₁ → (Faithful s₁ ↔ Faithful s) → s₁.changeList = s.changeList →
        ServerInv (s₁.scanAll ds) ∧ (Faithful (s₁.scanAll ds) ↔ Faithful s) ∧
          (s₁.scanAll ds).changeList = s.changeList := by
      intro s₁ hinv hfaithful hlist
      obtain ⟨hinv', hfaithful', hlist'⟩ := ih hinv
      exact ⟨hinv', hfaithful'.trans hfaithful, hlist'.trans hlist⟩
    unfold ChangeServer.scanAll at hstep ⊢
    rw [foldl_cons]
    cases hd : s.dirs d with
    | none => exact hstep s h Iff.rfl rfl
    | some dir =>
      dsimp only
      split
      · rename_i hfilter
        have hdir := h.dirs d dir hd
        have hsame : (changePollScanDir dir (s.files d) false).dir.filter = dir.filter :=
          (scanned hdir.valid (h.files d) false).filter
        refine hstep _ (h.put (dirInv_scan hdir.valid hfilter (h.files d) false) rfl rfl rfl
          (fun d' => ?_) h.nodup) ?_ rfl
        · rw [hsame]
          split
          · rename_i heq
            rw [heq]
            exact iff_of_true ((h.listed d).mpr ⟨dir, hd, hfilter⟩) hfilter
          · exact Iff.rfl
        · rw [faithful_append _ rfl, and_iff_left (scan_exact hdir (h.files d) hfilter)]
      · exact hstep s h Iff.rfl rfl

lemma passing_eq_nil {dirFilter filter : UInt32} {action : FileAction} {name : String} :
    passing dirFilter action filter name = [] ↔ filter &&& dirFilter = 0 := by
  unfold passing
  split
  · rename_i h
    exact iff_of_true rfl h
  · rename_i h
    exact iff_of_false (cons_ne_nil _ _) h

lemma silent_exact {before : List (String × Stat)} (hempty : ∀ name, fileAt before name = none)
    (hvalid : EntriesValid dir.pollEntries) (hlast : s.lastScan d = some before)
    (hfiles : ((s.files d).map Prod.fst).Nodup) :
    ScanRecord.Exact ⟨dir.filter, s.lastScan d, s.files d,
        (changePollScanDir dir (s.files d) true).reports⟩ ↔
      ∀ name st, fileAt (s.files d) name = some st →
        (changePollNameFilter st ||| fileNotifyChangeCreation) &&& dir.filter = 0 := by
  have htold : ∀ name, aboutName (changePollScanDir dir (s.files d) true).reports name = [] :=
    (scanned hvalid hfiles true).told
  constructor
  · intro hexact name st hst
    have hname := hexact before hlast name
    rw [hempty] at hname
    rw [htold, hst] at hname
    exact passing_eq_nil.mp hname.symm
  · intro hquiet before' hbefore name
    have hsame : before = before' := some.inj (hlast.symm.trans hbefore)
    rw [← hsame, hempty]
    rw [htold]
    cases hst : fileAt (s.files d) name with
    | none => rfl
    | some st => exact (passing_eq_nil.mpr (hquiet name st hst)).symm

/-- The directory object as the handler passes it to `change_poll_adjust_changes`. -/
def requested (dir : Dir) (filter : UInt32) (subtree wantData : Bool) : Dir :=
  let dir := { dir with asyncs := dir.asyncs + 1 }
  let dir := if dir.filter = 0 then { dir with filter, subtree, wantData } else dir
  if dir.changeRecords.isEmpty then dir else { dir with asyncs := 0 }

lemma requested_filter (dir : Dir) (filter : UInt32) (subtree wantData : Bool) :
    (requested dir filter subtree wantData).filter =
      if dir.filter = 0 then filter else dir.filter := by
  unfold requested
  by_cases h : dir.filter = 0
  · simp only [h, if_true]
    split
    · rfl
    · rfl
  simp only [h, if_false]
  split
  · rfl
  · rfl

lemma requested_pollEntries (dir : Dir) (filter : UInt32) (subtree wantData : Bool) :
    (requested dir filter subtree wantData).pollEntries = dir.pollEntries := by
  unfold requested
  by_cases h : dir.filter = 0
  · simp only [h, if_true]
    split
    · rfl
    · rfl
  simp only [h, if_false]
  split
  · rfl
  · rfl

lemma readDirectoryChanges_eq {filter : UInt32} {subtree wantData : Bool} (hfilter : filter ≠ 0) :
    s.readDirectoryChanges d dir filter subtree wantData = ChangeServer.adjustChanges
        (if dir.filter = 0 then { s with changeList := d :: s.changeList } else s) d
        (requested dir filter subtree wantData) := by
  unfold ChangeServer.readDirectoryChanges requested
  rw [if_neg hfilter]
  by_cases h : dir.filter = 0
  · simp only [h, decide_true, if_true]
  · simp only [h, decide_false, if_false, Bool.false_eq_true]

lemma readDirectoryChanges_spec (h : ServerInv s) (hd : s.dirs d = some dir) {filter : UInt32}
    {subtree wantData : Bool} (hfilter : filter ≠ 0) :
    ServerInv (s.readDirectoryChanges d dir filter subtree wantData) ∧
      (Faithful (s.readDirectoryChanges d dir filter subtree wantData) ↔
        Faithful s ∧ Unabsorbed s (.readDirectoryChanges d filter subtree wantData)) ∧
      (s.readDirectoryChanges d dir filter subtree wantData).changePollTimer = true ∧
      d ∈ (s.readDirectoryChanges d dir filter subtree wantData).changeList := by
  have hdir := h.dirs d dir hd
  have hentries := requested_pollEntries dir filter subtree wantData
  have hset := requested_filter dir filter subtree wantData
  rw [readDirectoryChanges_eq hfilter]
  generalize hnew : requested dir filter subtree wantData = dir' at hentries hset
  have hnonzero : dir'.filter ≠ 0 := by
    rw [hset]
    split
    · exact hfilter
    · assumption
  generalize hstart : (if dir.filter = 0 then { s with changeList := d :: s.changeList } else s) = s₁
  have hsame : s₁.dirs = s.dirs ∧ s₁.files = s.files ∧ s₁.lastScan = s.lastScan ∧
      s₁.scans = s.scans := by
    rw [← hstart]
    split
    · exact ⟨rfl, rfl, rfl, rfl⟩
    · exact ⟨rfl, rfl, rfl, rfl⟩
  obtain ⟨hdirs, hfiles, hlast, hscans⟩ := hsame
  have hlist : s₁.changeList.Nodup ∧
      ∀ d', d' ∈ s₁.changeList ↔ if d' = d then True else d' ∈ s.changeList := by
    rw [← hstart]
    split
    · rename_i hzero
      have hfresh : d ∉ s.changeList := by
        intro hmem
        obtain ⟨dir₂, hd₂, hne⟩ := (h.listed d).mp hmem
        cases hd.symm.trans hd₂
        exact hne hzero
      refine ⟨nodup_cons.mpr ⟨hfresh, h.nodup⟩, fun d' => ?_⟩
      rw [mem_cons]
      split
      · rename_i heq
        exact iff_of_true (.inl heq) trivial
      · rename_i hne
        exact or_iff_right hne
    · rename_i hne
      refine ⟨h.nodup, fun d' => ?_⟩
      split
      · rename_i heq
        rw [heq]
        exact iff_of_true ((h.listed d).mpr ⟨dir, hd, hne⟩) trivial
      · exact Iff.rfl
  have hlisted : ∀ dir₂ : Dir, dir₂.filter ≠ 0 →
      ∀ d', d' ∈ s₁.changeList ↔ if d' = d then dir₂.filter ≠ 0 else d' ∈ s.changeList := by
    intro dir₂ hne d'
    rw [hlist.2]
    split
    · exact iff_of_true trivial hne
    · exact Iff.rfl
  have hmem : d ∈ s₁.changeList := (hlist.2 d).mpr (by rw [if_pos rfl]; exact trivial)
  unfold ChangeServer.adjustChanges
  by_cases hempty : dir.pollEntries = []
  · have hisEmpty : dir'.pollEntries.isEmpty = true := by
      rw [hentries, hempty]
      rfl
    have hvalid : EntriesValid dir'.pollEntries := hentries ▸ hdir.valid
    have hnodup : ((s₁.files d).map Prod.fst).Nodup := hfiles ▸ h.files d
    rw [if_pos hisEmpty]
    have hscan := dirInv_scan hvalid hnonzero hnodup true
    have hscanned := (scanned hvalid hnodup true).filter
    refine ⟨h.put (d := d) hscan ?_ ?_ hfiles ?_ hlist.1, ?_, rfl, hmem⟩
    · dsimp only [ChangeServer.scan]
      rw [hdirs]
    · dsimp only [ChangeServer.scan]
      rw [hlast]
    · exact hlisted _ (hscanned ▸ hnonzero)
    have happend : Faithful (s₁.scan d dir' true) ↔ _ :=
      faithful_append (s := s₁) _ rfl
    have hold : Faithful s₁ ↔ Faithful s := by
      unfold Faithful
      rw [hscans]
    have hexact : ScanRecord.Exact ⟨dir'.filter, s₁.lastScan d, s₁.files d,
        (changePollScanDir dir' (s₁.files d) true).reports⟩ ↔
        Unabsorbed s (.readDirectoryChanges d filter subtree wantData) := by
      by_cases hzero : dir.filter = 0
      · refine iff_of_true (fun before hbefore => ?_) fun dir₂ hd₂ _ hne => ?_
        · rw [hlast, (hdir.unscanned hzero).1] at hbefore
          nomatch hbefore
        · cases hd.symm.trans hd₂
          exact absurd hzero hne
      rw [if_neg hzero] at hset
      obtain ⟨before, hbefore, hsnapshot⟩ := hdir.scanned hzero
      have hnone : ∀ name, fileAt before name = none := by
        intro name
        rw [← hsnapshot, hempty]
        rfl
      rw [← hlast] at hbefore
      rw [silent_exact hnone hvalid hbefore hnodup, hset, hfiles]
      constructor
      · intro hquiet dir₂ hd₂ _ _ _
        cases hd.symm.trans hd₂
        exact hquiet
      · exact fun hquiet => hquiet dir hd hfilter hzero hempty
    rw [hold, hexact] at happend
    exact happend
  · have hnotEmpty : ¬ dir'.pollEntries.isEmpty = true := by
      rw [hentries, List.isEmpty_iff]
      exact hempty
    have hused : dir.filter ≠ 0 := fun hzero => hempty (hdir.unscanned hzero).2
    rw [if_neg hused] at hset
    have hdir' : DirInv (s.lastScan d) dir' := by
      refine ⟨hentries ▸ hdir.valid, fun hzero => absurd hzero hnonzero, fun _ => ?_⟩
      rw [hentries]
      exact hdir.scanned hused
    rw [if_neg hnotEmpty]
    refine ⟨h.put (d := d) hdir' ?_ ?_ hfiles (hlisted _ hnonzero) hlist.1, ?_, rfl, hmem⟩
    · dsimp only [ChangeServer.setDir]
      rw [hdirs]
    · dsimp only [ChangeServer.setDir]
      rw [hlast, update_eq_self]
    have hold : Faithful s₁ ↔ Faithful s := by
      unfold Faithful
      rw [hscans]
    refine hold.trans (and_iff_left fun dir₂ hd₂ _ _ hnil => ?_).symm
    cases hd.symm.trans hd₂
    exact absurd hnil hempty

/-- The timer is armed exactly while `change_list` is not empty. -/
def TimerInv (s : ChangeServer) : Prop := s.changePollTimer = !s.changeList.isEmpty

lemma timerInv_of_mem {d : ℕ} (htimer : s.changePollTimer = true) (h : d ∈ s.changeList) :
    TimerInv s := by
  have hne : s.changeList.isEmpty = false := isEmpty_eq_false_iff.mpr (ne_nil_of_mem h)
  rw [TimerInv, htimer, hne]
  rfl

lemma initial_inv : ServerInv ChangeServer.initial := by
  refine ⟨nofun, fun _ _ => rfl, fun _ => nodup_nil, fun d => ?_, nodup_nil⟩
  exact iff_of_false not_mem_nil fun ⟨_, h, _⟩ => nomatch h

lemma dirDestroy_inv (h : ServerInv s) (hd : s.dirs d = some dir) :
    ServerInv (s.dirDestroy d dir) ∧ (s.dirDestroy d dir).changeList = s.changeList.erase d := by
  have hlist : (s.dirDestroy d dir).changeList = s.changeList.erase d := by
    unfold ChangeServer.dirDestroy
    split
    · rfl
    rename_i hzero
    have hfresh : d ∉ s.changeList := by
      intro hmem
      obtain ⟨dir₂, hd₂, hne⟩ := (h.listed d).mp hmem
      cases hd.symm.trans hd₂
      exact hzero hne
    exact (erase_of_not_mem hfresh).symm
  have hdirs : (s.dirDestroy d dir).dirs = update s.dirs d none := by
    unfold ChangeServer.dirDestroy
    split
    · rfl
    · rfl
  have hlast : (s.dirDestroy d dir).lastScan = update s.lastScan d none := by
    unfold ChangeServer.dirDestroy
    split
    · rfl
    · rfl
  have hfiles : (s.dirDestroy d dir).files = s.files := by
    unfold ChangeServer.dirDestroy
    split
    · rfl
    · rfl
  refine ⟨⟨fun d' dir' hd' => ?_, fun d' hd' => ?_, fun d' => hfiles ▸ h.files d', fun d' => ?_, ?_⟩,
    hlist⟩
  · rw [hdirs] at hd'
    by_cases heq : d' = d
    · rw [heq, update_self] at hd'
      nomatch hd'
    · rw [update_of_ne heq] at hd'
      rw [hlast, update_of_ne heq]
      exact h.dirs d' dir' hd'
  · rw [hlast]
    by_cases heq : d' = d
    · rw [heq, update_self]
    · rw [hdirs, update_of_ne heq] at hd'
      rw [update_of_ne heq]
      exact h.missing d' hd'
  · rw [hlist, h.nodup.mem_erase_iff, hdirs]
    by_cases heq : d' = d
    · rw [heq, update_self]
      exact iff_of_false (fun hin => hin.1 rfl) fun ⟨_, hnone, _⟩ => nomatch hnone
    · rw [update_of_ne heq, and_iff_right heq]
      exact h.listed d'
  · rw [hlist]
    exact h.nodup.erase d

lemma step_spec (h : ServerInv s) (htimer : TimerInv s) {a : ChangeAction}
    (hstep : s.step a = some s') :
    ServerInv s' ∧ TimerInv s' ∧ (Faithful s' ↔ Faithful s ∧ Unabsorbed s a) := by
  cases a with
  | create d =>
    rw [ChangeServer.step] at hstep
    split at hstep
    · rename_i hnone
      cases hstep
      have hdir : DirInv (s.lastScan d) Dir.create := by
        refine ⟨⟨nodup_nil, fun _ hentry => nomatch hentry⟩, fun _ => ⟨h.missing d hnone, rfl⟩,
          fun hne => absurd rfl hne⟩
      refine ⟨h.put (d := d) hdir rfl (update_eq_self d s.lastScan).symm rfl
        (fun d' => ?_) h.nodup, htimer, (and_iff_left trivial).symm⟩
      split
      · rename_i heq
        rw [heq]
        refine iff_of_false (fun hmem => ?_) (fun hne => hne rfl)
        obtain ⟨_, hd₂, _⟩ := (h.listed d).mp hmem
        rw [hnone] at hd₂
        nomatch hd₂
      · exact Iff.rfl
    · nomatch hstep
  | destroy d =>
    obtain ⟨dir, hd, rfl⟩ := map_eq_some_iff.mp hstep
    obtain ⟨hinv, hlist⟩ := dirDestroy_inv h hd
    have hscans : (s.dirDestroy d dir).scans = s.scans := by
      unfold ChangeServer.dirDestroy
      split
      · rfl
      · rfl
    have hfaithful : Faithful (s.dirDestroy d dir) ↔ Faithful s := by
      unfold Faithful
      rw [hscans]
    refine ⟨hinv, ?_, hfaithful.trans (and_iff_left trivial).symm⟩
    have htimer' : (s.dirDestroy d dir).changePollTimer =
        (s.changePollTimer && !(s.dirDestroy d dir).changeList.isEmpty) := by
      unfold ChangeServer.dirDestroy
      split
      · rfl
      · rfl
    rw [TimerInv, htimer', hlist, htimer]
    cases hempty : s.changeList with
    | nil => rfl
    | cons d' ds => exact Bool.true_and _
  | readDirectoryChanges d filter subtree wantData =>
    obtain ⟨dir, hd, rfl⟩ := map_eq_some_iff.mp hstep
    by_cases hfilter : filter = 0
    · have hsame : s.readDirectoryChanges d dir filter subtree wantData = s := if_pos hfilter
      rw [hsame]
      exact ⟨h, htimer, (and_iff_left fun _ _ hne => absurd hfilter hne).symm⟩
    · obtain ⟨hinv, hfaithful, harmed, hmem⟩ :=
        @readDirectoryChanges_spec s d dir h hd filter subtree wantData hfilter
      exact ⟨hinv, timerInv_of_mem harmed hmem, hfaithful⟩
  | readChange d =>
    obtain ⟨dir, hd, rfl⟩ := map_eq_some_iff.mp hstep
    have hdir := h.dirs d dir hd
    have hkept : DirInv (s.lastScan d) { dir with changeRecords := [] } :=
      ⟨hdir.valid, hdir.unscanned, hdir.scanned⟩
    refine ⟨h.put (d := d) hkept rfl (update_eq_self d s.lastScan).symm rfl
      (fun d' => ?_) h.nodup, htimer, (and_iff_left trivial).symm⟩
    split
    · rename_i heq
      rw [heq]
      constructor
      · intro hmem
        obtain ⟨_, hd₂, hne⟩ := (h.listed d).mp hmem
        cases hd.symm.trans hd₂
        exact hne
      · exact fun hne => (h.listed d).mpr ⟨dir, hd, hne⟩
    · exact Iff.rfl
  | poll =>
    rw [ChangeServer.step] at hstep
    split at hstep
    · cases hstep
      have hquiet : ServerInv { s with changePollTimer := false } :=
        ⟨h.dirs, h.missing, h.files, h.listed, h.nodup⟩
      obtain ⟨hinv, hfaithful, hlist⟩ := scanAll_spec hquiet s.changeList
      refine ⟨⟨hinv.dirs, hinv.missing, hinv.files, hinv.listed, hinv.nodup⟩, rfl, ?_⟩
      exact hfaithful.trans (and_iff_left trivial).symm
    · nomatch hstep
  | change d files =>
    rw [ChangeServer.step] at hstep
    split at hstep
    · rename_i hnodup
      cases hstep
      refine ⟨⟨h.dirs, h.missing, fun d' => ?_, h.listed, h.nodup⟩, htimer,
        (and_iff_left trivial).symm⟩
      dsimp only
      by_cases heq : d' = d
      · rw [heq, update_self]
        exact hnodup
      · rw [update_of_ne heq]
        exact h.files d'
    · nomatch hstep

lemma run_spec (h : ServerInv s) (htimer : TimerInv s) {as : List ChangeAction}
    (hrun : run ChangeServer.step s as = some s') :
    ServerInv s' ∧ TimerInv s' ∧
      (Faithful s' ↔ Faithful s ∧ Guarded ChangeServer.step Unabsorbed s as) := by
  induction as generalizing s with
  | nil =>
    cases hrun
    exact ⟨h, htimer, (and_iff_left trivial).symm⟩
  | cons a as ih =>
    obtain ⟨t, hst, ht⟩ := bind_eq_some_iff.mp hrun
    obtain ⟨hinv, htimer', hfaithful⟩ := step_spec h htimer hst
    obtain ⟨hinv', htimer'', hfaithful'⟩ := ih hinv htimer' ht
    refine ⟨hinv', htimer'', ?_⟩
    have hguarded : Guarded ChangeServer.step Unabsorbed s (a :: as) ↔
        Unabsorbed s a ∧ Guarded ChangeServer.step Unabsorbed t as := by
      rw [Guarded, hst]
    rw [hfaithful', hfaithful, hguarded, and_assoc]

lemma ServerInv.armed (h : ServerInv s) (htimer : TimerInv s) : Armed s := by
  intro d dir hd hfilter
  have hmem : d ∈ s.changeList := (h.listed d).mpr ⟨dir, hd, hfilter⟩
  have hne : s.changeList.isEmpty = false := isEmpty_eq_false_iff.mpr (ne_nil_of_mem hmem)
  rw [htimer, hne]
  rfl

/-- In every run, all scans behind the first ones tell exactly the differences, and the timer is
armed, exactly where no request takes a later scan for the first one and absorbs a file. -/
theorem changes_reported (as : List ChangeAction) (s : ChangeServer)
    (h : run ChangeServer.step ChangeServer.initial as = some s) :
    Faithful s ∧ Armed s ↔ Guarded ChangeServer.step Unabsorbed ChangeServer.initial as := by
  have htimer : TimerInv ChangeServer.initial := rfl
  obtain ⟨hinv, htimer', hfaithful⟩ := run_spec initial_inv htimer h
  have hstart : Faithful ChangeServer.initial := nofun
  rw [and_iff_left (hinv.armed htimer'), hfaithful, and_iff_right hstart]

def plainFile (size : ℤ) : Stat := ⟨0x81a4, size, (1, 0), (1, 0), (1, 0)⟩

/-- A file is created and then deleted between polls of a directory with a filter for names. -/
def observedRun : List ChangeAction :=
  [.create 0, .change 0 [("a", plainFile 0)], .readDirectoryChanges 0 0x3 false true,
    .change 0 [("a", plainFile 0), ("b", plainFile 0)], .poll, .change 0 [("b", plainFile 0)], .poll]

theorem changes_reported_observed :
    ∃ s, run ChangeServer.step ChangeServer.initial observedRun = some s ∧
      (Faithful s ∧ Armed s ↔ Guarded ChangeServer.step Unabsorbed ChangeServer.initial observedRun) :=
  ⟨_, rfl, changes_reported observedRun _ rfl⟩

/-- A file is created in an empty directory, and the client asks again before the next poll. -/
def absorbedRun : List ChangeAction :=
  [.create 0, .readDirectoryChanges 0 0x3 false true, .change 0 [("a", plainFile 0)],
    .readDirectoryChanges 0 0x3 false true]

/-- The second request scans the directory and tells nothing about the new file. -/
theorem change_absorbed :
    ∃ s, run ChangeServer.step ChangeServer.initial absorbedRun = some s ∧ ¬ Faithful s := by
  refine ⟨_, rfl, fun h => ?_⟩
  have hsecond : ScanRecord.Exact ⟨0x3, some [], [("a", plainFile 0)], []⟩ :=
    h _ (mem_of_getElem? (i := 1) rfl)
  have hexact := hsecond [] rfl "a"
  exact absurd hexact (by decide)

end WineForge.DirectoryChanges
