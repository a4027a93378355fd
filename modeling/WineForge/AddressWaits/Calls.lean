import WineForge.AddressWaits.Accesses

/-!
# What a wake takes

A wake takes the first entry that is queued on its address, or all of them, and every entry is
taken by one wake at most.
-/

namespace WineForge.AddressWaits

open Function Library List Option

variable {T : Type} {s s' : State T} {t : T}

def Pc.call : Pc T → Option Nat
  | .scan _ _ call _ _ | .unlinked _ _ call _ _ _ _ | .flush _ call _ _ _ => some call
  | _ => none

/-- The entries from `next` on are left, and what was seen is what was taken and what is left. -/
def Scanned (s : State T) (all : Bool) (addr call : Nat) (next : Option Nat) : Prop :=
  call < s.callCount ∧ (s.calls call).all = all ∧ (s.calls call).finished = false ∧
    ∃ pre rest, s.queue (getFutexQueue addr) = pre ++ rest ∧ next = rest.head? ∧
      (∀ e ∈ pre, s.addr e ≠ some addr) ∧
      (s.calls call).seen = (s.calls call).took ++ rest.filter fun e => s.addr e = some addr

def ScanInv (s : State T) : Pc T → Prop
  | .scan all addr call cursor tids =>
    Scanned s all addr call cursor ∧ (all = false → (s.calls call).took = [] ∧ tids = [])
  | .unlinked all addr call entry _ next tids =>
    Scanned s all addr call next ∧ (all = false → (s.calls call).took = [entry] ∧ tids = [])
  | .flush addr call _ next _ => Scanned s true addr call next
  | _ => True

/-- What holds of the wakes so far. -/
structure Records (calls : Nat → Call) (callCount count : Nat) (queue : Nat → List Nat) :
    Prop where
  finished : ∀ c < callCount, (calls c).finished = true →
    (calls c).took = if (calls c).all then (calls c).seen else (calls c).seen.take 1
  sorted : ∀ c < callCount, (calls c).seen.Pairwise (· < ·)
  taken : ∀ c < callCount, ∀ e ∈ (calls c).took, e < count ∧ ∀ b, e ∉ queue b
  disjoint : ∀ c < callCount, ∀ c' < callCount, ∀ e ∈ (calls c).took, e ∈ (calls c').took → c = c'

structure CallInv (s : State T) : Prop where
  scans : ∀ w, ScanInv s (s.pc w)
  distinct : ∀ w w' c, (s.pc w).call = some c → (s.pc w').call = some c → w = w'
  records : Records s.calls s.callCount s.count s.queue
  /-- A wake that is not over has a thread in its locked part. -/
  unfinished : ∀ c < s.callCount, (s.calls c).finished = true ∨ ∃ w, (s.pc w).call = some c

lemma ScanInv.call_lt {pc : Pc T} {c : Nat} (h : ScanInv s pc) (hcall : pc.call = some c) :
    c < s.callCount := by
  cases pc with
  | scan all addr call cursor tids | unlinked all addr call entry tid next tids =>
    obtain rfl := some.inj hcall
    exact h.1.1
  | flush addr call tid next tids =>
    obtain rfl := some.inj hcall
    exact h.1
  | _ => simp [Pc.call] at hcall

lemma Scanned.frame {all : Bool} {addr call : Nat} {next : Option Nat}
    (h : Scanned s all addr call next)
    (hqueue : s'.queue (getFutexQueue addr) = s.queue (getFutexQueue addr))
    (haddr : ∀ e ∈ s.queue (getFutexQueue addr), s'.addr e = s.addr e)
    (hcall : s'.calls call = s.calls call) (hcount : s.callCount ≤ s'.callCount) :
    Scanned s' all addr call next := by
  obtain ⟨hlt, hall, hfinished, pre, rest, hsplit, hnext, hpre, hseen⟩ := h
  unfold Scanned
  rw [hcall, hqueue]
  refine ⟨Nat.lt_of_lt_of_le hlt hcount, hall, hfinished, pre, rest, hsplit, hnext, ?_, ?_⟩
  · intro e he
    rw [haddr e (hsplit ▸ mem_append_left _ he)]
    exact hpre e he
  rw [hseen]
  congr 1
  apply filter_congr
  intro e he
  rw [haddr e (hsplit ▸ mem_append_right _ he)]

lemma ScanInv.frame {pc : Pc T} (h : ScanInv s pc)
    (hqueue : ∀ b, pc.locks = some b → pc.call ≠ none → s'.queue b = s.queue b ∧
      ∀ e ∈ s.queue b, s'.addr e = s.addr e)
    (hcall : ∀ c, pc.call = some c → s'.calls c = s.calls c)
    (hcount : s.callCount ≤ s'.callCount) : ScanInv s' pc := by
  cases pc with
  | scan all addr call cursor tids | unlinked all addr call entry tid next tids =>
    obtain ⟨hsame, haddr⟩ := hqueue _ rfl (by simp [Pc.call])
    refine ⟨h.1.frame hsame haddr (hcall call rfl) hcount, ?_⟩
    rw [hcall call rfl]
    exact h.2
  | flush addr call tid next tids =>
    obtain ⟨hsame, haddr⟩ := hqueue _ rfl (by simp [Pc.call])
    exact Scanned.frame h hsame haddr (hcall call rfl) hcount
  | _ => trivial

section Steps

variable [DecidableEq T] {pc : Pc T}

lemma CallInv.of_step (h : CallInv s) (hpc : s'.pc = update s.pc t pc)
    (hothers : ∀ w ≠ t, ∀ b, (s.pc w).locks = some b → (s.pc w).call ≠ none →
      s'.queue b = s.queue b ∧ ∀ e ∈ s.queue b, s'.addr e = s.addr e)
    (hcalls : ∀ c, c < s.callCount → (s.pc t).call ≠ some c → s'.calls c = s.calls c)
    (hcount : s.callCount ≤ s'.callCount) (hself : ScanInv s' pc)
    (hcall : ∀ c, pc.call = some c → (s.pc t).call = some c ∨ s.callCount ≤ c)
    (hrecords : Records s'.calls s'.callCount s'.count s'.queue)
    (hopen : ∀ c < s'.callCount, (s'.calls c).finished = true ∨ pc.call = some c ∨
      (s.pc t).call ≠ some c ∧ c < s.callCount) : CallInv s' := by
  have hother : ∀ w ≠ t, s'.pc w = s.pc w := by
    intro w hne
    rw [hpc, update_of_ne hne]
  have hself' : s'.pc t = pc := by rw [hpc, update_self]
  -- the wake of another thread is not the one of this step
  have hne_call : ∀ w ≠ t, ∀ c, (s.pc w).call = some c → pc.call ≠ some c := by
    intro w hne c hw hpc'
    obtain hold | hnew := hcall c hpc'
    · exact hne (h.distinct w t c hw hold)
    · exact absurd ((h.scans w).call_lt hw) (Nat.not_lt_of_le hnew)
  refine ⟨fun w => ?_, fun w w' c hw hw' => ?_, hrecords, fun c hc => ?_⟩
  · by_cases heq : w = t
    · rw [heq, hself']
      exact hself
    rw [hother w heq]
    refine (h.scans w).frame (hothers w heq) (fun c hc => ?_) hcount
    apply hcalls c ((h.scans w).call_lt hc)
    intro ht
    exact heq (h.distinct w t c hc ht)
  · by_cases heq : w = t
    · by_cases heq' : w' = t
      · rw [heq, heq']
      · rw [heq, hself'] at hw
        rw [hother w' heq'] at hw'
        exact absurd hw (hne_call w' heq' c hw')
    rw [hother w heq] at hw
    by_cases heq' : w' = t
    · rw [heq', hself'] at hw'
      exact absurd hw' (hne_call w heq c hw)
    · rw [hother w' heq'] at hw'
      exact h.distinct w w' c hw hw'
  · obtain hfinished | hself | ⟨hne, hlt⟩ := hopen c hc
    · exact .inl hfinished
    · exact .inr ⟨t, hself' ▸ hself⟩
    rw [hcalls c hlt hne]
    refine (h.unfinished c hlt).imp id ?_
    rintro ⟨w, hw⟩
    have hwt : w ≠ t := by
      rintro rfl
      exact hne hw
    exact ⟨w, (hother w hwt).symm ▸ hw⟩

omit [DecidableEq T] in
lemma still_open (hcall : (s.pc t).call = pc.call) :
    ∀ c < s.callCount, (s'.calls c).finished = true ∨ pc.call = some c ∨
      (s.pc t).call ≠ some c ∧ c < s.callCount := by
  intro c hc
  by_cases heq : (s.pc t).call = some c
  · exact .inr (.inl (hcall ▸ heq))
  · exact .inr (.inr ⟨heq, hc⟩)

lemma CallInv.quiet (h : CallInv s) (hpc : s'.pc = update s.pc t pc)
    (hold : (s.pc t).call = none) (hcall : pc.call = none) (hqueue : s'.queue = s.queue)
    (haddr : ∀ b, ∀ e ∈ s.queue b, s'.addr e = s.addr e)
    (hcalls : s'.calls = s.calls) (hcallCount : s'.callCount = s.callCount)
    (hcount : s'.count = s.count) : CallInv s' := by
  refine h.of_step hpc (fun w _ b _ _ => ⟨by rw [hqueue], haddr b⟩) (fun c _ _ => by rw [hcalls])
    (Nat.le_of_eq hcallCount.symm) ?_ ?_ ?_ fun c hc => .inr (.inr ⟨?_, hcallCount ▸ hc⟩)
  · cases pc with
    | scan | unlinked | flush => simp [Pc.call] at hcall
    | _ => trivial
  · rw [hcall]
    simp
  · rw [hcalls, hcallCount, hcount, hqueue]
    exact h.records
  · rw [hold]
    simp

end Steps

section Recording

variable {calls : Nat → Call} {callCount count : Nat} {queue : Nat → List Nat}

section

variable (h : Records calls callCount count queue)

include h

lemma Records.requeue {count' : Nat}
    {queue' : Nat → List Nat} (hcount : count ≤ count')
    (hqueue : ∀ b, ∀ e ∈ queue' b, e ∈ queue b ∨ count ≤ e) :
    Records calls callCount count' queue' := by
  refine ⟨h.finished, h.sorted, fun c hc e he => ?_, h.disjoint⟩
  obtain ⟨hlt, hout⟩ := h.taken c hc e he
  refine ⟨Nat.lt_of_lt_of_le hlt hcount, fun b hmem => ?_⟩
  obtain hmem | hle := hqueue b e hmem
  · exact hout b hmem
  · exact absurd hlt (Nat.not_lt_of_le hle)

lemma Records.begin {all : Bool} {addr : Nat}
    {seen : List Nat} (hseen : seen.Pairwise (· < ·)) :
    Records (update calls callCount ⟨all, addr, seen, [], false⟩) (callCount + 1) count queue := by
  have hold : ∀ c, c < callCount + 1 → c ≠ callCount → c < callCount := fun c hc hne => by omega
  constructor
  · intro c hc hfinished
    by_cases heq : c = callCount
    · rw [heq, update_self] at hfinished
      simp at hfinished
    · rw [update_of_ne heq] at hfinished ⊢
      exact h.finished c (hold c hc heq) hfinished
  · intro c hc
    by_cases heq : c = callCount
    · rw [heq, update_self]
      exact hseen
    · rw [update_of_ne heq]
      exact h.sorted c (hold c hc heq)
  · intro c hc e he
    by_cases heq : c = callCount
    · rw [heq, update_self] at he
      simp at he
    · rw [update_of_ne heq] at he
      exact h.taken c (hold c hc heq) e he
  · intro c hc c' hc' e he he'
    by_cases heq : c = callCount
    · rw [heq, update_self] at he
      simp at he
    by_cases heq' : c' = callCount
    · rw [heq', update_self] at he'
      simp at he'
    · rw [update_of_ne heq] at he
      rw [update_of_ne heq'] at he'
      exact h.disjoint c (hold c hc heq) c' (hold c' hc' heq') e he he'

lemma Records.finish {c : Nat} (htook : (calls c).took =
      if (calls c).all then (calls c).seen else (calls c).seen.take 1) :
    Records (update calls c { calls c with finished := true }) callCount count queue := by
  have hfields : ∀ c', (update calls c { calls c with finished := true } c').took =
      (calls c').took ∧ (update calls c { calls c with finished := true } c').seen =
      (calls c').seen ∧ (update calls c { calls c with finished := true } c').all =
      (calls c').all := by
    intro c'
    by_cases heq : c' = c
    · rw [heq, update_self]
      exact ⟨rfl, rfl, rfl⟩
    · rw [update_of_ne heq]
      exact ⟨rfl, rfl, rfl⟩
  constructor
  · intro c' hc' hfinished
    rw [(hfields c').1, (hfields c').2.1, (hfields c').2.2]
    by_cases heq : c' = c
    · rw [heq]
      exact htook
    · rw [update_of_ne heq] at hfinished
      exact h.finished c' hc' hfinished
  · intro c' hc'
    rw [(hfields c').2.1]
    exact h.sorted c' hc'
  · intro c' hc' e he
    rw [(hfields c').1] at he
    exact h.taken c' hc' e he
  · intro c₁ hc₁ c₂ hc₂ e he he'
    rw [(hfields c₁).1] at he
    rw [(hfields c₂).1] at he'
    exact h.disjoint c₁ hc₁ c₂ hc₂ e he he'

lemma Records.take {c entry b : Nat}
    {queue' : Nat → List Nat} (hunfinished : (calls c).finished = false) (hlt : entry < count)
    (hmem : entry ∈ queue b) (hqueue : ∀ b, ∀ e ∈ queue' b, e ∈ queue b ∧ e ≠ entry) :
    Records (update calls c { calls c with took := (calls c).took ++ [entry] }) callCount
      count queue' := by
  -- the entry was taken by nobody before
  have hfresh : ∀ c' < callCount, entry ∉ (calls c').took := fun c' hc' he =>
    (h.taken c' hc' entry he).2 b hmem
  have htook : ∀ c' < callCount, ∀ e ∈
      (update calls c { calls c with took := (calls c).took ++ [entry] } c').took,
      e ∈ (calls c').took ∨ e = entry ∧ c' = c := by
    intro c' _ e he
    by_cases heq : c' = c
    · rw [heq, update_self] at he
      exact (mem_append.mp he).imp (fun he => heq ▸ he) fun he =>
        ⟨mem_singleton.mp he, heq⟩
    · rw [update_of_ne heq] at he
      exact .inl he
  constructor
  · intro c' hc' hfinished
    by_cases heq : c' = c
    · rw [heq, update_self] at hfinished
      rw [hunfinished] at hfinished
      simp at hfinished
    · rw [update_of_ne heq] at hfinished ⊢
      exact h.finished c' hc' hfinished
  · intro c' hc'
    by_cases heq : c' = c
    · rw [heq, update_self]
      exact h.sorted c (heq ▸ hc')
    · rw [update_of_ne heq]
      exact h.sorted c' hc'
  · intro c' hc' e he
    obtain he | ⟨rfl, _⟩ := htook c' hc' e he
    · obtain ⟨hlt', hout⟩ := h.taken c' hc' e he
      exact ⟨hlt', fun b' hmem' => hout b' (hqueue b' e hmem').1⟩
    · exact ⟨hlt, fun b' hmem' => (hqueue b' e hmem').2 rfl⟩
  · intro c₁ hc₁ c₂ hc₂ e he he'
    obtain hin | ⟨heq, hc⟩ := htook c₁ hc₁ e he
    · obtain hin' | ⟨heq, _⟩ := htook c₂ hc₂ e he'
      · exact h.disjoint c₁ hc₁ c₂ hc₂ e hin hin'
      · exact absurd (heq ▸ hin) (hfresh c₁ hc₁)
    · obtain hin' | ⟨_, hc'⟩ := htook c₂ hc₂ e he'
      · exact absurd (heq ▸ hin') (hfresh c₂ hc₂)
      · rw [hc, hc']

end

end Recording

section Steps

variable [DecidableEq T] {all : Bool} {addr call entry : Nat} {tids : List T}

omit [DecidableEq T] in
lemma Scanned.cons
    (h : Scanned s all addr call (some entry)) (hnodup : (s.queue (getFutexQueue addr)).Nodup) :
    ∃ pre rest, s.queue (getFutexQueue addr) = pre ++ entry :: rest ∧ entry ∉ pre ∧
      entry ∉ rest ∧ nextIn (s.queue (getFutexQueue addr)) entry = rest.head? ∧
      (∀ e ∈ pre, s.addr e ≠ some addr) ∧
      (s.calls call).seen = (s.calls call).took ++
        (entry :: rest).filter fun e => s.addr e = some addr := by
  obtain ⟨_, _, _, pre, rest, hsplit, hnext, hpre, hseen⟩ := h
  cases rest with
  | nil => simp at hnext
  | cons other rest =>
    obtain rfl : entry = other := some.inj hnext
    rw [hsplit] at hnodup
    obtain ⟨_, hnodup', hdisjoint⟩ := nodup_append'.mp hnodup
    have hnot : entry ∉ pre := fun hmem => hdisjoint hmem mem_cons_self
    refine ⟨pre, rest, hsplit, hnot, (nodup_cons.mp hnodup').1, ?_, hpre, hseen⟩
    rw [hsplit, nextIn_append hnot]

lemma CallInv.skip (h : CallInv s)
    (hentries : EntryInv s) (hpc : s.pc t = .scan all addr call (some entry) tids)
    (haddr : s.addr entry ≠ some addr) :
    CallInv (s.setPc t
      (.scan all addr call (nextIn (s.queue (getFutexQueue addr)) entry) tids)) := by
  have hself := h.scans t
  rw [hpc] at hself
  obtain ⟨hscanned, htook⟩ := hself
  obtain ⟨pre, rest, hsplit, _, _, hnext, hpre, hseen⟩ := hscanned.cons (hentries.nodup _)
  refine h.of_step rfl (fun _ _ _ _ _ => ⟨rfl, fun _ _ => rfl⟩) (fun _ _ _ => rfl) (Nat.le_refl _)
    ⟨⟨hscanned.1, hscanned.2.1, hscanned.2.2.1, pre ++ [entry], rest, ?_, hnext, ?_, ?_⟩, htook⟩
    (fun c hc => .inl (by rw [hpc]; exact hc)) h.records
    (still_open (by rw [hpc]))
  · rw [append_assoc]
    exact hsplit
  · intro e he
    obtain he | he := mem_append.mp he
    · exact hpre e he
    · rw [mem_singleton.mp he]
      exact haddr
  · rw [filter_cons_of_neg (by simpa using haddr)] at hseen
    exact hseen

lemma CallInv.take (h : CallInv s) (hentries : EntryInv s) (hlocks : LockInv s)
    (hpc : s.pc t = .scan all addr call (some entry) tids) (haddr : s.addr entry = some addr) :
    CallInv (AddressWaits.take s t all addr call entry tids) := by
  have hself := h.scans t
  rw [hpc] at hself
  obtain ⟨hscanned, htook⟩ := hself
  have hnodup := hentries.nodup (getFutexQueue addr)
  obtain ⟨pre, rest, hsplit, hnot, hnot', hnext, hpre, hseen⟩ := hscanned.cons hnodup
  have hmem : entry ∈ s.queue (getFutexQueue addr) := by
    rw [hsplit]
    exact mem_append_right _ mem_cons_self
  obtain ⟨hlt, _⟩ := hentries.queued _ entry hmem
  have hlock : (s.pc t).locks = some (getFutexQueue addr) := by rw [hpc]; rfl
  have herase : ∀ b, (AddressWaits.take s t all addr call entry tids).queue b =
      (s.queue b).erase entry := hentries.unlink_queue haddr
  have hcall : (AddressWaits.take s t all addr call entry tids).calls call =
      { s.calls call with took := (s.calls call).took ++ [entry] } := update_self _ _ _
  refine h.of_step rfl (fun w hne b hw hscan => ⟨?_, fun _ _ => rfl⟩) (fun c _ hne => ?_)
    (Nat.le_refl _) ⟨⟨hscanned.1, ?_, ?_, pre, rest, ?_, hnext, hpre, ?_⟩, fun hall => ?_⟩
    (fun c hc => .inl (by rw [hpc]; exact hc)) ?_ (still_open (by rw [hpc]))
  · rw [herase, erase_of_not_mem]
    intro hin
    have hb := hentries.queue_of_mem haddr hin
    exact hne (hlocks.unique hw (hb ▸ hlock))
  · refine update_of_ne ?_ _ _
    rintro rfl
    exact hne (by rw [hpc]; rfl)
  · rw [hcall]
    exact hscanned.2.1
  · rw [hcall]
    exact hscanned.2.2.1
  · rw [herase, hsplit, erase_append_right _ hnot, erase_cons_head]
  · rw [hcall, hseen, filter_cons_of_pos (by simpa using haddr)]
    simp only [append_assoc, singleton_append]
    rfl
  · rw [hcall, (htook hall).1]
    exact ⟨rfl, (htook hall).2⟩
  apply h.records.take hscanned.2.2.1 hlt hmem
  intro b e he
  rw [herase, (hentries.nodup b).mem_erase_iff] at he
  exact ⟨he.2, he.1⟩

lemma endScan_open (hcall : (s.pc t).call = some call) :
    ∀ c < s.callCount, ((AddressWaits.endScan s t addr call tids).calls c).finished = true ∨
      (Pc.wakeUnlock addr tids).call = some c ∨ (s.pc t).call ≠ some c ∧ c < s.callCount := by
  intro c hc
  by_cases heq : c = call
  · refine .inl ?_
    simp [AddressWaits.endScan, State.setPc, State.setCall, heq]
  · refine .inr (.inr ⟨?_, hc⟩)
    rw [hcall]
    exact fun h => heq (some.inj h).symm

lemma CallInv.clear {tid : T} {next : Option Nat} (h : CallInv s) (hentries : EntryInv s)
    (hpc : s.pc t = .unlinked all addr call entry tid next tids) :
    let s₁ := { s with addr := update s.addr entry none }
    CallInv (if !all then endScan s₁ t addr call [tid]
      else if tids.length = 256 then s₁.setPc t (.flush addr call tid next tids)
      else s₁.setPc t (.scan true addr call next (tids ++ [tid]))) := by
  intro s₁
  have hself := h.scans t
  rw [hpc] at hself
  obtain ⟨hscanned, htook⟩ := hself
  obtain ⟨_, _, _, hout, _⟩ := hentries.unlinking t entry addr (by rw [hpc]; rfl)
  have haddr : ∀ b, ∀ e ∈ s.queue b, s₁.addr e = s.addr e := by
    intro b e he
    refine update_of_ne ?_ _ _
    rintro rfl
    exact hout b he
  have hscanned₁ : Scanned s₁ all addr call next :=
    hscanned.frame rfl (haddr _) rfl (Nat.le_refl _)
  cases all with
  | false =>
    obtain ⟨_, hall, _, _, rest, _, _, _, hseen⟩ := hscanned
    have htook := (htook rfl).1
    have hcalls : ∀ c, c < s.callCount → (s.pc t).call ≠ some c →
        (endScan s₁ t addr call [tid]).calls c = s.calls c := by
      intro c _ hne
      refine update_of_ne ?_ _ _
      rintro rfl
      exact hne (by rw [hpc]; rfl)
    refine h.of_step rfl (fun _ _ b _ _ => ⟨rfl, haddr b⟩) hcalls (Nat.le_refl _) trivial
      (by simp [Pc.call]) (h.records.finish ?_) (endScan_open (by rw [hpc]; rfl))
    rw [hall, hseen, htook]
    simp
  | true =>
    rw [if_neg (by simp)]
    have hcall : ∀ c, some call = some c → (s.pc t).call = some c ∨ s.callCount ≤ c := by
      intro c hc
      exact .inl (by rw [hpc]; exact hc)
    split
    · exact h.of_step rfl (fun _ _ b _ _ => ⟨rfl, haddr b⟩) (fun _ _ _ => rfl) (Nat.le_refl _)
        (hscanned₁.frame rfl (fun _ _ => rfl) rfl (Nat.le_refl _)) hcall h.records
        (still_open (by rw [hpc]))
    · exact h.of_step rfl (fun _ _ b _ _ => ⟨rfl, haddr b⟩) (fun _ _ _ => rfl) (Nat.le_refl _)
        ⟨hscanned₁.frame rfl (fun _ _ => rfl) rfl (Nat.le_refl _), by simp⟩ hcall h.records
        (still_open (by rw [hpc]))

lemma CallInv.endScan (h : CallInv s) (hpc : s.pc t = .scan all addr call none tids) :
    CallInv (AddressWaits.endScan s t addr call tids) := by
  have hself := h.scans t
  rw [hpc] at hself
  obtain ⟨⟨_, hall, _, pre, rest, _, hnext, _, hseen⟩, htook⟩ := hself
  have hnil : rest = [] := head?_eq_none_iff.mp hnext.symm
  rw [hnil, filter_nil, append_nil] at hseen
  refine h.of_step rfl (fun _ _ _ _ _ => ⟨rfl, fun _ _ => rfl⟩) (fun c _ hne => ?_)
    (Nat.le_refl _) trivial (by simp [Pc.call]) (h.records.finish ?_)
    (endScan_open (by rw [hpc]; rfl))
  · refine update_of_ne ?_ _ _
    rintro rfl
    exact hne (by rw [hpc]; rfl)
  rw [hall, hseen]
  cases all with
  | true => rfl
  | false =>
    rw [(htook rfl).1]
    rfl

lemma CallInv.beginScan (h : CallInv s) (hentries : EntryInv s)
    (hpc : s.pc t = .wakeLock all addr) {lock : Nat → Option T} :
    CallInv (AddressWaits.beginScan { s with lock := lock } t all addr) := by
  have hcall : (AddressWaits.beginScan { s with lock := lock } t all addr).calls s.callCount =
      ⟨all, addr, queuedOn { s with lock := lock } addr, [], false⟩ := update_self _ _ _
  refine h.of_step rfl (fun _ _ _ _ _ => ⟨rfl, fun _ _ => rfl⟩) (fun c hc _ => ?_)
    (Nat.le_succ _) ⟨⟨Nat.lt_succ_self _, ?_, ?_, [], s.queue (getFutexQueue addr), rfl, rfl,
    by simp, ?_⟩, fun _ => ?_⟩ (fun c hc => ?_) (h.records.begin ?_) fun c hc => ?_
  · exact update_of_ne (Nat.ne_of_lt hc) _ _
  · rw [hcall]
  · rw [hcall]
  · rw [hcall]
    rfl
  · rw [hcall]
    exact ⟨rfl, rfl⟩
  · exact .inr (Nat.le_of_eq (some.inj hc))
  · exact (hentries.sorted _).sublist filter_sublist
  have hc : c < s.callCount + 1 := hc
  by_cases heq : c = s.callCount
  · exact .inr (.inl (heq ▸ rfl))
  · refine .inr (.inr ⟨?_, by omega⟩)
    rw [hpc]
    simp [Pc.call]

lemma CallInv.requeue {pc : Pc T} {b : Nat} (h : CallInv s) (hlocks : LockInv s)
    (hlock : (s.pc t).locks = some b) (hpc : s'.pc = update s.pc t pc)
    (hold : (s.pc t).call = none) (hcall : pc.call = none) (hqueue : ∀ b' ≠ b, s'.queue b' = s.queue b')
    (haddr : ∀ b, ∀ e ∈ s.queue b, s'.addr e = s.addr e) (hcalls : s'.calls = s.calls)
    (hcallCount : s'.callCount = s.callCount) (hcount : s.count ≤ s'.count)
    (hnew : ∀ b', ∀ e ∈ s'.queue b', e ∈ s.queue b' ∨ s.count ≤ e) : CallInv s' := by
  refine h.of_step hpc (fun w hne b' hw _ => ⟨hqueue b' ?_, haddr b'⟩) (fun c _ _ => by rw [hcalls])
    (Nat.le_of_eq hcallCount.symm) ?_ ?_ ?_ fun c hc => .inr (.inr ⟨?_, hcallCount ▸ hc⟩)
  · rintro rfl
    exact hne (hlocks.unique hw hlock)
  · cases pc with
    | scan | unlinked | flush => simp [Pc.call] at hcall
    | _ => trivial
  · rw [hcall]
    simp
  · rw [hcalls, hcallCount]
    exact h.records.requeue hcount hnew
  · rw [hold]
    simp

lemma next_calls (h : CallInv s) (hentries : EntryInv s) (hlocks : LockInv s)
    (hnext : next s t = some s') : CallInv s' := by
  unfold next at hnext
  cases hpc : s.pc t <;> simp only [hpc, Option.some.injEq, reduceCtorEq] at hnext
  case waitLock addr cmp size timed =>
    obtain ⟨s₁, hlock, rfl⟩ := Option.map_eq_some_iff.mp hnext
    obtain ⟨_, rfl⟩ := spinLock_eq_some.mp hlock
    exact h.quiet rfl (by rw [hpc]; rfl) rfl rfl (fun _ _ _ => rfl) rfl rfl rfl
  case waitCompare addr cmp size timed =>
    rw [← hnext]
    split
    · refine h.requeue hlocks (by rw [hpc]; rfl) rfl (by rw [hpc]; rfl) rfl
        (fun b hne => update_of_ne hne _ _) (fun b e he => ?_) rfl rfl (Nat.le_succ _)
        fun b e he => ?_
      · exact update_of_ne (Nat.ne_of_lt (hentries.queued b e he).1) _ _
      by_cases hb : b = getFutexQueue addr
      · subst hb
        have he : e ∈ s.queue (getFutexQueue addr) ++ [s.count] := by
          simpa [enqueue, State.setPc, State.setQueue] using he
        refine (List.mem_append.mp he).imp id fun he => ?_
        exact Nat.le_of_eq (List.mem_singleton.mp he).symm
      · simp only [enqueue, State.setPc, State.setQueue, update_of_ne hb] at he
        exact .inl he
    · exact h.quiet rfl (by rw [hpc]; rfl) rfl rfl (fun _ _ _ => rfl) rfl rfl rfl
  case waitChanged addr =>
    exact hnext ▸ h.quiet rfl (by rw [hpc]; rfl) rfl rfl (fun _ _ _ => rfl) rfl rfl rfl
  case waitUnlock entry addr timed =>
    exact hnext ▸ h.quiet rfl (by rw [hpc]; rfl) rfl rfl (fun _ _ _ => rfl) rfl rfl rfl
  case sleeping entry addr timed =>
    split at hnext
    · exact some.inj hnext ▸ h.quiet rfl (by rw [hpc]; rfl) rfl rfl (fun _ _ _ => rfl) rfl rfl rfl
    · exact absurd hnext (by simp)
  case checkAddr entry addr ret =>
    rw [← hnext]
    split
    · exact h.quiet rfl (by rw [hpc]; rfl) rfl rfl (fun _ _ _ => rfl) rfl rfl rfl
    · exact h.quiet rfl (by rw [hpc]; rfl) rfl rfl (fun _ _ _ => rfl) rfl rfl rfl
  case removeLock entry addr ret =>
    obtain ⟨s₁, hlock, rfl⟩ := Option.map_eq_some_iff.mp hnext
    obtain ⟨_, rfl⟩ := spinLock_eq_some.mp hlock
    exact h.quiet rfl (by rw [hpc]; rfl) rfl rfl (fun _ _ _ => rfl) rfl rfl rfl
  case removeCheck entry addr ret =>
    rw [← hnext]
    split
    · exact h.quiet rfl (by rw [hpc]; rfl) rfl rfl (fun _ _ _ => rfl) rfl rfl rfl
    rename_i hsome
    obtain ⟨_, _, _, haddr⟩ := hentries.waits t entry addr (by rw [hpc]; rfl)
    refine h.requeue hlocks (by rw [hpc]; rfl) rfl (by rw [hpc]; rfl) rfl
      (fun b hne => update_of_ne hne _ _) (fun _ _ _ => rfl) rfl rfl (Nat.le_refl _)
      fun b e he => ?_
    have he : e ∈ (s.queue b).erase entry :=
      hentries.unlink_queue (haddr.resolve_right hsome) b ▸ he
    exact .inl (mem_of_mem_erase he)
  case removeUnlock entry addr ret =>
    exact hnext ▸ h.quiet rfl (by rw [hpc]; rfl) rfl rfl (fun _ _ _ => rfl) rfl rfl rfl
  case wakeIncrement all addr =>
    exact hnext ▸ h.quiet rfl (by rw [hpc]; rfl) rfl rfl (fun _ _ _ => rfl) rfl rfl rfl
  case wakeLock all addr =>
    obtain ⟨s₁, hlock, rfl⟩ := Option.map_eq_some_iff.mp hnext
    obtain ⟨_, rfl⟩ := spinLock_eq_some.mp hlock
    exact h.beginScan hentries hpc
  case scan all addr call cursor tids =>
    cases cursor with
    | none =>
      simp only [Option.some.injEq] at hnext
      exact hnext ▸ h.endScan hpc
    | some entry =>
      simp only [Option.some.injEq] at hnext
      rw [← hnext]
      split
      · rename_i haddr
        exact h.take hentries hlocks hpc haddr
      · rename_i haddr
        exact h.skip hentries hpc haddr
  case unlinked all addr call entry tid next tids =>
    exact hnext ▸ h.clear hentries hpc
  case flush addr call tid next tids =>
    have hself := h.scans t
    rw [hpc] at hself
    have hcall : ∀ c, some call = some c → (s.pc t).call = some c ∨ s.callCount ≤ c := by
      intro c hc
      exact .inl (by rw [hpc]; exact hc)
    cases tids with
    | nil =>
      simp only [Option.some.injEq] at hnext
      exact hnext ▸ h.of_step rfl (fun _ _ _ _ _ => ⟨rfl, fun _ _ => rfl⟩) (fun _ _ _ => rfl)
        (Nat.le_refl _) ⟨hself, by simp⟩ hcall h.records (still_open (by rw [hpc]))
    | cons u tids =>
      simp only [Option.some.injEq] at hnext
      exact hnext ▸ h.of_step rfl (fun _ _ _ _ _ => ⟨rfl, fun _ _ => rfl⟩) (fun _ _ _ => rfl)
        (Nat.le_refl _) hself hcall h.records (still_open (by rw [hpc]))
  case wakeUnlock addr tids =>
    exact hnext ▸ h.quiet rfl (by rw [hpc]; rfl) rfl rfl (fun _ _ _ => rfl) rfl rfl rfl
  case alerting tids =>
    cases tids with
    | nil | cons u tids =>
      simp only [Option.some.injEq] at hnext
      exact hnext ▸ h.quiet rfl (by rw [hpc]; rfl) rfl rfl (fun _ _ _ => rfl) rfl rfl rfl

end Steps

end WineForge.AddressWaits
