import Mathlib.Data.List.Perm.Basic
import Mathlib.Data.List.Nodup
import WineForge.ThreadpoolIo.References

/-!
# The way of a packet

The packet of an operation that was not cancelled is in the port or in the hand of the I/O thread,
then in `completions`, then in a callback: always in exactly one of these places.
-/

namespace WineForge.ThreadpoolIo

open Function Library List

variable {Obj Op St : Type} [DecidableEq Obj] [DecidableEq Op] {s s' t : State Obj Op St} {o : Obj}
  {op : Op} {iosb : St}

def queue (s : State Obj Op St) : List (Obj × Op × St) := s.pc.hand.toList ++ s.port.reduceOption

def tokens (s : State Obj Op St) (o : Obj) : List (Obj × Op × St) :=
  queue s ++ (s.io o).live.map (Prod.mk o) ++ s.calls

def ofOp (op : Op) (l : List (Obj × Op × St)) : List (Obj × Op × St) :=
  l.filter fun token => token.2.1 = op

structure OpsInv (s : State Obj Op St) : Prop where
  owner : ∀ o op, (s.io o).Outstanding op → s.owner op = some o
  nodup : ∀ o, ((s.io o).pendingOps ++ (s.io o).skippedOps).Nodup
  kept : ∀ o op, op ∈ (s.io o).pendingOps → s.cancelled op = false
  given : ∀ o op, op ∈ (s.io o).skippedOps → s.cancelled op = true
  queued : ∀ o op iosb, (o, op, iosb) ∈ queue s →
    (s.io o).Outstanding op ∧ s.posted op = some iosb
  once : ((queue s).map fun token => token.2.1).Nodup
  unused : ∀ op, s.owner op = none → s.posted op = none ∧ s.cancelled op = false
  completed : ∀ o op iosb, (op, iosb) ∈ (s.io o).live ∨ (o, op, iosb) ∈ s.calls →
    s.owner op = some o ∧ s.posted op = some iosb
  placed : ∀ o op, s.owner op = some o → s.cancelled op = false →
    (ofOp op (tokens s o)).Perm ((s.posted op).toList.map fun iosb => (o, op, iosb))

/-- The step concerns no operation. -/
structure SameOps (s s' : State Obj Op St) : Prop where
  pending : ∀ o, (s'.io o).pendingOps = (s.io o).pendingOps
  skipped : ∀ o, (s'.io o).skippedOps = (s.io o).skippedOps
  live : ∀ o, (s'.io o).live = (s.io o).live
  packets : queue s' = queue s
  owner : s'.owner = s.owner
  posted : s'.posted = s.posted
  cancelled : s'.cancelled = s.cancelled
  calls : s'.calls = s.calls

omit [DecidableEq Obj] in
lemma OpsInv.same (h : OpsInv s) (hsame : SameOps s s') : OpsInv s' := by
  have hout : ∀ o op, (s'.io o).Outstanding op ↔ (s.io o).Outstanding op := by
    intro o op
    rw [Io.Outstanding, hsame.pending, hsame.skipped]
    rfl
  constructor
  · intro o op ho
    rw [hsame.owner]
    exact h.owner o op ((hout o op).mp ho)
  · intro o
    rw [hsame.pending, hsame.skipped]
    exact h.nodup o
  · intro o op ho
    rw [hsame.pending] at ho
    rw [hsame.cancelled]
    exact h.kept o op ho
  · intro o op ho
    rw [hsame.skipped] at ho
    rw [hsame.cancelled]
    exact h.given o op ho
  · intro o op iosb hmem
    rw [hsame.packets] at hmem
    rw [hout, hsame.posted]
    exact h.queued o op iosb hmem
  · rw [hsame.packets]
    exact h.once
  · intro op hop
    rw [hsame.owner] at hop
    rw [hsame.posted, hsame.cancelled]
    exact h.unused op hop
  · intro o op iosb hmem
    rw [hsame.live, hsame.calls] at hmem
    rw [hsame.owner, hsame.posted]
    exact h.completed o op iosb hmem
  · intro o op howner hcancelled
    rw [hsame.owner] at howner
    rw [hsame.cancelled] at hcancelled
    rw [tokens, hsame.packets, hsame.live, hsame.calls, hsame.posted]
    exact h.placed o op howner hcancelled

omit [DecidableEq Op] in
lemma io_cases {r : Io Op St} (hio : s'.io = update s.io o r) (x : Obj) :
    x ≠ o ∧ s'.io x = s.io x ∨ x = o ∧ s'.io x = r := by
  by_cases hx : x = o
  · right
    exact ⟨hx, by rw [hio, hx, update_self]⟩
  · left
    exact ⟨hx, by rw [hio, update_of_ne hx]⟩

omit [DecidableEq Op] in
lemma io_same {β : Type} (f : Io Op St → β) {r : Io Op St} (hio : s'.io = update s.io o r)
    (hf : f r = f (s.io o)) (x : Obj) : f (s'.io x) = f (s.io x) := by
  obtain ⟨_, heq⟩ | ⟨rfl, heq⟩ := io_cases hio x
  · rw [heq]
  · rw [heq, hf]

omit [DecidableEq Op] in
lemma SameOps.of_setIo {r : Io Op St} (hio : s'.io = update s.io o r)
    (hpending : r.pendingOps = (s.io o).pendingOps) (hskipped : r.skippedOps = (s.io o).skippedOps)
    (hlive : r.live = (s.io o).live) (hqueue : queue s' = queue s) (howner : s'.owner = s.owner)
    (hposted : s'.posted = s.posted) (hcancelled : s'.cancelled = s.cancelled)
    (hcalls : s'.calls = s.calls) : SameOps s s' :=
  ⟨io_same _ hio hpending, io_same _ hio hskipped, io_same _ hio hlive, hqueue, howner, hposted,
    hcancelled, hcalls⟩

omit [DecidableEq Obj] in
lemma OpsInv.token_owner (h : OpsInv s) {x : Obj} {token : Obj × Op × St}
    (hmem : token ∈ tokens s x) : s.owner token.2.1 = some token.1 ∧
      s.posted token.2.1 = some token.2.2 := by
  obtain hmem | hmem := mem_append.mp hmem
  · obtain hmem | hmem := mem_append.mp hmem
    · obtain ⟨hout, hposted⟩ := h.queued _ _ _ hmem
      exact ⟨h.owner _ _ hout, hposted⟩
    · obtain ⟨completion, hlive, rfl⟩ := mem_map.mp hmem
      exact h.completed _ _ _ (.inl hlive)
  · exact h.completed _ _ _ (.inr hmem)

omit [DecidableEq Obj] in
lemma OpsInv.ofOp_nil (h : OpsInv s) (hposted : s.posted op = none) (x : Obj) :
    ofOp op (tokens s x) = [] := by
  rw [ofOp, filter_eq_nil_iff]
  intro token hmem hop
  rw [decide_eq_true_eq] at hop
  have hsome := (h.token_owner hmem).2
  rw [hop, hposted] at hsome
  cases hsome

variable {r : Io Op St}

lemma OpsInv.start (h : OpsInv s) (hnew : s.owner op = none)
    (hio : s'.io = update s.io o r) (hpending : r.pendingOps = op :: (s.io o).pendingOps)
    (hskipped : r.skippedOps = (s.io o).skippedOps) (hlive : r.live = (s.io o).live)
    (howner : s'.owner = update s.owner op (some o)) (hqueue : queue s' = queue s)
    (hposted : s'.posted = s.posted) (hcancelled : s'.cancelled = s.cancelled)
    (hcalls : s'.calls = s.calls) : OpsInv s' := by
  obtain ⟨hunposted, huncancelled⟩ := h.unused op hnew
  have hold : ∀ op' x, s.owner op' = some x → op' ≠ op ∧ s'.owner op' = some x := by
    intro op' x hx
    have hne : op' ≠ op := by
      rintro rfl
      rw [hnew] at hx
      cases hx
    exact ⟨hne, by rw [howner, update_of_ne hne, hx]⟩
  have hself : s'.owner op = some o := by
    rw [howner, update_self]
  have hlives := io_same Io.live hio hlive
  have hmono : ∀ x op', (s.io x).Outstanding op' → (s'.io x).Outstanding op' := by
    intro x op' hout
    obtain ⟨_, heq⟩ | ⟨rfl, heq⟩ := io_cases hio x
    · rw [heq]
      exact hout
    · rw [heq, Io.Outstanding, hpending, hskipped]
      exact hout.imp (mem_cons_of_mem op) id
  have hnotout : ∀ x, ¬(s.io x).Outstanding op := by
    intro x hout
    exact (hold op x (h.owner x op hout)).1 rfl
  constructor
  · intro x op' hout
    obtain ⟨_, heq⟩ | ⟨rfl, heq⟩ := io_cases hio x
    · rw [heq] at hout
      exact (hold op' x (h.owner x op' hout)).2
    rw [heq, Io.Outstanding, hpending, hskipped, mem_cons, or_assoc] at hout
    obtain rfl | hout := hout
    · exact hself
    · exact (hold op' x (h.owner x op' hout)).2
  · intro x
    obtain ⟨_, heq⟩ | ⟨rfl, heq⟩ := io_cases hio x
    · rw [heq]
      exact h.nodup x
    · rw [heq, hpending, hskipped, cons_append, nodup_cons]
      exact ⟨fun hmem => hnotout x (mem_append.mp hmem), h.nodup x⟩
  · intro x op' hmem
    rw [hcancelled]
    obtain ⟨_, heq⟩ | ⟨rfl, heq⟩ := io_cases hio x
    · rw [heq] at hmem
      exact h.kept x op' hmem
    rw [heq, hpending, mem_cons] at hmem
    obtain rfl | hmem := hmem
    · exact huncancelled
    · exact h.kept x op' hmem
  · intro x op' hmem
    rw [hcancelled]
    obtain ⟨_, heq⟩ | ⟨rfl, heq⟩ := io_cases hio x
    · rw [heq] at hmem
      exact h.given x op' hmem
    · rw [heq, hskipped] at hmem
      exact h.given x op' hmem
  · intro x op' iosb hmem
    rw [hqueue] at hmem
    obtain ⟨hout, hsome⟩ := h.queued x op' iosb hmem
    exact ⟨hmono x op' hout, hposted ▸ hsome⟩
  · rw [hqueue]
    exact h.once
  · intro op' hnone
    rw [hposted, hcancelled]
    apply h.unused
    cases hx : s.owner op' with
    | none => rfl
    | some x =>
      rw [(hold op' x hx).2] at hnone
      cases hnone
  · intro x op' iosb hmem
    rw [hlives, hcalls] at hmem
    obtain ⟨hx, hsome⟩ := h.completed x op' iosb hmem
    exact ⟨(hold op' x hx).2, hposted ▸ hsome⟩
  · intro x op' hx hnot
    have htokens : tokens s' x = tokens s x := by
      rw [tokens, hqueue, hlives, hcalls]
      rfl
    rw [htokens, hposted]
    by_cases hop : op' = op
    · rw [hop, hunposted, h.ofOp_nil hunposted]
      exact .refl _
    · rw [howner, update_of_ne hop] at hx
      exact h.placed x op' hx (hcancelled ▸ hnot)

omit [DecidableEq Obj] in
lemma OpsInv.post (h : OpsInv s) (hout : (s.io o).Outstanding op) (hunposted : s.posted op = none)
    (hio : s'.io = s.io) (hqueue : queue s' = queue s ++ [(o, op, iosb)])
    (hposted : s'.posted = update s.posted op (some iosb)) (howner : s'.owner = s.owner)
    (hcancelled : s'.cancelled = s.cancelled) (hcalls : s'.calls = s.calls) : OpsInv s' := by
  have hkeep : ∀ op' st, s.posted op' = some st → op' ≠ op ∧ s'.posted op' = some st := by
    intro op' st hst
    have hne : op' ≠ op := by
      rintro rfl
      rw [hunposted] at hst
      cases hst
    exact ⟨hne, by rw [hposted, update_of_ne hne, hst]⟩
  have hself : s'.posted op = some iosb := by
    rw [hposted, update_self]
  constructor
  · intro x op' hx
    rw [hio] at hx
    rw [howner]
    exact h.owner x op' hx
  · intro x
    rw [hio]
    exact h.nodup x
  · intro x op' hmem
    rw [hio] at hmem
    rw [hcancelled]
    exact h.kept x op' hmem
  · intro x op' hmem
    rw [hio] at hmem
    rw [hcancelled]
    exact h.given x op' hmem
  · intro x op' st hmem
    rw [hqueue, mem_append, mem_singleton] at hmem
    rw [hio]
    obtain hmem | heq := hmem
    · obtain ⟨hx, hst⟩ := h.queued x op' st hmem
      exact ⟨hx, (hkeep op' st hst).2⟩
    · cases heq
      exact ⟨hout, hself⟩
  · rw [hqueue, map_append, map_singleton, nodup_append]
    refine ⟨h.once, nodup_singleton _, ?_⟩
    intro op' hmem op'' hmem'
    obtain ⟨⟨x, op₁, st⟩, htoken, rfl⟩ := mem_map.mp hmem
    rw [mem_singleton] at hmem'
    rw [hmem']
    exact (hkeep op₁ st (h.queued x op₁ st htoken).2).1
  · intro op' hnone
    rw [howner] at hnone
    have hne : op' ≠ op := by
      rintro rfl
      rw [h.owner o op' hout] at hnone
      cases hnone
    rw [hposted, update_of_ne hne, hcancelled]
    exact h.unused op' hnone
  · intro x op' st hmem
    rw [hio, hcalls] at hmem
    obtain ⟨hx, hst⟩ := h.completed x op' st hmem
    exact ⟨howner ▸ hx, (hkeep op' st hst).2⟩
  · intro x op' hx hnot
    rw [howner] at hx
    rw [hcancelled] at hnot
    have hplaced := h.placed x op' hx hnot
    have htokens : (tokens s' x).Perm ((o, op, iosb) :: tokens s x) := by
      simp only [tokens, hqueue, hio, hcalls, append_assoc, singleton_append]
      exact perm_middle
    have hfilter := htokens.filter fun token => decide (token.2.1 = op')
    by_cases hop : op' = op
    · subst hop
      rw [hself]
      rw [h.owner o op' hout] at hx
      cases hx
      rw [filter_cons_of_pos (by simp)] at hfilter
      rw [hunposted] at hplaced
      exact hfilter.trans (hplaced.cons _)
    · rw [filter_cons_of_neg (by simpa using Ne.symm hop)] at hfilter
      rw [hposted, update_of_ne hop]
      exact hfilter.trans hplaced

/-- A step at one object that starts and completes no operation. Packets go on to another place, or
are lost with an operation that is cancelled. -/
lemma OpsInv.proceed (h : OpsInv s) (hio : s'.io = update s.io o r)
    (hsub : ∀ op, r.Outstanding op → (s.io o).Outstanding op)
    (hnodup : (r.pendingOps ++ r.skippedOps).Nodup)
    (hkept : ∀ op ∈ r.pendingOps, s'.cancelled op = false)
    (hgiven : ∀ op ∈ r.skippedOps, s'.cancelled op = true)
    (hothers : ∀ op, s'.cancelled op ≠ s.cancelled op → s.owner op = some o)
    (hmono : ∀ op, s.cancelled op = true → s'.cancelled op = true)
    (hqueued : ∀ op iosb, (o, op, iosb) ∈ queue s' → r.Outstanding op)
    (hqueue : (queue s').Sublist (queue s))
    (hlive : ∀ op iosb, (op, iosb) ∈ r.live → s.owner op = some o ∧ s.posted op = some iosb)
    (hcalls : ∀ x op iosb, (x, op, iosb) ∈ s'.calls →
      s.owner op = some x ∧ s.posted op = some iosb)
    (howner : s'.owner = s.owner) (hposted : s'.posted = s.posted)
    (hplaced : ∀ x op, s.owner op = some x → s'.cancelled op = false →
      (ofOp op (tokens s' x)).Perm (ofOp op (tokens s x))) : OpsInv s' := by
  have hsame : ∀ op x, x ≠ o → s.owner op = some x → s'.cancelled op = s.cancelled op := by
    intro op x hx hop
    by_contra hne
    rw [hothers op hne] at hop
    exact hx (Option.some.inj hop).symm
  constructor
  · intro x op hout
    rw [howner]
    obtain ⟨_, heq⟩ | ⟨rfl, heq⟩ := io_cases hio x
    · exact h.owner x op (heq ▸ hout)
    · exact h.owner x op (hsub op (heq ▸ hout))
  · intro x
    obtain ⟨_, heq⟩ | ⟨rfl, heq⟩ := io_cases hio x
    · rw [heq]
      exact h.nodup x
    · rw [heq]
      exact hnodup
  · intro x op hmem
    obtain ⟨hx, heq⟩ | ⟨rfl, heq⟩ := io_cases hio x
    · rw [heq] at hmem
      rw [hsame op x hx (h.owner x op (.inl hmem))]
      exact h.kept x op hmem
    · exact hkept op (heq ▸ hmem)
  · intro x op hmem
    obtain ⟨hx, heq⟩ | ⟨rfl, heq⟩ := io_cases hio x
    · rw [heq] at hmem
      exact hmono op (h.given x op hmem)
    · exact hgiven op (heq ▸ hmem)
  · intro x op iosb hmem
    obtain ⟨hout, hsome⟩ := h.queued x op iosb (hqueue.subset hmem)
    refine ⟨?_, hposted ▸ hsome⟩
    obtain ⟨_, heq⟩ | ⟨rfl, heq⟩ := io_cases hio x
    · rw [heq]
      exact hout
    · rw [heq]
      exact hqueued op iosb hmem
  · exact h.once.sublist (hqueue.map _)
  · intro op hnone
    rw [howner] at hnone
    obtain ⟨hunposted, hfalse⟩ := h.unused op hnone
    refine ⟨hposted ▸ hunposted, ?_⟩
    by_contra hne
    rw [hothers op (by rw [hfalse]; exact hne)] at hnone
    cases hnone
  · intro x op iosb hmem
    rw [howner, hposted]
    obtain hmem | hcall := hmem
    · obtain ⟨_, heq⟩ | ⟨rfl, heq⟩ := io_cases hio x
      · exact h.completed x op iosb (.inl (heq ▸ hmem))
      · exact hlive op iosb (heq ▸ hmem)
    · exact hcalls x op iosb hcall
  · intro x op hop hnot
    rw [howner] at hop
    have hnot' : s.cancelled op = false := by
      by_contra htrue
      rw [hmono op (by simpa using htrue)] at hnot
      cases hnot
    rw [hposted]
    exact (hplaced x op hop hnot).trans (h.placed x op hop hnot')

omit [DecidableEq Obj] in
lemma ofOp_cons_of_ne {l : List (Obj × Op × St)} {op' : Op} (hne : op ≠ op') :
    ofOp op' ((o, op, iosb) :: l) = ofOp op' l :=
  filter_cons_of_neg (by simpa using hne)

lemma OpsInv.execute (h : OpsInv s) (hio : s'.io = update s.io o r)
    (hpending : r.pendingOps = (s.io o).pendingOps) (hskipped : r.skippedOps = (s.io o).skippedOps)
    (hlive : (s.io o).live = (op, iosb) :: r.live) (hqueue : queue s' = queue s)
    (howner : s'.owner = s.owner) (hposted : s'.posted = s.posted)
    (hcancelled : s'.cancelled = s.cancelled) (hcalls : s'.calls = s.calls ++ [(o, op, iosb)]) :
    OpsInv s' := by
  have hout : ∀ op', r.Outstanding op' ↔ (s.io o).Outstanding op' := by
    intro op'
    rw [Io.Outstanding, hpending, hskipped]
    rfl
  have htop := h.completed o op iosb (.inl (by rw [hlive]; exact mem_cons_self))
  refine h.proceed hio (fun op' hop' => (hout op').mp hop') ?_ ?_ ?_ ?_ ?_ ?_ ?_ ?_ ?_ howner
    hposted ?_
  · rw [hpending, hskipped]
    exact h.nodup o
  · rw [hpending, hcancelled]
    exact h.kept o
  · rw [hskipped, hcancelled]
    exact h.given o
  · rw [hcancelled]
    exact fun op' hne => absurd rfl hne
  · rw [hcancelled]
    exact fun _ htrue => htrue
  · rw [hqueue]
    exact fun op' st hmem => (hout op').mpr (h.queued o op' st hmem).1
  · rw [hqueue]
  · intro op' st hmem
    exact h.completed o op' st (.inl (by rw [hlive]; exact mem_cons_of_mem _ hmem))
  · intro x op' st hmem
    rw [hcalls, mem_append, mem_singleton] at hmem
    obtain hmem | heq := hmem
    · exact h.completed x op' st (.inr hmem)
    · cases heq
      exact htop
  intro x op' hop' _
  obtain ⟨hx, heq⟩ | ⟨rfl, heq⟩ := io_cases hio x
  · have hne : op ≠ op' := by
      rintro rfl
      rw [htop.1] at hop'
      exact hx (Option.some.inj hop').symm
    have hperm : (tokens s' x).Perm ((o, op, iosb) :: tokens s x) := by
      simp only [tokens, hqueue, heq, hcalls, ← append_assoc]
      exact perm_append_singleton _ _
    have hfilter := hperm.filter fun token => decide (token.2.1 = op')
    exact hfilter.trans (by rw [← ofOp, ofOp_cons_of_ne hne])
  have hperm : (tokens s' x).Perm (tokens s x) := by
    simp only [tokens, hqueue, heq, hcalls, hlive, map_cons, ← append_assoc]
    refine (perm_append_singleton _ _).trans ?_
    rw [append_assoc, append_assoc, cons_append]
    exact perm_middle.symm
  exact hperm.filter _

lemma OpsInv.consume (h : OpsInv s) (hio : s'.io = update s.io o r)
    (hpending : r.pendingOps = (s.io o).pendingOps.erase op)
    (hskipped : r.skippedOps = (s.io o).skippedOps.erase op)
    (hqueue : queue s = (o, op, iosb) :: queue s')
    (hlive : ∀ op iosb, (op, iosb) ∈ r.live → s.owner op = some o ∧ s.posted op = some iosb)
    (howner : s'.owner = s.owner) (hposted : s'.posted = s.posted)
    (hcancelled : s'.cancelled = s.cancelled) (hcalls : s'.calls = s.calls)
    (hplaced : ∀ x op, s.owner op = some x → s.cancelled op = false →
      (ofOp op (tokens s' x)).Perm (ofOp op (tokens s x))) : OpsInv s' := by
  have hnodup := h.nodup o
  have honce := h.once
  rw [hqueue, map_cons, nodup_cons] at honce
  refine h.proceed hio ?_ ?_ ?_ ?_ ?_ ?_ ?_ ?_ hlive ?_ howner hposted ?_
  · intro op' hout
    rw [Io.Outstanding, hpending, hskipped] at hout
    exact hout.imp mem_of_mem_erase mem_of_mem_erase
  · rw [hpending, hskipped]
    exact hnodup.sublist (erase_sublist.append erase_sublist)
  · rw [hpending, hcancelled]
    exact fun op' hmem => h.kept o op' (mem_of_mem_erase hmem)
  · rw [hskipped, hcancelled]
    exact fun op' hmem => h.given o op' (mem_of_mem_erase hmem)
  · rw [hcancelled]
    exact fun op' hne => absurd rfl hne
  · rw [hcancelled]
    exact fun _ htrue => htrue
  · intro op' st hmem
    have hne : op' ≠ op := by
      rintro rfl
      exact honce.1 (mem_map.mpr ⟨_, hmem, rfl⟩)
    rw [Io.Outstanding, hpending, hskipped, mem_erase_of_ne hne, mem_erase_of_ne hne]
    exact (h.queued o op' st (by rw [hqueue]; exact mem_cons_of_mem _ hmem)).1
  · rw [hqueue]
    exact sublist_cons_self _ _
  · rw [hcalls]
    exact fun x op' st hmem => h.completed x op' st (.inr hmem)
  · rw [hcancelled]
    exact hplaced

lemma OpsInv.skip (h : OpsInv s) (hio : s'.io = update s.io o r)
    (hpending : r.pendingOps = (s.io o).pendingOps.erase op)
    (hskipped : r.skippedOps = (s.io o).skippedOps.erase op) (hlive : r.live = (s.io o).live)
    (hqueue : queue s = (o, op, iosb) :: queue s') (hmem : op ∈ (s.io o).skippedOps)
    (howner : s'.owner = s.owner) (hposted : s'.posted = s.posted)
    (hcancelled : s'.cancelled = s.cancelled) (hcalls : s'.calls = s.calls) : OpsInv s' := by
  refine h.consume hio hpending hskipped hqueue ?_ howner hposted hcancelled hcalls ?_
  · rw [hlive]
    exact fun op' st hlive => h.completed o op' st (.inl hlive)
  intro x op' _ hnot
  have hne : op ≠ op' := by
    rintro rfl
    rw [h.given o op hmem] at hnot
    cases hnot
  have hlives := io_same Io.live hio hlive x
  have htokens : tokens s x = (o, op, iosb) :: tokens s' x := by
    rw [tokens, hqueue, tokens, hlives, hcalls]
    rfl
  rw [htokens, ofOp_cons_of_ne hne]

lemma OpsInv.deliver (h : OpsInv s) (hio : s'.io = update s.io o r)
    (hpending : r.pendingOps = (s.io o).pendingOps.erase op)
    (hskipped : r.skippedOps = (s.io o).skippedOps.erase op)
    (hlive : r.live = (op, iosb) :: (s.io o).live)
    (hqueue : queue s = (o, op, iosb) :: queue s') (howner : s'.owner = s.owner)
    (hposted : s'.posted = s.posted) (hcancelled : s'.cancelled = s.cancelled)
    (hcalls : s'.calls = s.calls) : OpsInv s' := by
  obtain ⟨hout, hsome⟩ := h.queued o op iosb (by rw [hqueue]; exact mem_cons_self)
  have hop := h.owner o op hout
  refine h.consume hio hpending hskipped hqueue ?_ howner hposted hcancelled hcalls ?_
  · intro op' st hmem
    rw [hlive, mem_cons] at hmem
    obtain heq | hmem := hmem
    · cases heq
      exact ⟨hop, hsome⟩
    · exact h.completed o op' st (.inl hmem)
  intro x op' hop' _
  obtain ⟨hx, heq⟩ | ⟨rfl, heq⟩ := io_cases hio x
  · have hne : op ≠ op' := by
      rintro rfl
      rw [hop] at hop'
      exact hx (Option.some.inj hop').symm
    have htokens : tokens s x = (o, op, iosb) :: tokens s' x := by
      rw [tokens, hqueue, tokens, heq, hcalls]
      rfl
    rw [htokens, ofOp_cons_of_ne hne]
  have hperm : (tokens s' x).Perm (tokens s x) := by
    simp only [tokens, hqueue, heq, hcalls, hlive, map_cons, append_assoc, cons_append]
    exact perm_middle
  exact hperm.filter _

/-- `TpCancelAsyncIoOperation`: no packet will come. -/
lemma OpsInv.cancelOperation (h : OpsInv s) (hio : s'.io = update s.io o r)
    (hout : (s.io o).Outstanding op) (hunposted : s.posted op = none)
    (hpending : r.pendingOps = (s.io o).pendingOps.erase op)
    (hskipped : r.skippedOps = (s.io o).skippedOps.erase op) (hlive : r.live = (s.io o).live)
    (hqueue : queue s' = queue s) (howner : s'.owner = s.owner) (hposted : s'.posted = s.posted)
    (hcancelled : s'.cancelled = update s.cancelled op true)
    (hcalls : s'.calls = s.calls) : OpsInv s' := by
  have hnodup := h.nodup o
  have hlives := io_same Io.live hio hlive
  have hother : ∀ op', op' ≠ op → s'.cancelled op' = s.cancelled op' := by
    intro op' hne
    rw [hcancelled, update_of_ne hne]
  refine h.proceed hio ?_ ?_ ?_ ?_ ?_ ?_ ?_ ?_ ?_ ?_ howner hposted ?_
  · intro op' hout'
    rw [Io.Outstanding, hpending, hskipped] at hout'
    exact hout'.imp mem_of_mem_erase mem_of_mem_erase
  · rw [hpending, hskipped]
    exact hnodup.sublist (erase_sublist.append erase_sublist)
  · intro op' hmem
    rw [hpending] at hmem
    have hne : op' ≠ op := by
      rintro rfl
      exact (List.Nodup.not_mem_erase (nodup_append.mp hnodup).1) hmem
    rw [hother op' hne]
    exact h.kept o op' (mem_of_mem_erase hmem)
  · intro op' hmem
    rw [hskipped] at hmem
    by_cases hne : op' = op
    · rw [hcancelled, hne, update_self]
    · rw [hother op' hne]
      exact h.given o op' (mem_of_mem_erase hmem)
  · intro op' hne
    by_cases heq : op' = op
    · rw [heq]
      exact h.owner o op hout
    · exact absurd (hother op' heq) hne
  · intro op' htrue
    by_cases heq : op' = op
    · rw [hcancelled, heq, update_self]
    · rw [hother op' heq, htrue]
  · intro op' st hmem
    rw [hqueue] at hmem
    obtain ⟨hout', hsome⟩ := h.queued o op' st hmem
    have hne : op' ≠ op := by
      rintro rfl
      rw [hunposted] at hsome
      cases hsome
    rw [Io.Outstanding, hpending, hskipped, mem_erase_of_ne hne, mem_erase_of_ne hne]
    exact hout'
  · rw [hqueue]
  · rw [hlive]
    exact fun op' st hmem => h.completed o op' st (.inl hmem)
  · rw [hcalls]
    exact fun x op' st hmem => h.completed x op' st (.inr hmem)
  · intro x op' _ _
    rw [tokens, tokens, hqueue, hlives, hcalls]

/-- `tp_object_cancel`: the pending operations are given up, the pending callbacks are dropped. -/
lemma OpsInv.giveUp (h : OpsInv s) (hio : s'.io = update s.io o r)
    (hpending : r.pendingOps = []) (hskipped : r.skippedOps = (s.io o).pendingOps ++ (s.io o).skippedOps)
    (hlive : r.live = []) (hqueue : queue s' = queue s) (howner : s'.owner = s.owner)
    (hposted : s'.posted = s.posted)
    (hcancelled : ∀ op, s'.cancelled op = (s.cancelled op || (decide (op ∈ (s.io o).pendingOps) ||
      decide (op ∈ (s.io o).live.map Prod.fst))))
    (hcalls : s'.calls = s.calls) : OpsInv s' := by
  have hlost : ∀ op, s'.cancelled op = false → op ∉ (s.io o).live.map Prod.fst := by
    intro op hnot
    simp only [hcancelled, Bool.or_eq_false_iff, decide_eq_false_iff_not] at hnot
    exact hnot.2.2
  refine h.proceed hio ?_ ?_ ?_ ?_ ?_ ?_ ?_ ?_ ?_ ?_ howner hposted ?_
  · intro op hout
    rw [Io.Outstanding, hpending, hskipped] at hout
    obtain hmem | hmem := hout
    · cases hmem
    · exact mem_append.mp hmem
  · rw [hpending, hskipped]
    exact h.nodup o
  · rw [hpending]
    exact fun op hmem => by cases hmem
  · intro op hmem
    rw [hskipped, mem_append] at hmem
    simp only [hcancelled, Bool.or_eq_true, decide_eq_true_eq]
    exact hmem.elim (fun hp => .inr (.inl hp)) fun hs => .inl (h.given o op hs)
  · intro op hne
    by_contra hother
    have hnotpending : op ∉ (s.io o).pendingOps := fun hmem => hother (h.owner o op (.inl hmem))
    have hnotlive : op ∉ (s.io o).live.map Prod.fst := by
      intro hmem
      obtain ⟨⟨op', st⟩, hlive, rfl⟩ := mem_map.mp hmem
      exact hother (h.completed o op' st (.inl hlive)).1
    rw [hcancelled, decide_eq_false hnotpending, decide_eq_false hnotlive, Bool.or_false,
      Bool.or_false] at hne
    exact hne rfl
  · intro op htrue
    rw [hcancelled, htrue, Bool.true_or]
  · intro op st hmem
    rw [hqueue] at hmem
    rw [Io.Outstanding, hpending, hskipped]
    exact .inr (mem_append.mpr (h.queued o op st hmem).1)
  · rw [hqueue]
  · rw [hlive]
    exact fun op st hmem => by cases hmem
  · rw [hcalls]
    exact fun x op st hmem => h.completed x op st (.inr hmem)
  intro x op hop hnot
  obtain ⟨hx, heq⟩ | ⟨rfl, heq⟩ := io_cases hio x
  · rw [tokens, tokens, hqueue, heq, hcalls]
  have hnone : ofOp op ((s.io x).live.map (Prod.mk x)) = [] := by
    rw [ofOp, filter_eq_nil_iff]
    intro token hmem
    obtain ⟨completion, hlive, rfl⟩ := mem_map.mp hmem
    rw [decide_eq_true_eq]
    rintro rfl
    exact hlost _ hnot (mem_map.mpr ⟨completion, hlive, rfl⟩)
  have hsplit : ∀ l l' l'' : List (Obj × Op × St),
      ofOp op (l ++ l' ++ l'') = ofOp op l ++ ofOp op l' ++ ofOp op l'' := by
    intro l l' l''
    rw [ofOp, filter_append, filter_append]
    rfl
  rw [tokens, tokens, hsplit, hsplit, hqueue, heq, hlive, hcalls, hnone]
  rfl

end WineForge.ThreadpoolIo
