import UNouns.Subgraph.Totals
import UNouns.Subgraph.Origin
import UNouns.Governance.Safety
import Mathlib.Data.Set.Card

/-!
# Does the subgraph count its queue?

A proposal is added to the number of queued proposals when it is queued, and taken off when it is
executed.  When it is canceled or vetoed its status changes, and the number does not.

* `queuedBy`            the proposals that the last event about them has queued;
* `Docketed`            on chain: who is queued has not been taken back, nor its execution announced;
* `TakesBack`           an event that cancels or vetoes a queued proposal;
* `queue_counted_iff`   the number is right as long as there is no such event, and never after.
-/

set_option linter.unusedVariables false

namespace UNouns.Subgraph
open Function Relation Reentrant Journal NounsDAOLogicV2

/-! ## what the events tell -/

/-- the proposal that an event puts in the queue, or leaves out of it -/
def queues : DaoEvent → Option (Nat × Bool)
  | .proposalCreatedWithRequirements id _ _ _ _ _ _ _ _ _ _ => some (id, false)
  | .proposalCanceled id => some (id, false)
  | .proposalVetoed id => some (id, false)
  | .proposalExecuted id => some (id, false)
  | .proposalQueued id _ => some (id, true)
  | _ => none

def enqueue (q : Nat → Bool) (v : DaoEvent) : Nat → Bool :=
  match queues v with
  | some (id, b) => update q id b
  | none => q

def queuedBy (vs : List DaoEvent) : Nat → Bool := vs.foldl enqueue fun _ => false

theorem queuedBy_snoc (vs : List DaoEvent) (v : DaoEvent) :
    queuedBy (vs ++ [v]) = enqueue (queuedBy vs) v := by
  unfold queuedBy
  rw [List.foldl_append]
  rfl

theorem queues_of_about {v : DaoEvent} (h : v.about = none) : queues v = none := by
  cases v <;> first | rfl | cases h

theorem left_out (vs : List DaoEvent) (id : Nat) : update (queuedBy vs) id false id = false :=
  update_self _ _ _

/-! ## on chain -/

/-- an event that comes when it should: only what is queued is executed, unless that was told before,
and nothing is queued twice -/
def Timely (us : List DaoEvent) : DaoEvent → Prop
  | .proposalCreatedWithRequirements id _ _ _ _ _ _ _ _ _ _ => queuedBy us id = false
  | .proposalQueued id _ => queuedBy us id = false
  | .proposalExecuted id => .proposalExecuted id ∉ us → queuedBy us id = true
  | _ => True

def Orderly (vs : List DaoEvent) : Prop := ∀ us v ws, vs = us ++ v :: ws → Timely us v

theorem Orderly.snoc {vs : List DaoEvent} {v : DaoEvent} (h : Orderly vs) (hv : Timely vs v) :
    Orderly (vs ++ [v]) :=
  forall_cuts_concat.mpr ⟨fun us u ws e => h us u ws e, hv⟩

theorem timely_of_about {us : List DaoEvent} {v : DaoEvent} (h : v.about = none) : Timely us v := by
  cases v <;> trivial

/-- events about no proposal -/
theorem Orderly.quiet {vs us : List DaoEvent} (h : Orderly vs) (hus : ∀ u ∈ us, u.about = none) :
    Orderly (vs ++ us) ∧ queuedBy (vs ++ us) = queuedBy vs := by
  induction us generalizing vs with
  | nil =>
    rw [List.append_nil]
    exact ⟨h, rfl⟩
  | cons u us ih =>
    have hu := hus u List.mem_cons_self
    obtain ⟨h1, h2⟩ := ih (h.snoc (timely_of_about hu)) fun x hx => hus x (List.mem_cons_of_mem _ hx)
    have hsame : queuedBy (vs ++ [u]) = queuedBy vs := by
      rw [queuedBy_snoc, enqueue, queues_of_about hu]
    rw [List.append_cons]
    exact ⟨h1, h2.trans hsame⟩

/-- the log of the DAO tells which proposals are queued -/
structure Docketed (d : NounsDAOLogicV2) : Prop where
  orderly : Orderly d.logs
  queued : ∀ id, queuedBy d.logs id = true ↔ Held (d.proposals id) ∧ .proposalExecuted id ∉ d.logs

theorem Docketed.not_queued {d : NounsDAOLogicV2} (h : Docketed d) {id : Nat}
    (hn : ¬ Held (d.proposals id)) : queuedBy d.logs id = false := by
  cases hq : queuedBy d.logs id with
  | false => rfl
  | true => exact absurd ((h.queued id).mp hq).1 hn

theorem not_held_of_eta {p : Proposal} (h : p.eta = 0) : ¬ Held p := fun hp => hp.eta_ne h

/-- one event about one proposal -/
theorem Docketed.one {d d' : NounsDAOLogicV2} {v : DaoEvent} {p : Proposal} (h : Docketed d) (id : Nat)
    (hset : SetsProposal d d' id p) (hlogs : d'.logs = d.logs ++ [v]) (hv : v.about = some id)
    (hqueues : ∀ i b, queues v = some (i, b) → i = id) (ht : Timely d.logs v)
    (hself : enqueue (queuedBy d.logs) v id = true ↔ Held p ∧ .proposalExecuted id ∉ d'.logs) :
    Docketed d' := by
  refine ⟨hlogs ▸ h.orderly.snoc ht, fun i => ?_⟩
  rw [hlogs, queuedBy_snoc]
  by_cases e : i = id
  · subst e
    rw [hself, hset.self, hlogs]
  · have hother : enqueue (queuedBy d.logs) v i = queuedBy d.logs i := by
      unfold enqueue
      cases hq : queues v with
      | none => rfl
      | some x =>
        obtain ⟨j, b⟩ := x
        rw [hqueues j b hq]
        exact update_of_ne e _ _
    rw [hother, hset.other e, ← hlogs, announced_other hlogs hv e]
    exact h.queued i

section
variable {P : Platform} {env : Env} {w w' : World P}

/-- **A deed keeps the docket.** -/
theorem Docketed.deed (h : Docketed w.dao) (hblank : Blank w.dao) (hexecuted : ExecutedHeld w.dao)
    (htold : ∀ i, .proposalExecuted i ∈ w.dao.logs → (w.dao.proposals i).executed = true)
    {x : Option Nat} {vs : List DaoEvent} (hd : Deed env w.token w.dao x vs w'.dao) :
    Docketed w'.dao := by
  have hlogs := hd.logs
  obtain ⟨t', tl', d'⟩ := w'
  have hquiet : ∀ d' : NounsDAOLogicV2, d'.logs = w.dao.logs ++ vs → (∀ v ∈ vs, v.about = none) →
      d'.proposals = w.dao.proposals → Docketed d' := fun d' hl habout hp => by
    obtain ⟨h1, h2⟩ := h.orderly.quiet habout
    refine ⟨hl ▸ h1, fun i => ?_⟩
    rw [hl, h2, hp, ← hl, announced_same hl fun hm => absurd (habout _ hm) (Option.some_ne_none _)]
    exact h.queued i
  cases hd with
  | settings vs d' hb _ _ hq => exact hquiet _ hlogs (fun v hv => (hq v hv).about) hb.proposals
  | params old vs d' hb _ _ _ _ habout => exact hquiet _ hlogs habout hb.proposals
  | propose sender targets values signatures calldatas description minQuorum d' hp hmin _ =>
    obtain ⟨_, hnew⟩ := propose_new hp
    have hempty : queuedBy w.dao.logs (w.dao.proposalCount + 1) = false := h.not_queued
      (not_held_of_eta (by rw [hblank _ (Nat.lt_succ_self _)]; rfl))
    have hfirst : queuedBy (w.dao.logs ++ [(.proposalCreated (w.dao.proposalCount + 1) sender targets
        values signatures calldatas (env.number + w.dao.votingDelay)
        (env.number + w.dao.votingDelay + w.dao.votingPeriod) description)]) = queuedBy w.dao.logs := by
      rw [queuedBy_snoc]
      rfl
    have hcut := hlogs.trans (List.append_cons _ _ _)
    have horderly := h.orderly.snoc (v := .proposalCreated (w.dao.proposalCount + 1) sender targets
      values signatures calldatas (env.number + w.dao.votingDelay)
      (env.number + w.dao.votingDelay + w.dao.votingPeriod) description) trivial
    refine ⟨?_, fun i => ?_⟩
    · show Orderly d'.logs
      rw [hcut]
      refine horderly.snoc ?_
      show queuedBy (w.dao.logs ++ _) (w.dao.proposalCount + 1) = false
      exact (congrFun hfirst _).trans hempty
    · have hsame : .proposalExecuted i ∈ d'.logs ↔ .proposalExecuted i ∈ w.dao.logs :=
        announced_same hlogs (by simp [Proposal.created])
      have hq : queuedBy d'.logs = update (queuedBy w.dao.logs) (w.dao.proposalCount + 1) false := by
        rw [hcut, queuedBy_snoc]
        exact congrArg (fun q => update q (w.dao.proposalCount + 1) false) hfirst
      show queuedBy d'.logs i = true ↔ Held (d'.proposals i) ∧ .proposalExecuted i ∉ d'.logs
      rw [hq, hsame]
      by_cases e : i = w.dao.proposalCount + 1
      · subst e
        rw [update_self, hnew]
        exact ⟨fun hf => absurd hf Bool.false_ne_true, fun hh => absurd hh.1 (not_held_of_eta rfl)⟩
      · rw [update_of_ne e, propose_other hp e]
        exact h.queued i
  | vote voter id support votes balance reason d1 hv =>
    obtain ⟨hstate, _, _, _, hs⟩ := castVoteInternal_ok hv
    obtain ⟨hv', hc', _, h0'⟩ := withVote_flags (w.dao.proposals id) voter support votes
    have hheld : Held (Proposal.withVote (w.dao.proposals id) voter support votes)
        ↔ Held (w.dao.proposals id) := by
      refine ⟨fun hh => ⟨h0' ▸ hh.eta_ne, hc' ▸ hh.canceled, hv' ▸ hh.vetoed⟩,
        fun hh => ⟨h0'.symm ▸ hh.eta_ne, hc'.symm ▸ hh.canceled, hv'.symm ▸ hh.vetoed⟩⟩
    refine h.one id ⟨hs.proposals, hs.proposalCount, hs.quorumVotesBPS, hs.checkpoints⟩ rfl rfl
      (fun i b e => absurd e.symm (Option.some_ne_none _)) trivial ?_
    rw [hheld, announced_same hlogs (by simp)]
    exact h.queued id
  | queue id delay hstate =>
    obtain ⟨hc, h0⟩ := state_succeeded hstate
    have heta : env.timestamp + delay ≠ 0 := by
      have := env.timestamp_pos
      omega
    have hnew : .proposalExecuted id ∉ w.dao.logs := fun hm =>
      (hexecuted id (htold id hm)).eta_ne h0
    refine h.one id ⟨rfl, rfl, rfl, rfl⟩ rfl rfl
      (fun i b e => (Prod.mk.inj (Option.some.inj e)).1.symm) (h.not_queued (not_held_of_eta h0)) ?_
    rw [announced_same hlogs (by simp)]
    exact ⟨fun _ => ⟨⟨heta, hc.canceled, hc.vetoed⟩, hnew⟩, fun _ => update_self _ _ _⟩
  | cancel id st hstate hs =>
    refine h.one id ⟨rfl, rfl, rfl, rfl⟩ rfl rfl
      (fun i b e => (Prod.mk.inj (Option.some.inj e)).1.symm) trivial ?_
    exact ⟨fun hf => absurd ((left_out w.dao.logs id).symm.trans hf) Bool.false_ne_true,
      fun hh => absurd hh.1.canceled.symm Bool.false_ne_true⟩
  | veto id st hstate hs =>
    refine h.one id ⟨rfl, rfl, rfl, rfl⟩ rfl rfl
      (fun i b e => (Prod.mk.inj (Option.some.inj e)).1.symm) trivial ?_
    exact ⟨fun hf => absurd ((left_out w.dao.logs id).symm.trans hf) Bool.false_ne_true,
      fun hh => absurd hh.1.vetoed.symm Bool.false_ne_true⟩
  | execute id hstate =>
    refine ⟨h.orderly, fun i => ?_⟩
    show queuedBy w.dao.logs i = true ↔ Held (update w.dao.proposals id _ i) ∧ _
    rw [h.queued i]
    by_cases e : i = id
    · subst e
      rw [update_self]
      exact and_congr_left fun _ => ⟨fun hh => ⟨hh.1, hh.2, hh.3⟩, fun hh => ⟨hh.1, hh.2, hh.3⟩⟩
    · rw [update_of_ne e]
  | executed id hid hex =>
    have hheld := hexecuted id hex
    refine h.one id (p := w.dao.proposals id) ⟨(update_eq_self _ _).symm, rfl, rfl, rfl⟩ hlogs rfl
      (fun i b e => (Prod.mk.inj (Option.some.inj e)).1.symm)
      (fun hn => (h.queued id).mpr ⟨hheld, hn⟩) ?_
    refine ⟨fun hf => absurd ((left_out w.dao.logs id).symm.trans hf) Bool.false_ne_true,
      fun hh => absurd ?_ hh.2⟩
    show .proposalExecuted id ∈ w.dao.logs ++ _
    simp

/-- what is known of a run, whatever it cancels -/
structure Rostered (e : Env) (c : GovConfig P) : Prop where
  founded : Founded e c
  told : ∀ i, .proposalExecuted i ∈ c.now.dao.logs → (c.now.dao.proposals i).executed = true
  docketed : Docketed c.now.dao

theorem Rostered.move {c c' : GovConfig P} (h : Rostered env c) (hm : GovExact env c c') :
    Rostered env c' := by
  obtain ⟨x, vs, hd⟩ := hm.deed
  have hf := h.founded
  refine ⟨runs_founded (.single (.move hm.move)) hf, fun i => hd.told (fun hi hx => ?_) fun hi => ?_,
    h.docketed.deed hf.sane.fresh hf.executed h.told hd⟩
  · exact (GovMove.executed (.single hm.move) hi hx).2
  · exact ⟨(hf.sane.id_of_eta (hf.executed i (h.told i hi)).eta_ne).2, h.told i hi⟩

theorem runs_rostered {g : GovSetup} {e : Env} {w : World P} (hw : g.deploy P e = .ok w)
    {y : Env × GovConfig P} (h : ReflTransGen (Timed GovExact) (e, ⟨[], w⟩) y) :
    Rostered y.1 y.2 := by
  have hf := GovSetup.deploy_fresh hw
  have hfounded := GovSetup.deploy_founded hw
  have habout : ∀ v ∈ w.dao.logs, v.about = none := by
    simp only [GovSetup.deploy, bind_eq_ok, pure_eq_ok] at hw
    obtain ⟨_, _, d, hd, rfl⟩ := hw
    show ∀ v ∈ d.logs, _
    rw [(deploy_exact hd).2.2.2]
    simp [DaoEvent.about]
  have hempty : Orderly [] := fun us v ws e => by simp at e
  obtain ⟨h1, h2⟩ := hempty.quiet habout
  rw [List.nil_append] at h2
  refine Timed.invariant (I := Rostered) (fun _ _ _ hI hm => hI.move hm)
    (fun _ _ _ hI he => ⟨hI.founded.tick he, hI.told, hI.docketed⟩) h
    ⟨hfounded, fun i hi => absurd (habout _ hi) (Option.some_ne_none _), h1, fun i => ?_⟩
  show queuedBy w.dao.logs i = true ↔ Held (w.dao.proposals i) ∧ _
  rw [h2, hf.proposals]
  exact ⟨fun hq => absurd hq Bool.false_ne_true, fun hh => absurd hh.1 (not_held_of_eta rfl)⟩

end

/-- an execution is announced once -/
theorem once_of_countP {vs us ws : List DaoEvent} {id : Nat}
    (h : vs.countP (DaoEvent.executes id) ≤ 1) (hcut : vs = us ++ .proposalExecuted id :: ws) :
    .proposalExecuted id ∉ us := by
  intro hm
  have hself : DaoEvent.executes id (.proposalExecuted id) = true := decide_eq_true rfl
  have hpos := List.countP_pos_iff.mpr ⟨_, hm, hself⟩
  rw [hcut, List.countP_append, List.countP_cons_of_pos hself] at h
  omega

/-! ## the mapping -/

/-- every proposal is filed under its own id -/
def Store.Filed (s : Store) : Prop := ∀ id, (s.proposal id).id = id

def Store.queue (s : Store) (id : Nat) : Bool := (s.proposal id).status = .QUEUED

/-- the number of queued proposals, less those there are -/
noncomputable def Store.surplus (s : Store) : Int :=
  s.totals.proposalsQueued - ({id | s.queue id = true} : Set Nat).ncard

theorem Store.queue_eq {s : Store} {id : Nat} :
    s.queue id = true ↔ ∃ p, s.proposals id = some p ∧ p.status = .QUEUED := by
  unfold Store.queue Store.proposal
  rw [decide_eq_true_iff]
  cases h : s.proposals id with
  | none => exact ⟨fun e => (nomatch e), fun ⟨_, e, _⟩ => (nomatch e)⟩
  | some p => exact ⟨fun e => ⟨p, rfl, e⟩, fun ⟨_, hp, e⟩ => Option.some.inj hp ▸ e⟩

theorem Store.Filed.same {s s' : Store} (hf : s.Filed) (h : s'.proposals = s.proposals) :
    s'.Filed ∧ s'.queue = s.queue := by
  unfold Store.Filed Store.queue
  rw [Store.proposal_of_same h]
  exact ⟨hf, rfl⟩

/-- a proposal is saved that keeps its id -/
theorem Store.Filed.save {s s' : Store} (hf : s.Filed) {id : Nat} {x : ProposalEntity} (hx : x.id = id)
    (h : s'.proposals = update s.proposals x.id (some x)) :
    s'.Filed ∧ s'.queue = update s.queue id (x.status = .QUEUED) := by
  subst hx
  have hp : s'.proposal = update s.proposal x.id x := by
    funext i
    rw [proposal_update h, update_apply]
  constructor
  · intro i
    rw [hp]
    by_cases e : i = x.id
    · subst e
      rw [update_self]
    · rw [update_of_ne e]
      exact hf i
  · funext i
    unfold Store.queue
    rw [hp]
    by_cases e : i = x.id
    · subst e
      rw [update_self, update_self]
    · rw [update_of_ne e, update_of_ne e]

theorem Store.Filed.saveProposal {s s1 : Store} (hf : s.Filed) (h : s1.proposals = s.proposals) {id : Nat}
    {x : ProposalEntity} (hx : x.id = id) :
    (s1.saveProposal x).Filed ∧ (s1.saveProposal x).queue = update s.queue id (x.status = .QUEUED) := by
  refine hf.save hx ?_
  rw [← h]
  rfl

theorem Store.getOrCreateDynamicQuorumParams_proposals (s : Store) (block : Option Nat) :
    (s.getOrCreateDynamicQuorumParams block).2.proposals = s.proposals := by
  unfold Store.getOrCreateDynamicQuorumParams
  cases s.dynamicQuorumParams with
  | some q =>
    dsimp only
    split_ifs <;> rfl
  | none =>
    dsimp only
    split_ifs <;> rfl

/-- votes change neither the id nor the status -/
theorem ProposalEntity.count_flags (p : ProposalEntity) (support votes : Nat) :
    (p.count support votes).id = p.id ∧ (p.count support votes).status = p.status := by
  unfold ProposalEntity.count
  split_ifs <;> exact ⟨rfl, rfl⟩

theorem ProposalEntity.withQuorum_flags {p x : ProposalEntity} {q : DynamicQuorumParams}
    (h : p.withQuorum q = some x) : x.id = p.id ∧ x.status = p.status := by
  unfold ProposalEntity.withQuorum at h
  by_cases hu : q.dynamicQuorumStartBlock.any (· < p.createdBlock) = true
  · simp only [hu, if_true] at h
    obtain ⟨n, _, h⟩ := Option.bind_eq_some_iff.mp h
    obtain rfl := Option.some.inj h
    exact ⟨rfl, rfl⟩
  · simp only [hu, Bool.false_eq_true, if_false] at h
    obtain rfl := Option.some.inj h
    exact ⟨rfl, rfl⟩

section
variable {V : Type} {s s' : Store}

theorem handleVoteCast_queue (hf : s.Filed) (e : Event V) {voter : Address} {id support votes : Nat}
    {reason : String} (h : handleVoteCast s e voter id support votes reason = some s') :
    s'.Filed ∧ s'.queue = s.queue := by
  unfold handleVoteCast at h
  simp only at h
  generalize Vote.mk _ _ _ _ _ _ _ _ _ _ = vote at h
  obtain ⟨x, hx, h⟩ := Option.bind_eq_some_iff.mp h
  obtain rfl := Option.some.inj h
  obtain ⟨hid, hstatus⟩ := ProposalEntity.withQuorum_flags hx
  obtain ⟨hid', hstatus'⟩ := ProposalEntity.count_flags (s.getOrCreateProposal id).1 support votes
  rw [hid', s.getOrCreateProposal_fst, hf] at hid
  rw [hstatus', s.getOrCreateProposal_fst] at hstatus
  have hsame := (Store.getOrCreateDynamicQuorumParams_proposals
    (((s.getOrCreateProposal id).2.getOrCreateDelegate voter).2.saveVote vote) none).trans
    (((s.getOrCreateProposal id).2.getOrCreateDelegate_becomes voter).proposals.trans
      (s.getOrCreateProposal_becomes id).proposals)
  obtain ⟨h1, h2⟩ := hf.saveProposal hsame (x := { x with
    status := if x.status = .PENDING then .ACTIVE else x.status }) hid
  refine ⟨h1, h2.trans ?_⟩
  have hkeeps : ((if x.status = .PENDING then .ACTIVE else x.status) = ProposalStatus.QUEUED)
      = ((s.proposal id).status = .QUEUED) := by
    rw [hstatus]
    split_ifs with hp
    · rw [hp]
      simp
    · rfl
  simp only [hkeeps]
  exact update_eq_self id s.queue

/-- **The mapping knows the queue** from the events. -/
theorem handleDaoEvent_queue (hf : s.Filed) (e : Event V) {v : DaoEvent}
    (h : handleDaoEvent s e v = some s') : s'.Filed ∧ s'.queue = enqueue s.queue v := by
  cases v with
  | voteCast => exact handleVoteCast_queue hf e h
  | proposalCreatedWithRequirements id proposer targets values signatures calldatas startBlock endBlock
      proposalThreshold quorumVotes =>
    obtain rfl := Option.some.inj h
    unfold handleProposalCreatedWithRequirements
    simp only
    generalize hx : ProposalEntity.mk _ _ _ _ _ _ _ _ _ _ _ _ _ _ _ _ _ _ _ _ _ _ = x
    have hid : x.id = id := by
      rw [← hx]
      exact (congrArg ProposalEntity.id (s.getOrCreateProposal_fst id)).trans (hf id)
    have hstatus : (x.status = .QUEUED) = False := by
      rw [← hx]
      show ((if startBlock ≤ e.block.number then ProposalStatus.ACTIVE else .PENDING)
        = ProposalStatus.QUEUED) = False
      split_ifs <;> simp
    have hsame := (Store.getOrCreateDynamicQuorumParams_proposals _ none).trans
      (((s.getOrCreateProposal id).2.getOrCreateDelegate_becomes proposer).proposals.trans
        (s.getOrCreateProposal_becomes id).proposals)
    obtain ⟨h1, h2⟩ := hf.saveProposal hsame hid
    refine ⟨h1, h2.trans ?_⟩
    simp only [hstatus, decide_false]
    rfl
  | proposalCanceled id =>
    obtain rfl := Option.some.inj h
    exact hf.save (x := { s.proposal id with status := .CANCELLED }) (hf id)
      (handleProposalCanceled_becomes s id).proposals
  | proposalVetoed id =>
    obtain rfl := Option.some.inj h
    exact hf.save (x := { s.proposal id with status := .VETOED }) (hf id)
      (handleProposalVetoed_becomes s id).proposals
  | proposalQueued id eta =>
    obtain rfl := Option.some.inj h
    exact hf.save (x := { s.proposal id with status := .QUEUED, executionETA := some eta }) (hf id)
      (handleProposalQueued_becomes s id eta).proposals
  | proposalExecuted id =>
    obtain rfl := Option.some.inj h
    exact hf.save (x := { s.proposal id with status := .EXECUTED, executionETA := none }) (hf id)
      (handleProposalExecuted_becomes s id).proposals
  | minQuorumVotesBPSSet | maxQuorumVotesBPSSet | quorumCoefficientSet =>
    obtain rfl := Option.some.inj h
    exact hf.same (s.getOrCreateDynamicQuorumParams_proposals _)
  | _ =>
    obtain rfl := Option.some.inj h
    exact hf.same rfl

end

/-! ## reading -/

/-- the proposal that an event takes back -/
def takesBack : ChainEvent → Option Nat
  | .dao (.proposalCanceled id) => some id
  | .dao (.proposalVetoed id) => some id
  | _ => none

/-- an event that takes a queued proposal back -/
def TakesBack (s : Store) (e : Event ChainEvent) : Prop := ∃ id ∈ takesBack e.params, s.queue id = true

instance (s : Store) (e : Event ChainEvent) : Decidable (TakesBack s e) := Option.decidableExistsMem _

theorem takesBack_iff {s : Store} {e : Event ChainEvent} {id : Nat} (h : takesBack e.params = some id) :
    TakesBack s e ↔ s.queue id = true :=
  ⟨fun ⟨_, hx, hn⟩ => Option.some.inj (h.symm.trans hx) ▸ hn, fun hn => ⟨id, h, hn⟩⟩

theorem not_takesBack {s : Store} {e : Event ChainEvent} (h : takesBack e.params = none) :
    ¬ TakesBack s e := fun ⟨_, hx, _⟩ => nomatch h.symm.trans hx

/-- a log of the DAO that comes when it should, and a store that has read the first part of it -/
structure Backlog (us ws : List (Event ChainEvent)) (s : Store) : Prop where
  filed : s.Filed
  queue : s.queue = queuedBy (daos (us.map Event.entry))
  finite : {id | s.queue id = true}.Finite
  orderly : Orderly (daos ((us ++ ws).map Event.entry))
  once : ∀ id, (daos ((us ++ ws).map Event.entry)).countP (DaoEvent.executes id) ≤ 1

theorem setOf_leave (q : Nat → Bool) (id : Nat) :
    {i | update q id false i = true} = {i | q i = true} \ {id} := by
  ext i
  by_cases e : i = id
  · subst e
    simp
  · simp [e]

theorem setOf_join (q : Nat → Bool) (id : Nat) :
    {i | update q id true i = true} = insert id {i | q i = true} := by
  ext i
  by_cases e : i = id
  · subst e
    simp
  · simp [e]

section
variable {q : Nat → Bool} (id : Nat) (hq : {i | q i = true}.Finite)
include hq

/-- somebody leaves the queue -/
theorem queue_leave : {i | update q id false i = true}.Finite ∧
    (({i | update q id false i = true} : Set Nat).ncard : Int)
      = ({i | q i = true} : Set Nat).ncard - if q id = true then 1 else 0 := by
  rw [setOf_leave]
  refine ⟨hq.sdiff, ?_⟩
  by_cases h : q id = true
  · have hcard := Set.ncard_sdiff_singleton_add_one (show id ∈ {i | q i = true} from h) hq
    rw [if_pos h]
    omega
  · rw [if_neg h, Set.sdiff_singleton_eq_self (show id ∉ {i | q i = true} from h), sub_zero]

theorem queue_join (h : q id = false) : {i | update q id true i = true}.Finite ∧
    (({i | update q id true i = true} : Set Nat).ncard : Int)
      = ({i | q i = true} : Set Nat).ncard + 1 := by
  rw [setOf_join]
  have hn : id ∉ {i | q i = true} := fun hm => nomatch h.symm.trans hm
  exact ⟨hq.insert id, by rw [Set.ncard_insert_of_notMem hn hq, Nat.cast_succ]⟩

end

/-- an event of the DAO, which comes when it should -/
theorem surplus_step {s s' : Store} (e : Event ChainEvent) {v : DaoEvent} (he : e.params = .dao v)
    (hf : s.Filed) (hfin : {id | s.queue id = true}.Finite)
    (hcreated : ∀ id, queues v = some (id, true) → s.queue id = false)
    (hexecuted : ∀ id, v = .proposalExecuted id → s.queue id = true)
    (hnew : ∀ id, queues v = some (id, false) → takesBack (.dao v) = none →
      v ≠ .proposalExecuted id → s.queue id = false)
    (h : handleDaoEvent s e v = some s') : {id | s'.queue id = true}.Finite ∧
      s'.surplus = s.surplus + if TakesBack s e then 1 else 0 := by
  have htotals := handleDaoEvent_totals e h
  obtain ⟨_, hq⟩ := handleDaoEvent_queue hf e h
  have htotal : s'.totals.proposalsQueued = s.totals.proposalsQueued + queueChange v := by rw [htotals]
  unfold Store.surplus
  rw [htotal, hq]
  have hsame : queues v = none → queueChange v = 0 → takesBack e.params = none →
      {id | enqueue s.queue v id = true}.Finite ∧
        s.totals.proposalsQueued + queueChange v - (({id | enqueue s.queue v id = true} : Set Nat).ncard : Int)
          = s.totals.proposalsQueued - ({id | s.queue id = true} : Set Nat).ncard
            + if TakesBack s e then 1 else 0 := fun h1 h2 h3 => by
    rw [enqueue, h1, h2, if_neg (not_takesBack h3), add_zero, add_zero]
    exact ⟨hfin, rfl⟩
  cases v with
  | proposalCreatedWithRequirements id =>
    obtain ⟨h1, h2⟩ := queue_leave id hfin
    refine ⟨h1, ?_⟩
    rw [if_neg (not_takesBack (by rw [he]; rfl))]
    show _ + 0 - (({i | update s.queue id false i = true} : Set Nat).ncard : Int) = _
    rw [h2, if_neg (by rw [hnew id rfl rfl (by simp)]; simp)]
    omega
  | proposalCanceled id | proposalVetoed id =>
    obtain ⟨h1, h2⟩ := queue_leave id hfin
    refine ⟨h1, ?_⟩
    rw [if_congr (takesBack_iff (by rw [he]; rfl)) rfl rfl]
    show _ + 0 - (({i | update s.queue id false i = true} : Set Nat).ncard : Int) = _
    rw [h2]
    omega
  | proposalExecuted id =>
    obtain ⟨h1, h2⟩ := queue_leave id hfin
    refine ⟨h1, ?_⟩
    rw [if_neg (not_takesBack (by rw [he]; rfl))]
    show _ + -1 - (({i | update s.queue id false i = true} : Set Nat).ncard : Int) = _
    rw [h2, if_pos (hexecuted id rfl)]
    omega
  | proposalQueued id eta =>
    obtain ⟨h1, h2⟩ := queue_join id hfin (hcreated id rfl)
    refine ⟨h1, ?_⟩
    rw [if_neg (not_takesBack (by rw [he]; rfl))]
    show _ + 1 - (({i | update s.queue id true i = true} : Set Nat).ncard : Int) = _
    rw [h2]
    omega
  | _ => exact hsame rfl rfl (by rw [he]; rfl)

theorem daos_cons_dao {b : Block} {v : DaoEvent} {js : List (Block × ChainEvent)} :
    daos ((b, .dao v) :: js) = v :: daos js := rfl

theorem Backlog.step {us ws : List (Event ChainEvent)} {e : Event ChainEvent} {s s' : Store}
    (h : Backlog us (e :: ws) s) (hs : handleChainEvent s e = some s') :
    Backlog (us ++ [e]) ws s' ∧ s'.surplus = s.surplus + if TakesBack s e then 1 else 0 := by
  have hcut : us ++ e :: ws = (us ++ [e]) ++ ws := by simp
  have horderly := h.orderly
  have honce := h.once
  unfold handleChainEvent at hs
  cases he : e.params with
  | token v =>
    rw [he] at hs
    obtain rfl := Option.some.inj hs
    have hdesk := handleTokenEvent_desk s e v
    obtain ⟨h1, h2⟩ := h.filed.same hdesk.proposals
    have hentry : Event.entry e = (e.block, .token v) := by rw [← he]; rfl
    have hlast : daos ((us ++ [e]).map Event.entry) = daos (us.map Event.entry) := by
      rw [List.map_append, daos_append, List.map_singleton, hentry]
      exact List.append_nil _
    have hqueued : (handleTokenEvent s e v).totals.proposalsQueued = s.totals.proposalsQueued := by
      rw [handleTokenEvent_totals]
      cases v <;> rfl
    refine ⟨⟨h1, ?_, h2 ▸ h.finite, hcut ▸ horderly, fun i => hcut ▸ honce i⟩, ?_⟩
    · rw [h2, hlast, h.queue]
    · rw [if_neg (not_takesBack (by rw [he]; rfl)), add_zero]
      unfold Store.surplus
      rw [hqueued, h2]
  | dao v =>
    rw [he] at hs
    have hentry : Event.entry e = (e.block, .dao v) := by rw [← he]; rfl
    have hsplit : daos ((us ++ e :: ws).map Event.entry)
        = daos (us.map Event.entry) ++ v :: daos (ws.map Event.entry) := by
      rw [List.map_append, daos_append, List.map_cons, hentry, daos_cons_dao]
    have hlast : daos ((us ++ [e]).map Event.entry) = daos (us.map Event.entry) ++ [v] := by
      rw [List.map_append, daos_append, List.map_singleton, hentry]
      rfl
    have htimely := horderly _ _ _ hsplit
    have hfirst : ∀ id, v = .proposalExecuted id → .proposalExecuted id ∉ daos (us.map Event.entry) :=
      fun id hv => once_of_countP (honce id) (hv ▸ hsplit)
    obtain ⟨h1, h2⟩ := handleDaoEvent_queue h.filed e hs
    rw [h.queue] at h2
    obtain ⟨h3, h4⟩ := surplus_step e he h.filed h.finite (fun id hv => by
        cases v <;> cases hv
        exact (congrFun h.queue _).trans htimely) (fun id hv => by
        obtain rfl := hv
        exact (congrFun h.queue _).trans (htimely (hfirst id rfl))) (fun id hv htake hne => by
        cases v <;> cases hv
        · exact (congrFun h.queue _).trans htimely
        · cases htake
        · exact absurd rfl hne
        · cases htake) hs
    refine ⟨⟨h1, ?_, h3, hcut ▸ horderly, fun i => hcut ▸ honce i⟩, h4⟩
    rw [hlast, queuedBy_snoc, h2]

/-! ## runs -/

theorem daos_cut {js ks : List (Block × ChainEvent)} (h : js <+: ks) : daos js <+: daos ks := by
  obtain ⟨ls, rfl⟩ := h
  exact ⟨daos ls, (daos_append js ls).symm⟩

theorem Orderly.cut {us vs : List DaoEvent} (h : Orderly vs) (hu : us <+: vs) : Orderly us := by
  obtain ⟨ws, rfl⟩ := hu
  exact fun as v bs e => h as v (bs ++ ws) (by rw [e]; simp)

/-- who is queued is counted, and more if somebody was taken back -/
theorem runs_surplus {P : Platform} {g : GovSetup} {e : Env} {w : World P}
    (hw : g.deploy P e = .ok w) {ts : List (Tx Env (GovCall P))}
    (hch : (e :: ts.map Tx.env).IsChain (· ≤ ·)) {es : List (Event ChainEvent)}
    (hes : es.map Event.entry <+: journal e (runTxs GovCall.code ts ⟨[], w⟩).2) {s : Store}
    (hs : read .empty es = some s) : {id | s.queue id = true}.Finite ∧
      (s.surplus = 0 ↔ Avoids handleChainEvent TakesBack .empty es) := by
  have hr := (runTxs_timed GovCall.follows_exact ts e ⟨[], w⟩ hch).2
  have hcut := daos_cut hes
  rw [(runs_written hw hr).daos] at hcut
  have honce : ∀ id, (daos (es.map Event.entry)).countP (DaoEvent.executes id) ≤ 1 := fun id => by
    refine (hcut.sublist.countP_le).trans ?_
    have hann := runs_announced hw hch id
    unfold NounsDAOLogicV2.announcements NounsDAOLogicV2.executions at hann
    rw [hann]
    split_ifs <;> omega
  have hnone : {id | Store.empty.queue id = true} = ∅ := Set.eq_empty_of_forall_notMem fun _ h => nomatch h
  have hempty : Store.empty.surplus = 0 := by
    unfold Store.surplus
    rw [hnone, Set.ncard_empty]
    rfl
  obtain ⟨hI, _, hiff⟩ := Avoids.drift (I := Backlog) (f := Store.surplus)
    (fun us s e ws s' => Backlog.step) es [] .empty s
    ⟨fun _ => rfl, rfl, hnone ▸ Set.finite_empty, (runs_rostered hw hr).docketed.orderly.cut hcut,
      honce⟩ hs
  rw [hempty] at hiff
  exact ⟨hI.finite, hiff⟩

theorem Store.surplus_eq_zero {s : Store} : s.surplus = 0 ↔ s.getGovernanceEntity.proposalsQueued
    = ({id | ∃ p, s.proposals id = some p ∧ p.status = .QUEUED} : Set Nat).ncard := by
  have hqueued : {id | ∃ p, s.proposals id = some p ∧ p.status = .QUEUED} = {id | s.queue id = true} :=
    Set.ext fun _ => Store.queue_eq.symm
  rw [hqueued]
  exact sub_eq_zero

/-- **The subgraph counts its queue**, at any moment of its reading, if and only if no event before has
taken back a proposal that was queued. -/
theorem queue_counted_iff {P : Platform} (g : GovSetup) (e : Env) (w : World P)
    (hw : g.deploy P e = .ok w) (ts : List (Tx Env (GovCall P)))
    (hch : (e :: ts.map Tx.env).IsChain (· ≤ ·)) (es : List (Event ChainEvent))
    (hes : es.map Event.entry <+: journal e (runTxs GovCall.code ts ⟨[], w⟩).2) (s : Store)
    (hs : read .empty es = some s) :
    let queued := {id | ∃ p, s.proposals id = some p ∧ p.status = .QUEUED}
    queued.Finite ∧ (s.getGovernanceEntity.proposalsQueued = queued.ncard ↔
      Avoids handleChainEvent TakesBack .empty es) := by
  intro queued
  obtain ⟨hfin, hiff⟩ := runs_surplus hw hch hes hs
  have hqueued : queued = {id | s.queue id = true} := Set.ext fun _ => Store.queue_eq.symm
  exact ⟨hqueued ▸ hfin, Store.surplus_eq_zero.symm.trans hiff⟩

/-- account `2` votes for its proposal, has it queued, and cancels it -/
def cancelTxs : List (Tx Env (GovCall samplePlatform)) :=
  [⟨.block 10 100, sampleCall 2 0 (.entry (.dao (.castVote 1 1)))⟩,
   ⟨.block 5770 1000, sampleCall 7 0 (.entry (.queue 1))⟩,
   ⟨.block 5771 1010, sampleCall 2 0 (.entry (.cancel 1))⟩]

theorem queue_counted_iff_run :
    let last := (runTxs GovCall.code (proposeTxs ++ cancelTxs.take 2) ⟨[], sampleWorld⟩).2
    ∃ s, read .empty (sampleEvents last) = some s ∧ s.getGovernanceEntity.proposalsQueued = 1 ∧
      ({id | ∃ p, s.proposals id = some p ∧ p.status = .QUEUED} : Set Nat).ncard = 1 := by
  intro last
  have hread : (read .empty (sampleEvents last)).map (·.getGovernanceEntity.proposalsQueued) = some 1 := by
    decide +kernel
  obtain ⟨s, hs, htotal⟩ := Option.map_eq_some_iff.mp hread
  obtain ⟨_, hiff⟩ := queue_counted_iff sampleSetup (.block 6 60) sampleWorld sampleWorld_deployed
    (proposeTxs ++ cancelTxs.take 2) (by simp [proposeTxs, cancelTxs, Env.le_def, Env.block])
    (sampleEvents last) (by rw [sampleEvents_entry]) s hs
  have havoids : Avoids handleChainEvent TakesBack .empty (sampleEvents last) := by decide +kernel
  have hcount := hiff.mpr havoids
  rw [htotal] at hcount
  exact ⟨s, hs, htotal, Nat.cast_eq_one.mp hcount.symm⟩

/-- **A canceled proposal stays in the count**: nothing is queued any more, and the number is not right. -/
theorem queue_not_counted :
    let last := (runTxs GovCall.code (proposeTxs ++ cancelTxs) ⟨[], sampleWorld⟩).2
    ∃ s, read .empty (sampleEvents last) = some s ∧ s.getGovernanceEntity.proposalsQueued = 1 ∧
      s.getGovernanceEntity.proposalsQueued
        ≠ ({id | ∃ p, s.proposals id = some p ∧ p.status = .QUEUED} : Set Nat).ncard := by
  intro last
  have hread : (read .empty (sampleEvents last)).map (·.getGovernanceEntity.proposalsQueued) = some 1 := by
    decide +kernel
  obtain ⟨s, hs, htotal⟩ := Option.map_eq_some_iff.mp hread
  have hch : (Env.block 6 60 :: (proposeTxs ++ cancelTxs).map Tx.env).IsChain (· ≤ ·) := by
    simp [proposeTxs, cancelTxs, Env.le_def, Env.block]
  have hes : (sampleEvents last).map Event.entry <+: journal (.block 6 60) last := by
    rw [sampleEvents_entry]
  obtain ⟨_, hiff⟩ := runs_surplus sampleWorld_deployed hch hes hs
  have hbad : ¬ Avoids handleChainEvent TakesBack .empty (sampleEvents last) := by decide +kernel
  exact ⟨s, hs, htotal, fun h => hbad (hiff.mp (Store.surplus_eq_zero.mpr h))⟩

end UNouns.Subgraph
