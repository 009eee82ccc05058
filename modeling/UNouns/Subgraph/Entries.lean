import UNouns.Subgraph.Chain
import UNouns.Subgraph.Desk
import UNouns.Governance.Quotes

/-!
# The entities of proposals

What the subgraph makes of a proposal, against the proposal itself and the log of the DAO, deed by deed.
The proposals up to `n₀` are older than the DAO as it is now, and nothing is said of theirs but that
the mapping has no dynamic quorum for them.

* `Ground`       what holds of the contracts alone, and is needed here;
* `display`      the status that the events give a proposal;
* `Figures`      the entity of a proposal: its votes, its quote, the quorum that comes of them;
* `Noted`        the store has an entity for every proposal, and what was announced of the quorum;
* `Deed.noted`   so after the events of a deed, unless a vote cannot be counted.
-/

set_option linter.unusedVariables false
set_option linter.unusedSectionVars false

namespace UNouns.Subgraph
open Function Relation Reentrant Checkpoints NounsDAOLogicV2

/-- somebody has voted, if only with no votes -/
def Voted (p : Proposal) : Prop := ∃ v, (p.receipts v).hasVoted = true

theorem voted_of_ballots {p p' : Proposal} (h : p'.ballots = p.ballots) : Voted p' ↔ Voted p := by
  have hr : p'.receipts = p.receipts := congrArg (·.2.2.2) h
  unfold Voted
  rw [hr]

theorem voted_withVote (p : Proposal) (voter : Address) (support votes : Nat) :
    Voted (Proposal.withVote p voter support votes) := by
  have hr : (Proposal.withVote p voter support votes).receipts
      = update p.receipts voter ⟨true, support, votes⟩ :=
    congrArg (·.2.2.2) (withVote_ballots p voter support votes)
  exact ⟨voter, by rw [hr, update_self]⟩

theorem not_voted_empty : ¬ Voted .empty := fun ⟨_, h⟩ => nomatch h

/-! ## the contracts -/

section
variable {P : Platform}

/-- a world that in block `b₀` had `n₀` proposals -/
structure Ground (n₀ b₀ : Nat) (e : Env) (w : World P) : Prop where
  sane : SaneSince n₀ e w.dao
  carried : ∀ i, n₀ < i → CarriedAt e w.dao i
  held : ∀ i, n₀ < i → HeldAt w.dao i
  votingDelay : MIN_VOTING_DELAY ≤ w.dao.votingDelay
  begun : ∀ i, n₀ < i → Voted (w.dao.proposals i) → (w.dao.proposals i).startBlock < e.number
  told : ∀ i, n₀ < i → .proposalExecuted i ∈ w.dao.logs → (w.dao.proposals i).executed = true
  tallied : ∀ i, n₀ < i → Tallied (w.dao.proposals i)
  listed : Listed w.dao
  started : b₀ ≤ e.number
  startBlock_ge : ∀ b, w.dao.startBlock = some b → b₀ ≤ b

theorem Ground.tick {n₀ b₀ : Nat} {e e' : Env} {w : World P} (h : Ground n₀ b₀ e w) (he : e ≤ e') :
    Ground n₀ b₀ e' w :=
  have hn := (Env.le_def.mp he).1
  { h with
    sane := h.sane.mono he
    carried := fun i hi => (h.carried i hi).mono he
    begun := fun i hi hv => Nat.lt_of_lt_of_le (h.begun i hi hv) hn
    started := Nat.le_trans h.started hn }

theorem Ground.deed {n₀ b₀ : Nat} {env : Env} {w w' : World P} (h : Ground n₀ b₀ env w) {x : Option Nat}
    {vs : List DaoEvent} (hd : Deed env w.token w.dao x vs w'.dao)
    (hdelay : MIN_VOTING_DELAY ≤ w'.dao.votingDelay)
    (hexec : ∀ i, i ≤ w.dao.proposalCount → (w.dao.proposals i).executed = true →
      (w'.dao.proposals i).executed = true) : Ground n₀ b₀ env w' where
  sane := h.sane.change hd.change
  carried := fun i hi => (h.carried i hi).change h.sane (fun _ => hi) hd.change
  held := fun i hi => (h.held i hi).change h.sane (h.carried i hi) (fun _ => hi) hd.change
  votingDelay := hdelay
  begun := fun i hi hv => by
    rcases hd.change.ballots h.sane.fresh i with hb | ⟨_, _, _, hact, _, _, hp⟩
    · have hv' := (voted_of_ballots hb).mp hv
      have hle : i ≤ w.dao.proposalCount := by
        by_contra hgt
        rw [h.sane.fresh i (by omega)] at hv'
        exact not_voted_empty hv'
      rw [(hd.change.header hle).congr (·.startBlock) fun _ => rfl]
      exact h.begun i hi hv'
    · rw [hp, (withVote_kept _ _ _ _).congr (·.startBlock) fun _ => rfl]
      exact (state_active hact).2.2.1
  told := fun i hi => hd.told (hexec i) fun hm => ⟨h.listed _ hm i rfl, h.told i hi hm⟩
  tallied := fun i hi => hd.change.tallied h.sane.fresh (h.tallied i hi)
  listed := hd.listed h.listed
  started := h.started
  startBlock_ge := fun b hb => by
    rw [hd.startBlock] at hb
    split_ifs at hb
    · cases hs : w.dao.startBlock with
      | none =>
        rw [hs] at hb
        exact Option.some.inj hb ▸ h.started
      | some b' =>
        rw [hs] at hb
        exact h.startBlock_ge b (hs.trans hb)
    · exact h.startBlock_ge b hb

/-- votes for a proposal are somebody's -/
theorem Ground.voted {n₀ b₀ : Nat} {e : Env} {w : World P} (h : Ground n₀ b₀ e w) {i : Nat}
    (hi : n₀ < i) (hf : (w.dao.proposals i).forVotes ≠ 0) : Voted (w.dao.proposals i) := by
  rw [(h.tallied i hi).forVotes] at hf
  obtain ⟨v, _, hv⟩ := Finset.exists_ne_zero_of_sum_ne_zero hf
  refine ⟨v, ?_⟩
  by_contra hn
  exact hv (if_neg fun h => hn h.1)

end

/-! ## what the events show -/

/-- the status of a proposal after an event, and the time it may be executed from -/
def DaoEvent.display (id : Nat) (x : ProposalStatus × Option Nat) :
    DaoEvent → ProposalStatus × Option Nat
  | .proposalCanceled i => if i = id then (.CANCELLED, x.2) else x
  | .proposalVetoed i => if i = id then (.VETOED, x.2) else x
  | .proposalQueued i eta => if i = id then (.QUEUED, some eta) else x
  | .proposalExecuted i => if i = id then (.EXECUTED, none) else x
  | .voteCast _ i _ _ _ =>
    if i = id then (if x.1 = .PENDING then .ACTIVE else x.1, x.2) else x
  | _ => x

/-- a proposal is pending, and then what the events say -/
def display (d : NounsDAOLogicV2) (id : Nat) : ProposalStatus × Option Nat :=
  d.logs.foldl (DaoEvent.display id) (.PENDING, none)

theorem display_other {v : DaoEvent} {id : Nat} (h : v.about ≠ some id)
    (x : ProposalStatus × Option Nat) : DaoEvent.display id x v = x := by
  cases v with
  | proposalCanceled i | proposalVetoed i | proposalQueued i | proposalExecuted i | voteCast _ i =>
    exact if_neg fun e => h (congrArg some e)
  | _ => rfl

theorem foldl_display_other {id : Nat} {vs : List DaoEvent} (h : ∀ v ∈ vs, v.about ≠ some id)
    (x : ProposalStatus × Option Nat) : vs.foldl (DaoEvent.display id) x = x := by
  induction vs with
  | nil => rfl
  | cons v vs ih =>
    rw [List.foldl_cons, display_other (h v List.mem_cons_self)]
    exact ih fun u hu => h u (List.mem_cons_of_mem _ hu)

theorem display_append {d d' : NounsDAOLogicV2} {vs : List DaoEvent} (h : d'.logs = d.logs ++ vs)
    (id : Nat) : display d' id = vs.foldl (DaoEvent.display id) (display d id) := by
  unfold display
  rw [h, List.foldl_append]

/-! ## entities -/

/-- the entity of a proposal that is quoted as `k` -/
structure Figures (k : Quote) (dyn : Bool) (st : ProposalStatus × Option Nat) (p : Proposal)
    (x : ProposalEntity) : Prop where
  startBlock : x.startBlock = p.startBlock
  endBlock : x.endBlock = p.endBlock
  createdBlock : x.createdBlock = p.creationBlock
  forVotes : x.forVotes = p.forVotes
  againstVotes : x.againstVotes = p.againstVotes
  totalSupply : x.totalSupply = p.totalSupply
  minQuorumVotesBPS : x.minQuorumVotesBPS = k.params.minQuorumVotesBPS.toNat
  maxQuorumVotesBPS : x.maxQuorumVotesBPS = k.params.maxQuorumVotesBPS.toNat
  quorumCoefficient : x.quorumCoefficient = k.params.quorumCoefficient.toNat
  dynamic : dyn = true → Voted p → x.quorumVotes = quorumOf k.params p.totalSupply p.againstVotes
  fixed : dyn = false → x.quorumVotes = k.minQuorum
  shown : (x.status, x.executionETA) = st

section
variable {k : Quote} {dyn : Bool} {st : ProposalStatus × Option Nat} {p p' : Proposal}
  {x : ProposalEntity}

/-- another status of a proposal with the same votes -/
theorem Figures.status (h : Figures k dyn st p x) (hk : Kept p p') (hb : p'.ballots = p.ballots)
    (status : ProposalStatus) (eta : Option Nat) :
    Figures k dyn (status, eta) p' { x with status := status, executionETA := eta } := by
  have hvoted := voted_of_ballots hb
  simp only [Proposal.ballots, Prod.mk.injEq] at hb
  obtain ⟨hagainst, hfor, _, _⟩ := hb
  have hsupply : p'.totalSupply = p.totalSupply := hk.congr (·.totalSupply) fun _ => rfl
  refine ⟨h.startBlock.trans ?_, h.endBlock.trans ?_, h.createdBlock.trans ?_, ?_, ?_, ?_,
    h.minQuorumVotesBPS, h.maxQuorumVotesBPS, h.quorumCoefficient, fun hd hv => ?_, h.fixed, rfl⟩
  · exact (hk.congr (·.startBlock) fun _ => rfl).symm
  · exact (hk.congr (·.endBlock) fun _ => rfl).symm
  · exact (hk.congr (·.creationBlock) fun _ => rfl).symm
  · rw [hfor]
    exact h.forVotes
  · rw [hagainst]
    exact h.againstVotes
  · rw [hsupply]
    exact h.totalSupply
  · rw [hsupply, hagainst]
    exact h.dynamic hd (hvoted.mp hv)

/-- nothing about a proposal is told -/
theorem Figures.congr (h : Figures k dyn st p x) (hk : Kept p p') (hb : p'.ballots = p.ballots) :
    Figures k dyn st p' x := by
  have h' := h.status hk hb x.status x.executionETA
  rwa [h.shown] at h'

/-! ### votes -/

theorem count_eq (x : ProposalEntity) (support votes : Nat) : x.count support votes = { x with
    againstVotes := x.againstVotes + (if support = 0 then votes else 0 : Nat)
    forVotes := x.forVotes + (if support = 1 then votes else 0 : Nat)
    abstainVotes := x.abstainVotes + (if support = 2 then votes else 0 : Nat) } := by
  unfold ProposalEntity.count
  by_cases h0 : support = 0
  · simp [h0]
  · by_cases h1 : support = 1
    · simp [h1]
    · by_cases h2 : support = 2
      · simp [h2]
      · simp [h0, h1, h2]

/-- the quorum stays, but for a dynamic one -/
theorem withQuorum_fixed {y : ProposalEntity} {q : DynamicQuorumParams}
    (h : q.dynamicQuorumStartBlock.any (· < y.createdBlock) = false) : y.withQuorum q = some y := by
  unfold ProposalEntity.withQuorum
  simp only [h, Bool.false_eq_true, if_false]

/-- the mapping brings the quorum up to date if its numbers allow it -/
theorem withQuorum_dynamic {y : ProposalEntity} {q : DynamicQuorumParams}
    {params : UNouns.DynamicQuorumParams} {supply against : Nat}
    (h : q.dynamicQuorumStartBlock.any (· < y.createdBlock) = true) (hs : supply ≠ 0)
    (hf : Fits params supply against) (hsupply : y.totalSupply = supply)
    (hagainst : y.againstVotes = against) (hmin : y.minQuorumVotesBPS = params.minQuorumVotesBPS.toNat)
    (hmax : y.maxQuorumVotesBPS = params.maxQuorumVotesBPS.toNat)
    (hc : y.quorumCoefficient = params.quorumCoefficient.toNat) :
    y.withQuorum q = some { y with quorumVotes := (quorumOf params supply against : Nat) } := by
  unfold ProposalEntity.withQuorum
  simp only [h, if_true]
  rw [hsupply, hagainst, hmin, hmax, hc, dynamicQuorumVotes_eq hs hf]
  rfl

theorem Figures.vote {start : Option Nat} (h : Figures k (start.any (· < p.creationBlock)) st p x)
    (params : UNouns.DynamicQuorumParams) (voter : Address) (support votes : Nat)
    (hcount : start.any (· < p.creationBlock) = true → p.totalSupply ≠ 0 ∧
      Fits k.params p.totalSupply (Proposal.withVote p voter support votes).againstVotes) :
    ∃ y, (x.count support votes).withQuorum (paramsEntity params start) = some y ∧ y.id = x.id ∧
      Figures k (start.any (· < p.creationBlock))
        (if st.1 = .PENDING then .ACTIVE else st.1, st.2)
        (Proposal.withVote p voter support votes)
        { y with status := if y.status = .PENDING then .ACTIVE else y.status } := by
  have hballots := withVote_ballots p voter support votes
  simp only [Proposal.ballots, Prod.mk.injEq] at hballots
  obtain ⟨hagainst, hfor, _, _⟩ := hballots
  have hk := withVote_kept p voter support votes
  have hsupply : (Proposal.withVote p voter support votes).totalSupply = p.totalSupply :=
    hk.congr (·.totalSupply) fun _ => rfl
  have hc := count_eq x support votes
  have hx : (x.count support votes).againstVotes
      = (Proposal.withVote p voter support votes).againstVotes := by
    rw [hc, hagainst, Nat.cast_add, ← h.againstVotes]
  have hxf : (x.count support votes).forVotes
      = (Proposal.withVote p voter support votes).forVotes := by
    rw [hc, hfor, Nat.cast_add, ← h.forVotes]
  have hgate : (paramsEntity params start).dynamicQuorumStartBlock.any
      (· < (x.count support votes).createdBlock) = start.any (· < p.creationBlock) := by
    rw [hc, ← h.createdBlock]
    rfl
  -- what the quorum does not concern
  have hrest : ∀ y : ProposalEntity, (∃ n, y = { x.count support votes with quorumVotes := n }) →
      (start.any (· < p.creationBlock) = true → y.quorumVotes = quorumOf k.params p.totalSupply
        (Proposal.withVote p voter support votes).againstVotes) →
      (start.any (· < p.creationBlock) = false → y.quorumVotes = k.minQuorum) →
      y.id = x.id ∧ Figures k (start.any (· < p.creationBlock))
        (if st.1 = .PENDING then .ACTIVE else st.1, st.2)
        (Proposal.withVote p voter support votes)
        { y with status := if y.status = .PENDING then .ACTIVE else y.status } := by
    rintro y ⟨n, rfl⟩ hdyn hfix
    rw [← h.shown]
    rw [hc] at hx hxf hdyn hfix ⊢
    refine ⟨rfl, h.startBlock.trans ?_, h.endBlock.trans ?_, h.createdBlock.trans ?_, hxf, hx,
      h.totalSupply.trans ?_, h.minQuorumVotesBPS, h.maxQuorumVotesBPS, h.quorumCoefficient,
      fun hd _ => ?_, hfix, rfl⟩
    · exact (hk.congr (·.startBlock) fun _ => rfl).symm
    · exact (hk.congr (·.endBlock) fun _ => rfl).symm
    · exact (hk.congr (·.creationBlock) fun _ => rfl).symm
    · rw [hsupply]
    · rw [hsupply]
      exact hdyn hd
  cases hdyn : start.any (· < p.creationBlock) with
  | true =>
    obtain ⟨hs, hf⟩ := hcount hdyn
    have hy := withQuorum_dynamic (hgate.trans hdyn) hs hf (by rw [hc]; exact h.totalSupply) hx
      (by rw [hc]; exact h.minQuorumVotesBPS) (by rw [hc]; exact h.maxQuorumVotesBPS)
      (by rw [hc]; exact h.quorumCoefficient)
    rw [hdyn] at hrest
    exact ⟨_, hy, hrest _ ⟨_, rfl⟩ (fun _ => rfl) (fun hf => absurd hf.symm Bool.false_ne_true)⟩
  | false =>
    have hn : (x.count support votes).quorumVotes = k.minQuorum := by
      rw [hc]
      exact h.fixed hdyn
    rw [hdyn] at hrest
    exact ⟨_, withQuorum_fixed (hgate.trans hdyn),
      hrest _ ⟨_, rfl⟩ (fun hf => absurd hf Bool.false_ne_true) fun _ => hn⟩

end

/-! ## the store -/

theorem proposal_of_some {s : Store} {id : Nat} {x : ProposalEntity} (h : s.proposals id = some x) :
    s.proposal id = x := by
  unfold Store.proposal
  rw [h]
  rfl

theorem proposal_of_none {s : Store} {id : Nat} (h : s.proposals id = none) :
    s.proposal id = .new id := by
  unfold Store.proposal
  rw [h]
  rfl

theorem proposal_update {s s' : Store} {id : Nat} {x : ProposalEntity}
    (hs : s'.proposals = update s.proposals id (some x)) (i : Nat) :
    s'.proposal i = if i = id then x else s.proposal i := by
  unfold Store.proposal
  rw [hs]
  split_ifs with h
  · rw [h, update_self]
    rfl
  · rw [update_of_ne h]

/-- saving an entity under its own id -/
theorem named_update {s s' : Store} (h : ∀ id, (s.proposal id).id = id) {x : ProposalEntity}
    (hs : s'.proposals = update s.proposals x.id (some x)) (id : Nat) : (s'.proposal id).id = id := by
  rw [proposal_update hs]
  split_ifs with e
  · exact e.symm
  · exact h id

/-- no other execution is announced by an event about `id` -/
theorem announced_other {d d' : NounsDAOLogicV2} {v : DaoEvent} {id i : Nat}
    (hlogs : d'.logs = d.logs ++ [v]) (hv : v.about = some id) (hi : i ≠ id) :
    .proposalExecuted i ∈ d'.logs ↔ .proposalExecuted i ∈ d.logs := by
  rw [hlogs, List.mem_append, List.mem_singleton]
  refine or_iff_left fun e => hi ?_
  rw [← e] at hv
  exact Option.some.inj hv

/-- no execution is announced by another event -/
theorem announced_same {d d' : NounsDAOLogicV2} {vs : List DaoEvent} {i : Nat}
    (hlogs : d'.logs = d.logs ++ vs) (hv : .proposalExecuted i ∉ vs) :
    .proposalExecuted i ∈ d'.logs ↔ .proposalExecuted i ∈ d.logs := by
  rw [hlogs, List.mem_append]
  exact or_iff_left hv

theorem sets_of_about {v : DaoEvent} {id : Nat} (h : v.about = some id) : v.sets = false := by
  cases v <;> first | rfl | cases h

section
variable {P : Platform}

/-- the entity of a proposal, and what the events say of it -/
def Entry (d : NounsDAOLogicV2) (s : Store) (id : Nat) : Prop :=
  ∃ k x, d.quote id = some k ∧ s.proposals id = some x ∧
    Figures k (d.dynamic id) (display d id) (d.proposals id) x

/-- the store of a world that in block `b₀` had `n₀` proposals -/
structure Noted (n₀ b₀ : Nat) (w : World P) (s : Store) : Prop where
  keyed : s.Keyed
  named : ∀ id, (s.proposal id).id = id
  supply : s.books.supply = w.token.totalSupply
  params : s.quorumParams = paramsEntity w.dao.announced w.dao.startBlock
  fresh : ∀ id, w.dao.proposalCount < id → s.proposals id = none
  elder : ∀ id ≤ n₀, (s.proposal id).createdBlock ≤ b₀
  entries : ∀ id, n₀ < id → id ≤ w.dao.proposalCount → Entry w.dao s id

/-- an entity is found where a proposal is -/
theorem Noted.found {n₀ b₀ : Nat} {w : World P} {s : Store} (h : Noted n₀ b₀ w s) {id : Nat}
    (h1 : n₀ < id) (h2 : id ≤ w.dao.proposalCount) : ∃ k, w.dao.quote id = some k ∧
      Figures k (w.dao.dynamic id) (display w.dao id) (w.dao.proposals id) (s.proposal id) := by
  obtain ⟨k, x, hk, hx, hfig⟩ := h.entries id h1 h2
  exact ⟨k, hk, proposal_of_some hx ▸ hfig⟩

section
variable {n₀ b₀ : Nat} {env : Env} {w w' : World P} {s s' : Store} {x : Option Nat}
  {vs : List DaoEvent} (hg : Ground n₀ b₀ env w) (hm : Noted n₀ b₀ w s)
  (htoken : w'.token = w.token) (hd : Deed env w.token w.dao x vs w'.dao)
include hg hm htoken hd

/-- what a deed says of a proposal, and does to it -/
theorem Noted.entry (hcount : w'.dao.proposalCount = w.dao.proposalCount) {id : Nat} (h1 : n₀ < id)
    (h2 : id ≤ w'.dao.proposalCount) {y : ProposalEntity} (hy : s'.proposals id = some y)
    (hfig : ∀ k, w.dao.quote id = some k →
      Figures k (w.dao.dynamic id) (display w.dao id) (w.dao.proposals id) (s.proposal id) →
      Figures k (w.dao.dynamic id) (vs.foldl (DaoEvent.display id) (display w.dao id))
        (w'.dao.proposals id) y) : Entry w'.dao s' id := by
  have h2' := hcount ▸ h2
  obtain ⟨k, hk, hfound⟩ := hm.found h1 h2'
  refine ⟨k, y, (hd.quote h2').trans hk, hy, ?_⟩
  rw [hd.dynamic hg.sane h1 h2', display_append hd.logs]
  exact hfig k hk hfound

/-- an event about one proposal, whose entity is saved -/
theorem Noted.save {id : Nat} {p : Proposal} {v : DaoEvent} (hvs : vs = [v]) (hv : v.about = some id)
    (hset : SetsProposal w.dao w'.dao id p) (hid : id ≤ w.dao.proposalCount) {y : ProposalEntity}
    (hy : y.id = id) (hcreated : y.createdBlock = (s.proposal id).createdBlock)
    (hs : s.Becomes s' (update s.proposals y.id (some y)) s.quorumParams)
    (hfig : n₀ < id → ∀ k, w.dao.quote id = some k →
      Figures k (w.dao.dynamic id) (display w.dao id) (w.dao.proposals id) (s.proposal id) →
      Figures k (w.dao.dynamic id) (DaoEvent.display id (display w.dao id) v) p y) :
    Noted n₀ b₀ w' s' := by
  subst hvs
  have hproposals := hs.proposals
  rw [hy] at hproposals
  refine ⟨hs.books.keyed hm.keyed, named_update hm.named hs.proposals, ?_, ?_, fun i hi => ?_,
    fun i hi => ?_, fun i h1 h2 => ?_⟩
  · rw [hs.books.books, hm.supply, htoken]
  · have hquiet : ¬ ∃ u ∈ [v], u.sets = true := by
      simp [sets_of_about hv]
    rw [hs.params, hm.params, hd.announced, hd.startBlock, if_neg hquiet,
      foldl_set (by simpa using sets_of_about hv)]
  · rw [hset.proposalCount] at hi
    rw [hproposals, update_of_ne (by omega)]
    exact hm.fresh i hi
  · rw [proposal_update hproposals]
    split_ifs with e
    · rw [hcreated]
      exact hm.elder id (e ▸ hi)
    · exact hm.elder i hi
  · by_cases e : i = id
    · subst e
      refine Noted.entry hg hm htoken hd hset.proposalCount h1 h2 (y := y)
        (by rw [hproposals, update_self]) fun k hk hfound => ?_
      rw [hset.self]
      exact hfig h1 k hk hfound
    · obtain ⟨k, z, hk, hz, hfound⟩ := hm.entries i h1 (hset.proposalCount ▸ h2)
      refine Noted.entry hg hm htoken hd hset.proposalCount h1 h2 (y := z)
        (by rw [hproposals, update_of_ne e, hz]) fun k' hk' hfound' => ?_
      have hother : v.about ≠ some i := fun h => e (Option.some.inj (h.symm.trans hv))
      rw [hset.other e, List.foldl_cons, display_other hother]
      exact proposal_of_some hz ▸ hfound'

/-- a vote whose quorum is `y`'s -/
theorem Noted.cast {voter : Address} {id support votes : Nat} {reason : String}
    (hvs : vs = [.voteCast voter id support votes reason])
    (hset : SetsProposal w.dao w'.dao id
      (Proposal.withVote (w.dao.proposals id) voter support votes))
    (hid : id ≤ w.dao.proposalCount) {V : Type} (e : Event V) {y : ProposalEntity}
    (hy : ((s.proposal id).count support votes).withQuorum s.quorumParams = some y) (hyid : y.id = id)
    (hcreated : y.createdBlock = (s.proposal id).createdBlock)
    (hfig : n₀ < id → ∀ k, w.dao.quote id = some k →
      Figures k (w.dao.dynamic id) (display w.dao id) (w.dao.proposals id) (s.proposal id) →
      Figures k (w.dao.dynamic id)
        (if (display w.dao id).1 = .PENDING then .ACTIVE else (display w.dao id).1,
          (display w.dao id).2)
        (Proposal.withVote (w.dao.proposals id) voter support votes)
        { y with status := if y.status = .PENDING then .ACTIVE else y.status }) :
    ∃ s', handleDaoEvent s e (.voteCast voter id support votes reason) = some s' ∧
      Noted n₀ b₀ w' s' := by
  obtain ⟨s', hs', hbecomes⟩ := handleVoteCast_becomes e voter id support votes reason hy
  refine ⟨s', hs', Noted.save hg hm htoken hd hvs rfl hset hid (y := { y with
    status := if y.status = .PENDING then .ACTIVE else y.status }) hyid hcreated hbecomes
    fun h1 k hk hfound => ?_⟩
  have hshow : DaoEvent.display id (display w.dao id) (.voteCast voter id support votes reason)
      = (if (display w.dao id).1 = .PENDING then .ACTIVE else (display w.dao id).1,
        (display w.dao id).2) := if_pos rfl
  rw [hshow]
  exact hfig h1 k hk hfound

/-- events about no proposal -/
theorem Noted.idle (hcount : w'.dao.proposalCount = w.dao.proposalCount)
    (hkept : ∀ i, Kept (w.dao.proposals i) (w'.dao.proposals i) ∧
      (w'.dao.proposals i).ballots = (w.dao.proposals i).ballots)
    (habout : ∀ v ∈ vs, v.about = none)
    (hs : s.Becomes s' s.proposals (paramsEntity w'.dao.announced w'.dao.startBlock)) :
    Noted n₀ b₀ w' s' := by
  have hsame := congrFun (Store.proposal_of_same hs.proposals)
  refine ⟨hs.books.keyed hm.keyed, fun i => (hsame i).symm ▸ hm.named i, ?_, hs.params, fun i hi => ?_,
    fun i hi => (hsame i).symm ▸ hm.elder i hi, fun i h1 h2 => ?_⟩
  · rw [hs.books.books, hm.supply, htoken]
  · rw [hs.proposals]
    exact hm.fresh i (hcount ▸ hi)
  · obtain ⟨k, z, hk, hz, hfound⟩ := hm.entries i h1 (hcount ▸ h2)
    refine Noted.entry hg hm htoken hd hcount h1 h2 (y := z) (by rw [hs.proposals, hz])
      fun k' hk' hfound' => ?_
    rw [foldl_display_other fun v hv e => nomatch (habout v hv).symm.trans e]
    exact Figures.congr (proposal_of_some hz ▸ hfound') (hkept i).1 (hkept i).2

end
end

/-! ## reading the events of a deed -/

theorem read_single {s s' : Store} {e : Event ChainEvent} {v : DaoEvent} (he : e.params = .dao v)
    (h : handleDaoEvent s e v = some s') : read s [e] = some s' := by
  have hc : handleChainEvent s e = some s' := by
    unfold handleChainEvent
    rw [he]
    exact h
  unfold read
  rw [List.foldlM_cons, hc]
  rfl

/-- events of the DAO, all of one block -/
def inBlock (b : Block) (vs : List DaoEvent) : List (Block × ChainEvent) :=
  (vs.map ChainEvent.dao).map (b, ·)

theorem inBlock_cons {b : Block} {v : DaoEvent} {vs : List DaoEvent} {es : List (Event ChainEvent)}
    (hes : es.map Event.entry = inBlock b (v :: vs)) :
    ∃ e fs, es = e :: fs ∧ e.block = b ∧ e.params = .dao v ∧ fs.map Event.entry = inBlock b vs := by
  obtain ⟨e, fs, rfl, he, hfs⟩ := List.map_eq_cons_iff.mp hes
  exact ⟨e, fs, rfl, congrArg Prod.fst he, congrArg Prod.snd he, hfs⟩

/-- the one event of a deed -/
theorem read_entry {s : Store} {R : Store → Prop} {b : Block} {v : DaoEvent}
    (h : ∀ e : Event ChainEvent, e.block = b → ∃ s', handleDaoEvent s e v = some s' ∧ R s')
    {es : List (Event ChainEvent)} (hes : es.map Event.entry = inBlock b [v]) :
    ∃ s', read s es = some s' ∧ R s' := by
  obtain ⟨e, fs, rfl, hb, hp, hfs⟩ := inBlock_cons hes
  rw [List.map_eq_nil_iff.mp hfs]
  obtain ⟨s', hs', hr⟩ := h e hb
  exact ⟨s', read_single hp hs', hr⟩

/-- events about no proposal leave the parameters they say -/
theorem read_params {b : Block} (vs : List DaoEvent) : ∀ {s : Store} {p : UNouns.DynamicQuorumParams}
    {start : Option Nat} {es : List (Event ChainEvent)},
    s.quorumParams = paramsEntity p start → (∀ v ∈ vs, v.about = none) →
    es.map Event.entry = inBlock b vs →
    ∃ s', read s es = some s' ∧ s.Becomes s' s.proposals (paramsEntity (vs.foldl .set p)
      (if ∃ v ∈ vs, v.sets = true then some (start.getD b.number) else start)) := by
  induction vs with
  | nil =>
    intro s p start es hp _ hes
    rw [List.map_eq_nil_iff.mp hes]
    refine ⟨s, rfl, .refl s, rfl, ?_⟩
    rw [if_neg (by simp)]
    exact hp
  | cons v vs ih =>
    intro s p start es hp hv hes
    obtain ⟨e, fs, rfl, hb, he, hfs⟩ := inBlock_cons hes
    obtain ⟨s1, h1, hb1⟩ := handleDaoEvent_params hp e (hv v List.mem_cons_self)
    obtain ⟨s2, h2, hb2⟩ := ih hb1.params (fun u hu => hv u (List.mem_cons_of_mem _ hu)) hfs
    have hread : read s ([e] ++ fs) = some s2 := (read_append (read_single he h1)).trans h2
    refine ⟨s2, hread, ?_⟩
    rw [hb1.proposals, hb] at hb2
    have h12 := hb1.trans hb2
    cases hs : v.sets with
    | true =>
      have hsome : ∃ u ∈ v :: vs, u.sets = true := ⟨v, List.mem_cons_self, hs⟩
      rw [if_pos hsome]
      rw [hs, if_pos rfl, Option.getD_some, ite_self] at h12
      exact h12
    | false =>
      have hiff : (∃ u ∈ v :: vs, u.sets = true) ↔ ∃ u ∈ vs, u.sets = true := by simp [hs]
      rw [hs, if_neg Bool.false_ne_true] at h12
      simp only [hiff]
      exact h12

/-- the mapping can count the votes for a proposal whose quorum is dynamic: there were tokens when it
was made, and not too many votes are against it -/
def Countable (d : NounsDAOLogicV2) : Prop :=
  ∀ id ≤ d.proposalCount, ∀ k, d.quote id = some k → d.dynamic id = true → Voted (d.proposals id) →
    (d.proposals id).totalSupply ≠ 0 ∧
      Fits k.params (d.proposals id).totalSupply (d.proposals id).againstVotes

/-- the entity of a new proposal: nobody has voted, and no event was about it -/
theorem figures_created {P : Platform} {n₀ b₀ : Nat} {env : Env} {w : World P} {s : Store}
    (hg : Ground n₀ b₀ env w) (hm : Noted n₀ b₀ w s) {V : Type} {e : Event V}
    (he : e.block.number = env.number) (sender : Address) (targets : List Address) (values : List Nat)
    (signatures : List String) (calldatas : List Bytes) (minQuorum : Nat) (dyn : Bool) :
    let p := w.dao.newProposal env sender w.token targets values signatures calldatas
    Figures ⟨w.dao.announced, minQuorum⟩ dyn (.PENDING, none) p (s.created e p.id sender targets values
      signatures calldatas p.startBlock p.endBlock p.proposalThreshold minQuorum) := by
  intro p
  have hnone : s.proposal p.id = .new p.id := proposal_of_none (hm.fresh p.id (Nat.lt_succ_self _))
  have hpending : ¬ p.startBlock ≤ e.block.number := by
    have hs : p.startBlock = env.number + w.dao.votingDelay := rfl
    have hdelay : 1 ≤ w.dao.votingDelay := hg.votingDelay
    rw [hs, he]
    omega
  have hvoted : ¬ Voted p := by
    rintro ⟨v, hv⟩
    have hr : p.receipts = (w.dao.proposals p.id).receipts := rfl
    rw [hr, hg.sane.fresh p.id (Nat.lt_succ_self _)] at hv
    cases hv
  have hparams := hm.params
  refine ⟨rfl, rfl, he, rfl, rfl, hm.supply,
    congrArg DynamicQuorumParams.minQuorumVotesBPS hparams,
    congrArg DynamicQuorumParams.maxQuorumVotesBPS hparams,
    congrArg DynamicQuorumParams.quorumCoefficient hparams,
    fun _ hv => absurd hv hvoted, fun _ => rfl, ?_⟩
  show ((if p.startBlock ≤ e.block.number then .ACTIVE else .PENDING : ProposalStatus),
    (s.proposal p.id).executionETA) = (.PENDING, none)
  rw [if_neg hpending, hnone]
  rfl

section
variable {P : Platform} {n₀ b₀ : Nat} {env : Env} {w w' : World P} {s : Store} {x : Option Nat}
  {vs : List DaoEvent} (hg : Ground n₀ b₀ env w) (hm : Noted n₀ b₀ w s)
  (htoken : w'.token = w.token) (hd : Deed env w.token w.dao x vs w'.dao) {b : Block}
  {es : List (Event ChainEvent)} (hes : es.map Event.entry = inBlock b vs)
include hg hm htoken hd hes

/-- events about no proposal -/
theorem noted_settings (hcount : w'.dao.proposalCount = w.dao.proposalCount)
    (hproposals : w'.dao.proposals = w.dao.proposals) (habout : ∀ v ∈ vs, v.about = none)
    (hb : b.number = env.number ∨ ∀ v ∈ vs, v.sets = false) :
    ∃ s', read s es = some s' ∧ Noted n₀ b₀ w' s' := by
  obtain ⟨s', hs', hbecomes⟩ := read_params vs hm.params habout hes
  have hstart : w'.dao.startBlock = if ∃ v ∈ vs, v.sets = true
      then some (w.dao.startBlock.getD b.number) else w.dao.startBlock := by
    rw [hd.startBlock]
    rcases hb with hb | hquiet
    · rw [hb]
    · have hn : ¬ ∃ v ∈ vs, v.sets = true := fun ⟨v, hv, h⟩ => nomatch (hquiet v hv).symm.trans h
      rw [if_neg hn, if_neg hn]
  rw [← hstart, ← hd.announced] at hbecomes
  refine ⟨s', hs', Noted.idle hg hm htoken hd hcount (fun i => ?_) habout hbecomes⟩
  rw [hproposals]
  exact ⟨rfl, rfl⟩

/-- an event that says a new status -/
theorem noted_status {id : Nat} {p : Proposal} {v : DaoEvent} (hvs : vs = [v]) (hv : v.about = some id)
    (hset : SetsProposal w.dao w'.dao id p) (hid : id ≤ w.dao.proposalCount)
    (hk : Kept (w.dao.proposals id) p) (hballots : p.ballots = (w.dao.proposals id).ballots)
    (status : ProposalStatus) (eta : Option Nat → Option Nat)
    (hshow : ∀ st, DaoEvent.display id st v = (status, eta st.2))
    (hhandle : ∀ e : Event ChainEvent, ∃ s', handleDaoEvent s e v = some s' ∧
      s.Becomes s' (update s.proposals (s.proposal id).id (some { s.proposal id with
        status := status, executionETA := eta (s.proposal id).executionETA })) s.quorumParams) :
    ∃ s', read s es = some s' ∧ Noted n₀ b₀ w' s' := by
  subst hvs
  refine read_entry (fun e _ => ?_) hes
  obtain ⟨s', hs', hbecomes⟩ := hhandle e
  refine ⟨s', hs', Noted.save hg hm htoken hd rfl hv hset hid (y := { s.proposal id with
    status := status, executionETA := eta (s.proposal id).executionETA }) (hm.named id) rfl hbecomes
    fun _ k _ hfig => ?_⟩
  rw [hshow, ← hfig.shown]
  exact hfig.status hk hballots _ _

theorem noted_vote {voter : Address} {id support votes : Nat} {reason : String}
    (hvs : vs = [.voteCast voter id support votes reason])
    (hset : SetsProposal w.dao w'.dao id
      (Proposal.withVote (w.dao.proposals id) voter support votes))
    (hid : id ≤ w.dao.proposalCount) (hcount : Countable w'.dao) :
    ∃ s', read s es = some s' ∧ Noted n₀ b₀ w' s' := by
  subst hvs
  refine read_entry (fun e _ => ?_) hes
  by_cases h1 : n₀ < id
  · -- the votes can be counted, or the mapping traps
    obtain ⟨k, hk, hfound⟩ := hm.found h1 hid
    have hsupply : (Proposal.withVote (w.dao.proposals id) voter support votes).totalSupply
        = (w.dao.proposals id).totalSupply :=
      (withVote_kept _ _ _ _).congr (·.totalSupply) fun _ => rfl
    have hcounts : w.dao.dynamic id = true → (w.dao.proposals id).totalSupply ≠ 0 ∧
        Fits k.params (w.dao.proposals id).totalSupply
          (Proposal.withVote (w.dao.proposals id) voter support votes).againstVotes := by
      intro hdyn
      have h := hcount id (hset.proposalCount ▸ hid) k ((hd.quote hid).trans hk)
        ((hd.dynamic hg.sane h1 hid).trans hdyn) (by rw [hset.self]; exact voted_withVote _ _ _ _)
      rwa [hset.self, hsupply] at h
    obtain ⟨y, hy, hyid, hfig⟩ := hfound.vote w.dao.announced voter support votes hcounts
    rw [← hm.params] at hy
    refine Noted.cast hg hm htoken hd rfl hset hid e hy (hyid.trans (hm.named id)) ?_ fun _ k' hk' _ => ?_
    · have hkept := (withVote_kept (w.dao.proposals id) voter support votes).congr
        (·.creationBlock) fun _ => rfl
      exact (hfig.createdBlock.trans hkept).trans hfound.createdBlock.symm
    · rw [← Option.some.inj (hk.symm.trans hk')]
      exact hfig
  · -- an older proposal has no dynamic quorum
    have hcreated := hm.elder id (Nat.le_of_not_lt h1)
    have hcount := count_eq (s.proposal id) support votes
    refine Noted.cast hg hm htoken hd rfl hset hid e (withQuorum_fixed ?_) ?_ ?_ fun h => absurd h h1
    · rw [hm.params, hcount]
      show w.dao.startBlock.any (· < (s.proposal id).createdBlock) = false
      cases hs : w.dao.startBlock with
      | none => rfl
      | some n =>
        have := hg.startBlock_ge n hs
        exact decide_eq_false (by omega)
    · rw [hcount]
      exact hm.named id
    · rw [hcount]

theorem noted_propose {sender : Address} {targets : List Address} {values : List Nat}
    {signatures : List String} {calldatas : List Bytes} {description : String} {minQuorum : Nat}
    (h : w.dao.propose env sender w.token targets values signatures calldatas description
      = .ok w'.dao)
    (hvs : vs = (w.dao.newProposal env sender w.token targets values signatures calldatas).created
      minQuorum description) (hb : b.number = env.number) :
    ∃ s', read s es = some s' ∧ Noted n₀ b₀ w' s' := by
  have hlogs := hd.logs
  subst hvs
  obtain ⟨e1, fs, rfl, _, hp1, hfs⟩ := inBlock_cons hes
  obtain ⟨e, gs, rfl, he, hp, hgs⟩ := inBlock_cons hfs
  rw [List.map_eq_nil_iff.mp hgs]
  have hfirst : read s [e1] = some s := read_single hp1 rfl
  let pn := w.dao.newProposal env sender w.token targets values signatures calldatas
  have hbecomes := handleProposalCreatedWithRequirements_becomes (s := s) e pn.id sender targets
    values signatures calldatas pn.startBlock pn.endBlock pn.proposalThreshold minQuorum
  obtain ⟨s', hs'⟩ : ∃ s', s' = handleProposalCreatedWithRequirements s e pn.id sender targets values
    signatures calldatas pn.startBlock pn.endBlock pn.proposalThreshold minQuorum := ⟨_, rfl⟩
  have hread : read s [e] = some s' := hs' ▸ read_single hp rfl
  rw [← hs'] at hbecomes
  have hproposals := hbecomes.proposals
  rw [hm.named pn.id] at hproposals
  obtain ⟨hcount, hnew⟩ := propose_new h
  have hcps := (propose_rules h).checkpoints
  have hstart : w'.dao.startBlock = w.dao.startBlock := by
    unfold NounsDAOLogicV2.startBlock
    rw [hcps]
  refine ⟨s', (read_append hfirst).trans hread, hbecomes.books.keyed hm.keyed,
    named_update (x := s.created e pn.id _ _ _ _ _ _ _ _ _) hm.named hbecomes.proposals, ?_, ?_,
    fun i hi => ?_, fun i hi => ?_, fun i h1 h2 => ?_⟩
  · rw [hbecomes.books.books, hm.supply, htoken]
  · rw [hbecomes.params, hm.params, hstart, hd.announced]
    rfl
  · have hne : i ≠ pn.id := fun e => by
      have hi' : w.dao.proposalCount + 1 < pn.id := hcount ▸ e ▸ hi
      exact Nat.lt_irrefl _ hi'
    rw [hproposals, update_of_ne hne]
    exact hm.fresh i (by omega)
  · have hne : i ≠ pn.id := fun e => by
      have hi' : w.dao.proposalCount + 1 ≤ n₀ := show pn.id ≤ n₀ from e ▸ hi
      exact Nat.not_succ_le_self _ (hi'.trans hg.sane.count)
    rw [proposal_update hproposals, if_neg hne]
    exact hm.elder i hi
  · by_cases ei : i = w.dao.proposalCount + 1
    · subst ei
      refine ⟨⟨w.dao.announced, minQuorum⟩, _, propose_quote hg.listed hlogs,
        (congrFun hproposals _).trans (update_self _ _ _), ?_⟩
      have hdisplay : display w'.dao (w.dao.proposalCount + 1) = (.PENDING, none) := by
        rw [display_append hlogs]
        exact foldl_display_other (fun v hv e => absurd (hg.listed v hv _ e) (Nat.not_succ_le_self _)) _
      rw [hnew, hdisplay]
      exact figures_created hg hm ((congrArg Block.number he).trans hb) _ _ _ _ _ _ _
    · have hle : i ≤ w.dao.proposalCount := by omega
      obtain ⟨k, z, hk, hz, hfig⟩ := hm.entries i h1 hle
      refine ⟨k, z, (hd.quote hle).trans hk, ?_, ?_⟩
      · exact (congrFun hproposals i).trans ((update_of_ne ei _ _).trans hz)
      · rw [hd.dynamic hg.sane h1 hle, display_append hlogs, propose_other h ei]
        exact hfig

end

/-- **The entities keep up with a deed**, unless it is a vote that cannot be counted. -/
theorem Deed.noted {P : Platform} {n₀ b₀ : Nat} {env : Env} {w w' : World P} {s : Store}
    (hg : Ground n₀ b₀ env w) (hm : Noted n₀ b₀ w s) (htoken : w'.token = w.token) {x : Option Nat}
    {vs : List DaoEvent} (hd : Deed env w.token w.dao x vs w'.dao) (hcount : Countable w'.dao)
    {b : Block} (hb : b.number = env.number ∨
      (w'.dao.proposalCount = w.dao.proposalCount ∧ ∀ v ∈ vs, v.sets = false))
    {es : List (Event ChainEvent)} (hes : es.map Event.entry = inBlock b vs) :
    ∃ s', read s es = some s' ∧ Noted n₀ b₀ w' s' := by
  obtain ⟨t', tl', d'⟩ := w'
  have hd' := hd
  cases hd with
  | settings vs d' h hcps hlogs hquiet =>
    exact noted_settings hg hm htoken hd' hes h.proposalCount h.proposals
      (fun v hv => (hquiet v hv).about) (.inr fun v hv => (hquiet v hv).sets)
  | params old vs d' h hold hcps hbounds hlogs habout hsets =>
    exact noted_settings hg hm htoken hd' hes h.proposalCount h.proposals habout (hb.imp_right (·.2))
  | propose sender targets values signatures calldatas description minQuorum d' h =>
    refine noted_propose hg hm htoken hd' hes h rfl (hb.resolve_right fun hc => ?_)
    have h1 := (propose_new h).1
    have h2 : d'.proposalCount = w.dao.proposalCount := hc.1
    omega
  | vote voter id support votes balance reason d1 h =>
    obtain ⟨hstate, _, _, _, hs⟩ := castVoteInternal_ok h
    exact noted_vote hg hm htoken hd' hes rfl
      ⟨hs.proposals, hs.proposalCount, hs.quorumVotesBPS, hs.checkpoints⟩ (state_le hstate) hcount
  | queue id delay hstate =>
    exact noted_status hg hm htoken hd' hes rfl rfl ⟨rfl, rfl, rfl, rfl⟩ (state_le hstate) rfl rfl
      .QUEUED (fun _ => some (env.timestamp + delay)) (fun st => if_pos rfl)
      fun e => ⟨_, rfl, handleProposalQueued_becomes s id _⟩
  | cancel id st hstate hs =>
    exact noted_status hg hm htoken hd' hes rfl rfl ⟨rfl, rfl, rfl, rfl⟩ (state_le hstate) rfl rfl
      .CANCELLED (fun eta => eta) (fun st => if_pos rfl)
      fun e => ⟨_, rfl, handleProposalCanceled_becomes s id⟩
  | veto id st hstate hs =>
    exact noted_status hg hm htoken hd' hes rfl rfl ⟨rfl, rfl, rfl, rfl⟩ (state_le hstate) rfl rfl
      .VETOED (fun eta => eta) (fun st => if_pos rfl)
      fun e => ⟨_, rfl, handleProposalVetoed_becomes s id⟩
  | execute id hstate =>
    rw [List.map_eq_nil_iff.mp hes]
    have hpos : ∀ i, Kept (w.dao.proposals i) (update w.dao.proposals id
          { w.dao.proposals id with executed := true } i) ∧
        (update w.dao.proposals id { w.dao.proposals id with executed := true } i).ballots
          = (w.dao.proposals i).ballots := by
      intro i
      by_cases e : i = id
      · subst e
        rw [update_self]
        exact ⟨rfl, rfl⟩
      · rw [update_of_ne e]
        exact ⟨rfl, rfl⟩
    exact ⟨s, rfl, Noted.idle hg hm htoken hd' rfl hpos (by simp) (hm.params ▸ .refl s)⟩
  | executed id hid hex =>
    exact noted_status hg hm htoken hd' hes rfl rfl
      ⟨(update_eq_self id w.dao.proposals).symm, rfl, rfl, rfl⟩ hid rfl rfl
      .EXECUTED (fun _ => none) (fun st => if_pos rfl)
      fun e => ⟨_, rfl, handleProposalExecuted_becomes s id⟩

end UNouns.Subgraph
