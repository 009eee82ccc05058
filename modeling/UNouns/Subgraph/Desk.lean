import UNouns.Subgraph.Books
import UNouns.Subgraph.Dao
import UNouns.Governance.Quorum

/-!
# What the events do to proposals and quorum parameters

The counterpart of `Subgraph.Books` for the DAO: each handler of the DAO leaves the books alone, and
the token leaves proposals and quorum parameters alone.

* `Store.Becomes`          the proposals and parameters after an event, the books being the same;
* `handleDaoEvent_params`  events about no proposal;
* `dynamicQuorumVotes_eq`  the quorum of the mapping is that of the contract;
* `handleTokenEvent_desk`  the events of the token.
-/

set_option linter.unusedVariables false

namespace UNouns.Subgraph
open Function

/-- a proposal that has not been made yet is blank -/
def Store.proposal (s : Store) (id : Nat) : ProposalEntity := (s.proposals id).getD (.new id)

theorem Store.proposal_of_same {s s' : Store} (h : s'.proposals = s.proposals) :
    s'.proposal = s.proposal := by
  unfold Store.proposal
  rw [h]

/-- and so are the parameters before the first event -/
def Store.quorumParams (s : Store) : DynamicQuorumParams :=
  s.dynamicQuorumParams.getD ⟨0, 0, 0, none⟩

/-- other proposals and parameters, the same books -/
structure Store.Becomes (s s' : Store) (proposals : Nat → Option ProposalEntity)
    (params : DynamicQuorumParams) : Prop where
  books : s.SameBooks s'
  proposals : s'.proposals = proposals
  params : s'.quorumParams = params

theorem Store.Becomes.refl (s : Store) : s.Becomes s s.proposals s.quorumParams :=
  ⟨.refl s, rfl, rfl⟩

theorem Store.Becomes.trans {s s' s'' : Store} {ps ps' : Nat → Option ProposalEntity}
    {q q' : DynamicQuorumParams} (h1 : s.Becomes s' ps q) (h2 : s'.Becomes s'' ps' q') :
    s.Becomes s'' ps' q' := ⟨h1.books.trans h2.books, h2.proposals, h2.params⟩

/-! ## helpers -/

theorem Store.getOrCreateProposal_fst (s : Store) (id : Nat) :
    (s.getOrCreateProposal id).1 = s.proposal id := by
  unfold Store.getOrCreateProposal Store.proposal
  cases s.proposals id <;> rfl

theorem Store.getOrCreateProposal_becomes (s : Store) (id : Nat) :
    s.Becomes (s.getOrCreateProposal id).2 s.proposals s.quorumParams := by
  unfold Store.getOrCreateProposal
  cases s.proposals id with
  | some p => exact .refl s
  | none => exact ⟨⟨rfl, rfl, rfl, rfl⟩, rfl, rfl⟩

theorem Store.getOrCreateDelegate_becomes (s : Store) (id : Address) :
    s.Becomes (s.getOrCreateDelegate id).2 s.proposals s.quorumParams := by
  have h : (s.getOrCreateDelegate id).2.proposals = s.proposals ∧
      (s.getOrCreateDelegate id).2.dynamicQuorumParams = s.dynamicQuorumParams := by
    unfold Store.getOrCreateDelegate
    cases s.delegates id with
    | some d => exact ⟨rfl, rfl⟩
    | none =>
      by_cases h : id ≠ 0
      · simp only [if_pos h]
        exact ⟨rfl, rfl⟩
      · simp only [if_neg h]
        exact ⟨rfl, rfl⟩
  exact ⟨s.getOrCreateDelegate_same id, h.1, congrArg (·.getD ⟨0, 0, 0, none⟩) h.2⟩

/-- the parameters get the block they begin in, if they have none -/
theorem Store.getOrCreateDynamicQuorumParams_becomes (s : Store) (block : Option Nat) :
    (s.getOrCreateDynamicQuorumParams block).1 = { s.quorumParams with
      dynamicQuorumStartBlock := s.quorumParams.dynamicQuorumStartBlock.or block } ∧
    s.Becomes (s.getOrCreateDynamicQuorumParams block).2 s.proposals
      (s.getOrCreateDynamicQuorumParams block).1 := by
  unfold Store.getOrCreateDynamicQuorumParams Store.quorumParams
  cases hs : s.dynamicQuorumParams with
  | none =>
    have hn : ¬ (block = none ∧ block ≠ none) := fun h => h.2 h.1
    simp only [if_neg hn]
    exact ⟨rfl, ⟨rfl, rfl, rfl, rfl⟩, rfl, rfl⟩
  | some q =>
    obtain ⟨a, b, c, start⟩ := q
    have hsame : s.Becomes s s.proposals ⟨a, b, c, start⟩ :=
      ⟨.refl s, rfl, by unfold Store.quorumParams; rw [hs]; rfl⟩
    cases start with
    | some n =>
      simp only [if_neg (show ¬ (some n = none ∧ block ≠ none) from fun h => nomatch h.1)]
      exact ⟨rfl, hsame⟩
    | none =>
      cases block with
      | none =>
        exact ⟨rfl, hsame⟩
      | some n => exact ⟨rfl, ⟨rfl, rfl, rfl, rfl⟩, rfl, rfl⟩

/-- without a block they are only loaded -/
theorem Store.getOrCreateDynamicQuorumParams_load (s : Store) :
    (s.getOrCreateDynamicQuorumParams none).1 = s.quorumParams ∧
      s.Becomes (s.getOrCreateDynamicQuorumParams none).2 s.proposals s.quorumParams := by
  obtain ⟨h1, h2⟩ := s.getOrCreateDynamicQuorumParams_becomes none
  rw [Option.or_none] at h1
  rw [h1] at h2
  exact ⟨h1, h2⟩

theorem Store.saveProposal_becomes (s : Store) (p : ProposalEntity) :
    s.Becomes (s.saveProposal p) (update s.proposals p.id (some p)) s.quorumParams :=
  ⟨⟨rfl, rfl, rfl, rfl⟩, rfl, rfl⟩

/-- saving a proposal after loading it -/
theorem Store.save_becomes (s : Store) (id : Nat) (p : ProposalEntity) :
    s.Becomes ((s.getOrCreateProposal id).2.saveProposal p) (update s.proposals p.id (some p))
      s.quorumParams := by
  have h := s.getOrCreateProposal_becomes id
  have h2 := h.trans ((s.getOrCreateProposal id).2.saveProposal_becomes p)
  rwa [h.proposals, h.params] at h2

/-! ## the events of a proposal -/

theorem handleProposalCanceled_becomes (s : Store) (id : Nat) :
    s.Becomes (handleProposalCanceled s id)
      (update s.proposals (s.proposal id).id (some { s.proposal id with status := .CANCELLED }))
      s.quorumParams := by
  have h := s.save_becomes id { s.proposal id with status := .CANCELLED }
  rwa [← s.getOrCreateProposal_fst id] at h ⊢

theorem handleProposalVetoed_becomes (s : Store) (id : Nat) :
    s.Becomes (handleProposalVetoed s id)
      (update s.proposals (s.proposal id).id (some { s.proposal id with status := .VETOED }))
      s.quorumParams := by
  have h := s.save_becomes id { s.proposal id with status := .VETOED }
  rwa [← s.getOrCreateProposal_fst id] at h ⊢

/-- the governance entity that was loaded before a proposal is saved after it -/
theorem Store.save_governance_becomes (s : Store) (id : Nat) (p : ProposalEntity) (n : Int) :
    s.Becomes (((s.getOrCreateProposal id).2.saveProposal p).saveGovernance
        { s.getGovernanceEntity with proposalsQueued := n })
      (update s.proposals p.id (some p)) s.quorumParams := by
  have h := s.save_becomes id p
  exact ⟨⟨h.books.accounts, h.books.nouns, rfl, rfl⟩, h.proposals, h.params⟩

theorem handleProposalQueued_becomes (s : Store) (id eta : Nat) :
    s.Becomes (handleProposalQueued s id eta) (update s.proposals (s.proposal id).id
        (some { s.proposal id with status := .QUEUED, executionETA := some eta }))
      s.quorumParams := by
  have h := s.save_governance_becomes id
    { s.proposal id with status := .QUEUED, executionETA := some eta }
    (s.getGovernanceEntity.proposalsQueued + 1)
  rwa [← s.getOrCreateProposal_fst id] at h ⊢

theorem handleProposalExecuted_becomes (s : Store) (id : Nat) :
    s.Becomes (handleProposalExecuted s id) (update s.proposals (s.proposal id).id
        (some { s.proposal id with status := .EXECUTED, executionETA := none }))
      s.quorumParams := by
  have h := s.save_governance_becomes id
    { s.proposal id with status := .EXECUTED, executionETA := none }
    (s.getGovernanceEntity.proposalsQueued - 1)
  rwa [← s.getOrCreateProposal_fst id] at h ⊢

section
variable {V : Type} {s : Store}

/-- the entity of a new proposal -/
def Store.created (s : Store) (e : Event V) (id : Nat) (proposer : Address)
    (targets : List Address) (values : List Nat) (signatures : List String) (calldatas : List Bytes)
    (startBlock endBlock proposalThreshold quorumVotes : Nat) : ProposalEntity :=
  { s.proposal id with
    proposer := (((s.getOrCreateProposal id).2).getOrCreateDelegate proposer).1.id
    targets := targets
    values := values
    signatures := signatures
    calldatas := calldatas
    createdTimestamp := e.block.timestamp
    createdBlock := e.block.number
    createdTransactionHash := e.transactionHash
    startBlock := startBlock
    endBlock := endBlock
    proposalThreshold := proposalThreshold
    quorumVotes := quorumVotes
    forVotes := 0
    againstVotes := 0
    abstainVotes := 0
    status := if startBlock ≤ e.block.number then .ACTIVE else .PENDING
    totalSupply := s.books.supply
    minQuorumVotesBPS := s.quorumParams.minQuorumVotesBPS
    maxQuorumVotesBPS := s.quorumParams.maxQuorumVotesBPS
    quorumCoefficient := s.quorumParams.quorumCoefficient }

theorem handleProposalCreatedWithRequirements_becomes (e : Event V) (id : Nat) (proposer : Address)
    (targets : List Address) (values : List Nat) (signatures : List String) (calldatas : List Bytes)
    (startBlock endBlock proposalThreshold quorumVotes : Nat) :
    s.Becomes (handleProposalCreatedWithRequirements s e id proposer targets values signatures
        calldatas startBlock endBlock proposalThreshold quorumVotes)
      (update s.proposals (s.proposal id).id (some (s.created e id proposer targets values signatures
        calldatas startBlock endBlock proposalThreshold quorumVotes))) s.quorumParams := by
  have h1 := s.getOrCreateProposal_becomes id
  have h2 := h1.trans ((s.getOrCreateProposal id).2.getOrCreateDelegate_becomes proposer)
  rw [h1.proposals, h1.params] at h2
  unfold handleProposalCreatedWithRequirements
  obtain ⟨hq, hload⟩ := Store.getOrCreateDynamicQuorumParams_load
    ((s.getOrCreateProposal id).2.getOrCreateDelegate proposer).2
  simp only [hq]
  rw [h2.params] at hload ⊢
  have h3 := (h2.trans hload).trans (Store.saveProposal_becomes _ (s.created e id proposer targets
    values signatures calldatas startBlock endBlock proposalThreshold quorumVotes))
  rw [hload.proposals, hload.params, h2.proposals] at h3
  have hs : s.books.supply = (((s.getOrCreateProposal id).2).getOrCreateDelegate
      proposer).2.getGovernanceEntity.totalTokenHolders := h2.books.supply.symm
  unfold Store.created at h3
  rw [hs, ← s.getOrCreateProposal_fst id] at h3
  unfold Store.created
  rw [hs, ← s.getOrCreateProposal_fst id]
  exact h3

theorem handleVoteCast_becomes (e : Event V) (voter : Address) (id support votes : Nat)
    (reason : String) {x : ProposalEntity}
    (hx : ((s.proposal id).count support votes).withQuorum s.quorumParams = some x) :
    ∃ s', handleVoteCast s e voter id support votes reason = some s' ∧
      s.Becomes s' (update s.proposals x.id (some { x with
        status := if x.status = .PENDING then .ACTIVE else x.status })) s.quorumParams := by
  have h1 := s.getOrCreateProposal_becomes id
  have h2 := h1.trans ((s.getOrCreateProposal id).2.getOrCreateDelegate_becomes voter)
  rw [h1.proposals, h1.params] at h2
  unfold handleVoteCast
  simp only [s.getOrCreateProposal_fst id]
  generalize hv : Vote.mk _ _ _ _ _ _ _ _ _ _ = vote
  have h3 : s.Becomes (((s.getOrCreateProposal id).2.getOrCreateDelegate voter).2.saveVote vote)
      s.proposals s.quorumParams :=
    ⟨⟨h2.books.accounts, h2.books.nouns, h2.books.holders, h2.books.supply⟩, h2.proposals, h2.params⟩
  obtain ⟨hq, hload⟩ := Store.getOrCreateDynamicQuorumParams_load
    (((s.getOrCreateProposal id).2.getOrCreateDelegate voter).2.saveVote vote)
  rw [hq, h3.params]
  simp only [hx]
  refine ⟨_, rfl, ?_⟩
  have h4 := (h3.trans hload).trans (Store.saveProposal_becomes _ { x with
    status := if x.status = .PENDING then .ACTIVE else x.status })
  rwa [hload.proposals, hload.params, h3.proposals, h3.params] at h4

end

/-! ## events about no proposal -/

/-- the parameters of the contract as the entity has them, with the block in which the first was set -/
def paramsEntity (p : UNouns.DynamicQuorumParams) (start : Option Nat) : DynamicQuorumParams :=
  ⟨p.minQuorumVotesBPS.toNat, p.maxQuorumVotesBPS.toNat, p.quorumCoefficient.toNat, start⟩

theorem handleDaoEvent_params {V : Type} {s : Store} {p : UNouns.DynamicQuorumParams}
    {start : Option Nat} (hq : s.quorumParams = paramsEntity p start) (e : Event V) {v : DaoEvent}
    (hv : v.about = none) :
    ∃ s', handleDaoEvent s e v = some s' ∧ s.Becomes s' s.proposals (paramsEntity (p.set v)
      (if v.sets then some (start.getD e.block.number) else start)) := by
  have hsame : s.Becomes s s.proposals (paramsEntity p start) := ⟨.refl s, rfl, hq⟩
  obtain ⟨hget, hload⟩ := s.getOrCreateDynamicQuorumParams_becomes (some e.block.number)
  rw [hq, Option.or_some] at hget
  cases v with
  | minQuorumVotesBPSSet a n =>
    refine ⟨_, rfl, ⟨hload.books.accounts, hload.books.nouns, hload.books.holders, hload.books.supply⟩,
      hload.proposals, ?_⟩
    exact congrArg (fun q => { q with minQuorumVotesBPS := n.toNat }) hget
  | maxQuorumVotesBPSSet a n =>
    refine ⟨_, rfl, ⟨hload.books.accounts, hload.books.nouns, hload.books.holders, hload.books.supply⟩,
      hload.proposals, ?_⟩
    exact congrArg (fun q => { q with maxQuorumVotesBPS := n.toNat }) hget
  | quorumCoefficientSet a n =>
    refine ⟨_, rfl, ⟨hload.books.accounts, hload.books.nouns, hload.books.holders, hload.books.supply⟩,
      hload.proposals, ?_⟩
    exact congrArg (fun q => { q with quorumCoefficient := n.toNat }) hget
  | proposalCreated | proposalCreatedWithRequirements | voteCast | proposalCanceled | proposalQueued
  | proposalExecuted | proposalVetoed => cases hv
  | _ => exact ⟨s, rfl, hsame⟩

/-! ## the quorum -/

/-- the votes do not overflow the mapping -/
def Fits (p : UNouns.DynamicQuorumParams) (supply against : Nat) : Prop :=
  p.quorumCoefficient.toNat * (10000 * against / supply) / 1000000 + p.minQuorumVotesBPS.toNat < 2^31

instance (p : UNouns.DynamicQuorumParams) (supply against : Nat) : Decidable (Fits p supply against) :=
  inferInstanceAs (Decidable (_ < _))

theorem divBigInt_natCast (a : Nat) {b : Nat} (hb : b ≠ 0) :
    divBigInt a b = some ((a / b : Nat) : Int) := by
  have hb' : ¬ (b : Int) = 0 := by omega
  rw [divBigInt, if_neg hb']
  rfl

theorem toI32_natCast {n : Nat} (h : n < 2^31) : toI32 n = some (n : Int) := by
  have h' : -2^31 ≤ (n : Int) ∧ (n : Int) < 2^31 := by omega
  exact if_pos h'

theorem toI32_none {n : Nat} (h : ¬ n < 2^31) : toI32 n = none := by
  have h' : ¬ (-2^31 ≤ (n : Int) ∧ (n : Int) < 2^31) := by omega
  exact if_neg h'

/-- the share of the votes against, and what it adds, are worked out alike -/
theorem quorumAdjustmentBPS_eq (p : UNouns.DynamicQuorumParams) {supply : Nat} (against : Nat)
    (hs : supply ≠ 0) :
    divBigInt ((against : Int) * 10000) supply = some ((10000 * against / supply : Nat) : Int) ∧
      divBigInt ((p.quorumCoefficient.toNat : Int) * (10000 * against / supply : Nat)) 1000000
        = some ((p.quorumCoefficient.toNat * (10000 * against / supply) / 1000000 : Nat) : Int) := by
  constructor
  · rw [← divBigInt_natCast _ hs, Nat.cast_mul, mul_comm]
    rfl
  · rw [← divBigInt_natCast _ (by decide), Nat.cast_mul]
    rfl

theorem dynamicQuorumVotes_some {against supply minBPS maxBPS coefficient x y z : Int}
    (h1 : divBigInt (against * 10000) supply = some x)
    (h2 : divBigInt (coefficient * x) 1000000 = some y) (h3 : toI32 (y + minBPS) = some z) :
    dynamicQuorumVotes against supply minBPS maxBPS coefficient
      = divBigInt (supply * min maxBPS z) 10000 := by
  unfold dynamicQuorumVotes
  simp only [h1, h2, h3, Option.bind_eq_bind, Option.bind_some]

/-- **The quorum of the mapping is that of the contract.** -/
theorem dynamicQuorumVotes_eq {p : UNouns.DynamicQuorumParams} {supply against : Nat}
    (hs : supply ≠ 0) (hf : Fits p supply against) :
    dynamicQuorumVotes against supply p.minQuorumVotesBPS.toNat p.maxQuorumVotesBPS.toNat
      p.quorumCoefficient.toNat = some (quorumOf p supply against : Int) := by
  have hmin : ∀ a b : Nat, min (a : Int) (b : Int) = ((min a b : Nat) : Int) := by
    intro a b
    omega
  obtain ⟨h1, h2⟩ := quorumAdjustmentBPS_eq p against hs
  have h3 := toI32_natCast hf
  rw [Nat.cast_add] at h3
  rw [dynamicQuorumVotes_some h1 h2 h3, ← Nat.cast_add, hmin, ← Nat.cast_mul, Nat.add_comm]
  exact divBigInt_natCast _ (by decide)

/-! ## the token -/

/-- what leaves proposals, parameters and recorded votes alone -/
structure Store.SameDesk (s s' : Store) : Prop where
  proposals : s'.proposals = s.proposals
  params : s'.dynamicQuorumParams = s.dynamicQuorumParams
  votes : s'.votes = s.votes

theorem Store.SameDesk.quorumParams {s s' : Store} (h : s.SameDesk s') :
    s'.quorumParams = s.quorumParams := congrArg (·.getD ⟨0, 0, 0, none⟩) h.params

theorem Store.SameFiles.desk {s s' : Store} (h : s.SameFiles s') : s.SameDesk s' :=
  ⟨h.proposals, h.params, h.votes⟩

theorem Store.SameDesk.trans {s s' s'' : Store} (h1 : s.SameDesk s') (h2 : s'.SameDesk s'') :
    s.SameDesk s'' :=
  ⟨h2.proposals.trans h1.proposals, h2.params.trans h1.params, h2.votes.trans h1.votes⟩

theorem handleTransfer_desk {V : Type} (s : Store) (e : Event V) (src dst : Address) (id : Nat) :
    s.SameDesk (handleTransfer s e src dst id) := by
  have hsave : ∀ (s : Store) (x : TransferEvent), s.SameDesk (s.saveTransferEvent x) :=
    fun _ _ => ⟨rfl, rfl, rfl⟩
  have hload := (s.getOrCreateAccount_files src).trans (Store.getOrCreateAccount_files _ dst)
  unfold handleTransfer
  refine Store.SameDesk.trans ?_ (transferToHolder_files _ _ _ _ _).desk
  refine Store.SameDesk.trans ?_ (transferFromHolder_files _ _ _ _ _).desk
  exact hload.desk.trans (hsave _ _)

/-- the events of the token leave proposals, parameters and recorded votes alone -/
theorem handleTokenEvent_desk {V : Type} (s : Store) (e : Event V) (v : TokenEvent) :
    s.SameDesk (handleTokenEvent s e v) := by
  cases v with
  | transfer src dst id => exact handleTransfer_desk s e src dst id
  | delegateChanged a b c => exact (handleDelegateChanged_files s e a b c).desk
  | delegateVotesChanged a n m => exact (s.getOrCreateDelegate_files a).desk.trans ⟨rfl, rfl, rfl⟩
  | nounCreated id seed => exact (handleNounCreated_files s e id seed).desk
  | _ => exact ⟨rfl, rfl, rfl⟩

end UNouns.Subgraph
