import Mathlib.Algebra.Group.Int.Defs
import UNouns.Subgraph.Token
import UNouns.Governance.Storage

/-!
# The mapping of the DAO

One definition for each handler of `nouns-dao.ts`, `handleDaoEvent` for the events that the subgraph
subscribes to, and `handleChainEvent` for those of the token and the DAO together.  `none` is a mapping
that traps.  The messages of `log.error` change nothing and are left out.
-/

set_option linter.unusedVariables false

namespace UNouns.Subgraph
open Function

/-! ## the dynamic quorum -/

/-- `toI32` traps on what does not fit -/
def toI32 (n : Int) : Option Int := if -2^31 ≤ n ∧ n < 2^31 then some n else none

/-- `div` of big integers, towards zero -/
def divBigInt (a b : Int) : Option Int := if b = 0 then none else some (a.tdiv b)

def dynamicQuorumVotes (againstVotes totalSupply minQuorumVotesBPS maxQuorumVotesBPS
    quorumCoefficient : Int) : Option Int := do
  let againstVotesBPS ← divBigInt (againstVotes * 10000) totalSupply
  let quorumAdjustmentBPS ← divBigInt (quorumCoefficient * againstVotesBPS) 1000000
  let adjustedQuorumBPS := quorumAdjustmentBPS + minQuorumVotesBPS
  let quorumBPS := min maxQuorumVotesBPS (← toI32 adjustedQuorumBPS)
  divBigInt (totalSupply * quorumBPS) 10000

/-! ## handlers -/

section
variable {V : Type}

def handleProposalCreatedWithRequirements (s : Store) (e : Event V) (id : Nat) (proposer : Address)
    (targets : List Address) (values : List Nat) (signatures : List String) (calldatas : List Bytes)
    (startBlock endBlock proposalThreshold quorumVotes : Nat) : Store :=
  let r := s.getOrCreateProposal id
  let proposal := r.1
  let r := r.2.getOrCreateDelegate proposer
  let proposer := r.1
  let governance := r.2.getGovernanceEntity
  let q := r.2.getOrCreateDynamicQuorumParams none
  let dynamicQuorum := q.1
  q.2.saveProposal { proposal with
    proposer := proposer.id
    targets := targets
    values := values
    signatures := signatures
    calldatas := calldatas
    createdTimestamp := e.block.timestamp
    createdBlock := e.block.number
    createdTransactionHash := e.transactionHash
    startBlock := startBlock
    endBlock := endBlock
    proposalThreshold := proposalThreshold
    quorumVotes := quorumVotes
    forVotes := 0
    againstVotes := 0
    abstainVotes := 0
    status := if startBlock ≤ e.block.number then .ACTIVE else .PENDING
    totalSupply := governance.totalTokenHolders
    minQuorumVotesBPS := dynamicQuorum.minQuorumVotesBPS
    maxQuorumVotesBPS := dynamicQuorum.maxQuorumVotesBPS
    quorumCoefficient := dynamicQuorum.quorumCoefficient }

def handleProposalCanceled (s : Store) (id : Nat) : Store :=
  let r := s.getOrCreateProposal id
  r.2.saveProposal { r.1 with status := .CANCELLED }

def handleProposalVetoed (s : Store) (id : Nat) : Store :=
  let r := s.getOrCreateProposal id
  r.2.saveProposal { r.1 with status := .VETOED }

/-- the governance entity is loaded first and saved last -/
def handleProposalQueued (s : Store) (id eta : Nat) : Store :=
  let governance := s.getGovernanceEntity
  let r := s.getOrCreateProposal id
  let s := r.2.saveProposal { r.1 with status := .QUEUED, executionETA := some eta }
  s.saveGovernance { governance with proposalsQueued := governance.proposalsQueued + 1 }

def handleProposalExecuted (s : Store) (id : Nat) : Store :=
  let governance := s.getGovernanceEntity
  let r := s.getOrCreateProposal id
  let s := r.2.saveProposal { r.1 with status := .EXECUTED, executionETA := none }
  s.saveGovernance { governance with proposalsQueued := governance.proposalsQueued - 1 }

/-- the votes of one side -/
def ProposalEntity.count (proposal : ProposalEntity) (support votes : Nat) : ProposalEntity :=
  if support = 0 then { proposal with againstVotes := proposal.againstVotes + votes }
  else if support = 1 then { proposal with forVotes := proposal.forVotes + votes }
  else if support = 2 then { proposal with abstainVotes := proposal.abstainVotes + votes }
  else proposal

/-- the quorum is brought up to date if the proposal was created after the dynamic quorum began -/
def ProposalEntity.withQuorum (proposal : ProposalEntity) (dqParams : DynamicQuorumParams) :
    Option ProposalEntity :=
  let usingDynamicQuorum := dqParams.dynamicQuorumStartBlock.any (· < proposal.createdBlock)
  if usingDynamicQuorum then do
    let quorumVotes ← dynamicQuorumVotes proposal.againstVotes proposal.totalSupply
      proposal.minQuorumVotesBPS proposal.maxQuorumVotesBPS proposal.quorumCoefficient
    some { proposal with quorumVotes := quorumVotes }
  else some proposal

def handleVoteCast (s : Store) (e : Event V) (voter : Address) (proposalId support votes : Nat)
    (reason : String) : Option Store := do
  let r := s.getOrCreateProposal proposalId
  let proposal := r.1
  let vote := r.2.getOrCreateVote (voter, proposalId)
  let r := r.2.getOrCreateDelegate voter
  let voter := r.1
  let s := r.2.saveVote { vote with
    proposal := proposal.id
    voter := voter.id
    votesRaw := votes
    votes := votes
    support := support = 1
    supportDetailed := support
    nouns := voter.nounsRepresented
    blockNumber := e.block.number
    reason := if reason ≠ "" then some reason else vote.reason }
  let q := s.getOrCreateDynamicQuorumParams none
  let proposal ← (proposal.count support votes).withQuorum q.1
  some (q.2.saveProposal { proposal with
    status := if proposal.status = .PENDING then .ACTIVE else proposal.status })

def handleMinQuorumVotesBPSSet (s : Store) (e : Event V) (newMinQuorumVotesBPS : UInt16) : Store :=
  let r := s.getOrCreateDynamicQuorumParams (some e.block.number)
  r.2.saveDynamicQuorumParams { r.1 with minQuorumVotesBPS := newMinQuorumVotesBPS.toNat }

def handleMaxQuorumVotesBPSSet (s : Store) (e : Event V) (newMaxQuorumVotesBPS : UInt16) : Store :=
  let r := s.getOrCreateDynamicQuorumParams (some e.block.number)
  r.2.saveDynamicQuorumParams { r.1 with maxQuorumVotesBPS := newMaxQuorumVotesBPS.toNat }

def handleQuorumCoefficientSet (s : Store) (e : Event V) (newQuorumCoefficient : UInt32) : Store :=
  let r := s.getOrCreateDynamicQuorumParams (some e.block.number)
  r.2.saveDynamicQuorumParams { r.1 with quorumCoefficient := newQuorumCoefficient.toNat }

end

/-! ## all events -/

section
variable {V : Type}

/-- the events of the DAO that the subgraph subscribes to -/
def handleDaoEvent (s : Store) (e : Event V) : DaoEvent → Option Store
  | .proposalCreatedWithRequirements id proposer targets values signatures calldatas startBlock endBlock
      proposalThreshold quorumVotes description =>
    some (handleProposalCreatedWithRequirements s e id proposer targets values signatures calldatas
      startBlock endBlock proposalThreshold quorumVotes)
  | .proposalCanceled id => some (handleProposalCanceled s id)
  | .proposalVetoed id => some (handleProposalVetoed s id)
  | .proposalQueued id eta => some (handleProposalQueued s id eta)
  | .proposalExecuted id => some (handleProposalExecuted s id)
  | .voteCast voter proposalId support votes reason =>
    handleVoteCast s e voter proposalId support votes reason
  | .minQuorumVotesBPSSet _ n => some (handleMinQuorumVotesBPSSet s e n)
  | .maxQuorumVotesBPSSet _ n => some (handleMaxQuorumVotesBPSSet s e n)
  | .quorumCoefficientSet _ n => some (handleQuorumCoefficientSet s e n)
  | _ => some s

end

/-- the events of the two contracts -/
inductive ChainEvent where
  | token (v : TokenEvent)
  | dao (v : DaoEvent)

def handleChainEvent (s : Store) (e : Event ChainEvent) : Option Store :=
  match e.params with
  | .token v => some (handleTokenEvent s e v)
  | .dao v => handleDaoEvent s e v

end UNouns.Subgraph
