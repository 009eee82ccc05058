import UNouns.Evm.Basic
import UNouns.Lib.Checkpoints

/-!
# The storage of the DAO (NounsDAOStorageV2)

With the events emitted so far and the ether held.  The contracts at `timelock` and `nouns` are the
ones the world holds next to the DAO.
-/

namespace UNouns
open Checkpoints

/-- whether, how and with how many votes an account has voted -/
structure Receipt where
  hasVoted : Bool
  support : Nat
  votes : Nat
  deriving DecidableEq, Repr

structure Proposal where
  id : Nat
  proposer : Address
  proposalThreshold : Nat
  quorumVotes : Nat
  eta : Nat
  targets : List Address
  values : List Nat
  signatures : List String
  calldatas : List Bytes
  startBlock : Nat
  endBlock : Nat
  forVotes : Nat
  againstVotes : Nat
  abstainVotes : Nat
  canceled : Bool
  vetoed : Bool
  executed : Bool
  receipts : Address → Receipt
  totalSupply : Nat
  creationBlock : Nat

inductive ProposalState where
  | pending
  | active
  | canceled
  | defeated
  | succeeded
  | queued
  | expired
  | executed
  | vetoed
  deriving DecidableEq, Repr

structure DynamicQuorumParams where
  minQuorumVotesBPS : UInt16
  maxQuorumVotesBPS : UInt16
  quorumCoefficient : UInt32
  deriving DecidableEq, Repr

inductive DaoEvent where
  | proposalCreated (id : Nat) (proposer : Address) (targets : List Address) (values : List Nat)
      (signatures : List String) (calldatas : List Bytes) (startBlock endBlock : Nat)
      (description : String)
  | proposalCreatedWithRequirements (id : Nat) (proposer : Address) (targets : List Address)
      (values : List Nat) (signatures : List String) (calldatas : List Bytes)
      (startBlock endBlock proposalThreshold quorumVotes : Nat) (description : String)
  | voteCast (voter : Address) (proposalId support votes : Nat) (reason : String)
  | proposalCanceled (id : Nat)
  | proposalQueued (id eta : Nat)
  | proposalExecuted (id : Nat)
  | proposalVetoed (id : Nat)
  | votingDelaySet (oldVotingDelay newVotingDelay : Nat)
  | votingPeriodSet (oldVotingPeriod newVotingPeriod : Nat)
  | proposalThresholdBPSSet (oldProposalThresholdBPS newProposalThresholdBPS : Nat)
  | newPendingAdmin (oldPendingAdmin newPendingAdmin : Address)
  | newAdmin (oldAdmin newAdmin : Address)
  | newVetoer (oldVetoer newVetoer : Address)
  | newPendingVetoer (oldPendingVetoer newPendingVetoer : Address)
  | minQuorumVotesBPSSet (oldMinQuorumVotesBPS newMinQuorumVotesBPS : UInt16)
  | maxQuorumVotesBPSSet (oldMaxQuorumVotesBPS newMaxQuorumVotesBPS : UInt16)
  | quorumCoefficientSet (oldQuorumCoefficient newQuorumCoefficient : UInt32)
  | refundableVote (voter : Address) (refundAmount : Nat) (refundSent : Bool)
  | withdraw (amount : Nat) (sent : Bool)

structure NounsDAOLogicV2 where
  admin : Address
  pendingAdmin : Address
  vetoer : Address
  pendingVetoer : Address
  votingDelay : Nat
  votingPeriod : Nat
  proposalThresholdBPS : Nat
  quorumVotesBPS : Nat
  proposalCount : Nat
  timelock : Address
  nouns : Address
  /-- the internal mapping `_proposals` -/
  proposals : Nat → Proposal
  latestProposalIds : Address → Nat
  quorumParamsCheckpoints : List (Checkpoint DynamicQuorumParams)
  balance : Nat
  logs : List DaoEvent

def Receipt.none : Receipt := ⟨false, 0, 0⟩

/-- what a mapping holds at an id that was never proposed -/
def Proposal.empty : Proposal where
  id := 0
  proposer := 0
  proposalThreshold := 0
  quorumVotes := 0
  eta := 0
  targets := []
  values := []
  signatures := []
  calldatas := []
  startBlock := 0
  endBlock := 0
  forVotes := 0
  againstVotes := 0
  abstainVotes := 0
  canceled := false
  vetoed := false
  executed := false
  receipts := fun _ => .none
  totalSupply := 0
  creationBlock := 0

namespace Proposal

/-- the action at position `i`, with the bounds checks of the four arrays -/
def action (p : Proposal) (eta i : Nat) : Result Transaction :=
  match p.targets[i]?, p.values[i]?, p.signatures[i]?, p.calldatas[i]? with
  | some target, some value, some signature, some data => .ok ⟨target, value, signature, data, eta⟩
  | _, _, _, _ => .error (.panic 0x32)

/-- the positions the loops over the actions run through; nothing changes the actions of a proposal
once it is there, so their number is read once -/
def indices (p : Proposal) : List Nat := List.range p.targets.length

end Proposal

namespace NounsDAOLogicV2

def emit (d : NounsDAOLogicV2) (e : DaoEvent) : NounsDAOLogicV2 := { d with logs := d.logs ++ [e] }

/-- before `initialize`: nothing but an admin -/
def blank (admin : Address) : NounsDAOLogicV2 where
  admin := admin
  pendingAdmin := 0
  vetoer := 0
  pendingVetoer := 0
  votingDelay := 0
  votingPeriod := 0
  proposalThresholdBPS := 0
  quorumVotesBPS := 0
  proposalCount := 0
  timelock := 0
  nouns := 0
  proposals := fun _ => .empty
  latestProposalIds := fun _ => 0
  quorumParamsCheckpoints := []
  balance := 0
  logs := []

end NounsDAOLogicV2
end UNouns
