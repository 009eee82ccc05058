import UNouns.Token.Storage

/-!
# The store of the subgraph

The entities, and the helpers that load them or make them.  An entity that has been loaded is a copy
until it is saved.  Ids that the mappings write as hex or decimal strings are the addresses, numbers
and hashes themselves.
-/

namespace UNouns.Subgraph
open Function

structure Block where
  number : Nat
  timestamp : Nat
  deriving DecidableEq, Repr

/-- an event as a mapping gets it -/
structure Event (V : Type) where
  params : V
  block : Block
  transactionHash : BitVec 256

/-! ## entities -/

structure Account where
  id : Address
  delegate : Option Address
  tokenBalanceRaw : Int
  tokenBalance : Int
  totalTokensHeldRaw : Int
  totalTokensHeld : Int
  nouns : List Nat
  deriving DecidableEq

structure Delegate where
  id : Address
  delegatedVotesRaw : Int
  delegatedVotes : Int
  tokenHoldersRepresentedAmount : Int
  nounsRepresented : List Nat

structure Noun where
  id : Nat
  seed : Option Nat
  owner : Address
  deriving DecidableEq

structure TransferEvent where
  id : BitVec 256 × Nat
  noun : Nat
  previousHolder : Address
  newHolder : Address
  blockNumber : Nat
  blockTimestamp : Nat

structure DelegationEvent where
  id : BitVec 256 × Nat
  noun : Nat
  previousDelegate : Address
  newDelegate : Address
  blockNumber : Nat
  blockTimestamp : Nat

/-- a seed is kept under the id of its noun -/
structure SeedEntity where
  id : Nat
  seed : Seed

structure Governance where
  proposals : Int
  totalTokenHolders : Int
  currentTokenHolders : Int
  currentDelegates : Int
  totalDelegates : Int
  delegatedVotesRaw : Int
  delegatedVotes : Int
  proposalsQueued : Int

inductive ProposalStatus where
  | PENDING
  | ACTIVE
  | CANCELLED
  | VETOED
  | QUEUED
  | EXECUTED
  deriving DecidableEq, Repr

/-- a proposal; its title and description are left out -/
structure ProposalEntity where
  id : Nat
  proposer : Address
  targets : List Address
  values : List Nat
  signatures : List String
  calldatas : List Bytes
  createdTimestamp : Nat
  createdBlock : Nat
  createdTransactionHash : BitVec 256
  startBlock : Nat
  endBlock : Nat
  proposalThreshold : Nat
  quorumVotes : Int
  forVotes : Int
  againstVotes : Int
  abstainVotes : Int
  status : ProposalStatus
  executionETA : Option Nat
  totalSupply : Int
  minQuorumVotesBPS : Int
  maxQuorumVotesBPS : Int
  quorumCoefficient : Int
  deriving DecidableEq

structure Vote where
  id : Address × Nat
  support : Bool
  supportDetailed : Nat
  votesRaw : Int
  votes : Int
  reason : Option String
  voter : Address
  nouns : List Nat
  proposal : Nat
  blockNumber : Nat

/-- the entity `LATEST` -/
structure DynamicQuorumParams where
  minQuorumVotesBPS : Int
  maxQuorumVotesBPS : Int
  quorumCoefficient : Int
  dynamicQuorumStartBlock : Option Nat
  deriving DecidableEq

structure Store where
  accounts : Address → Option Account
  delegates : Address → Option Delegate
  nouns : Nat → Option Noun
  seeds : Nat → Option SeedEntity
  transferEvents : BitVec 256 × Nat → Option TransferEvent
  delegationEvents : BitVec 256 × Nat → Option DelegationEvent
  governance : Option Governance
  proposals : Nat → Option ProposalEntity
  votes : Address × Nat → Option Vote
  dynamicQuorumParams : Option DynamicQuorumParams

namespace Store

def empty : Store where
  accounts := fun _ => none
  delegates := fun _ => none
  nouns := fun _ => none
  seeds := fun _ => none
  transferEvents := fun _ => none
  delegationEvents := fun _ => none
  governance := none
  proposals := fun _ => none
  votes := fun _ => none
  dynamicQuorumParams := none

/-! ## `save` -/

def saveAccount (s : Store) (a : Account) : Store :=
  { s with accounts := update s.accounts a.id (some a) }

def saveDelegate (s : Store) (d : Delegate) : Store :=
  { s with delegates := update s.delegates d.id (some d) }

def saveNoun (s : Store) (n : Noun) : Store := { s with nouns := update s.nouns n.id (some n) }

def saveSeed (s : Store) (x : SeedEntity) : Store :=
  { s with seeds := update s.seeds x.id (some x) }

def saveTransferEvent (s : Store) (x : TransferEvent) : Store :=
  { s with transferEvents := update s.transferEvents x.id (some x) }

def saveDelegationEvent (s : Store) (x : DelegationEvent) : Store :=
  { s with delegationEvents := update s.delegationEvents x.id (some x) }

def saveGovernance (s : Store) (g : Governance) : Store := { s with governance := some g }

def saveProposal (s : Store) (p : ProposalEntity) : Store :=
  { s with proposals := update s.proposals p.id (some p) }

def saveVote (s : Store) (v : Vote) : Store := { s with votes := update s.votes v.id (some v) }

def saveDynamicQuorumParams (s : Store) (q : DynamicQuorumParams) : Store :=
  { s with dynamicQuorumParams := some q }

end Store

/-! ## helpers -/

def Account.new (id : Address) : Account := ⟨id, none, 0, 0, 0, 0, []⟩

def Delegate.new (id : Address) : Delegate := ⟨id, 0, 0, 0, []⟩

def Governance.new : Governance := ⟨0, 0, 0, 0, 0, 0, 0, 0⟩

/-- what a mapping does not set stays unset, here zero or empty -/
def ProposalEntity.new (id : Nat) : ProposalEntity :=
  ⟨id, 0, [], [], [], [], 0, 0, 0, 0, 0, 0, 0, 0, 0, 0, .PENDING, none, 0, 0, 0, 0⟩

def Vote.new (id : Address × Nat) : Vote := ⟨id, false, 0, 0, 0, none, 0, [], 0, 0⟩

namespace Store

/-- not saved when it is new -/
def getGovernanceEntity (s : Store) : Governance := s.governance.getD .new

/-- the account, and the store with it -/
def getOrCreateAccount (s : Store) (id : Address) : Account × Store :=
  match s.accounts id with
  | some a => (a, s)
  | none => (.new id, s.saveAccount (.new id))

def getOrCreateDelegate (s : Store) (id : Address) : Delegate × Store :=
  match s.delegates id with
  | some d => (d, s)
  | none =>
    let s :=
      if id ≠ 0 then
        let governance := s.getGovernanceEntity
        s.saveGovernance { governance with totalDelegates := governance.totalDelegates + 1 }
      else s
    (.new id, s.saveDelegate (.new id))

/-- the proposal is not saved, but it is counted -/
def getOrCreateProposal (s : Store) (id : Nat) : ProposalEntity × Store :=
  match s.proposals id with
  | some p => (p, s)
  | none =>
    let governance := s.getGovernanceEntity
    (.new id, s.saveGovernance { governance with proposals := governance.proposals + 1 })

/-- not saved when it is new -/
def getOrCreateVote (s : Store) (id : Address × Nat) : Vote := (s.votes id).getD (.new id)

def getOrCreateDynamicQuorumParams (s : Store) (block : Option Nat) : DynamicQuorumParams × Store :=
  let r := match s.dynamicQuorumParams with
    | some q => (q, s)
    | none => (⟨0, 0, 0, block⟩, s.saveDynamicQuorumParams ⟨0, 0, 0, block⟩)
  if r.1.dynamicQuorumStartBlock = none ∧ block ≠ none then
    let q := { r.1 with dynamicQuorumStartBlock := block }
    (q, r.2.saveDynamicQuorumParams q)
  else r

end Store
end UNouns.Subgraph
