import UNouns.Governance.LogicV2

/-!
# NounsDAOLogicV1

The first version of the DAO, in the order of the contract.  What it shares with the second is used
from there: the receipts and states of proposals, the bounds, `bps2Uint`, the votes before a block and
the calls of the timelock.
-/

namespace UNouns
open Function

/-- a proposal in `NounsDAOStorageV1` -/
structure ProposalV1 where
  id : Nat
  proposer : Address
  proposalThreshold : Nat
  quorumVotes : Nat
  eta : Nat
  targets : List Address
  values : List Nat
  signatures : List String
  calldatas : List Bytes
  startBlock : Nat
  endBlock : Nat
  forVotes : Nat
  againstVotes : Nat
  abstainVotes : Nat
  canceled : Bool
  vetoed : Bool
  executed : Bool
  receipts : Address → Receipt

inductive DaoEventV1 where
  /-- an event that the second version has too -/
  | common (e : DaoEvent)
  | quorumVotesBPSSet (oldQuorumVotesBPS newQuorumVotesBPS : Nat)

/-- `NounsDAOStorageV1` -/
structure NounsDAOLogicV1 where
  admin : Address
  pendingAdmin : Address
  vetoer : Address
  votingDelay : Nat
  votingPeriod : Nat
  proposalThresholdBPS : Nat
  quorumVotesBPS : Nat
  proposalCount : Nat
  timelock : Address
  nouns : Address
  proposals : Nat → ProposalV1
  latestProposalIds : Address → Nat
  logs : List DaoEventV1

namespace ProposalV1

/-- what a mapping holds at an id that was never proposed -/
def empty : ProposalV1 where
  id := 0
  proposer := 0
  proposalThreshold := 0
  quorumVotes := 0
  eta := 0
  targets := []
  values := []
  signatures := []
  calldatas := []
  startBlock := 0
  endBlock := 0
  forVotes := 0
  againstVotes := 0
  abstainVotes := 0
  canceled := false
  vetoed := false
  executed := false
  receipts := fun _ => .none

/-- the action at position `i`, with the bounds checks of the four arrays -/
def action (p : ProposalV1) (eta i : Nat) : Result Transaction :=
  match p.targets[i]?, p.values[i]?, p.signatures[i]?, p.calldatas[i]? with
  | some target, some value, some signature, some data => .ok ⟨target, value, signature, data, eta⟩
  | _, _, _, _ => .error (.panic 0x32)

/-- the positions the loops over the actions run through -/
def indices (p : ProposalV1) : List Nat := List.range p.targets.length

/-- a proposal once `voter` has voted -/
def withVote (proposal : ProposalV1) (voter : Address) (support votes : Nat) : ProposalV1 :=
  let proposal :=
    if support = 0 then { proposal with againstVotes := proposal.againstVotes + votes }
    else if support = 1 then { proposal with forVotes := proposal.forVotes + votes }
    else if support = 2 then { proposal with abstainVotes := proposal.abstainVotes + votes }
    else proposal
  { proposal with receipts := update proposal.receipts voter ⟨true, support, votes⟩ }

end ProposalV1

namespace NounsDAOLogicV1
open NounsDAOLogicV2 (bps2Uint votesBefore queueOrRevertInternal)

abbrev name : String := "Nouns DAO"
abbrev MIN_PROPOSAL_THRESHOLD_BPS : Nat := 1
abbrev MAX_PROPOSAL_THRESHOLD_BPS : Nat := 1000
abbrev MIN_VOTING_PERIOD : Nat := 5760
abbrev MAX_VOTING_PERIOD : Nat := 80640
abbrev MIN_VOTING_DELAY : Nat := 1
abbrev MAX_VOTING_DELAY : Nat := 40320
abbrev MIN_QUORUM_VOTES_BPS : Nat := 200
abbrev MAX_QUORUM_VOTES_BPS : Nat := 2000
abbrev proposalMaxOperations : Nat := 10

def emit (d : NounsDAOLogicV1) (e : DaoEvent) : NounsDAOLogicV1 :=
  { d with logs := d.logs ++ [.common e] }

/-! ## the state of a proposal -/

def state (env : Env) (d : NounsDAOLogicV1) (proposalId : Nat) : Result ProposalState := do
  require (proposalId ≤ d.proposalCount) "NounsDAO::state: invalid proposal id"
  let proposal := d.proposals proposalId
  pure (
    if proposal.vetoed then .vetoed
    else if proposal.canceled then .canceled
    else if env.number ≤ proposal.startBlock then .pending
    else if env.number ≤ proposal.endBlock then .active
    else if proposal.forVotes ≤ proposal.againstVotes ∨ proposal.forVotes < proposal.quorumVotes then
      .defeated
    else if proposal.eta = 0 then .succeeded
    else if proposal.executed then .executed
    else if proposal.eta + NounsDAOExecutor.GRACE_PERIOD ≤ env.timestamp then .expired
    else .queued)

/-! ## proposing -/

/-- the proposer has no other proposal before the voters -/
def requireNoLiveProposal (env : Env) (d : NounsDAOLogicV1) (sender : Address) : Result Unit :=
  let latestProposalId := d.latestProposalIds sender
  if latestProposalId ≠ 0 then do
    let latest ← d.state env latestProposalId
    require (latest ≠ .active)
      "NounsDAO::propose: one live proposal per proposer, found an already active proposal"
    require (latest ≠ .pending)
      "NounsDAO::propose: one live proposal per proposer, found an already pending proposal"
  else pure ()

/-- what `propose` writes -/
def newProposal (env : Env) (sender : Address) (t : UNounsToken) (d : NounsDAOLogicV1)
    (targets : List Address) (values : List Nat) (signatures : List String)
    (calldatas : List Bytes) : ProposalV1 :=
  let id := d.proposalCount + 1
  let startBlock := env.number + d.votingDelay
  { d.proposals id with
    id := id
    proposer := sender
    proposalThreshold := bps2Uint d.proposalThresholdBPS t.totalSupply
    quorumVotes := bps2Uint d.quorumVotesBPS t.totalSupply
    eta := 0
    targets := targets
    values := values
    signatures := signatures
    calldatas := calldatas
    startBlock := startBlock
    endBlock := startBlock + d.votingPeriod
    forVotes := 0
    againstVotes := 0
    abstainVotes := 0
    canceled := false
    executed := false
    vetoed := false }

/-- the new state; the id it returns is `proposalCount` there -/
def propose (env : Env) (sender : Address) (t : UNounsToken) (d : NounsDAOLogicV1)
    (targets : List Address) (values : List Nat) (signatures : List String)
    (calldatas : List Bytes) (description : String) : Result NounsDAOLogicV1 := do
  let proposalThreshold := bps2Uint d.proposalThresholdBPS t.totalSupply
  let votes ← votesBefore env t sender
  require (proposalThreshold < votes) "NounsDAO::propose: proposer votes below proposal threshold"
  require (targets.length = values.length ∧ targets.length = signatures.length ∧
      targets.length = calldatas.length)
    "NounsDAO::propose: proposal function information arity mismatch"
  require (targets.length ≠ 0) "NounsDAO::propose: must provide actions"
  require (targets.length ≤ proposalMaxOperations) "NounsDAO::propose: too many actions"
  d.requireNoLiveProposal env sender
  let p := d.newProposal env sender t targets values signatures calldatas
  let d := { d with
    proposalCount := p.id
    proposals := update d.proposals p.id p
    latestProposalIds := update d.latestProposalIds sender p.id }
  pure ((d.emit (.proposalCreated p.id sender targets values signatures calldatas p.startBlock
      p.endBlock description)).emit
    (.proposalCreatedWithRequirements p.id sender targets values signatures calldatas p.startBlock
      p.endBlock p.proposalThreshold p.quorumVotes description))

/-! ## queue, execute, cancel, veto -/

section
variable {P : Platform}

/-- one call of the timelock for each action -/
def forActions (f : NounsDAOExecutor P → Transaction → Result (NounsDAOExecutor P)) (p : ProposalV1)
    (eta : Nat) (tl : NounsDAOExecutor P) : Result (NounsDAOExecutor P) :=
  p.indices.foldlM (fun tl i => do
    let tx ← p.action eta i
    f tl tx) tl

def queue (env : Env) (tl : NounsDAOExecutor P) (d : NounsDAOLogicV1) (proposalId : Nat) :
    Result (NounsDAOExecutor P × NounsDAOLogicV1) := do
  let s ← d.state env proposalId
  require (s = .succeeded) "NounsDAO::queue: proposal can only be queued if it is succeeded"
  let proposal := d.proposals proposalId
  let eta := env.timestamp + tl.delay
  let tl ← forActions (queueOrRevertInternal env) proposal eta tl
  let d := { d with proposals := update d.proposals proposalId { proposal with eta := eta } }
  pure (tl, d.emit (.proposalQueued proposalId eta))

/-- `execute` before its loop -/
def beginExecute (env : Env) (d : NounsDAOLogicV1) (proposalId : Nat) :
    Result NounsDAOLogicV1 := do
  let s ← d.state env proposalId
  require (s = .queued) "NounsDAO::execute: proposal can only be executed if it is queued"
  let proposal := d.proposals proposalId
  pure { d with proposals := update d.proposals proposalId { proposal with executed := true } }

def cancel (env : Env) (sender : Address) (t : UNounsToken) (tl : NounsDAOExecutor P)
    (d : NounsDAOLogicV1) (proposalId : Nat) : Result (NounsDAOExecutor P × NounsDAOLogicV1) := do
  let s ← d.state env proposalId
  require (s ≠ .executed) "NounsDAO::cancel: cannot cancel executed proposal"
  let proposal := d.proposals proposalId
  let allowed ← (
    if sender = proposal.proposer then pure true
    else do
      let votes ← votesBefore env t proposal.proposer
      pure (decide (votes < proposal.proposalThreshold)))
  require (allowed = true) "NounsDAO::cancel: proposer above threshold"
  let d := { d with proposals := update d.proposals proposalId { proposal with canceled := true } }
  let tl ← forActions (fun tl tx => tl.cancelTransaction P.dao tx) proposal proposal.eta tl
  pure (tl, d.emit (.proposalCanceled proposalId))

def veto (env : Env) (sender : Address) (tl : NounsDAOExecutor P) (d : NounsDAOLogicV1)
    (proposalId : Nat) : Result (NounsDAOExecutor P × NounsDAOLogicV1) := do
  require (d.vetoer ≠ 0) "NounsDAO::veto: veto power burned"
  require (sender = d.vetoer) "NounsDAO::veto: only vetoer"
  let s ← d.state env proposalId
  require (s ≠ .executed) "NounsDAO::veto: cannot veto executed proposal"
  let proposal := d.proposals proposalId
  let d := { d with proposals := update d.proposals proposalId { proposal with vetoed := true } }
  let tl ← forActions (fun tl tx => tl.cancelTransaction P.dao tx) proposal proposal.eta tl
  pure (tl, d.emit (.proposalVetoed proposalId))

end

/-! ## voting -/

/-- the votes cast, and the state with them; the votes are those of the block the proposal was made in,
as long as the voting delay is what it was then -/
def castVoteInternal (env : Env) (t : UNounsToken) (d : NounsDAOLogicV1) (voter : Address)
    (proposalId support : Nat) : Result (NounsDAOLogicV1 × Nat) := do
  let s ← d.state env proposalId
  require (s = .active) "NounsDAO::castVoteInternal: voting is closed"
  require (support ≤ 2) "NounsDAO::castVoteInternal: invalid vote type"
  let proposal := d.proposals proposalId
  require ((proposal.receipts voter).hasVoted = false)
    "NounsDAO::castVoteInternal: voter already voted"
  let blockNumber ← checkedSub proposal.startBlock d.votingDelay
  let votes ← t.getPriorVotes env voter blockNumber
  let proposal := proposal.withVote voter support votes
  pure ({ d with proposals := update d.proposals proposalId proposal }, votes)

/-- `castVoteInternal` and its event; the three entries differ in the voter and the reason -/
def castVoteWithEvent (env : Env) (t : UNounsToken) (d : NounsDAOLogicV1) (voter : Address)
    (proposalId support : Nat) (reason : String) : Result NounsDAOLogicV1 := do
  let r ← d.castVoteInternal env t voter proposalId support
  pure (r.1.emit (.voteCast voter proposalId support r.2 reason))

def castVote (env : Env) (sender : Address) (t : UNounsToken) (d : NounsDAOLogicV1)
    (proposalId support : Nat) : Result NounsDAOLogicV1 :=
  d.castVoteWithEvent env t sender proposalId support ""

def castVoteWithReason (env : Env) (sender : Address) (t : UNounsToken) (d : NounsDAOLogicV1)
    (proposalId support : Nat) (reason : String) : Result NounsDAOLogicV1 :=
  d.castVoteWithEvent env t sender proposalId support reason

def castVoteBySig (P : Platform) (env : Env) (t : UNounsToken) (d : NounsDAOLogicV1)
    (proposalId support : Nat) (sig : Signature) : Result NounsDAOLogicV1 := do
  let signatory := P.ecrecover (.ballot name env.chainId proposalId support) sig
  require (signatory ≠ 0) "NounsDAO::castVoteBySig: invalid signature"
  d.castVoteWithEvent env t signatory proposalId support ""

/-! ## administration -/

def setVotingDelay (sender : Address) (d : NounsDAOLogicV1) (newVotingDelay : Nat) :
    Result NounsDAOLogicV1 := do
  require (sender = d.admin) "NounsDAO::_setVotingDelay: admin only"
  require (MIN_VOTING_DELAY ≤ newVotingDelay ∧ newVotingDelay ≤ MAX_VOTING_DELAY)
    "NounsDAO::_setVotingDelay: invalid voting delay"
  pure ({ d with votingDelay := newVotingDelay }.emit
    (.votingDelaySet d.votingDelay newVotingDelay))

def setVotingPeriod (sender : Address) (d : NounsDAOLogicV1) (newVotingPeriod : Nat) :
    Result NounsDAOLogicV1 := do
  require (sender = d.admin) "NounsDAO::_setVotingPeriod: admin only"
  require (MIN_VOTING_PERIOD ≤ newVotingPeriod ∧ newVotingPeriod ≤ MAX_VOTING_PERIOD)
    "NounsDAO::_setVotingPeriod: invalid voting period"
  pure ({ d with votingPeriod := newVotingPeriod }.emit
    (.votingPeriodSet d.votingPeriod newVotingPeriod))

def setProposalThresholdBPS (sender : Address) (d : NounsDAOLogicV1)
    (newProposalThresholdBPS : Nat) : Result NounsDAOLogicV1 := do
  require (sender = d.admin) "NounsDAO::_setProposalThresholdBPS: admin only"
  require (MIN_PROPOSAL_THRESHOLD_BPS ≤ newProposalThresholdBPS ∧
      newProposalThresholdBPS ≤ MAX_PROPOSAL_THRESHOLD_BPS)
    "NounsDAO::_setProposalThreshold: invalid proposal threshold"
  pure ({ d with proposalThresholdBPS := newProposalThresholdBPS }.emit
    (.proposalThresholdBPSSet d.proposalThresholdBPS newProposalThresholdBPS))

def setQuorumVotesBPS (sender : Address) (d : NounsDAOLogicV1) (newQuorumVotesBPS : Nat) :
    Result NounsDAOLogicV1 := do
  require (sender = d.admin) "NounsDAO::_setQuorumVotesBPS: admin only"
  require (MIN_QUORUM_VOTES_BPS ≤ newQuorumVotesBPS ∧ newQuorumVotesBPS ≤ MAX_QUORUM_VOTES_BPS)
    "NounsDAO::_setProposalThreshold: invalid proposal threshold"
  pure { d with
    quorumVotesBPS := newQuorumVotesBPS
    logs := d.logs ++ [.quorumVotesBPSSet d.quorumVotesBPS newQuorumVotesBPS] }

def setPendingAdmin (sender : Address) (d : NounsDAOLogicV1) (newPendingAdmin : Address) :
    Result NounsDAOLogicV1 := do
  require (sender = d.admin) "NounsDAO::_setPendingAdmin: admin only"
  pure ({ d with pendingAdmin := newPendingAdmin }.emit
    (.newPendingAdmin d.pendingAdmin newPendingAdmin))

def acceptAdmin (sender : Address) (d : NounsDAOLogicV1) : Result NounsDAOLogicV1 := do
  require (sender = d.pendingAdmin ∧ sender ≠ 0) "NounsDAO::_acceptAdmin: pending admin only"
  pure (({ d with admin := d.pendingAdmin, pendingAdmin := 0 }.emit
    (.newAdmin d.admin d.pendingAdmin)).emit (.newPendingAdmin d.pendingAdmin 0))

def setVetoer (sender : Address) (d : NounsDAOLogicV1) (newVetoer : Address) :
    Result NounsDAOLogicV1 := do
  require (sender = d.vetoer) "NounsDAO::_setVetoer: vetoer only"
  pure { d.emit (.newVetoer d.vetoer newVetoer) with vetoer := newVetoer }

def burnVetoPower (sender : Address) (d : NounsDAOLogicV1) : Result NounsDAOLogicV1 := do
  require (sender = d.vetoer) "NounsDAO::_burnVetoPower: vetoer only"
  d.setVetoer sender 0

/-! ## deployment -/

/-- before `initialize`: nothing but an admin -/
def blank (admin : Address) : NounsDAOLogicV1 where
  admin := admin
  pendingAdmin := 0
  vetoer := 0
  votingDelay := 0
  votingPeriod := 0
  proposalThresholdBPS := 0
  quorumVotesBPS := 0
  proposalCount := 0
  timelock := 0
  nouns := 0
  proposals := fun _ => .empty
  latestProposalIds := fun _ => 0
  logs := []

/-- `initialize` -/
def initializeV1 (sender : Address) (d : NounsDAOLogicV1) (timelock nouns vetoer : Address)
    (votingPeriod votingDelay proposalThresholdBPS quorumVotesBPS : Nat) :
    Result NounsDAOLogicV1 := do
  require (d.timelock = 0) "NounsDAO::initialize: can only initialize once"
  require (sender = d.admin) "NounsDAO::initialize: admin only"
  require (timelock ≠ 0) "NounsDAO::initialize: invalid timelock address"
  require (nouns ≠ 0) "NounsDAO::initialize: invalid nouns address"
  require (MIN_VOTING_PERIOD ≤ votingPeriod ∧ votingPeriod ≤ MAX_VOTING_PERIOD)
    "NounsDAO::initialize: invalid voting period"
  require (MIN_VOTING_DELAY ≤ votingDelay ∧ votingDelay ≤ MAX_VOTING_DELAY)
    "NounsDAO::initialize: invalid voting delay"
  require (MIN_PROPOSAL_THRESHOLD_BPS ≤ proposalThresholdBPS ∧
      proposalThresholdBPS ≤ MAX_PROPOSAL_THRESHOLD_BPS)
    "NounsDAO::initialize: invalid proposal threshold"
  require (MIN_QUORUM_VOTES_BPS ≤ quorumVotesBPS ∧ quorumVotesBPS ≤ MAX_QUORUM_VOTES_BPS)
    "NounsDAO::initialize: invalid proposal threshold"
  pure { d with
    timelock := timelock
    nouns := nouns
    vetoer := vetoer
    votingPeriod := votingPeriod
    votingDelay := votingDelay
    proposalThresholdBPS := proposalThresholdBPS
    quorumVotesBPS := quorumVotesBPS
    logs := d.logs ++ [.common (.votingPeriodSet d.votingPeriod votingPeriod),
      .common (.votingDelaySet d.votingDelay votingDelay),
      .common (.proposalThresholdBPSSet d.proposalThresholdBPS proposalThresholdBPS),
      .quorumVotesBPSSet d.quorumVotesBPS quorumVotesBPS] }

/-- the constructor of `NounsDAOProxy`: the deployer is the admin while it initializes -/
def deploy (deployer admin timelock nouns vetoer : Address)
    (votingPeriod votingDelay proposalThresholdBPS quorumVotesBPS : Nat) :
    Result NounsDAOLogicV1 := do
  let d ← (blank deployer).initializeV1 deployer timelock nouns vetoer votingPeriod votingDelay
    proposalThresholdBPS quorumVotesBPS
  pure { d with admin := admin }

end NounsDAOLogicV1
end UNouns
