import UNouns.Governance.Storage
import UNouns.Token.Checkpointable
import UNouns.Timelock.Executor

/-!
# NounsDAOLogicV2

The functions of the DAO, one definition for each, in the order of the contract.  The token is read
only; the timelock is called by `queue`, `cancel`, `veto` and `execute` and changes with them.
`execute` itself, which hands control to the targets, is put together in `Governance.System`.
-/

namespace UNouns
open Function Checkpoints

namespace NounsDAOLogicV2

abbrev name : String := "UNouns DAO"
abbrev MIN_PROPOSAL_THRESHOLD_BPS : Nat := 1
abbrev MAX_PROPOSAL_THRESHOLD_BPS : Nat := 1000
abbrev MIN_VOTING_PERIOD : Nat := 5760
abbrev MAX_VOTING_PERIOD : Nat := 80640
abbrev MIN_VOTING_DELAY : Nat := 1
abbrev MAX_VOTING_DELAY : Nat := 40320
abbrev MIN_QUORUM_VOTES_BPS_LOWER_BOUND : Nat := 200
abbrev MIN_QUORUM_VOTES_BPS_UPPER_BOUND : Nat := 2000
abbrev MAX_QUORUM_VOTES_BPS_UPPER_BOUND : Nat := 6000
abbrev proposalMaxOperations : Nat := 10
/-- 2 gwei -/
abbrev MAX_REFUND_PRIORITY_FEE : Nat := 2000000000
abbrev REFUND_BASE_GAS : Nat := 36000
abbrev MAX_REFUND_GAS_USED : Nat := 200000
/-- 200 gwei -/
abbrev MAX_REFUND_BASE_FEE : Nat := 200000000000

/-! ## quorum -/

def bps2Uint (bps number : Nat) : Nat := number * bps / 10000

def safe32 (n : Nat) (text : String) : Result Nat := do
  require (n ≤ 2^32 - 1) text
  pure n

def safe16 (n : Nat) : Result UInt16 := do
  revertUnless (n ≤ 2^16 - 1) (.custom "UnsafeUint16Cast")
  pure (.ofNat n)

/-- the parameters before the first checkpoint -/
def quorumParamsWithoutCheckpoint (d : NounsDAOLogicV2) : Result DynamicQuorumParams := do
  let bps ← safe16 d.quorumVotesBPS
  pure ⟨bps, bps, 0⟩

def getDynamicQuorumParamsAt (d : NounsDAOLogicV2) (blockNumber : Nat) :
    Result DynamicQuorumParams := do
  let blockNumber ← safe32 blockNumber
    "NounsDAO::getDynamicQuorumParamsAt: block number exceeds 32 bits"
  match prior d.quorumParamsCheckpoints blockNumber with
  | some params => pure params
  | none => d.quorumParamsWithoutCheckpoint

/-- `_writeQuorumParamsCheckpoint` -/
def writeQuorumParamsCheckpoint (env : Env) (d : NounsDAOLogicV2) (params : DynamicQuorumParams) :
    Result NounsDAOLogicV2 := do
  let blockNumber ← safe32 env.number "block number exceeds 32 bits"
  pure { d with quorumParamsCheckpoints := write d.quorumParamsCheckpoints blockNumber params }

def dynamicQuorumVotes (againstVotes totalSupply : Nat) (params : DynamicQuorumParams) :
    Result Nat := do
  revertUnless (totalSupply ≠ 0) (.panic 0x12)
  let againstVotesBPS := 10000 * againstVotes / totalSupply
  let quorumAdjustmentBPS := params.quorumCoefficient.toNat * againstVotesBPS / 1000000
  let adjustedQuorumBPS := params.minQuorumVotesBPS.toNat + quorumAdjustmentBPS
  let quorumBPS := min params.maxQuorumVotesBPS.toNat adjustedQuorumBPS
  pure (bps2Uint quorumBPS totalSupply)

def quorumVotes (d : NounsDAOLogicV2) (proposalId : Nat) : Result Nat :=
  let proposal := d.proposals proposalId
  if proposal.totalSupply = 0 then pure proposal.quorumVotes
  else do
    let params ← d.getDynamicQuorumParamsAt proposal.creationBlock
    dynamicQuorumVotes proposal.againstVotes proposal.totalSupply params

def minQuorumVotes (env : Env) (t : UNounsToken) (d : NounsDAOLogicV2) : Result Nat := do
  let params ← d.getDynamicQuorumParamsAt env.number
  pure (bps2Uint params.minQuorumVotesBPS.toNat t.totalSupply)

def proposalThreshold (t : UNounsToken) (d : NounsDAOLogicV2) : Nat :=
  bps2Uint d.proposalThresholdBPS t.totalSupply

/-! ## the state of a proposal -/

/-- `forVotes <= againstVotes || forVotes < quorumVotes(id)`: the quorum is not asked for when the
votes against are as many -/
def defeated (d : NounsDAOLogicV2) (proposal : Proposal) : Result Bool :=
  if proposal.forVotes ≤ proposal.againstVotes then pure true
  else do
    let quorum ← d.quorumVotes proposal.id
    pure (proposal.forVotes < quorum)

def state (env : Env) (d : NounsDAOLogicV2) (proposalId : Nat) : Result ProposalState := do
  require (proposalId ≤ d.proposalCount) "NounsDAO::state: invalid proposal id"
  let proposal := d.proposals proposalId
  if proposal.vetoed then pure .vetoed
  else if proposal.canceled then pure .canceled
  else if env.number ≤ proposal.startBlock then pure .pending
  else if env.number ≤ proposal.endBlock then pure .active
  else do
    let defeated ← d.defeated proposal
    if defeated then pure .defeated
    else if proposal.eta = 0 then pure .succeeded
    else if proposal.executed then pure .executed
    else if proposal.eta + NounsDAOExecutor.GRACE_PERIOD ≤ env.timestamp then pure .expired
    else pure .queued

/-! ## proposing -/

/-- the votes of an account at the end of the last block -/
def votesBefore (env : Env) (t : UNounsToken) (account : Address) : Result Nat := do
  let blockNumber ← checkedSub env.number 1
  t.getPriorVotes env account blockNumber

/-- the proposer has no other proposal before the voters -/
def requireNoLiveProposal (env : Env) (d : NounsDAOLogicV2) (sender : Address) : Result Unit :=
  let latestProposalId := d.latestProposalIds sender
  if latestProposalId ≠ 0 then do
    let latest ← d.state env latestProposalId
    require (latest ≠ .active)
      "NounsDAO::propose: one live proposal per proposer, found an already active proposal"
    require (latest ≠ .pending)
      "NounsDAO::propose: one live proposal per proposer, found an already pending proposal"
  else pure ()

/-- what `propose` writes; the receipts, the quorum and the actions of an id that was never proposed
are empty -/
def newProposal (env : Env) (sender : Address) (t : UNounsToken) (d : NounsDAOLogicV2)
    (targets : List Address) (values : List Nat) (signatures : List String)
    (calldatas : List Bytes) : Proposal :=
  let id := d.proposalCount + 1
  let startBlock := env.number + d.votingDelay
  { d.proposals id with
    id := id
    proposer := sender
    proposalThreshold := d.proposalThreshold t
    eta := 0
    targets := targets
    values := values
    signatures := signatures
    calldatas := calldatas
    startBlock := startBlock
    endBlock := startBlock + d.votingPeriod
    forVotes := 0
    againstVotes := 0
    abstainVotes := 0
    canceled := false
    executed := false
    vetoed := false
    totalSupply := t.totalSupply
    creationBlock := env.number }

/-- the new state; the id it returns is `proposalCount` there -/
def propose (env : Env) (sender : Address) (t : UNounsToken) (d : NounsDAOLogicV2)
    (targets : List Address) (values : List Nat) (signatures : List String)
    (calldatas : List Bytes) (description : String) : Result NounsDAOLogicV2 := do
  let votes ← votesBefore env t sender
  require (d.proposalThreshold t < votes)
    "NounsDAO::propose: proposer votes below proposal threshold"
  require (targets.length = values.length ∧ targets.length = signatures.length ∧
      targets.length = calldatas.length)
    "NounsDAO::propose: proposal function information arity mismatch"
  require (targets.length ≠ 0) "NounsDAO::propose: must provide actions"
  require (targets.length ≤ proposalMaxOperations) "NounsDAO::propose: too many actions"
  d.requireNoLiveProposal env sender
  let p := d.newProposal env sender t targets values signatures calldatas
  let d := { d with
    proposalCount := p.id
    proposals := update d.proposals p.id p
    latestProposalIds := update d.latestProposalIds sender p.id }
  let minQuorum ← d.minQuorumVotes env t
  pure ((d.emit (.proposalCreated p.id sender targets values signatures calldatas p.startBlock
      p.endBlock description)).emit
    (.proposalCreatedWithRequirements p.id sender targets values signatures calldatas p.startBlock
      p.endBlock p.proposalThreshold minQuorum description))

/-! ## queue, cancel, veto -/

section
variable {P : Platform}

def queueOrRevertInternal (env : Env) (tl : NounsDAOExecutor P) (tx : Transaction) :
    Result (NounsDAOExecutor P) := do
  require (tl.queuedTransactions (P.keccak256 tx) = false)
    "NounsDAO::queueOrRevertInternal: identical proposal action already queued at eta"
  tl.queueTransaction env P.dao tx

/-- one call of the timelock for each action -/
def forActions (f : NounsDAOExecutor P → Transaction → Result (NounsDAOExecutor P)) (p : Proposal)
    (eta : Nat) (tl : NounsDAOExecutor P) : Result (NounsDAOExecutor P) :=
  p.indices.foldlM (fun tl i => do
    let tx ← p.action eta i
    f tl tx) tl

def queue (env : Env) (tl : NounsDAOExecutor P) (d : NounsDAOLogicV2) (proposalId : Nat) :
    Result (NounsDAOExecutor P × NounsDAOLogicV2) := do
  let s ← d.state env proposalId
  require (s = .succeeded) "NounsDAO::queue: proposal can only be queued if it is succeeded"
  let proposal := d.proposals proposalId
  let eta := env.timestamp + tl.delay
  let tl ← forActions (queueOrRevertInternal env) proposal eta tl
  let d := { d with proposals := update d.proposals proposalId { proposal with eta := eta } }
  pure (tl, d.emit (.proposalQueued proposalId eta))

/-- `execute` before its loop -/
def beginExecute (env : Env) (d : NounsDAOLogicV2) (proposalId : Nat) :
    Result NounsDAOLogicV2 := do
  let s ← d.state env proposalId
  require (s = .queued) "NounsDAO::execute: proposal can only be executed if it is queued"
  let proposal := d.proposals proposalId
  pure { d with proposals := update d.proposals proposalId { proposal with executed := true } }

def cancel (env : Env) (sender : Address) (t : UNounsToken) (tl : NounsDAOExecutor P)
    (d : NounsDAOLogicV2) (proposalId : Nat) : Result (NounsDAOExecutor P × NounsDAOLogicV2) := do
  let s ← d.state env proposalId
  revertUnless (s ≠ .executed) (.custom "CantCancelExecutedProposal")
  let proposal := d.proposals proposalId
  let allowed ← (
    if sender = proposal.proposer then pure true
    else do
      let votes ← votesBefore env t proposal.proposer
      pure (decide (votes ≤ proposal.proposalThreshold)))
  require (allowed = true) "NounsDAO::cancel: proposer above threshold"
  let d := { d with proposals := update d.proposals proposalId { proposal with canceled := true } }
  let tl ← forActions (fun tl tx => tl.cancelTransaction P.dao tx) proposal proposal.eta tl
  pure (tl, d.emit (.proposalCanceled proposalId))

def veto (env : Env) (sender : Address) (tl : NounsDAOExecutor P) (d : NounsDAOLogicV2)
    (proposalId : Nat) : Result (NounsDAOExecutor P × NounsDAOLogicV2) := do
  revertUnless (d.vetoer ≠ 0) (.custom "VetoerBurned")
  revertUnless (sender = d.vetoer) (.custom "VetoerOnly")
  let s ← d.state env proposalId
  revertUnless (s ≠ .executed) (.custom "CantVetoExecutedProposal")
  let proposal := d.proposals proposalId
  let d := { d with proposals := update d.proposals proposalId { proposal with vetoed := true } }
  let tl ← forActions (fun tl tx => tl.cancelTransaction P.dao tx) proposal proposal.eta tl
  pure (tl, d.emit (.proposalVetoed proposalId))

end

/-! ## voting -/

def proposalCreationBlock (d : NounsDAOLogicV2) (proposal : Proposal) : Result Nat :=
  if proposal.creationBlock = 0 then checkedSub proposal.startBlock d.votingDelay
  else pure proposal.creationBlock

/-- a proposal once `voter` has voted -/
def Proposal.withVote (proposal : Proposal) (voter : Address) (support votes : Nat) : Proposal :=
  let proposal :=
    if support = 0 then { proposal with againstVotes := proposal.againstVotes + votes }
    else if support = 1 then { proposal with forVotes := proposal.forVotes + votes }
    else if support = 2 then { proposal with abstainVotes := proposal.abstainVotes + votes }
    else proposal
  { proposal with receipts := update proposal.receipts voter ⟨true, support, votes⟩ }

/-- the votes cast, and the state with them -/
def castVoteInternal (env : Env) (t : UNounsToken) (d : NounsDAOLogicV2) (voter : Address)
    (proposalId support : Nat) : Result (NounsDAOLogicV2 × Nat) := do
  let s ← d.state env proposalId
  require (s = .active) "NounsDAO::castVoteInternal: voting is closed"
  require (support ≤ 2) "NounsDAO::castVoteInternal: invalid vote type"
  let proposal := d.proposals proposalId
  require ((proposal.receipts voter).hasVoted = false)
    "NounsDAO::castVoteInternal: voter already voted"
  let blockNumber ← d.proposalCreationBlock proposal
  let votes ← t.getPriorVotes env voter blockNumber
  let proposal := Proposal.withVote proposal voter support votes
  pure ({ d with proposals := update d.proposals proposalId proposal }, votes)

/-- `castVoteInternal` and its event; the five entries differ in the voter and the reason -/
def castVoteWithEvent (env : Env) (t : UNounsToken) (d : NounsDAOLogicV2) (voter : Address)
    (proposalId support : Nat) (reason : String) : Result (NounsDAOLogicV2 × Nat) := do
  let r ← d.castVoteInternal env t voter proposalId support
  pure (r.1.emit (.voteCast voter proposalId support r.2 reason), r.2)

def castVote (env : Env) (sender : Address) (t : UNounsToken) (d : NounsDAOLogicV2)
    (proposalId support : Nat) : Result (NounsDAOLogicV2 × Nat) :=
  d.castVoteWithEvent env t sender proposalId support ""

def castVoteWithReason (env : Env) (sender : Address) (t : UNounsToken) (d : NounsDAOLogicV2)
    (proposalId support : Nat) (reason : String) : Result (NounsDAOLogicV2 × Nat) :=
  d.castVoteWithEvent env t sender proposalId support reason

def castVoteBySig (P : Platform) (env : Env) (t : UNounsToken) (d : NounsDAOLogicV2)
    (proposalId support : Nat) (sig : Signature) : Result (NounsDAOLogicV2 × Nat) := do
  let signatory := P.ecrecover (.ballot name env.chainId proposalId support) sig
  require (signatory ≠ 0) "NounsDAO::castVoteBySig: invalid signature"
  d.castVoteWithEvent env t signatory proposalId support ""

/-- `_refundGas` up to the payment, which leaves the balance; `gasUsed` is the gas used so far,
`startGas - gasleft()` -/
def beginRefund (env : Env) (d : NounsDAOLogicV2) (gasUsed : Nat) :
    NounsDAOLogicV2 × Option Payment :=
  if d.balance = 0 then (d, none)
  else
    let basefee := min env.basefee MAX_REFUND_BASE_FEE
    let gasPrice := min env.gasprice (basefee + MAX_REFUND_PRIORITY_FEE)
    let gasUsed := min (gasUsed + REFUND_BASE_GAS) MAX_REFUND_GAS_USED
    let refundAmount := min (gasPrice * gasUsed) d.balance
    ({ d with balance := d.balance - refundAmount }, some ⟨env.origin, refundAmount⟩)

/-- a payment that failed is still there -/
def keepUnsent (d : NounsDAOLogicV2) (p : Payment) (sent : Bool) : NounsDAOLogicV2 :=
  { d with balance := if sent then d.balance else d.balance + p.amount }

/-- `_refundGas` after the payment -/
def endRefund (d : NounsDAOLogicV2) (p : Payment) (sent : Bool) : NounsDAOLogicV2 :=
  (d.keepUnsent p sent).emit (.refundableVote p.toAddr p.amount sent)

/-- up to the refund, which is for those who have votes -/
def castRefundableVoteInternal (env : Env) (sender : Address) (t : UNounsToken)
    (d : NounsDAOLogicV2) (proposalId support : Nat) (reason : String) (gasUsed : Nat) :
    Result (NounsDAOLogicV2 × Option Payment) := do
  let r ← d.castVoteWithEvent env t sender proposalId support reason
  pure (if 0 < r.2 then r.1.beginRefund env gasUsed else (r.1, none))

/-! ## administration -/

def onlyAdmin (d : NounsDAOLogicV2) (sender : Address) : Result Unit :=
  revertUnless (sender = d.admin) (.custom "AdminOnly")

def setVotingDelay (sender : Address) (d : NounsDAOLogicV2) (newVotingDelay : Nat) :
    Result NounsDAOLogicV2 := do
  d.onlyAdmin sender
  require (MIN_VOTING_DELAY ≤ newVotingDelay ∧ newVotingDelay ≤ MAX_VOTING_DELAY)
    "NounsDAO::_setVotingDelay: invalid voting delay"
  pure ({ d with votingDelay := newVotingDelay }.emit
    (.votingDelaySet d.votingDelay newVotingDelay))

def setVotingPeriod (sender : Address) (d : NounsDAOLogicV2) (newVotingPeriod : Nat) :
    Result NounsDAOLogicV2 := do
  d.onlyAdmin sender
  require (MIN_VOTING_PERIOD ≤ newVotingPeriod ∧ newVotingPeriod ≤ MAX_VOTING_PERIOD)
    "NounsDAO::_setVotingPeriod: invalid voting period"
  pure ({ d with votingPeriod := newVotingPeriod }.emit
    (.votingPeriodSet d.votingPeriod newVotingPeriod))

def setProposalThresholdBPS (sender : Address) (d : NounsDAOLogicV2)
    (newProposalThresholdBPS : Nat) : Result NounsDAOLogicV2 := do
  d.onlyAdmin sender
  require (MIN_PROPOSAL_THRESHOLD_BPS ≤ newProposalThresholdBPS ∧
      newProposalThresholdBPS ≤ MAX_PROPOSAL_THRESHOLD_BPS)
    "NounsDAO::_setProposalThreshold: invalid proposal threshold bps"
  pure ({ d with proposalThresholdBPS := newProposalThresholdBPS }.emit
    (.proposalThresholdBPSSet d.proposalThresholdBPS newProposalThresholdBPS))

def setMinQuorumVotesBPS (env : Env) (sender : Address) (d : NounsDAOLogicV2)
    (newMinQuorumVotesBPS : UInt16) : Result NounsDAOLogicV2 := do
  d.onlyAdmin sender
  let params ← d.getDynamicQuorumParamsAt env.number
  require (MIN_QUORUM_VOTES_BPS_LOWER_BOUND ≤ newMinQuorumVotesBPS.toNat ∧
      newMinQuorumVotesBPS.toNat ≤ MIN_QUORUM_VOTES_BPS_UPPER_BOUND)
    "NounsDAO::_setMinQuorumVotesBPS: invalid min quorum votes bps"
  require (newMinQuorumVotesBPS ≤ params.maxQuorumVotesBPS)
    "NounsDAO::_setMinQuorumVotesBPS: min quorum votes bps greater than max"
  let d ← d.writeQuorumParamsCheckpoint env { params with minQuorumVotesBPS := newMinQuorumVotesBPS }
  pure (d.emit (.minQuorumVotesBPSSet params.minQuorumVotesBPS newMinQuorumVotesBPS))

def setMaxQuorumVotesBPS (env : Env) (sender : Address) (d : NounsDAOLogicV2)
    (newMaxQuorumVotesBPS : UInt16) : Result NounsDAOLogicV2 := do
  d.onlyAdmin sender
  let params ← d.getDynamicQuorumParamsAt env.number
  require (newMaxQuorumVotesBPS.toNat ≤ MAX_QUORUM_VOTES_BPS_UPPER_BOUND)
    "NounsDAO::_setMaxQuorumVotesBPS: invalid max quorum votes bps"
  require (params.minQuorumVotesBPS ≤ newMaxQuorumVotesBPS)
    "NounsDAO::_setMaxQuorumVotesBPS: min quorum votes bps greater than max"
  let d ← d.writeQuorumParamsCheckpoint env { params with maxQuorumVotesBPS := newMaxQuorumVotesBPS }
  pure (d.emit (.maxQuorumVotesBPSSet params.maxQuorumVotesBPS newMaxQuorumVotesBPS))

def setQuorumCoefficient (env : Env) (sender : Address) (d : NounsDAOLogicV2)
    (newQuorumCoefficient : UInt32) : Result NounsDAOLogicV2 := do
  d.onlyAdmin sender
  let params ← d.getDynamicQuorumParamsAt env.number
  let d ← d.writeQuorumParamsCheckpoint env { params with quorumCoefficient := newQuorumCoefficient }
  pure (d.emit (.quorumCoefficientSet params.quorumCoefficient newQuorumCoefficient))

def setDynamicQuorumParams (env : Env) (sender : Address) (d : NounsDAOLogicV2)
    (newMinQuorumVotesBPS newMaxQuorumVotesBPS : UInt16) (newQuorumCoefficient : UInt32) :
    Result NounsDAOLogicV2 := do
  d.onlyAdmin sender
  revertUnless (¬ (newMinQuorumVotesBPS.toNat < MIN_QUORUM_VOTES_BPS_LOWER_BOUND ∨
      MIN_QUORUM_VOTES_BPS_UPPER_BOUND < newMinQuorumVotesBPS.toNat))
    (.custom "InvalidMinQuorumVotesBPS")
  revertUnless (¬ MAX_QUORUM_VOTES_BPS_UPPER_BOUND < newMaxQuorumVotesBPS.toNat)
    (.custom "InvalidMaxQuorumVotesBPS")
  revertUnless (¬ newMaxQuorumVotesBPS < newMinQuorumVotesBPS)
    (.custom "MinQuorumBPSGreaterThanMaxQuorumBPS")
  let oldParams ← d.getDynamicQuorumParamsAt env.number
  let params : DynamicQuorumParams :=
    ⟨newMinQuorumVotesBPS, newMaxQuorumVotesBPS, newQuorumCoefficient⟩
  let d ← d.writeQuorumParamsCheckpoint env params
  pure (((d.emit (.minQuorumVotesBPSSet oldParams.minQuorumVotesBPS params.minQuorumVotesBPS)).emit
    (.maxQuorumVotesBPSSet oldParams.maxQuorumVotesBPS params.maxQuorumVotesBPS)).emit
    (.quorumCoefficientSet oldParams.quorumCoefficient params.quorumCoefficient))

/-- `_withdraw` up to the payment, which takes the balance -/
def beginWithdraw (sender : Address) (d : NounsDAOLogicV2) : Result (NounsDAOLogicV2 × Payment) := do
  d.onlyAdmin sender
  pure ({ d with balance := 0 }, ⟨sender, d.balance⟩)

/-- `_withdraw` after the payment -/
def endWithdraw (d : NounsDAOLogicV2) (p : Payment) (sent : Bool) : NounsDAOLogicV2 :=
  (d.keepUnsent p sent).emit (.withdraw p.amount sent)

def setPendingAdmin (sender : Address) (d : NounsDAOLogicV2) (newPendingAdmin : Address) :
    Result NounsDAOLogicV2 := do
  require (sender = d.admin) "NounsDAO::_setPendingAdmin: admin only"
  pure ({ d with pendingAdmin := newPendingAdmin }.emit
    (.newPendingAdmin d.pendingAdmin newPendingAdmin))

def acceptAdmin (sender : Address) (d : NounsDAOLogicV2) : Result NounsDAOLogicV2 := do
  require (sender = d.pendingAdmin ∧ sender ≠ 0) "NounsDAO::_acceptAdmin: pending admin only"
  pure (({ d with admin := d.pendingAdmin, pendingAdmin := 0 }.emit
    (.newAdmin d.admin d.pendingAdmin)).emit (.newPendingAdmin d.pendingAdmin 0))

def setPendingVetoer (sender : Address) (d : NounsDAOLogicV2) (newPendingVetoer : Address) :
    Result NounsDAOLogicV2 := do
  revertUnless (sender = d.vetoer) (.custom "VetoerOnly")
  let d := d.emit (.newPendingVetoer d.pendingVetoer newPendingVetoer)
  pure { d with pendingVetoer := newPendingVetoer }

def acceptVetoer (sender : Address) (d : NounsDAOLogicV2) : Result NounsDAOLogicV2 := do
  revertUnless (sender = d.pendingVetoer) (.custom "PendingVetoerOnly")
  let d := { d.emit (.newVetoer d.vetoer d.pendingVetoer) with vetoer := d.pendingVetoer }
  pure { d.emit (.newPendingVetoer d.pendingVetoer 0) with pendingVetoer := 0 }

def burnVetoPower (sender : Address) (d : NounsDAOLogicV2) : Result NounsDAOLogicV2 := do
  require (sender = d.vetoer) "NounsDAO::_burnVetoPower: vetoer only"
  let d := { d.emit (.newVetoer d.vetoer 0) with vetoer := 0 }
  pure { d.emit (.newPendingVetoer d.pendingVetoer 0) with pendingVetoer := 0 }

/-! ## deployment -/

/-- `initialize` -/
def initializeV2 (env : Env) (sender : Address) (d : NounsDAOLogicV2) (timelock nouns vetoer : Address)
    (votingPeriod votingDelay proposalThresholdBPS : Nat)
    (dynamicQuorumParams : DynamicQuorumParams) : Result NounsDAOLogicV2 := do
  require (d.timelock = 0) "NounsDAO::initialize: can only initialize once"
  d.onlyAdmin sender
  require (timelock ≠ 0) "NounsDAO::initialize: invalid timelock address"
  require (nouns ≠ 0) "NounsDAO::initialize: invalid nouns address"
  require (MIN_VOTING_PERIOD ≤ votingPeriod ∧ votingPeriod ≤ MAX_VOTING_PERIOD)
    "NounsDAO::initialize: invalid voting period"
  require (MIN_VOTING_DELAY ≤ votingDelay ∧ votingDelay ≤ MAX_VOTING_DELAY)
    "NounsDAO::initialize: invalid voting delay"
  require (MIN_PROPOSAL_THRESHOLD_BPS ≤ proposalThresholdBPS ∧
      proposalThresholdBPS ≤ MAX_PROPOSAL_THRESHOLD_BPS)
    "NounsDAO::initialize: invalid proposal threshold bps"
  let d := ((d.emit (.votingPeriodSet d.votingPeriod votingPeriod)).emit
    (.votingDelaySet d.votingDelay votingDelay)).emit
    (.proposalThresholdBPSSet d.proposalThresholdBPS proposalThresholdBPS)
  let d := { d with
    timelock := timelock
    nouns := nouns
    vetoer := vetoer
    votingPeriod := votingPeriod
    votingDelay := votingDelay
    proposalThresholdBPS := proposalThresholdBPS }
  d.setDynamicQuorumParams env sender dynamicQuorumParams.minQuorumVotesBPS
    dynamicQuorumParams.maxQuorumVotesBPS dynamicQuorumParams.quorumCoefficient

/-- the constructor of `NounsDAOProxyV2`: the deployer is the admin while it initializes -/
def deploy (env : Env) (deployer admin timelock nouns vetoer : Address)
    (votingPeriod votingDelay proposalThresholdBPS : Nat)
    (dynamicQuorumParams : DynamicQuorumParams) : Result NounsDAOLogicV2 := do
  let d ← (blank deployer).initializeV2 env deployer timelock nouns vetoer votingPeriod votingDelay
    proposalThresholdBPS dynamicQuorumParams
  pure { d with admin := admin }

end NounsDAOLogicV2
end UNouns
