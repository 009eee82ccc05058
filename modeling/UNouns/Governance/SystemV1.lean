import UNouns.Governance.LogicV1
import UNouns.Governance.System

/-!
# The system with the first version of the DAO

The token and the timelock are those of `Governance.System`.  The DAO makes no payments of its own.
-/

namespace UNouns
open Reentrant

structure WorldV1 (P : Platform) where
  token : UNounsToken
  timelock : NounsDAOExecutor P
  dao : NounsDAOLogicV1

/-- the entries that change the DAO alone -/
inductive DaoOpV1 where
  | initializeV1 (timelock nouns vetoer : Address)
      (votingPeriod votingDelay proposalThresholdBPS quorumVotesBPS : Nat)
  | propose (targets : List Address) (values : List Nat) (signatures : List String)
      (calldatas : List Bytes) (description : String)
  | castVote (proposalId support : Nat)
  | castVoteWithReason (proposalId support : Nat) (reason : String)
  | castVoteBySig (proposalId support : Nat) (sig : Signature)
  | setVotingDelay (newVotingDelay : Nat)
  | setVotingPeriod (newVotingPeriod : Nat)
  | setProposalThresholdBPS (newProposalThresholdBPS : Nat)
  | setQuorumVotesBPS (newQuorumVotesBPS : Nat)
  | setPendingAdmin (newPendingAdmin : Address)
  | acceptAdmin
  | setVetoer (newVetoer : Address)
  | burnVetoPower

/-- the entries with one external call at most -/
inductive GovEntryV1 where
  | token (op : TokenOp)
  | timelock (op : ExecutorOp)
  | dao (op : DaoOpV1)
  | queue (proposalId : Nat)
  | cancel (proposalId : Nat)
  | veto (proposalId : Nat)

inductive GovOpV1 where
  | entry (op : GovEntryV1)
  | execute (proposalId : Nat)

/-- a call from outside -/
structure GovCallV1 (P : Platform) where
  msg : Msg
  op : GovOpV1
  outside : msg.sender ≠ P.dao

section
variable {P : Platform}

def DaoOpV1.apply (P : Platform) (env : Env) (sender : Address) (t : UNounsToken)
    (d : NounsDAOLogicV1) : DaoOpV1 → Result NounsDAOLogicV1
  | .initializeV1 timelock nouns vetoer period delay threshold quorum =>
    d.initializeV1 sender timelock nouns vetoer period delay threshold quorum
  | .propose targets values signatures calldatas description =>
    d.propose env sender t targets values signatures calldatas description
  | .castVote id support => d.castVote env sender t id support
  | .castVoteWithReason id support reason => d.castVoteWithReason env sender t id support reason
  | .castVoteBySig id support sig => d.castVoteBySig P env t id support sig
  | .setVotingDelay n => d.setVotingDelay sender n
  | .setVotingPeriod n => d.setVotingPeriod sender n
  | .setProposalThresholdBPS n => d.setProposalThresholdBPS sender n
  | .setQuorumVotesBPS n => d.setQuorumVotesBPS sender n
  | .setPendingAdmin a => d.setPendingAdmin sender a
  | .acceptAdmin => d.acceptAdmin sender
  | .setVetoer a => d.setVetoer sender a
  | .burnVetoPower => d.burnVetoPower sender

/-- with another timelock and DAO -/
def WorldV1.withDao (w : WorldV1 P) (r : NounsDAOExecutor P × NounsDAOLogicV1) : WorldV1 P :=
  { w with timelock := r.1, dao := r.2 }

/-- what an entry does up to its external call -/
def GovEntryV1.enter (env : Env) (msg : Msg) (w : WorldV1 P) :
    GovEntryV1 → Result (WorldV1 P × Option GovExternal)
  | .token op => (op.apply P env msg.sender w.token).map
      (fun t => ({ w with token := t }, (op.receiver msg.sender).map .receiver))
  | .timelock op => (op.apply env msg.sender w.timelock).map
      (fun tl => ({ w with timelock := tl }, (op.target P).map .target))
  | .dao op => (op.apply P env msg.sender w.token w.dao).map (fun d => ({ w with dao := d }, none))
  | .queue id => (w.dao.queue env w.timelock id).map (w.withDao ·, none)
  | .cancel id => (w.dao.cancel env msg.sender w.token w.timelock id).map (w.withDao ·, none)
  | .veto id => (w.dao.veto env msg.sender w.timelock id).map (w.withDao ·, none)

/-- what follows on an external call; payments there are none -/
def GovExternal.afterV1 (x : GovExternal) (ok : Bool) (w : WorldV1 P) : Result (WorldV1 P) :=
  match x with
  | .receiver x => (TokenOp.after x ok w.token).map (fun t => { w with token := t })
  | .target x => (w.timelock.endExecute x.tx ok).map (fun tl => { w with timelock := tl })
  | .refund _ => .ok w
  | .withdraw _ => .ok w

/-! ## execute -/

/-- the next action: `timelock.executeTransaction` up to its target -/
def beginActionV1 (env : Env) (w : WorldV1 P) (proposalId i : Nat) :
    Result (WorldV1 P × Transaction) := do
  let proposal := w.dao.proposals proposalId
  let tx ← proposal.action proposal.eta i
  let tl ← w.timelock.beginExecute env P.dao tx
  pure ({ w with timelock := tl }, tx)

/-- the loop of `execute`, and the event at its end -/
def executeActionsV1 (env : Env) (proposalId : Nat) : List Nat → WorldV1 P →
    Code (WorldV1 P) GovExternal Revert
  | [], w => .done { w with dao := w.dao.emit (.proposalExecuted proposalId) }
  | i :: is, w =>
    match beginActionV1 env w proposalId i with
    | .error e => .revert e
    | .ok (w, tx) => .call (.target (NounsDAOExecutor.targetCall P tx)) w fun ok w =>
      match w.timelock.endExecute tx ok with
      | .error e => .revert e
      | .ok tl => executeActionsV1 env proposalId is { w with timelock := tl }

def executeProposalV1 (env : Env) (w : WorldV1 P) (proposalId : Nat) :
    Code (WorldV1 P) GovExternal Revert :=
  match w.dao.beginExecute env proposalId with
  | .error e => .revert e
  | .ok d => executeActionsV1 env proposalId (w.dao.proposals proposalId).indices { w with dao := d }

def GovCallV1.code (env : Env) (c : GovCallV1 P) (w : WorldV1 P) :
    Code (WorldV1 P) GovExternal Revert :=
  match c.op with
  | .entry op => Code.once GovExternal.afterV1 (op.enter env c.msg w)
  | .execute id => executeProposalV1 env w id

end

abbrev GovConfigV1 (P : Platform) := Config Env (WorldV1 P) (GovCallV1 P)

/-! ## deployment -/

/-- the parties and parameters of a deployment -/
structure GovSetupV1 where
  deployer : Address
  unoundersDAO : Address
  unouncilDAO : Address
  minter : Address
  descriptor : Address
  seeder : Address
  daoAdmin : Address
  vetoer : Address
  nouns : Address
  delay : Nat
  votingPeriod : Nat
  votingDelay : Nat
  proposalThresholdBPS : Nat
  quorumVotesBPS : Nat

/-- the three contracts, fresh, with the DAO as the admin of the timelock -/
def GovSetupV1.deploy (P : Platform) (g : GovSetupV1) : Result (WorldV1 P) := do
  let timelock ← NounsDAOExecutor.deploy P P.dao g.delay
  let dao ← NounsDAOLogicV1.deploy g.deployer g.daoAdmin P.timelock g.nouns g.vetoer
    g.votingPeriod g.votingDelay g.proposalThresholdBPS g.quorumVotesBPS
  pure ⟨UNounsToken.deploy g.deployer g.unoundersDAO g.unouncilDAO g.minter g.descriptor g.seeder,
    timelock, dao⟩

end UNouns
