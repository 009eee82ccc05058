import UNouns.Governance.LogicV2
import UNouns.Token.UNounsToken

/-!
# Token, timelock and DAO together

The three contracts as one system that anyone but the DAO itself may call; the DAO calls the other
two from within its own entries.  `GovEntry.enter` is what an entry does up to its external
call, `GovExternal.after` what follows on that call; `execute` alone makes several
(`executeActions`).
-/

namespace UNouns
open Function Reentrant NounsDAOLogicV2

structure World (P : Platform) where
  token : UNounsToken
  timelock : NounsDAOExecutor P
  dao : NounsDAOLogicV2

/-- the entries that change the DAO alone -/
inductive DaoOp where
  | initializeV2 (timelock nouns vetoer : Address)
      (votingPeriod votingDelay proposalThresholdBPS : Nat)
      (dynamicQuorumParams : DynamicQuorumParams)
  | propose (targets : List Address) (values : List Nat) (signatures : List String)
      (calldatas : List Bytes) (description : String)
  | castVote (proposalId support : Nat)
  | castVoteWithReason (proposalId support : Nat) (reason : String)
  | castVoteBySig (proposalId support : Nat) (sig : Signature)
  | castRefundableVote (proposalId support gasUsed : Nat)
  | castRefundableVoteWithReason (proposalId support : Nat) (reason : String) (gasUsed : Nat)
  | setVotingDelay (newVotingDelay : Nat)
  | setVotingPeriod (newVotingPeriod : Nat)
  | setProposalThresholdBPS (newProposalThresholdBPS : Nat)
  | setMinQuorumVotesBPS (newMinQuorumVotesBPS : UInt16)
  | setMaxQuorumVotesBPS (newMaxQuorumVotesBPS : UInt16)
  | setQuorumCoefficient (newQuorumCoefficient : UInt32)
  | setDynamicQuorumParams (newMinQuorumVotesBPS newMaxQuorumVotesBPS : UInt16)
      (newQuorumCoefficient : UInt32)
  | withdraw
  | setPendingAdmin (newPendingAdmin : Address)
  | acceptAdmin
  | setPendingVetoer (newPendingVetoer : Address)
  | acceptVetoer
  | burnVetoPower
  /-- ether, however it comes -/
  | receive

/-- the entries with one external call at most -/
inductive GovEntry where
  | token (op : TokenOp)
  | timelock (op : ExecutorOp)
  | dao (op : DaoOp)
  | queue (proposalId : Nat)
  | cancel (proposalId : Nat)
  | veto (proposalId : Nat)

inductive GovOp where
  | entry (op : GovEntry)
  | execute (proposalId : Nat)

/-- a call from outside: the DAO calls nobody but the timelock and the token, and only as its own
functions say (what it sends to others has no call data) -/
structure GovCall (P : Platform) where
  msg : Msg
  op : GovOp
  outside : msg.sender ≠ P.dao

/-- the calls to code that is not modelled -/
inductive GovExternal where
  | receiver (x : ReceiverCall)
  | target (x : TargetCall)
  | refund (p : Payment)
  | withdraw (p : Payment)

section
variable {P : Platform}

/-! ## entries -/

/-- with the payment that some of them make -/
def DaoOp.apply (P : Platform) (env : Env) (msg : Msg) (t : UNounsToken) (d : NounsDAOLogicV2) :
    DaoOp → Result (NounsDAOLogicV2 × Option GovExternal)
  | .initializeV2 timelock nouns vetoer period delay threshold params =>
    (d.initializeV2 env msg.sender timelock nouns vetoer period delay threshold params).map (·, none)
  | .propose targets values signatures calldatas description =>
    (d.propose env msg.sender t targets values signatures calldatas description).map (·, none)
  | .castVote id support => (d.castVote env msg.sender t id support).map (·.1, none)
  | .castVoteWithReason id support reason =>
    (d.castVoteWithReason env msg.sender t id support reason).map (·.1, none)
  | .castVoteBySig id support sig => (d.castVoteBySig P env t id support sig).map (·.1, none)
  | .castRefundableVote id support gasUsed =>
    (d.castRefundableVoteInternal env msg.sender t id support "" gasUsed).map
      (fun r => (r.1, r.2.map .refund))
  | .castRefundableVoteWithReason id support reason gasUsed =>
    (d.castRefundableVoteInternal env msg.sender t id support reason gasUsed).map
      (fun r => (r.1, r.2.map .refund))
  | .setVotingDelay n => (d.setVotingDelay msg.sender n).map (·, none)
  | .setVotingPeriod n => (d.setVotingPeriod msg.sender n).map (·, none)
  | .setProposalThresholdBPS n => (d.setProposalThresholdBPS msg.sender n).map (·, none)
  | .setMinQuorumVotesBPS n => (d.setMinQuorumVotesBPS env msg.sender n).map (·, none)
  | .setMaxQuorumVotesBPS n => (d.setMaxQuorumVotesBPS env msg.sender n).map (·, none)
  | .setQuorumCoefficient n => (d.setQuorumCoefficient env msg.sender n).map (·, none)
  | .setDynamicQuorumParams a b c => (d.setDynamicQuorumParams env msg.sender a b c).map (·, none)
  | .withdraw => (d.beginWithdraw msg.sender).map (fun r => (r.1, some (.withdraw r.2)))
  | .setPendingAdmin a => (d.setPendingAdmin msg.sender a).map (·, none)
  | .acceptAdmin => (d.acceptAdmin msg.sender).map (·, none)
  | .setPendingVetoer a => (d.setPendingVetoer msg.sender a).map (·, none)
  | .acceptVetoer => (d.acceptVetoer msg.sender).map (·, none)
  | .burnVetoPower => (d.burnVetoPower msg.sender).map (·, none)
  | .receive => .ok ({ d with balance := d.balance + msg.value }, none)

/-- with another timelock and DAO -/
def World.withDao (w : World P) (r : NounsDAOExecutor P × NounsDAOLogicV2) : World P :=
  { w with timelock := r.1, dao := r.2 }

/-- what an entry does up to its external call -/
def GovEntry.enter (env : Env) (msg : Msg) (w : World P) :
    GovEntry → Result (World P × Option GovExternal)
  | .token op => (op.apply P env msg.sender w.token).map
      (fun t => ({ w with token := t }, (op.receiver msg.sender).map .receiver))
  | .timelock op => (op.apply env msg.sender w.timelock).map
      (fun tl => ({ w with timelock := tl }, (op.target P).map .target))
  | .dao op => (op.apply P env msg w.token w.dao).map (fun r => ({ w with dao := r.1 }, r.2))
  | .queue id => (w.dao.queue env w.timelock id).map (w.withDao ·, none)
  | .cancel id => (w.dao.cancel env msg.sender w.token w.timelock id).map (w.withDao ·, none)
  | .veto id => (w.dao.veto env msg.sender w.timelock id).map (w.withDao ·, none)

/-- what follows on an external call -/
def GovExternal.after (x : GovExternal) (ok : Bool) (w : World P) : Result (World P) :=
  match x with
  | .receiver x => (TokenOp.after x ok w.token).map (fun t => { w with token := t })
  | .target x => (w.timelock.endExecute x.tx ok).map (fun tl => { w with timelock := tl })
  | .refund p => .ok { w with dao := w.dao.endRefund p ok }
  | .withdraw p => .ok { w with dao := w.dao.endWithdraw p ok }

/-! ## execute -/

/-- the next action: `timelock.executeTransaction` up to its target -/
def beginAction (env : Env) (w : World P) (proposalId i : Nat) : Result (World P × Transaction) := do
  let proposal := w.dao.proposals proposalId
  let tx ← proposal.action proposal.eta i
  let tl ← w.timelock.beginExecute env P.dao tx
  pure ({ w with timelock := tl }, tx)

/-- the loop of `execute`, and the event at its end; storage is read again after each target -/
def executeActions (env : Env) (proposalId : Nat) : List Nat → World P →
    Code (World P) GovExternal Revert
  | [], w => .done { w with dao := w.dao.emit (.proposalExecuted proposalId) }
  | i :: is, w =>
    match beginAction env w proposalId i with
    | .error e => .revert e
    | .ok (w, tx) => .call (.target (NounsDAOExecutor.targetCall P tx)) w fun ok w =>
      match w.timelock.endExecute tx ok with
      | .error e => .revert e
      | .ok tl => executeActions env proposalId is { w with timelock := tl }

def executeProposal (env : Env) (w : World P) (proposalId : Nat) :
    Code (World P) GovExternal Revert :=
  match w.dao.beginExecute env proposalId with
  | .error e => .revert e
  | .ok d => executeActions env proposalId (w.dao.proposals proposalId).indices { w with dao := d }

def GovCall.code (env : Env) (c : GovCall P) (w : World P) : Code (World P) GovExternal Revert :=
  match c.op with
  | .entry op => Code.once GovExternal.after (op.enter env c.msg w)
  | .execute id => executeProposal env w id

end

abbrev GovRecord (P : Platform) := Record Env (World P) (GovCall P)
abbrev GovConfig (P : Platform) := Config Env (World P) (GovCall P)

/-! ## deployment -/

/-- the parties and parameters of a deployment -/
structure GovSetup where
  deployer : Address
  unoundersDAO : Address
  unouncilDAO : Address
  minter : Address
  descriptor : Address
  seeder : Address
  daoAdmin : Address
  vetoer : Address
  nouns : Address
  delay : Nat
  votingPeriod : Nat
  votingDelay : Nat
  proposalThresholdBPS : Nat
  dynamicQuorumParams : DynamicQuorumParams

/-- the three contracts, fresh, with the DAO as the admin of the timelock -/
def GovSetup.deploy (P : Platform) (env : Env) (g : GovSetup) : Result (World P) := do
  let timelock ← NounsDAOExecutor.deploy P P.dao g.delay
  let dao ← NounsDAOLogicV2.deploy env g.deployer g.daoAdmin P.timelock g.nouns g.vetoer
    g.votingPeriod g.votingDelay g.proposalThresholdBPS g.dynamicQuorumParams
  pure ⟨UNounsToken.deploy g.deployer g.unoundersDAO g.unouncilDAO g.minter g.descriptor g.seeder,
    timelock, dao⟩

end UNouns
