import UNouns.Subgraph.Store

/-!
# The state of a proposal in the web application

`getProposalState` of `nounsDao.ts`, which derives a state from the entity of the subgraph.  The
numbers that `parseInt` reads there are below `2^53`, and so exact.
-/

namespace UNouns.Webapp
open Subgraph (ProposalStatus ProposalEntity)

inductive ProposalState where
  | UNDETERMINED
  | PENDING
  | ACTIVE
  | CANCELLED
  | DEFEATED
  | SUCCEEDED
  | QUEUED
  | EXPIRED
  | EXECUTED
  | VETOED
  deriving DecidableEq, Repr

/-- `ProposalState[proposal.status]` -/
def ProposalState.ofStatus : ProposalStatus → ProposalState
  | .PENDING => .PENDING
  | .ACTIVE => .ACTIVE
  | .CANCELLED => .CANCELLED
  | .VETOED => .VETOED
  | .QUEUED => .QUEUED
  | .EXECUTED => .EXECUTED

/-- `!blockNumber` of a number that may be undefined -/
def missing (blockNumber : Option Nat) : Bool := blockNumber.getD 0 = 0

/-- 14 days -/
abbrev GRACE_PERIOD : Nat := 14 * 60 * 60 * 24

/-- a date, in seconds; an invalid one has the time `NaN` -/
structure Date where
  seconds : Option Nat

/-- `new Date(timestamp * 1000)`, valid up to `8.64e15` milliseconds -/
def Date.ofTimestamp (timestamp : Nat) : Date :=
  ⟨if timestamp ≤ 8640000000000 then some timestamp else none⟩

/-- nothing is compared with `NaN` -/
def Date.atLeast (date : Date) (seconds : Nat) : Bool := date.seconds.any (seconds ≤ ·)

def getProposalState (blockNumber : Option Nat) (blockTimestamp : Option Date)
    (proposal : ProposalEntity) : ProposalState :=
  let status := ProposalState.ofStatus proposal.status
  if status = .PENDING then
    if missing blockNumber then .UNDETERMINED
    else if blockNumber.getD 0 ≤ proposal.startBlock then .PENDING
    else .ACTIVE
  else if status = .ACTIVE then
    if missing blockNumber then .UNDETERMINED
    else if proposal.endBlock < blockNumber.getD 0 then
      if proposal.forVotes ≤ proposal.againstVotes ∨ proposal.forVotes < proposal.quorumVotes then
        .DEFEATED
      else if proposal.executionETA = none then .SUCCEEDED
      else status
    else status
  else if status = .QUEUED then
    match blockTimestamp, proposal.executionETA with
    | some blockTimestamp, some executionETA =>
      if blockTimestamp.atLeast (executionETA + GRACE_PERIOD) then .EXPIRED else status
    | _, _ => .UNDETERMINED
  else status

/-- as `parsePartialSubgraphProposal` and `parseSubgraphProposal` call it -/
def shownState (blockNumber timestamp : Option Nat) (proposal : ProposalEntity) : ProposalState :=
  getProposalState blockNumber (some (.ofTimestamp (timestamp.getD 0))) proposal

end UNouns.Webapp
