import UNouns.Evm.Basic
import UNouns.Lib.Reentrant
import Mathlib.Logic.Function.Basic

/-!
# NounsDAOExecutor, the timelock

One bit for each hash of a transaction: set by `queueTransaction`, cleared by `cancelTransaction`
and, before the target is called, by `executeTransaction`.  Whether the target call succeeds, for
want of ether or of its own accord, is the reply of the code it goes to.
-/

namespace UNouns
open Function Reentrant

inductive ExecutorEvent (P : Platform) where
  | newAdmin (newAdmin : Address)
  | newPendingAdmin (newPendingAdmin : Address)
  | newDelay (newDelay : Nat)
  | cancelTransaction (txHash : P.Hash) (tx : Transaction)
  | executeTransaction (txHash : P.Hash) (tx : Transaction)
  | queueTransaction (txHash : P.Hash) (tx : Transaction)

structure NounsDAOExecutor (P : Platform) where
  admin : Address
  pendingAdmin : Address
  delay : Nat
  queuedTransactions : P.Hash → Bool
  logs : List (ExecutorEvent P)

/-- `target.call{value: value}(callData)`, made for `tx` -/
structure TargetCall where
  tx : Transaction
  callData : Bytes

namespace NounsDAOExecutor

/-- 14 days -/
abbrev GRACE_PERIOD : Nat := 1209600

/-- 2 days -/
abbrev MINIMUM_DELAY : Nat := 172800

/-- 30 days -/
abbrev MAXIMUM_DELAY : Nat := 2592000

variable {P : Platform}

def emit (s : NounsDAOExecutor P) (e : ExecutorEvent P) : NounsDAOExecutor P :=
  { s with logs := s.logs ++ [e] }

/-- the constructor -/
def deploy (P : Platform) (admin : Address) (delay : Nat) : Result (NounsDAOExecutor P) := do
  require (MINIMUM_DELAY ≤ delay) "NounsDAOExecutor::constructor: Delay must exceed minimum delay."
  require (delay ≤ MAXIMUM_DELAY)
    "NounsDAOExecutor::setDelay: Delay must not exceed maximum delay."
  pure ⟨admin, 0, delay, fun _ => false, []⟩

def setDelay (sender : Address) (s : NounsDAOExecutor P) (delay : Nat) :
    Result (NounsDAOExecutor P) := do
  require (sender = P.timelock) "NounsDAOExecutor::setDelay: Call must come from NounsDAOExecutor."
  require (MINIMUM_DELAY ≤ delay) "NounsDAOExecutor::setDelay: Delay must exceed minimum delay."
  require (delay ≤ MAXIMUM_DELAY)
    "NounsDAOExecutor::setDelay: Delay must not exceed maximum delay."
  pure ({ s with delay := delay }.emit (.newDelay delay))

def acceptAdmin (sender : Address) (s : NounsDAOExecutor P) : Result (NounsDAOExecutor P) := do
  require (sender = s.pendingAdmin)
    "NounsDAOExecutor::acceptAdmin: Call must come from pendingAdmin."
  pure ({ s with admin := sender, pendingAdmin := 0 }.emit (.newAdmin sender))

def setPendingAdmin (sender : Address) (s : NounsDAOExecutor P) (pendingAdmin : Address) :
    Result (NounsDAOExecutor P) := do
  require (sender = P.timelock)
    "NounsDAOExecutor::setPendingAdmin: Call must come from NounsDAOExecutor."
  pure ({ s with pendingAdmin := pendingAdmin }.emit (.newPendingAdmin pendingAdmin))

/-- the hash it returns is `P.keccak256 tx` -/
def queueTransaction (env : Env) (sender : Address) (s : NounsDAOExecutor P) (tx : Transaction) :
    Result (NounsDAOExecutor P) := do
  require (sender = s.admin) "NounsDAOExecutor::queueTransaction: Call must come from admin."
  require (env.timestamp + s.delay ≤ tx.eta)
    "NounsDAOExecutor::queueTransaction: Estimated execution block must satisfy delay."
  let txHash := P.keccak256 tx
  pure ({ s with queuedTransactions := update s.queuedTransactions txHash true }.emit
    (.queueTransaction txHash tx))

def cancelTransaction (sender : Address) (s : NounsDAOExecutor P) (tx : Transaction) :
    Result (NounsDAOExecutor P) := do
  require (sender = s.admin) "NounsDAOExecutor::cancelTransaction: Call must come from admin."
  let txHash := P.keccak256 tx
  pure ({ s with queuedTransactions := update s.queuedTransactions txHash false }.emit
    (.cancelTransaction txHash tx))

/-- `executeTransaction` up to the call of the target -/
def beginExecute (env : Env) (sender : Address) (s : NounsDAOExecutor P) (tx : Transaction) :
    Result (NounsDAOExecutor P) := do
  require (sender = s.admin) "NounsDAOExecutor::executeTransaction: Call must come from admin."
  let txHash := P.keccak256 tx
  require (s.queuedTransactions txHash = true)
    "NounsDAOExecutor::executeTransaction: Transaction hasn't been queued."
  require (tx.eta ≤ env.timestamp)
    "NounsDAOExecutor::executeTransaction: Transaction hasn't surpassed time lock."
  let stale ← checkedAdd tx.eta GRACE_PERIOD
  require (env.timestamp ≤ stale) "NounsDAOExecutor::executeTransaction: Transaction is stale."
  pure { s with queuedTransactions := update s.queuedTransactions txHash false }

def targetCall (P : Platform) (tx : Transaction) : TargetCall :=
  ⟨tx, if tx.signature = "" then tx.data else P.selector tx.signature ++ tx.data⟩

/-- `executeTransaction` once the target has come back -/
def endExecute (s : NounsDAOExecutor P) (tx : Transaction) (success : Bool) :
    Result (NounsDAOExecutor P) := do
  require (success = true) "NounsDAOExecutor::executeTransaction: Transaction execution reverted."
  pure (s.emit (.executeTransaction (P.keccak256 tx) tx))

end NounsDAOExecutor

/-! ## entry points -/

inductive ExecutorOp where
  | setDelay (delay : Nat)
  | acceptAdmin
  | setPendingAdmin (pendingAdmin : Address)
  | queueTransaction (tx : Transaction)
  | cancelTransaction (tx : Transaction)
  | executeTransaction (tx : Transaction)

/-- a call of the timelock by anyone -/
structure ExecutorCall where
  msg : Msg
  op : ExecutorOp

/-- what an entry does before it calls other code -/
def ExecutorOp.apply {P : Platform} (env : Env) (sender : Address) (s : NounsDAOExecutor P) :
    ExecutorOp → Result (NounsDAOExecutor P)
  | .setDelay d => s.setDelay sender d
  | .acceptAdmin => s.acceptAdmin sender
  | .setPendingAdmin a => s.setPendingAdmin sender a
  | .queueTransaction tx => s.queueTransaction env sender tx
  | .cancelTransaction tx => s.cancelTransaction sender tx
  | .executeTransaction tx => s.beginExecute env sender tx

/-- the target of an execution, if this is one -/
def ExecutorOp.target (P : Platform) : ExecutorOp → Option TargetCall
  | .executeTransaction tx => some (NounsDAOExecutor.targetCall P tx)
  | _ => none

/-- `executeTransaction` is `beginExecute`, the call of the target, and `endExecute` -/
def ExecutorCall.code {P : Platform} (env : Env) (c : ExecutorCall) (s : NounsDAOExecutor P) :
    Code (NounsDAOExecutor P) TargetCall Revert :=
  Code.once (fun x ok s => s.endExecute x.tx ok)
    ((c.op.apply env c.msg.sender s).map (·, c.op.target P))

end UNouns
