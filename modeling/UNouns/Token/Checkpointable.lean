import UNouns.Token.Enumerable

/-!
# ERC721Checkpointable: delegation and vote checkpoints
-/

namespace UNouns
namespace UNounsToken
open Function Checkpoints

def getCurrentVotes (t : UNounsToken) (account : Address) : Nat :=
  (latest (t.checkpoints account)).getD 0

def getPriorVotes (env : Env) (t : UNounsToken) (account : Address) (blockNumber : Nat) :
    Result Nat := do
  require (blockNumber < env.number) "ERC721Checkpointable::getPriorVotes: not yet determined"
  pure ((prior (t.checkpoints account) blockNumber).getD 0)

/-- an account that has not delegated is its own delegate -/
def delegates (t : UNounsToken) (delegator : Address) : Address :=
  if t.storedDelegates delegator = 0 then delegator else t.storedDelegates delegator

def add96 (a b : Nat) (text : String) : Result Nat := do
  revertUnless (a + b < 2^96) (.panic 0x11)
  require (a ≤ a + b) text
  pure (a + b)

def sub96 (a b : Nat) (text : String) : Result Nat := do
  require (b ≤ a) text
  pure (a - b)

def safe96 (n : Nat) (text : String) : Result Nat := do
  require (n < 2^96) text
  pure n

def votesToDelegate (t : UNounsToken) (delegator : Address) : Result Nat := do
  let balance ← t.balanceOf delegator
  safe96 balance "ERC721Checkpointable::votesToDelegate: amount exceeds 96 bits"

def writeCheckpoint (env : Env) (t : UNounsToken) (delegatee : Address) (oldVotes newVotes : Nat) :
    Result UNounsToken := do
  require (env.number < 2^32) "ERC721Checkpointable::_writeCheckpoint: block number exceeds 32 bits"
  let cps := write (t.checkpoints delegatee) env.number newVotes
  -- `numCheckpoints` is a uint32
  revertUnless (cps.length < 2^32) (.panic 0x11)
  pure ({ t with checkpoints := update t.checkpoints delegatee cps }.emit
    (.delegateVotesChanged delegatee oldVotes newVotes))

/-- the `srcRep` half of `_moveDelegates` -/
def takeVotes (env : Env) (t : UNounsToken) (srcRep : Address) (amount : Nat) :
    Result UNounsToken :=
  if srcRep ≠ 0 then do
    let srcRepOld := t.getCurrentVotes srcRep
    let srcRepNew ← sub96 srcRepOld amount "ERC721Checkpointable::_moveDelegates: amount underflows"
    t.writeCheckpoint env srcRep srcRepOld srcRepNew
  else pure t

/-- the `dstRep` half of `_moveDelegates` -/
def giveVotes (env : Env) (t : UNounsToken) (dstRep : Address) (amount : Nat) :
    Result UNounsToken :=
  if dstRep ≠ 0 then do
    let dstRepOld := t.getCurrentVotes dstRep
    let dstRepNew ← add96 dstRepOld amount "ERC721Checkpointable::_moveDelegates: amount overflows"
    t.writeCheckpoint env dstRep dstRepOld dstRepNew
  else pure t

def moveDelegates (env : Env) (t : UNounsToken) (srcRep dstRep : Address) (amount : Nat) :
    Result UNounsToken :=
  if srcRep ≠ dstRep ∧ 0 < amount then do
    let t ← t.takeVotes env srcRep amount
    t.giveVotes env dstRep amount
  else pure t

/-- `_beforeTokenTransfer`: the lists first, then one vote moves -/
def beforeTokenTransfer (env : Env) (t : UNounsToken) (fromAddr toAddr : Address) (tokenId : Nat) :
    Result UNounsToken := do
  let t ← t.enumerateTransfer fromAddr toAddr tokenId
  t.moveDelegates env (t.delegates fromAddr) (t.delegates toAddr) 1

/-- `_delegate` -/
def delegateInternal (env : Env) (t : UNounsToken) (delegator delegatee : Address) :
    Result UNounsToken := do
  let currentDelegate := t.delegates delegator
  let t := { t with storedDelegates := update t.storedDelegates delegator delegatee }.emit
    (.delegateChanged delegator currentDelegate delegatee)
  let amount ← t.votesToDelegate delegator
  t.moveDelegates env currentDelegate delegatee amount

def delegate (env : Env) (sender : Address) (t : UNounsToken) (delegatee : Address) :
    Result UNounsToken :=
  t.delegateInternal env sender (if delegatee = 0 then sender else delegatee)

def delegateBySig (P : Platform) (env : Env) (t : UNounsToken) (delegatee : Address)
    (nonce expiry : Nat) (sig : Signature) : Result UNounsToken := do
  let signatory := P.ecrecover (.delegation env.chainId delegatee nonce expiry) sig
  require (signatory ≠ 0) "ERC721Checkpointable::delegateBySig: invalid signature"
  require (nonce = t.nonces signatory) "ERC721Checkpointable::delegateBySig: invalid nonce"
  let t := { t with nonces := update t.nonces signatory (t.nonces signatory + 1) }
  require (env.timestamp ≤ expiry) "ERC721Checkpointable::delegateBySig: signature expired"
  t.delegateInternal env signatory delegatee

end UNounsToken
end UNouns
