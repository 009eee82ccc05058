import UNouns.Evm.Basic
import UNouns.Lib.Checkpoints

/-!
# The storage of the UNouns token

One record for the storage of `ERC721`, `ERC721Enumerable`, `ERC721Checkpointable` and
`UNounsToken`, with the events emitted so far.  `mapping(uint32 => Checkpoint)` together with
`numCheckpoints` is a list of checkpoints for each account.
-/

namespace UNouns
open Checkpoints

/-- trait indices of a UNoun (`INounsSeeder.Seed`, five uint48) -/
structure Seed where
  background : Nat
  body : Nat
  accessory : Nat
  head : Nat
  glasses : Nat
  deriving DecidableEq, Repr

inductive TokenEvent where
  | transfer (fromAddr toAddr : Address) (tokenId : Nat)
  | approval (owner approved : Address) (tokenId : Nat)
  | approvalForAll (owner operator : Address) (approved : Bool)
  | delegateChanged (delegator fromDelegate toDelegate : Address)
  | delegateVotesChanged (delegate : Address) (previousBalance newBalance : Nat)
  | nounCreated (tokenId : Nat) (seed : Seed)
  | nounBurned (tokenId : Nat)
  | noundersDAOUpdated (a : Address)
  | minterUpdated (a : Address)
  | minterLocked
  | descriptorUpdated (a : Address)
  | descriptorLocked
  | seederUpdated (a : Address)
  | seederLocked
  | ownershipTransferred (previousOwner newOwner : Address)
  deriving DecidableEq

structure UNounsToken where
  -- ERC721
  owners : Nat → Address
  balances : Address → Nat
  tokenApprovals : Nat → Address
  operatorApprovals : Address → Address → Bool
  -- ERC721Enumerable
  ownedTokens : Address → Nat → Nat
  ownedTokensIndex : Nat → Nat
  allTokens : List Nat
  allTokensIndex : Nat → Nat
  -- ERC721Checkpointable (`storedDelegates` is the private `_delegates`)
  storedDelegates : Address → Address
  checkpoints : Address → List (Checkpoint Nat)
  nonces : Address → Nat
  -- Ownable, UNounsToken
  owner : Address
  unoundersDAO : Address
  unouncilDAO : Address
  minter : Address
  descriptor : Address
  seeder : Address
  isMinterLocked : Bool
  isDescriptorLocked : Bool
  isSeederLocked : Bool
  seeds : Nat → Seed
  currentUNounId : Nat
  contractURIHash : String
  logs : List TokenEvent

namespace UNounsToken

def emit (t : UNounsToken) (e : TokenEvent) : UNounsToken := { t with logs := t.logs ++ [e] }

/-- the constructor; the deployer is the owner -/
def deploy (deployer unoundersDAO unouncilDAO minter descriptor seeder : Address) : UNounsToken where
  owners := fun _ => 0
  balances := fun _ => 0
  tokenApprovals := fun _ => 0
  operatorApprovals := fun _ _ => false
  ownedTokens := fun _ _ => 0
  ownedTokensIndex := fun _ => 0
  allTokens := []
  allTokensIndex := fun _ => 0
  storedDelegates := fun _ => 0
  checkpoints := fun _ => []
  nonces := fun _ => 0
  owner := deployer
  unoundersDAO := unoundersDAO
  unouncilDAO := unouncilDAO
  minter := minter
  descriptor := descriptor
  seeder := seeder
  isMinterLocked := false
  isDescriptorLocked := false
  isSeederLocked := false
  seeds := fun _ => ⟨0, 0, 0, 0, 0⟩
  currentUNounId := 0
  contractURIHash := "QmTEboHKv3usynHk2veLydMWp2yQpDWzbSkLhdYndKLfbM"
  logs := [.ownershipTransferred 0 deployer]

/-! ## views -/

def balanceOf (t : UNounsToken) (a : Address) : Result Nat := do
  require (a ≠ 0) "ERC721: balance query for the zero address"
  pure (t.balances a)

def ownerOf (t : UNounsToken) (tokenId : Nat) : Result Address := do
  require (t.owners tokenId ≠ 0) "ERC721: owner query for nonexistent token"
  pure (t.owners tokenId)

def getApproved (t : UNounsToken) (tokenId : Nat) : Result Address := do
  require (t.owners tokenId ≠ 0) "ERC721: approved query for nonexistent token"
  pure (t.tokenApprovals tokenId)

/-- with the OpenSea proxy of the owner as an operator -/
def isApprovedForAll (env : Env) (t : UNounsToken) (owner operator : Address) : Bool :=
  env.proxies owner = operator || t.operatorApprovals owner operator

def isApprovedOrOwner (env : Env) (t : UNounsToken) (spender : Address) (tokenId : Nat) :
    Result Bool := do
  require (t.owners tokenId ≠ 0) "ERC721: operator query for nonexistent token"
  let owner ← t.ownerOf tokenId
  let approved ← t.getApproved tokenId
  pure (spender = owner || approved = spender || t.isApprovedForAll env owner spender)

def totalSupply (t : UNounsToken) : Nat := t.allTokens.length

end UNounsToken
end UNouns
