import UNouns.Token.ERC721
import UNouns.Lib.Reentrant

/-!
# UNounsToken: minting, administration, and the entry points

`TokenOp.apply` is what an entry point does to the storage.  Only `safeTransferFrom` calls foreign
code, and it does so when all its own work is done (`TokenCall.code`).  The seeder, the descriptor and
the OpenSea registry are called as views, which cannot write: their answers are arguments.
-/

namespace UNouns
open Function Reentrant

namespace UNounsToken

def onlyOwner (t : UNounsToken) (sender : Address) : Result Unit :=
  require (t.owner = sender) "Ownable: caller is not the owner"

def onlyMinter (t : UNounsToken) (sender : Address) : Result Unit :=
  require (sender = t.minter) "Sender is not the minter"

/-- `_mintTo`; `seed` is what `seeder.generateSeed` answers -/
def mintTo (env : Env) (t : UNounsToken) (toAddr : Address) (unounId : Nat) (seed : Result Seed) :
    Result UNounsToken := do
  let seed ← seed
  let t := { t with seeds := update t.seeds unounId seed }
  let t ← t.mintInternal env t.owner toAddr unounId
  pure (t.emit (.nounCreated unounId seed))

/-- `_mintTo(toAddr, _currentUNounId++)` -/
def mintNext (env : Env) (t : UNounsToken) (toAddr : Address) (seeds : Nat → Result Seed) :
    Result UNounsToken :=
  { t with currentUNounId := t.currentUNounId + 1 }.mintTo env toAddr t.currentUNounId
    (seeds t.currentUNounId)

/-- one token for the minter, after one for the unounders (every tenth, up to 1865) and one for the
unouncil (every tenth, up to 222) when they are due; the id is that of the minter's token -/
def mint (env : Env) (sender : Address) (t : UNounsToken) (seeds : Nat → Result Seed) :
    Result (UNounsToken × Nat) := do
  t.onlyMinter sender
  let t ← (
    if t.currentUNounId ≤ 1865 ∧ t.currentUNounId % 10 = 0 then t.mintNext env t.unoundersDAO seeds
    else pure t)
  let t ← (
    if t.currentUNounId ≤ 222 ∧ t.currentUNounId % 10 = 2 then t.mintNext env t.unouncilDAO seeds
    else pure t)
  let unounId := t.currentUNounId
  let t ← t.mintNext env t.minter seeds
  pure (t, unounId)

def burn (env : Env) (sender : Address) (t : UNounsToken) (unounId : Nat) : Result UNounsToken := do
  t.onlyMinter sender
  let t ← t.burnInternal env unounId
  pure (t.emit (.nounBurned unounId))

/-! ## administration -/

def setContractURIHash (sender : Address) (t : UNounsToken) (hash : String) :
    Result UNounsToken := do
  t.onlyOwner sender
  pure { t with contractURIHash := hash }

def setUNoundersDAO (sender : Address) (t : UNounsToken) (a : Address) : Result UNounsToken := do
  require (sender = t.unoundersDAO) "Sender is not the nounders DAO"
  pure ({ t with unoundersDAO := a }.emit (.noundersDAOUpdated a))

def setMinter (sender : Address) (t : UNounsToken) (a : Address) : Result UNounsToken := do
  t.onlyOwner sender
  require (t.isMinterLocked = false) "Minter is locked"
  pure ({ t with minter := a }.emit (.minterUpdated a))

def lockMinter (sender : Address) (t : UNounsToken) : Result UNounsToken := do
  t.onlyOwner sender
  require (t.isMinterLocked = false) "Minter is locked"
  pure ({ t with isMinterLocked := true }.emit .minterLocked)

def setDescriptor (sender : Address) (t : UNounsToken) (a : Address) : Result UNounsToken := do
  t.onlyOwner sender
  require (t.isDescriptorLocked = false) "Descriptor is locked"
  pure ({ t with descriptor := a }.emit (.descriptorUpdated a))

def lockDescriptor (sender : Address) (t : UNounsToken) : Result UNounsToken := do
  t.onlyOwner sender
  require (t.isDescriptorLocked = false) "Descriptor is locked"
  pure ({ t with isDescriptorLocked := true }.emit .descriptorLocked)

def setSeeder (sender : Address) (t : UNounsToken) (a : Address) : Result UNounsToken := do
  t.onlyOwner sender
  require (t.isSeederLocked = false) "Seeder is locked"
  pure ({ t with seeder := a }.emit (.seederUpdated a))

def lockSeeder (sender : Address) (t : UNounsToken) : Result UNounsToken := do
  t.onlyOwner sender
  require (t.isSeederLocked = false) "Seeder is locked"
  pure ({ t with isSeederLocked := true }.emit .seederLocked)

/-- `Ownable.transferOwnership` -/
def transferOwnership (sender : Address) (t : UNounsToken) (newOwner : Address) :
    Result UNounsToken := do
  t.onlyOwner sender
  require (newOwner ≠ 0) "Ownable: new owner is the zero address"
  pure ({ t with owner := newOwner }.emit (.ownershipTransferred t.owner newOwner))

/-- `Ownable.renounceOwnership` -/
def renounceOwnership (sender : Address) (t : UNounsToken) : Result UNounsToken := do
  t.onlyOwner sender
  pure ({ t with owner := 0 }.emit (.ownershipTransferred t.owner 0))

end UNounsToken

/-! ## entry points -/

inductive TokenOp where
  | approve (toAddr : Address) (tokenId : Nat)
  | setApprovalForAll (operator : Address) (approved : Bool)
  | transferFrom (fromAddr toAddr : Address) (tokenId : Nat)
  | safeTransferFrom (fromAddr toAddr : Address) (tokenId : Nat) (data : Bytes)
  | delegate (delegatee : Address)
  | delegateBySig (delegatee : Address) (nonce expiry : Nat) (sig : Signature)
  | mint (seeds : Nat → Result Seed)
  | burn (unounId : Nat)
  | setContractURIHash (hash : String)
  | setUNoundersDAO (a : Address)
  | setMinter (a : Address)
  | lockMinter
  | setDescriptor (a : Address)
  | lockDescriptor
  | setSeeder (a : Address)
  | lockSeeder
  | transferOwnership (newOwner : Address)
  | renounceOwnership

/-- the effect on the storage; for `safeTransferFrom` before the receiver is asked -/
def TokenOp.apply (P : Platform) (env : Env) (sender : Address) (t : UNounsToken) :
    TokenOp → Result UNounsToken
  | .approve a id => t.approve env sender a id
  | .setApprovalForAll a b => t.setApprovalForAll sender a b
  | .transferFrom a b id => t.transferFrom env sender a b id
  | .safeTransferFrom a b id _ => t.transferFrom env sender a b id
  | .delegate a => t.delegate env sender a
  | .delegateBySig a nonce expiry sig => t.delegateBySig P env a nonce expiry sig
  | .mint seeds => do let r ← t.mint env sender seeds; pure r.1
  | .burn id => t.burn env sender id
  | .setContractURIHash h => t.setContractURIHash sender h
  | .setUNoundersDAO a => t.setUNoundersDAO sender a
  | .setMinter a => t.setMinter sender a
  | .lockMinter => t.lockMinter sender
  | .setDescriptor a => t.setDescriptor sender a
  | .lockDescriptor => t.lockDescriptor sender
  | .setSeeder a => t.setSeeder sender a
  | .lockSeeder => t.lockSeeder sender
  | .transferOwnership a => t.transferOwnership sender a
  | .renounceOwnership => t.renounceOwnership sender

/-- `onERC721Received`: the reply is a success when the receiver has no code or returns the
selector -/
structure ReceiverCall where
  toAddr : Address
  operator : Address
  fromAddr : Address
  tokenId : Nat
  data : Bytes

/-- the receiver of a safe transfer, if there is one to ask -/
def TokenOp.receiver (sender : Address) : TokenOp → Option ReceiverCall
  | .safeTransferFrom a b id data => some ⟨b, sender, a, id, data⟩
  | _ => none

/-- after the receiver has been asked -/
def TokenOp.after (_ : ReceiverCall) (ok : Bool) (t : UNounsToken) : Result UNounsToken := do
  require (ok = true) "ERC721: transfer to non ERC721Receiver implementer"
  pure t

/-- a call of the token by anyone -/
structure TokenCall where
  msg : Msg
  op : TokenOp

def TokenCall.code (P : Platform) (env : Env) (c : TokenCall) (t : UNounsToken) :
    Code UNounsToken ReceiverCall Revert :=
  Code.once TokenOp.after ((c.op.apply P env c.msg.sender t).map (·, c.op.receiver c.msg.sender))

end UNouns
