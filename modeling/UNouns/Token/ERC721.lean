import UNouns.Token.Checkpointable

/-!
# ERC721: approvals, transfers, minting and burning
-/

namespace UNouns
namespace UNounsToken
open Function

/-- `_approve` -/
def approveInternal (t : UNounsToken) (toAddr : Address) (tokenId : Nat) : Result UNounsToken := do
  let t := { t with tokenApprovals := update t.tokenApprovals tokenId toAddr }
  let owner ← t.ownerOf tokenId
  pure (t.emit (.approval owner toAddr tokenId))

def approve (env : Env) (sender : Address) (t : UNounsToken) (toAddr : Address) (tokenId : Nat) :
    Result UNounsToken := do
  let owner ← t.ownerOf tokenId
  require (toAddr ≠ owner) "ERC721: approval to current owner"
  require (sender = owner ∨ t.isApprovedForAll env owner sender)
    "ERC721: approve caller is not owner nor approved for all"
  t.approveInternal toAddr tokenId

def setApprovalForAll (sender : Address) (t : UNounsToken) (operator : Address) (approved : Bool) :
    Result UNounsToken := do
  require (operator ≠ sender) "ERC721: approve to caller"
  let approvals := update (t.operatorApprovals sender) operator approved
  let t := { t with operatorApprovals := update t.operatorApprovals sender approvals }
  pure (t.emit (.approvalForAll sender operator approved))

/-- `_transfer` -/
def transferInternal (env : Env) (t : UNounsToken) (fromAddr toAddr : Address) (tokenId : Nat) :
    Result UNounsToken := do
  let owner ← t.ownerOf tokenId
  require (owner = fromAddr) "ERC721: transfer of token that is not own"
  require (toAddr ≠ 0) "ERC721: transfer to the zero address"
  let t ← t.beforeTokenTransfer env fromAddr toAddr tokenId
  let t ← t.approveInternal 0 tokenId
  let left ← checkedSub (t.balances fromAddr) 1
  let t := { t with balances := update t.balances fromAddr left }
  let t := { t with
    balances := update t.balances toAddr (t.balances toAddr + 1)
    owners := update t.owners tokenId toAddr }
  pure (t.emit (.transfer fromAddr toAddr tokenId))

/-- `transferFrom`, and what `safeTransferFrom` does before it notifies the receiver -/
def transferFrom (env : Env) (sender : Address) (t : UNounsToken) (fromAddr toAddr : Address)
    (tokenId : Nat) : Result UNounsToken := do
  let allowed ← t.isApprovedOrOwner env sender tokenId
  require (allowed = true) "ERC721: transfer caller is not owner nor approved"
  t.transferInternal env fromAddr toAddr tokenId

/-- `_mint` -/
def mintInternal (env : Env) (t : UNounsToken) (creator toAddr : Address) (tokenId : Nat) :
    Result UNounsToken := do
  require (toAddr ≠ 0) "ERC721: mint to the zero address"
  require (t.owners tokenId = 0) "ERC721: token already minted"
  let t ← t.beforeTokenTransfer env 0 toAddr tokenId
  let t := { t with
    balances := update t.balances toAddr (t.balances toAddr + 1)
    owners := update t.owners tokenId toAddr }
  pure ((t.emit (.transfer 0 creator tokenId)).emit (.transfer creator toAddr tokenId))

/-- `_burn` -/
def burnInternal (env : Env) (t : UNounsToken) (tokenId : Nat) : Result UNounsToken := do
  let owner ← t.ownerOf tokenId
  let t ← t.beforeTokenTransfer env owner 0 tokenId
  let t ← t.approveInternal 0 tokenId
  let left ← checkedSub (t.balances owner) 1
  let t := { t with
    balances := update t.balances owner left
    owners := update t.owners tokenId 0 }
  pure (t.emit (.transfer owner 0 tokenId))

end UNounsToken
end UNouns
