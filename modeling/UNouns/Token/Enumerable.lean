import UNouns.Token.Storage

/-!
# ERC721Enumerable: the hook that keeps the token lists
-/

namespace UNouns
namespace UNounsToken
open Function

def addTokenToOwnerEnumeration (t : UNounsToken) (toAddr : Address) (tokenId : Nat) :
    Result UNounsToken := do
  let length ← t.balanceOf toAddr
  pure { t with
    ownedTokens := update t.ownedTokens toAddr (update (t.ownedTokens toAddr) length tokenId)
    ownedTokensIndex := update t.ownedTokensIndex tokenId length }

def addTokenToAllTokensEnumeration (t : UNounsToken) (tokenId : Nat) : UNounsToken :=
  { t with
    allTokensIndex := update t.allTokensIndex tokenId t.allTokens.length
    allTokens := t.allTokens ++ [tokenId] }

/-- the last token takes the slot of the removed one -/
def removeTokenFromOwnerEnumeration (t : UNounsToken) (fromAddr : Address) (tokenId : Nat) :
    Result UNounsToken := do
  let balance ← t.balanceOf fromAddr
  let lastTokenIndex ← checkedSub balance 1
  let tokenIndex := t.ownedTokensIndex tokenId
  let t :=
    if tokenIndex ≠ lastTokenIndex then
      let lastTokenId := t.ownedTokens fromAddr lastTokenIndex
      { t with
        ownedTokens :=
          update t.ownedTokens fromAddr (update (t.ownedTokens fromAddr) tokenIndex lastTokenId)
        ownedTokensIndex := update t.ownedTokensIndex lastTokenId tokenIndex }
    else t
  pure { t with
    ownedTokensIndex := update t.ownedTokensIndex tokenId 0
    ownedTokens := update t.ownedTokens fromAddr (update (t.ownedTokens fromAddr) lastTokenIndex 0) }

/-- the last token takes the slot of the removed one; both slots are bounds-checked -/
def removeTokenFromAllTokensEnumeration (t : UNounsToken) (tokenId : Nat) :
    Result UNounsToken := do
  let lastTokenIndex ← checkedSub t.allTokens.length 1
  let tokenIndex := t.allTokensIndex tokenId
  let lastTokenId := t.allTokens.getD lastTokenIndex 0
  revertUnless (tokenIndex < t.allTokens.length) (.panic 0x32)
  pure { t with
    allTokens := (t.allTokens.set tokenIndex lastTokenId).dropLast
    allTokensIndex := update (update t.allTokensIndex lastTokenId tokenIndex) tokenId 0 }

/-- `ERC721Enumerable._beforeTokenTransfer` -/
def enumerateTransfer (t : UNounsToken) (fromAddr toAddr : Address) (tokenId : Nat) :
    Result UNounsToken := do
  let t ← (
    if fromAddr = 0 then pure (t.addTokenToAllTokensEnumeration tokenId)
    else if fromAddr ≠ toAddr then t.removeTokenFromOwnerEnumeration fromAddr tokenId
    else pure t)
  if toAddr = 0 then t.removeTokenFromAllTokensEnumeration tokenId
  else if toAddr ≠ fromAddr then t.addTokenToOwnerEnumeration toAddr tokenId
  else pure t

end UNounsToken
end UNouns
