import UNouns.Auction.House
import UNouns.Token.UNounsToken

/-!
# Auction house and token together

The house as a system with the token that it sells.  It calls the token from within its own
functions, and foreign code where it pays ether (`safeTransferETHWithFallback`).  Anyone but the
house may call either contract, also while the house waits for a payment to come back.
-/

namespace UNouns
open Function Reentrant NounsAuctionHouse

structure AuctionWorld where
  house : NounsAuctionHouse
  token : UNounsToken

/-- the owner's functions that change the house alone -/
inductive OwnerOp where
  | pause
  | finishNounsDAOTreasuryShare
  | setTimeBuffer (timeBuffer : Nat)
  | setReservePrice (reservePrice : Nat)
  | setMinBidIncrementPercentage (minBidIncrementPercentage : UInt8)
  | transferOwnership (newOwner : Address)
  | renounceOwnership

/-- `seeds` is what the seeder answers to the mint of a new auction -/
inductive AuctionOp where
  | token (op : TokenOp)
  | createBid (unounId : Nat)
  | settleAuction
  | settleCurrentAndCreateNewAuction (seeds : Nat → Result Seed)
  | unpause (seeds : Nat → Result Seed)
  | admin (op : OwnerOp)
  /-- the initializer, once more -/
  | initializeAgain
  /-- ether that no function of the house was called with (`selfdestruct`) -/
  | forced

/-- a call from outside: the house calls the token as its own functions say, and what it sends to
others has no call data -/
structure AuctionCall (P : Platform) where
  msg : Msg
  op : AuctionOp
  outside : msg.sender ≠ P.house

/-- the calls to code that is not modelled -/
inductive AuctionExternal where
  /-- `to.call{value: amount, gas: 30_000}("")` -/
  | pay (p : Payment)
  | receiver (x : ReceiverCall)

/-- the code of an entry of the house, or of a part of it -/
abbrev AuctionCode := Code AuctionWorld AuctionExternal Revert

namespace AuctionWorld

def withHouse (w : AuctionWorld) (h : NounsAuctionHouse) : AuctionWorld := { w with house := h }

def withToken (w : AuctionWorld) (t : UNounsToken) : AuctionWorld := { w with token := t }

/-! ## payments -/

/-- the payment has left, as ether or as WETH -/
def recordSent (w : AuctionWorld) (p : Payment) (asWeth : Bool) : AuctionWorld :=
  w.withHouse { w.house with sent := w.house.sent ++ [⟨p, asWeth⟩] }

/-- `_safeTransferETHWithFallback`: what the receiver refuses goes to it as WETH, and so the ether
leaves in any case; without the ether for it neither way is open -/
def safeTransferETHWithFallback (w : AuctionWorld) (p : Payment) (next : AuctionWorld → AuctionCode) :
    AuctionCode :=
  if p.amount ≤ w.house.balance then
    .call (.pay p) (w.withHouse { w.house with balance := w.house.balance - p.amount })
      fun ok w => next (w.recordSent p (!ok))
  else .revert .empty

/-! ## bids and auctions -/

def createBid (env : Env) (msg : Msg) (w : AuctionWorld) (unounId : Nat) : AuctionCode :=
  let a := w.house.auction
  let finish := fun w : AuctionWorld => Code.ofExcept ((w.house.endBid env msg a).map w.withHouse)
  match w.house.beginBid env msg unounId with
  | .error e => .revert e
  | .ok h =>
    if a.bidder ≠ 0 then
      (w.withHouse h).safeTransferETHWithFallback ⟨a.bidder, a.amount⟩ finish
    else finish (w.withHouse h)

/-- `_createAuction`: only an `Error(string)` of the mint is caught -/
def createAuction (P : Platform) (env : Env) (msg : Msg) (w : AuctionWorld)
    (seeds : Nat → Result Seed) : Result AuctionWorld :=
  match w.token.mint env P.house seeds with
  | .ok (t, unounId) => do
    let h ← w.house.newAuction env unounId
    pure ⟨h, t⟩
  | .error (.error _) => do
    let h ← w.house.pauseInternal msg.sender
    pure (w.withHouse h)
  | .error e => .error e

/-- `_settleAuction` up to the payment -/
def handOver (P : Platform) (env : Env) (w : AuctionWorld) : Result AuctionWorld := do
  let a := w.house.auction
  let h ← w.house.beginSettle env
  let t ← w.token.transferFrom env P.house P.house (h.recipient a) a.unounId
  pure ⟨h, t⟩

/-- `_settleAuction`, and what is done after it -/
def settleAuctionInternal (P : Platform) (env : Env) (w : AuctionWorld)
    (next : AuctionWorld → AuctionCode) : AuctionCode :=
  let a := w.house.auction
  let finish := fun w : AuctionWorld => next (w.withHouse (w.house.endSettle a))
  match w.handOver P env with
  | .error e => .revert e
  | .ok w =>
    if 0 < a.amount then w.safeTransferETHWithFallback ⟨w.house.payee env a, a.amount⟩ finish
    else finish w

def settleAuction (P : Platform) (env : Env) (w : AuctionWorld) : AuctionCode :=
  match (do w.house.whenPaused; w.house.enter) with
  | .error e => .revert e
  | .ok h => (w.withHouse h).settleAuctionInternal P env fun w => .done (w.withHouse w.house.leave)

def settleCurrentAndCreateNewAuction (P : Platform) (env : Env) (msg : Msg) (w : AuctionWorld)
    (seeds : Nat → Result Seed) : AuctionCode :=
  match (do let h ← w.house.enter; h.whenNotPaused; pure h) with
  | .error e => .revert e
  | .ok h => (w.withHouse h).settleAuctionInternal P env fun w =>
    Code.ofExcept ((w.createAuction P env msg seeds).map fun w => w.withHouse w.house.leave)

def unpause (P : Platform) (env : Env) (msg : Msg) (w : AuctionWorld) (seeds : Nat → Result Seed) :
    Result AuctionWorld := do
  let h ← w.house.beginUnpause msg.sender
  if h.auction.startTime = 0 ∨ h.auction.settled = true then
    (w.withHouse h).createAuction P env msg seeds
  else pure (w.withHouse h)

end AuctionWorld

/-! ## entries -/

def OwnerOp.apply (sender : Address) (h : NounsAuctionHouse) : OwnerOp → Result NounsAuctionHouse
  | .pause => h.pause sender
  | .finishNounsDAOTreasuryShare => h.finishNounsDAOTreasuryShare sender
  | .setTimeBuffer n => h.setTimeBuffer sender n
  | .setReservePrice n => h.setReservePrice sender n
  | .setMinBidIncrementPercentage n => h.setMinBidIncrementPercentage sender n
  | .transferOwnership a => h.transferOwnership sender a
  | .renounceOwnership => h.renounceOwnership sender

/-- after the receiver of a token has been asked -/
def AuctionExternal.after (x : AuctionExternal) (ok : Bool) (w : AuctionWorld) :
    Result AuctionWorld :=
  match x with
  | .receiver x => (TokenOp.after x ok w.token).map w.withToken
  | .pay _ => .ok w

def AuctionCall.code {P : Platform} (env : Env) (c : AuctionCall P) (w : AuctionWorld) :
    AuctionCode :=
  match c.op with
  | .token op => Code.once AuctionExternal.after ((op.apply P env c.msg.sender w.token).map
      (fun t => (w.withToken t, (op.receiver c.msg.sender).map .receiver)))
  | .createBid id => w.createBid env c.msg id
  | .settleAuction => w.settleAuction P env
  | .settleCurrentAndCreateNewAuction seeds =>
    w.settleCurrentAndCreateNewAuction P env c.msg seeds
  | .unpause seeds => Code.ofExcept (w.unpause P env c.msg seeds)
  | .admin op => Code.ofExcept ((op.apply c.msg.sender w.house).map w.withHouse)
  | .initializeAgain => .revert (.error "Initializable: contract is already initialized")
  | .forced => .done (w.withHouse { w.house with balance := w.house.balance + c.msg.value })

abbrev AuctionRecord (P : Platform) := Record Env AuctionWorld (AuctionCall P)
abbrev AuctionConfig (P : Platform) := Config Env AuctionWorld (AuctionCall P)

/-! ## deployment -/

/-- who deploys the house, with what; the token may have been in use before -/
structure AuctionSetup where
  deployer : Address
  nouns : Address
  weth : Address
  nounsDAOTreasury : Address
  halloffame : Address
  timeBuffer : Nat
  proceedsShareEndTime : Nat
  reservePrice : Nat
  minBidIncrementPercentage : UInt8
  duration : Nat
  token : UNounsToken

def AuctionSetup.deploy (s : AuctionSetup) : Result AuctionWorld := do
  let house ← NounsAuctionHouse.deploy s.deployer s.nouns s.weth s.nounsDAOTreasury s.halloffame
    s.timeBuffer s.proceedsShareEndTime s.reservePrice s.minBidIncrementPercentage s.duration
  pure ⟨house, s.token⟩

end UNouns
