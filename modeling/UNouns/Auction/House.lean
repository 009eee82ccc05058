import UNouns.Evm.Basic

/-!
# NounsAuctionHouse

The storage of the auction house, and its functions cut where they call other code.  There is one
auction at a time.  A house exists once its `initialize` has run (`deploy`), which it does only once.

`sent` is no storage of the contract: it lists the transfers made so far, in the order in which they
were completed.
-/

namespace UNouns
open Function

structure Auction where
  unounId : Nat
  amount : Nat
  startTime : Nat
  endTime : Nat
  bidder : Address
  settled : Bool
  deriving DecidableEq

inductive HouseEvent where
  | auctionCreated (unounId startTime endTime : Nat)
  | auctionBid (unounId : Nat) (sender : Address) (value : Nat) (extended : Bool)
  | auctionExtended (unounId endTime : Nat)
  | auctionSettled (unounId : Nat) (winner : Address) (amount : Nat)
  | auctionTimeBufferUpdated (timeBuffer : Nat)
  | auctionReservePriceUpdated (reservePrice : Nat)
  | auctionMinBidIncrementPercentageUpdated (minBidIncrementPercentage : UInt8)
  | paused (account : Address)
  | unpaused (account : Address)
  | ownershipTransferred (previousOwner newOwner : Address)
  deriving DecidableEq

/-- a payment that was made, as ether or as WETH -/
structure Transfer where
  payment : Payment
  asWeth : Bool
  deriving DecidableEq

structure NounsAuctionHouse where
  -- Pausable, ReentrancyGuard, Ownable
  paused : Bool
  entered : Bool
  owner : Address
  nouns : Address
  weth : Address
  nounsDAOTreasury : Address
  halloffame : Address
  timeBuffer : Nat
  proceedsShareEndTime : Nat
  reservePrice : Nat
  minBidIncrementPercentage : UInt8
  duration : Nat
  auction : Auction
  /-- the ether of the contract -/
  balance : Nat
  sent : List Transfer
  logs : List HouseEvent
  deriving DecidableEq

namespace NounsAuctionHouse

def emit (h : NounsAuctionHouse) (e : HouseEvent) : NounsAuctionHouse :=
  { h with logs := h.logs ++ [e] }

/-- a fresh proxy, with the call of `initialize` -/
def deploy (sender nouns weth nounsDAOTreasury halloffame : Address)
    (timeBuffer proceedsShareEndTime reservePrice : Nat) (minBidIncrementPercentage : UInt8)
    (duration : Nat) : Result NounsAuctionHouse := do
  require (nounsDAOTreasury ≠ 0 ∧ halloffame ≠ 0 ∧ weth ≠ 0) "ZERO ADDRESS"
  require (0 < reservePrice) "Reserve price is zero"
  require (minBidIncrementPercentage ≤ 100) "Min bid increment percentange too high"
  pure {
    paused := true
    entered := false
    owner := sender
    nouns := nouns
    weth := weth
    nounsDAOTreasury := nounsDAOTreasury
    halloffame := halloffame
    timeBuffer := timeBuffer
    proceedsShareEndTime := proceedsShareEndTime
    reservePrice := reservePrice
    minBidIncrementPercentage := minBidIncrementPercentage
    duration := duration
    auction := ⟨0, 0, 0, 0, 0, false⟩
    balance := 0
    sent := []
    logs := [.ownershipTransferred 0 sender, .paused sender] }

/-! ## modifiers -/

def onlyOwner (h : NounsAuctionHouse) (sender : Address) : Result Unit :=
  require (h.owner = sender) "Ownable: caller is not the owner"

def whenNotPaused (h : NounsAuctionHouse) : Result Unit :=
  require (h.paused = false) "Pausable: paused"

def whenPaused (h : NounsAuctionHouse) : Result Unit :=
  require (h.paused = true) "Pausable: not paused"

/-- `nonReentrant`, at the beginning of a function -/
def enter (h : NounsAuctionHouse) : Result NounsAuctionHouse := do
  require (h.entered = false) "ReentrancyGuard: reentrant call"
  pure { h with entered := true }

/-- `nonReentrant`, at its end -/
def leave (h : NounsAuctionHouse) : NounsAuctionHouse := { h with entered := false }

/-! ## bids -/

def checkBid (env : Env) (value : Nat) (h : NounsAuctionHouse) (unounId : Nat) : Result Unit := do
  require (h.auction.unounId = unounId) "Noun not up for auction"
  require (env.timestamp < h.auction.endTime) "Auction expired"
  require (h.reservePrice ≤ value) "Must send at least reservePrice"
  require (h.auction.amount + h.auction.amount * h.minBidIncrementPercentage.toNat / 100 ≤ value)
    "Must send more than last bid by minBidIncrementPercentage amount"

/-- `createBid` up to the refund; the ether is there before any check -/
def beginBid (env : Env) (msg : Msg) (h : NounsAuctionHouse) (unounId : Nat) :
    Result NounsAuctionHouse := do
  let h ← { h with balance := h.balance + msg.value }.enter
  h.checkBid env msg.value unounId
  pure h

/-- `createBid` after the refund; `a` is the auction as it was before -/
def endBid (env : Env) (msg : Msg) (a : Auction) (h : NounsAuctionHouse) :
    Result NounsAuctionHouse := do
  let extended := decide (a.endTime - env.timestamp < h.timeBuffer)
  let endTime ← (
    if extended then checkedAdd env.timestamp h.timeBuffer else pure h.auction.endTime)
  let auction := { h.auction with amount := msg.value, bidder := msg.sender, endTime := endTime }
  let h := { h with auction := auction }.emit (.auctionBid a.unounId msg.sender msg.value extended)
  pure (if extended then h.emit (.auctionExtended a.unounId endTime) else h).leave

/-! ## auctions -/

/-- an auction of the token just minted -/
def newAuction (env : Env) (h : NounsAuctionHouse) (unounId : Nat) : Result NounsAuctionHouse := do
  let endTime ← checkedAdd env.timestamp h.duration
  pure ({ h with auction := ⟨unounId, 0, env.timestamp, endTime, 0, false⟩ }.emit
    (.auctionCreated unounId env.timestamp endTime))

/-- `_settleAuction` up to the transfer of the token -/
def beginSettle (env : Env) (h : NounsAuctionHouse) : Result NounsAuctionHouse := do
  require (h.auction.startTime ≠ 0) "Auction hasn't begun"
  require (h.auction.settled = false) "Auction has already been settled"
  require (h.auction.endTime ≤ env.timestamp) "Auction hasn't completed"
  pure { h with auction := { h.auction with settled := true } }

/-- who gets the token -/
def recipient (h : NounsAuctionHouse) (a : Auction) : Address :=
  if a.bidder = 0 then h.halloffame else a.bidder

/-- who gets the proceeds -/
def payee (env : Env) (h : NounsAuctionHouse) (a : Auction) : Address :=
  if env.timestamp < h.proceedsShareEndTime then
    if a.unounId % 100 = 88 then h.nounsDAOTreasury else h.owner
  else h.owner

def endSettle (a : Auction) (h : NounsAuctionHouse) : NounsAuctionHouse :=
  h.emit (.auctionSettled a.unounId (h.recipient a) a.amount)

/-! ## pausing and administration -/

/-- `_pause` -/
def pauseInternal (sender : Address) (h : NounsAuctionHouse) : Result NounsAuctionHouse := do
  h.whenNotPaused
  pure ({ h with paused := true }.emit (.paused sender))

/-- `_unpause` -/
def unpauseInternal (sender : Address) (h : NounsAuctionHouse) : Result NounsAuctionHouse := do
  h.whenPaused
  pure ({ h with paused := false }.emit (.unpaused sender))

def pause (sender : Address) (h : NounsAuctionHouse) : Result NounsAuctionHouse := do
  h.onlyOwner sender
  h.pauseInternal sender

/-- `unpause` up to the new auction -/
def beginUnpause (sender : Address) (h : NounsAuctionHouse) : Result NounsAuctionHouse := do
  h.onlyOwner sender
  h.unpauseInternal sender

def finishNounsDAOTreasuryShare (sender : Address) (h : NounsAuctionHouse) :
    Result NounsAuctionHouse := do
  h.onlyOwner sender
  pure { h with proceedsShareEndTime := 0 }

def setTimeBuffer (sender : Address) (h : NounsAuctionHouse) (timeBuffer : Nat) :
    Result NounsAuctionHouse := do
  h.onlyOwner sender
  pure ({ h with timeBuffer := timeBuffer }.emit (.auctionTimeBufferUpdated timeBuffer))

def setReservePrice (sender : Address) (h : NounsAuctionHouse) (reservePrice : Nat) :
    Result NounsAuctionHouse := do
  h.onlyOwner sender
  pure ({ h with reservePrice := reservePrice }.emit (.auctionReservePriceUpdated reservePrice))

def setMinBidIncrementPercentage (sender : Address) (h : NounsAuctionHouse)
    (minBidIncrementPercentage : UInt8) : Result NounsAuctionHouse := do
  h.onlyOwner sender
  pure ({ h with minBidIncrementPercentage := minBidIncrementPercentage }.emit
    (.auctionMinBidIncrementPercentageUpdated minBidIncrementPercentage))

/-- `Ownable.transferOwnership` -/
def transferOwnership (sender : Address) (h : NounsAuctionHouse) (newOwner : Address) :
    Result NounsAuctionHouse := do
  h.onlyOwner sender
  require (newOwner ≠ 0) "Ownable: new owner is the zero address"
  pure ({ h with owner := newOwner }.emit (.ownershipTransferred h.owner newOwner))

/-- `Ownable.renounceOwnership` -/
def renounceOwnership (sender : Address) (h : NounsAuctionHouse) : Result NounsAuctionHouse := do
  h.onlyOwner sender
  pure ({ h with owner := 0 }.emit (.ownershipTransferred h.owner 0))

end NounsAuctionHouse
end UNouns
