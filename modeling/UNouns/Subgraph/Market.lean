import UNouns.Auction.Escrow
import UNouns.Lib.Files
import UNouns.Subgraph.Books

/-!
# The mapping of the auction house, and what is kept of its history

One definition for each handler of `nouns-auction-house.ts`.  A transfer is kept under the hash of its
transaction and the token, a bid under the hash of its transaction.

* `Market`                 the store with auctions and bids;
* `TransferEvent.of`       what is kept of a transfer, and `Market.bidOf` of a bid that finds its auction;
* `archived_read`          there is one file for each key.
-/

set_option linter.unusedVariables false

namespace UNouns.Subgraph
open Function Files

/-! ## the mapping -/

structure AuctionEntity where
  id : Nat
  noun : Nat
  amount : Nat
  startTime : Nat
  endTime : Nat
  bidder : Option Address
  settled : Bool

structure Bid where
  id : BitVec 256
  noun : Nat
  amount : Nat
  bidder : Address
  blockNumber : Nat
  txIndex : Nat
  auction : Nat
  blockTimestamp : Nat

structure Market where
  store : Store
  auctions : Nat → Option AuctionEntity
  bids : BitVec 256 → Option Bid

namespace Market

def empty : Market := ⟨.empty, fun _ => none, fun _ => none⟩

def saveAuction (m : Market) (a : AuctionEntity) : Market :=
  { m with auctions := update m.auctions a.id (some a) }

def saveBid (m : Market) (b : Bid) : Market := { m with bids := update m.bids b.id (some b) }

end Market

section
variable {V : Type}

def handleAuctionCreated (m : Market) (e : Event V) (unounId startTime endTime : Nat) : Market :=
  match m.store.nouns unounId with
  | none => m
  | some noun => m.saveAuction ⟨unounId, noun.id, 0, startTime, endTime, none, false⟩

/-- `txIndex` is the index of the transaction in its block -/
def handleAuctionBid (m : Market) (e : Event V) (txIndex unounId : Nat) (sender : Address)
    (value : Nat) : Market :=
  let r := m.store.getOrCreateAccount sender
  let bidder := r.1
  let m := { m with store := r.2 }
  match m.auctions unounId with
  | none => m
  | some auction =>
    let auction := { auction with amount := value, bidder := some bidder.id }
    (m.saveAuction auction).saveBid
      { id := e.transactionHash
        bidder := bidder.id
        amount := auction.amount
        noun := auction.noun
        txIndex := txIndex
        blockNumber := e.block.number
        blockTimestamp := e.block.timestamp
        auction := auction.id }

def handleAuctionExtended (m : Market) (e : Event V) (unounId endTime : Nat) : Market :=
  match m.auctions unounId with
  | none => m
  | some auction => m.saveAuction { auction with endTime := endTime }

def handleAuctionSettled (m : Market) (e : Event V) (unounId : Nat) : Market :=
  match m.auctions unounId with
  | none => m
  | some auction => m.saveAuction { auction with settled := true }

/-- the events of the auction house that the subgraph subscribes to -/
def handleHouseEvent (m : Market) (e : Event V) (txIndex : Nat) : HouseEvent → Market
  | .auctionCreated unounId startTime endTime => handleAuctionCreated m e unounId startTime endTime
  | .auctionBid unounId sender value _ => handleAuctionBid m e txIndex unounId sender value
  | .auctionExtended unounId endTime => handleAuctionExtended m e unounId endTime
  | .auctionSettled unounId _ _ => handleAuctionSettled m e unounId
  | _ => m

end

/-- the events of the two contracts, those of the house with the index of their transaction -/
inductive MarketEvent where
  | token (v : TokenEvent)
  | house (v : HouseEvent) (txIndex : Nat)

def handleMarketEvent (m : Market) (e : Event MarketEvent) : Market :=
  match e.params with
  | .token v => { m with store := handleTokenEvent m.store e v }
  | .house v txIndex => handleHouseEvent m e txIndex v

def Market.read (m : Market) (es : List (Event MarketEvent)) : Market := es.foldl handleMarketEvent m

/-! ## transfers -/

/-- what is kept of a transfer -/
def TransferEvent.of (e : Event MarketEvent) : Option TransferEvent :=
  match e.params with
  | .token (.transfer fromAddr toAddr tokenId) => some
    { id := (e.transactionHash, tokenId)
      noun := tokenId
      previousHolder := fromAddr
      newHolder := toAddr
      blockNumber := e.block.number
      blockTimestamp := e.block.timestamp }
  | _ => none

section
variable {V : Type}

theorem handleTransfer_history {s : Store} (hk : s.Keyed) (e : Event V) (src dst : Address) (id : Nat) :
    (handleTransfer s e src dst id).transferEvents = update s.transferEvents (e.transactionHash, id)
      (some ⟨(e.transactionHash, id), id, src, dst, e.block.number, e.block.timestamp⟩) := by
  have hsame := ((s.getOrCreateAccount_files src).trans
    (Store.getOrCreateAccount_files _ dst)).transferEvents
  have hk1 := (Store.getOrCreateAccount_snd hk src).2.1
  have hsrc : (s.getOrCreateAccount src).1.id = src := by
    rw [s.getOrCreateAccount_fst, hk.new_account]
  have hdst : ((s.getOrCreateAccount src).2.getOrCreateAccount dst).1.id = dst := by
    rw [Store.getOrCreateAccount_fst, hk1.new_account]
  unfold handleTransfer
  simp only
  rw [(transferToHolder_files _ e _ dst id).transferEvents,
    (transferFromHolder_files _ _ _ src id).transferEvents, hsrc, hdst, ← hsame]
  rfl

end

/-- **The files of transfers** change with a transfer only. -/
theorem handleTokenEvent_history {s : Store} (hk : s.Keyed) {e : Event MarketEvent} {v : TokenEvent}
    (he : e.params = .token v) : (handleTokenEvent s e v).transferEvents
      = put TransferEvent.id s.transferEvents (TransferEvent.of e) := by
  unfold TransferEvent.of
  rw [he]
  cases v with
  | transfer src dst id => exact handleTransfer_history hk e src dst id
  | delegateChanged a b c => exact (handleDelegateChanged_files s e a b c).transferEvents
  | nounCreated id seed => exact (handleNounCreated_files s e id seed).transferEvents
  | delegateVotesChanged d n m => exact (s.getOrCreateDelegate_files d).transferEvents
  | _ => rfl

/-! ## bids -/

/-- what is kept of a bid -/
def Bid.of (e : Event MarketEvent) : Option Bid :=
  match e.params with
  | .house (.auctionBid unounId sender value _) txIndex => some
    { id := e.transactionHash
      noun := unounId
      amount := value
      bidder := sender
      blockNumber := e.block.number
      txIndex := txIndex
      auction := unounId
      blockTimestamp := e.block.timestamp }
  | _ => none

/-- a bid that finds its auction -/
def Market.bidOf (m : Market) (e : Event MarketEvent) : Option Bid :=
  (Bid.of e).filter fun b => (m.auctions b.auction).isSome

def Market.bidsOf : Market → List (Event MarketEvent) → List Bid
  | _, [] => []
  | m, e :: es => (m.bidOf e).toList ++ (handleMarketEvent m e).bidsOf es

theorem Market.bidsOf_append (es fs : List (Event MarketEvent)) :
    ∀ m : Market, m.bidsOf (es ++ fs) = m.bidsOf es ++ (m.read es).bidsOf fs := by
  induction es with
  | nil => exact fun m => rfl
  | cons e es ih =>
    intro m
    show (m.bidOf e).toList ++ (handleMarketEvent m e).bidsOf (es ++ fs) = _
    rw [ih, ← List.append_assoc]
    rfl

/-- accounts, nouns and auctions are kept under their ids -/
structure Market.Keyed (m : Market) : Prop where
  store : m.store.Keyed
  auction : ∀ id a, m.auctions id = some a → a.id = id ∧ a.noun = id

theorem Market.Keyed.saveAuction {m : Market} (hm : m.Keyed) {a : AuctionEntity} (ha : a.noun = a.id) :
    (m.saveAuction a).Keyed := by
  refine ⟨hm.store, fun id b hb => ?_⟩
  have hb' : update m.auctions a.id (some a) id = some b := hb
  by_cases e : id = a.id
  · rw [e, update_self] at hb'
    obtain rfl := Option.some.inj hb'
    exact ⟨e.symm, ha.trans e.symm⟩
  · rw [update_of_ne e] at hb'
    exact hm.auction id b hb'

/-- what leaves the history alone -/
structure Market.SameHistory (m m' : Market) : Prop where
  keyed : m'.Keyed
  transfers : m'.store.transferEvents = m.store.transferEvents
  bids : m'.bids = m.bids

section
variable {V : Type} {m : Market} (hm : m.Keyed) (e : Event V) (unounId : Nat)
include hm

theorem handleAuctionCreated_history (startTime endTime : Nat) :
    m.SameHistory (handleAuctionCreated m e unounId startTime endTime) := by
  unfold handleAuctionCreated
  cases hn : m.store.nouns unounId with
  | none => exact ⟨hm, rfl, rfl⟩
  | some noun => exact ⟨hm.saveAuction (hm.store.noun unounId noun hn), rfl, rfl⟩

/-- an auction that is loaded and saved -/
theorem Market.Keyed.resave {a : AuctionEntity} (a' : AuctionEntity)
    (ha : m.auctions unounId = some a) (hid : a'.id = a.id) (hnoun : a'.noun = a.noun) : (m.saveAuction a').Keyed := by
  obtain ⟨h1, h2⟩ := hm.auction unounId a ha
  exact hm.saveAuction (by rw [hnoun, hid, h1, h2])

theorem handleAuctionExtended_history (endTime : Nat) :
    m.SameHistory (handleAuctionExtended m e unounId endTime) := by
  unfold handleAuctionExtended
  cases ha : m.auctions unounId with
  | none => exact ⟨hm, rfl, rfl⟩
  | some a => exact ⟨hm.resave unounId _ ha rfl rfl, rfl, rfl⟩

theorem handleAuctionSettled_history : m.SameHistory (handleAuctionSettled m e unounId) := by
  unfold handleAuctionSettled
  cases ha : m.auctions unounId with
  | none => exact ⟨hm, rfl, rfl⟩
  | some a => exact ⟨hm.resave unounId _ ha rfl rfl, rfl, rfl⟩

theorem handleAuctionBid_history (txIndex : Nat) (sender : Address) (value : Nat) :
    let m' := handleAuctionBid m e txIndex unounId sender value
    m'.Keyed ∧ m'.store.transferEvents = m.store.transferEvents ∧
      m'.bids = if (m.auctions unounId).isSome then update m.bids e.transactionHash
        (some ⟨e.transactionHash, unounId, value, sender, e.block.number, txIndex, unounId,
          e.block.timestamp⟩)
        else m.bids := by
  have hsame := (m.store.getOrCreateAccount_files sender).transferEvents
  have hm' : Market.Keyed { m with store := (m.store.getOrCreateAccount sender).2 } :=
    ⟨(Store.getOrCreateAccount_snd hm.store sender).2.1, hm.auction⟩
  have hsender : (m.store.getOrCreateAccount sender).1.id = sender := by
    rw [m.store.getOrCreateAccount_fst, hm.store.new_account]
  unfold handleAuctionBid
  cases ha : m.auctions unounId with
  | none =>
    simp only [ha]
    exact ⟨hm', hsame, rfl⟩
  | some a =>
    simp only [ha]
    obtain ⟨h1, h2⟩ := hm.auction unounId a ha
    have hs := hm'.resave unounId ({ a with
      amount := value, bidder := some (m.store.getOrCreateAccount sender).1.id }) ha rfl rfl
    refine ⟨⟨hs.store, hs.auction⟩, hsame, ?_⟩
    rw [hsender, h1, h2]
    rfl

end

/-- **The files of bids** change with a bid that finds its auction only. -/
theorem handleHouseEvent_history {m : Market} (hm : m.Keyed) {e : Event MarketEvent} {v : HouseEvent}
    {txIndex : Nat} (he : e.params = .house v txIndex) : (handleHouseEvent m e txIndex v).Keyed ∧
      (handleHouseEvent m e txIndex v).store.transferEvents = m.store.transferEvents ∧
      (handleHouseEvent m e txIndex v).bids = put Bid.id m.bids (m.bidOf e) := by
  have hquiet : ∀ m' : Market, m.SameHistory m' → Bid.of e = none → m'.Keyed ∧
      m'.store.transferEvents = m.store.transferEvents ∧
      m'.bids = put Bid.id m.bids (m.bidOf e) := fun m' h hn => by
    unfold Market.bidOf
    rw [hn]
    exact ⟨h.keyed, h.transfers, h.bids⟩
  have hof : Bid.of e = Bid.of ⟨.house v txIndex, e.block, e.transactionHash⟩ := by rw [← he]
  cases v with
  | auctionCreated id startTime endTime =>
    exact hquiet _ (handleAuctionCreated_history hm e id startTime endTime) hof
  | auctionBid id sender value extended =>
    obtain ⟨h1, h2, h3⟩ := handleAuctionBid_history hm e id txIndex sender value
    refine ⟨h1, h2, h3.trans ?_⟩
    unfold Market.bidOf
    rw [hof]
    simp only [Bid.of, Option.filter_some]
    split_ifs <;> rfl
  | auctionExtended id endTime => exact hquiet _ (handleAuctionExtended_history hm e id endTime) hof
  | auctionSettled id winner amount => exact hquiet _ (handleAuctionSettled_history hm e id) hof
  | _ => exact hquiet m ⟨hm, rfl, rfl⟩ hof

/-! ## reading -/

/-- a store after some events: one file for each key -/
structure Archived (es : List (Event MarketEvent)) (m : Market) : Prop where
  keyed : m.Keyed
  transfers : m.store.transferEvents = file TransferEvent.id (es.filterMap TransferEvent.of)
  bids : m.bids = file Bid.id (Market.empty.bidsOf es)

theorem archived_read (es : List (Event MarketEvent)) : Archived es (Market.empty.read es) := by
  induction es using List.reverseRecOn with
  | nil => exact ⟨⟨⟨fun _ _ h => (nomatch h), fun _ _ h => (nomatch h)⟩, fun _ _ h => (nomatch h)⟩, rfl, rfl⟩
  | append_singleton es e ih =>
    have hread : Market.empty.read (es ++ [e]) = handleMarketEvent (Market.empty.read es) e := by
      unfold Market.read
      rw [List.foldl_append]
      rfl
    have hbids : Market.empty.bidsOf (es ++ [e])
        = Market.empty.bidsOf es ++ ((Market.empty.read es).bidOf e).toList := by
      rw [Market.bidsOf_append]
      exact congrArg _ (List.append_nil _)
    have htransfers : (es ++ [e]).filterMap TransferEvent.of
        = es.filterMap TransferEvent.of ++ (TransferEvent.of e).toList := by
      rw [List.filterMap_append]
      cases h : TransferEvent.of e <;> simp [h]
    rw [hread]
    generalize Market.empty.read es = m at ih hbids ⊢
    unfold handleMarketEvent
    cases he : e.params with
    | token v =>
      have hh := handleTokenEvent_history ih.keyed.store he
      have hnone : m.bidOf e = none := by
        unfold Market.bidOf Bid.of
        rw [he]
        rfl
      refine ⟨⟨(handleTokenEvent_books ih.keyed.store e v).1, ih.keyed.auction⟩, ?_, ?_⟩
      · rw [htransfers, file_put, ← ih.transfers]
        exact hh
      · rw [hbids, file_put, hnone]
        exact ih.bids
    | house v txIndex =>
      obtain ⟨h1, h2, h3⟩ := handleHouseEvent_history ih.keyed he
      have hnone : TransferEvent.of e = none := by
        unfold TransferEvent.of
        rw [he]
      refine ⟨h1, ?_, ?_⟩
      · rw [htransfers, file_put, hnone]
        exact h2.trans ih.transfers
      · rw [hbids, file_put, ← ih.bids]
        exact h3

end UNouns.Subgraph
