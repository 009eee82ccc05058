import UNouns.Lib.Delivery
import UNouns.Auction.Bidding

/-!
# The current auction in the web application

The slice `auction` of the store holds the current auction and its bids.  The bids of the past and
those that come in are appended by one reducer, in whatever order their blocks are answered.

* `appendBid`        the reducer;
* `Live`             the slice shows what the contract has, and every bid once;
* `live_bids_iff`    when it does so for every order of delivery.
-/

set_option linter.unusedVariables false

namespace UNouns.Webapp
open Reentrant Delivery Timeline

/-! ## the slice -/

structure BidEvent where
  unounId : Nat
  sender : Address
  value : Nat
  extended : Bool
  transactionHash : BitVec 256
  timestamp : Nat
  deriving DecidableEq

/-- `bidder` is `none` for the empty string -/
structure IAuction where
  amount : Nat
  bidder : Option Address
  startTime : Nat
  endTime : Nat
  unounId : Nat
  settled : Bool
  deriving DecidableEq

structure AuctionState where
  activeAuction : Option IAuction
  bids : List BidEvent

def initialState : AuctionState := ⟨none, []⟩

def reduxSafeNewAuction (unounId startTime endTime : Nat) : IAuction :=
  ⟨0, none, startTime, endTime, unounId, false⟩

/-- `reduce` over a list that begins with `bid` -/
def maxBid (bid : BidEvent) (bids : List BidEvent) : BidEvent :=
  bids.foldl (fun prev current => if current.value < prev.value then prev else current) bid

def auctionsEqual (a : IAuction) (unounId : Nat) : Bool := a.unounId = unounId

def containsBid (bidEvents : List BidEvent) (bidEvent : BidEvent) : Bool :=
  (bidEvents.map BidEvent.transactionHash).contains bidEvent.transactionHash

/-! ## reducers -/

def setActiveAuction (state : AuctionState) (unounId startTime endTime : Nat) : AuctionState :=
  ⟨some (reduxSafeNewAuction unounId startTime endTime), []⟩

def setFullAuction (state : AuctionState) (auction : IAuction) : AuctionState :=
  { state with activeAuction := some auction }

def appendBid (state : AuctionState) (payload : BidEvent) : AuctionState :=
  match state.activeAuction with
  | none => state
  | some activeAuction =>
    if ¬ auctionsEqual activeAuction payload.unounId then state
    else if containsBid state.bids payload then state
    else
      let maxBid_ := maxBid payload state.bids
      ⟨some { activeAuction with amount := maxBid_.value, bidder := some maxBid_.sender },
        payload :: state.bids⟩

/-! ## what is delivered -/

/-- what the log says of a bid; its transaction and its block are told besides -/
def BidEvent.log (b : BidEvent) : AuctionBid := ⟨b.unounId, b.sender, b.value, b.extended⟩

/-- the slice shows the auction of the contract, and has every bid once -/
structure Live (auction : UNouns.Auction) (es : List BidEvent) (state : AuctionState) : Prop where
  shown : ∃ a, state.activeAuction = some a ∧ a.amount = auction.amount ∧ a.bidder = some auction.bidder
  bids : state.bids.Perm es

/-- the auction at the beginning, with the bids that are held -/
def shows (a : IAuction) : List BidEvent → IAuction
  | [] => a
  | b :: bs => { a with amount := (maxBid b bs).value, bidder := some (maxBid b bs).sender }

theorem shows_unounId (a : IAuction) (bs : List BidEvent) : (shows a bs).unounId = a.unounId := by
  cases bs <;> rfl

/-- **The reducer receives bids**, and shows the greatest of those it holds. -/
theorem appendBid_receive {a : IAuction} {held : List BidEvent} {b : BidEvent}
    (hb : b.unounId = a.unounId) :
    appendBid ⟨some (shows a held), held⟩ b
      = ⟨some (shows a (receive BidEvent.transactionHash held b)),
        receive BidEvent.transactionHash held b⟩ := by
  have heq : auctionsEqual (shows a held) b.unounId = true := by
    unfold auctionsEqual
    rw [shows_unounId, hb]
    exact decide_eq_true rfl
  unfold appendBid receive containsBid
  simp only [heq, not_true_eq_false, if_false, List.contains_iff_mem]
  by_cases hx : b.transactionHash ∈ held.map BidEvent.transactionHash
  · rw [if_pos hx, if_pos hx]
  · rw [if_neg hx, if_neg hx]
    cases held <;> rfl

theorem foldl_appendBid {a : IAuction} {ds : List BidEvent} (hds : ∀ b ∈ ds, b.unounId = a.unounId)
    (held : List BidEvent) :
    ds.foldl appendBid ⟨some (shows a held), held⟩
      = ⟨some (shows a (ds.foldl (receive BidEvent.transactionHash) held)),
        ds.foldl (receive BidEvent.transactionHash) held⟩ := by
  induction ds generalizing held with
  | nil => rfl
  | cons b ds ih =>
    rw [List.foldl_cons, appendBid_receive (hds b List.mem_cons_self),
      ih fun c hc => hds c (List.mem_cons_of_mem _ hc)]
    rfl

theorem maxBid_eq_latest (b : BidEvent) (bs : List BidEvent) : maxBid b bs = latest BidEvent.value b bs :=
  rfl

/-! ## the order does not matter -/

/-- nobody but the last bidder has bid as much, and who has not seen a bid starts with what the
contract has -/
def Undisputed (auction : UNouns.Auction) (a : IAuction) (es : List BidEvent) : Prop :=
  match es.getLast? with
  | none => a.amount = auction.amount ∧ a.bidder = some auction.bidder
  | some l => ∀ b ∈ es, b.value = l.value → b.sender = l.sender

section
variable {auction : UNouns.Auction} {a : IAuction} {es : List BidEvent}
  (hrise : (es.map BidEvent.value).IsChain (· ≤ ·))
include hrise

/-- no bid is higher than the last one -/
theorem le_last {l b : BidEvent} (hl : es.getLast? = some l) (hb : b ∈ es) : b.value ≤ l.value := by
  rcases List.eq_nil_or_concat es with rfl | ⟨fs, z, rfl⟩
  · cases hl
  · rw [List.concat_eq_append, List.getLast?_concat] at hl
    obtain rfl := Option.some.inj hl
    rw [List.concat_eq_append] at hb hrise
    rw [List.isChain_iff_pairwise, List.map_append, List.pairwise_append] at hrise
    rcases List.mem_append.mp hb with hb | hb
    · exact hrise.2.2 _ (List.mem_map_of_mem hb) _ (List.mem_singleton_self _)
    · rw [List.mem_singleton.mp hb]

/-- the bid that is shown is as high as the last one -/
theorem maxBid_value {b : BidEvent} {bs : List BidEvent} (hperm : (b :: bs).Perm es) {l : BidEvent}
    (hl : es.getLast? = some l) : (maxBid b bs).value = l.value := by
  have hle := le_last hrise hl (hperm.mem_iff.mp (latest_mem (f := BidEvent.value) b bs))
  have hge := le_latest (f := BidEvent.value) (hperm.mem_iff.mpr (List.mem_of_getLast? hl))
  exact Nat.le_antisymm hle hge

/-- a bid that comes first is shown unless there is a higher one -/
theorem shows_first {b l : BidEvent} (hl : es.getLast? = some l) (hb : b ∈ es)
    (hv : b.value = l.value) {ds : List BidEvent} (hds : Delivers (b :: ds) es) :
    (shows a ((b :: ds).foldl (receive BidEvent.transactionHash) [])).bidder = some b.sender := by
  have hsuffix : [b] <:+ ds.foldl (receive BidEvent.transactionHash) [b] := suffix_received ds [b]
  obtain ⟨front, hfront⟩ := hsuffix
  have hheld : (b :: ds).foldl (receive BidEvent.transactionHash) [] = front ++ [b] := hfront.symm
  have hmax : ∀ y ∈ front ++ [b], y.value ≤ b.value := by
    intro y hy
    rw [← hheld] at hy
    have hye := (hds y).mp ((mem_of_received hy).resolve_left List.not_mem_nil)
    rw [hv]
    exact le_last hrise hl hye
  rw [hheld]
  cases front with
  | nil => rfl
  | cons x xs =>
    have hlatest : latest BidEvent.value x (xs ++ [b]) = b :=
      latest_last (by rw [← List.cons_append, List.getLast?_concat]) hmax
    show some (maxBid x (xs ++ [b])).sender = _
    rw [maxBid_eq_latest, hlatest]

/-- **The slice is live after every delivery** if and only if no transaction has two bids and the
last one is undisputed. -/
theorem live_iff (hid : ∀ b ∈ es, b.unounId = a.unounId)
    (hlast : ∀ l, es.getLast? = some l → auction.amount = l.value ∧ auction.bidder = l.sender) :
    (∀ ds, Delivers ds es → Live auction es (ds.foldl appendBid ⟨some a, []⟩)) ↔
      (es.map BidEvent.transactionHash).Nodup ∧ Undisputed auction a es := by
  have hfold : ∀ ds, Delivers ds es → ds.foldl appendBid ⟨some a, []⟩
      = ⟨some (shows a (ds.foldl (receive BidEvent.transactionHash) [])),
        ds.foldl (receive BidEvent.transactionHash) []⟩ := fun ds hds =>
    foldl_appendBid (fun b hb => hid b ((hds b).mp hb)) []
  constructor
  · intro h
    refine ⟨received_perm_iff.mp fun ds hds => ?_, ?_⟩
    · have hlive := (h ds hds).bids
      rw [hfold ds hds] at hlive
      exact hlive
    · unfold Undisputed
      cases hl : es.getLast? with
      | none =>
        obtain ⟨x, hx, h1, h2⟩ := (h es (.refl es)).shown
        rw [List.getLast?_eq_none_iff.mp hl] at hx
        obtain rfl := Option.some.inj hx
        exact ⟨h1, h2⟩
      | some l =>
        intro b hb hv
        have hds := Delivers.again hb
        obtain ⟨x, hx, _, h2⟩ := (h (b :: es) hds).shown
        rw [hfold _ hds] at hx
        obtain rfl := Option.some.inj hx
        rw [shows_first hrise hl hb hv hds, (hlast l hl).2] at h2
        exact Option.some.inj h2
  · rintro ⟨hnodup, hund⟩ ds hds
    have hperm := received_perm hnodup hds
    rw [hfold ds hds]
    refine ⟨⟨_, rfl, ?_⟩, hperm⟩
    generalize ds.foldl (receive BidEvent.transactionHash) [] = held at hperm
    unfold Undisputed at hund
    cases hl : es.getLast? with
    | none =>
      rw [hl] at hund
      rw [List.getLast?_eq_none_iff.mp hl, List.perm_nil] at hperm
      rw [hperm]
      exact hund
    | some l =>
      rw [hl] at hund
      cases held with
      | nil => rw [List.nil_perm.mp hperm] at hl; cases hl
      | cons b bs =>
        have hvalue := maxBid_value hrise hperm hl
        have hmem := hperm.mem_iff.mp (latest_mem (f := BidEvent.value) b bs)
        obtain ⟨h1, h2⟩ := hlast l hl
        exact ⟨hvalue.trans h1.symm, congrArg some ((hund _ hmem hvalue).trans h2.symm)⟩

end

/-- **Live bids.**  However the bids of the current auction are delivered, the slice ends up with its
amount, its bidder and every bid once, if and only if no two of them are in one transaction and nobody
but the last bidder has bid as much. -/
theorem live_bids_iff {P : Platform} (s : AuctionSetup) (w : AuctionWorld) (e : Env)
    (h : s.deploy = .ok w) (ts : List (Tx Env (AuctionCall P)))
    (hch : (e :: ts.map Tx.env).IsChain (· ≤ ·)) :
    ∀ o ∈ observations AuctionCall.code e ts ⟨[], w⟩, o.2.now.house.entered = false →
      o.2.now.house.auction.startTime ≠ 0 →
      ∀ es : List BidEvent, es.map BidEvent.log = bidsOn o.2.now.house.auction.unounId o.2.now →
      ∀ a : IAuction, a.unounId = o.2.now.house.auction.unounId →
        ((∀ ds, Delivers ds es → Live o.2.now.house.auction es (ds.foldl appendBid ⟨some a, []⟩)) ↔
          (es.map BidEvent.transactionHash).Nodup ∧ Undisputed o.2.now.house.auction a es) := by
  intro o ho hfree hstart es hes a ha
  have hannounced := ((timeline_run h hch).1 o ho hfree).announced
  have hrise := hannounced.rise o.2.now.house.auction.unounId
  rw [← hes, List.map_map] at hrise
  refine live_iff hrise (fun b hb => ?_) fun l hl => ?_
  · have hm : b.log ∈ bidsOn o.2.now.house.auction.unounId o.2.now := hes ▸ List.mem_map_of_mem hb
    exact (of_decide_eq_true (List.mem_filter.mp hm).2).trans ha.symm
  · have hlog : (bidsOn o.2.now.house.auction.unounId o.2.now).getLast? = some l.log := by
      rw [← hes, List.getLast?_map, hl]
      rfl
    exact hannounced.leader hstart l.log hlog

/-! ## runs -/

/-- the two bids for the first token, in the blocks of their transactions -/
def sampleBids : List BidEvent := [⟨1, 7, 200, false, 1, 80⟩, ⟨1, 8, 300, false, 2, 90⟩]

theorem live_bids_iff_run :
    let last := (runTxs AuctionCall.code (auctionTxs.take 3) ⟨[], auctionWorld⟩).2
    last.now.house.auction.amount = 300 ∧ ∀ ds, Delivers ds sampleBids →
      Live last.now.house.auction sampleBids
        (ds.foldl appendBid (setActiveAuction initialState 1 70 1070)) := by
  intro last
  have h := live_bids_iff auctionSetup auctionWorld (.block 6 60) auctionWorld_deployed
    (auctionTxs.take 3) (by simp [auctionTxs, Env.le_def, Env.block]) _
    (final_mem_observations _ _ _ _) (by decide +kernel) (by decide +kernel) sampleBids
    (by decide +kernel) (reduxSafeNewAuction 1 70 1070) (by decide +kernel)
  have hund : ∀ b ∈ sampleBids, b.value = 300 → b.sender = 8 := by decide
  exact ⟨by decide +kernel, h.mpr ⟨by decide, hund⟩⟩

/-- `7` and `8` bid one wei each -/
def pennyBids : List BidEvent := [⟨1, 7, 1, false, 1, 80⟩, ⟨1, 8, 1, false, 2, 90⟩]

/-- **Two equal bids, delivered in their order**: the slice shows the bidder who has been displaced. -/
theorem equal_bids_stale :
    let last := (runTxs AuctionCall.code pennyTxs ⟨[], pennyWorld⟩).2
    let state := pennyBids.foldl appendBid (setFullAuction initialState ⟨0, some 0, 70, 1070, 1, false⟩)
    pennyBids.map BidEvent.log = bidsOn last.now.house.auction.unounId last.now ∧
      state.activeAuction.bind IAuction.bidder = some 7 ∧ last.now.house.auction.bidder = 8 ∧
      ¬ Live last.now.house.auction pennyBids state := by
  intro last state
  have hshown : state.activeAuction.bind IAuction.bidder = some 7 := by decide +kernel
  have hbidder : last.now.house.auction.bidder = 8 := by decide +kernel
  refine ⟨by decide +kernel, hshown, hbidder, fun h => ?_⟩
  obtain ⟨a, ha, _, h8⟩ := h.shown
  rw [ha, Option.bind_some, h8, hbidder] at hshown
  exact absurd hshown (by decide)

end UNouns.Webapp
