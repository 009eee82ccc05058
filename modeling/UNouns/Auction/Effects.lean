import UNouns.Auction.System
import UNouns.Token.Steps

/-!
# What the parts of the auction house do

Said once for each part, from its success:

* `beginBid_ok`, `endBid_ok`   the two halves of a bid;
* `handOver_ok`                a settlement up to its payment;
* `createAuction_ok`           a new auction, or a pause instead;
* `OwnerOp.apply_ok`, `unpause_ok`.
-/

set_option linter.unusedVariables false

namespace UNouns
open Function Reentrant

/-! ## reading a house -/

/-- created and not settled -/
def Auction.Unsettled (a : Auction) : Prop := a.startTime ≠ 0 ∧ a.settled = false

instance (a : Auction) : Decidable a.Unsettled :=
  inferInstanceAs (Decidable (a.startTime ≠ 0 ∧ a.settled = false))

theorem Auction.not_unsettled {a : Auction} :
    ¬ a.Unsettled ↔ a.startTime = 0 ∨ a.settled = true := by
  unfold Auction.Unsettled
  cases a.settled <;> simp

/-- the auctions that were created, by their tokens -/
def createdIds (logs : List HouseEvent) : List Nat :=
  logs.filterMap fun
    | .auctionCreated id _ _ => some id
    | _ => none

/-- the auctions that were settled -/
def settledIds (logs : List HouseEvent) : List Nat :=
  logs.filterMap fun
    | .auctionSettled id _ _ => some id
    | _ => none

theorem createdIds_append (l m : List HouseEvent) :
    createdIds (l ++ m) = createdIds l ++ createdIds m := List.filterMap_append

theorem settledIds_append (l m : List HouseEvent) :
    settledIds (l ++ m) = settledIds l ++ settledIds m := List.filterMap_append

/-- the parameters of the event `AuctionBid` -/
structure AuctionBid where
  unounId : Nat
  sender : Address
  value : Nat
  extended : Bool
  deriving DecidableEq

/-- the bids that were announced -/
def bidLogs (logs : List HouseEvent) : List AuctionBid :=
  logs.filterMap fun
    | .auctionBid id sender value extended => some ⟨id, sender, value, extended⟩
    | _ => none

theorem bidLogs_append (l m : List HouseEvent) : bidLogs (l ++ m) = bidLogs l ++ bidLogs m :=
  List.filterMap_append

/-- nothing happened that an auction would notice -/
structure NounsAuctionHouse.SameBooks (h h' : NounsAuctionHouse) : Prop where
  entered : h'.entered = h.entered
  auction : h'.auction = h.auction
  sent : h'.sent = h.sent
  created : createdIds h'.logs = createdIds h.logs
  settled : settledIds h'.logs = settledIds h.logs
  bids : bidLogs h'.logs = bidLogs h.logs

namespace NounsAuctionHouse
variable {env : Env} {msg : Msg} {h h' : NounsAuctionHouse}

theorem SameBooks.rfl : h.SameBooks h :=
  ⟨Eq.refl _, Eq.refl _, Eq.refl _, Eq.refl _, Eq.refl _, Eq.refl _⟩

/-! ## bids -/

theorem enter_ok (hh : h.enter = .ok h') : h.entered = false ∧ h' = { h with entered := true } := by
  simp only [enter, bind_eq_ok, require_eq_ok, pure_eq_ok] at hh
  obtain ⟨_, h1, h2⟩ := hh
  exact ⟨h1, h2.symm⟩

theorem beginBid_ok {id : Nat} (hh : h.beginBid env msg id = .ok h') :
    h.entered = false ∧ h.auction.unounId = id ∧ env.timestamp < h.auction.endTime ∧
      h' = { h with balance := h.balance + msg.value, entered := true } := by
  simp only [beginBid, checkBid, bind_eq_ok, require_eq_ok, pure_eq_ok] at hh
  obtain ⟨h1, henter, _, ⟨_, hid, _, hend, _⟩, rfl⟩ := hh
  obtain ⟨he, rfl⟩ := enter_ok henter
  exact ⟨he, hid, hend, rfl⟩

/-- the checks of a bid -/
theorem checkBid_ok {value id : Nat} (hh : h.checkBid env value id = .ok ()) :
    h.auction.unounId = id ∧ env.timestamp < h.auction.endTime ∧ h.reservePrice ≤ value ∧
      h.auction.amount + h.auction.amount * h.minBidIncrementPercentage.toNat / 100 ≤ value := by
  simp only [checkBid, bind_eq_ok, require_eq_ok] at hh
  obtain ⟨_, hid, _, hend, _, hreserve, hincrement⟩ := hh
  exact ⟨hid, hend, hreserve, hincrement⟩

theorem beginBid_checked {id : Nat} (hh : h.beginBid env msg id = .ok h') :
    h.checkBid env msg.value id = .ok () := by
  simp only [beginBid, bind_eq_ok, pure_eq_ok] at hh
  obtain ⟨h1, henter, _, hcheck, rfl⟩ := hh
  obtain ⟨_, rfl⟩ := enter_ok henter
  exact hcheck

/-- the end of the auction after a bid -/
theorem endBid_endTime {a : Auction} (hh : h.endBid env msg a = .ok h') :
    (a.endTime - env.timestamp < h.timeBuffer →
      h'.auction.endTime = env.timestamp + h.timeBuffer) ∧
    (h.timeBuffer ≤ a.endTime - env.timestamp → h'.auction.endTime = h.auction.endTime) := by
  simp only [endBid, bind_eq_ok, pure_eq_ok] at hh
  obtain ⟨endTime, hend, rfl⟩ := hh
  by_cases hlt : a.endTime - env.timestamp < h.timeBuffer
  · simp only [decide_eq_true hlt, if_true, checkedAdd_eq_ok] at hend ⊢
    exact ⟨fun _ => hend.2, fun hle => absurd hlt (Nat.not_lt.mpr hle)⟩
  · simp only [decide_eq_false hlt, Bool.false_eq_true, if_false, pure_eq_ok] at hend ⊢
    exact ⟨fun h => absurd h hlt, fun _ => hend.symm⟩

theorem endBid_ok {a : Auction} (hh : h.endBid env msg a = .ok h') :
    ∃ endTime logs, h' = { h with
        entered := false
        auction := { h.auction with
          amount := msg.value, bidder := msg.sender, endTime := endTime }
        logs := logs } ∧
      createdIds logs = createdIds h.logs ∧ settledIds logs = settledIds h.logs := by
  simp only [endBid, bind_eq_ok, pure_eq_ok] at hh
  obtain ⟨endTime, _, rfl⟩ := hh
  split_ifs
  · exact ⟨endTime, _, rfl, by simp [emit, createdIds], by simp [emit, settledIds]⟩
  · exact ⟨endTime, _, rfl, by simp [emit, createdIds], by simp [emit, settledIds]⟩

/-- a bid is announced at its end -/
theorem endBid_bidLogs {a : Auction} (hh : h.endBid env msg a = .ok h') :
    ∃ extended, bidLogs h'.logs = bidLogs h.logs ++ [⟨a.unounId, msg.sender, msg.value, extended⟩] := by
  simp only [endBid, bind_eq_ok, pure_eq_ok] at hh
  obtain ⟨endTime, _, rfl⟩ := hh
  refine ⟨decide (a.endTime - env.timestamp < h.timeBuffer), ?_⟩
  split_ifs
  · simp [emit, leave, bidLogs]
  · simp [emit, leave, bidLogs]

/-! ## administration -/

theorem pauseInternal_ok {sender : Address} (hh : h.pauseInternal sender = .ok h') :
    h.paused = false ∧ h' = { h with paused := true, logs := h.logs ++ [.paused sender] } := by
  simp only [pauseInternal, whenNotPaused, bind_eq_ok, require_eq_ok, pure_eq_ok] at hh
  obtain ⟨_, h1, h2⟩ := hh
  exact ⟨h1, h2.symm⟩

theorem beginUnpause_ok {sender : Address} (hh : h.beginUnpause sender = .ok h') :
    h.paused = true ∧ h' = { h with paused := false, logs := h.logs ++ [.unpaused sender] } := by
  simp only [beginUnpause, unpauseInternal, whenPaused, bind_eq_ok, require_eq_ok, pure_eq_ok] at hh
  obtain ⟨_, _, _, h1, h2⟩ := hh
  exact ⟨h1, h2.symm⟩

end NounsAuctionHouse

open NounsAuctionHouse

/-- the owner's setters leave the auction alone, and none of them unpauses -/
theorem OwnerOp.apply_ok {sender : Address} {h h' : NounsAuctionHouse} {op : OwnerOp}
    (hh : op.apply sender h = .ok h') :
    h.SameBooks h' ∧ h'.balance = h.balance ∧ (h'.paused = false → h.paused = false) := by
  cases op with
  | pause =>
    simp only [OwnerOp.apply, NounsAuctionHouse.pause, bind_eq_ok] at hh
    obtain ⟨_, _, hh⟩ := hh
    obtain ⟨_, rfl⟩ := pauseInternal_ok hh
    exact ⟨⟨rfl, rfl, rfl, by simp [createdIds], by simp [settledIds], by simp [bidLogs]⟩, rfl,
      fun e => absurd e Bool.true_eq_false.mp⟩
  | finishNounsDAOTreasuryShare =>
    simp only [OwnerOp.apply, NounsAuctionHouse.finishNounsDAOTreasuryShare, bind_eq_ok,
      pure_eq_ok] at hh
    obtain ⟨_, _, rfl⟩ := hh
    exact ⟨⟨rfl, rfl, rfl, rfl, rfl, rfl⟩, rfl, id⟩
  | transferOwnership a =>
    simp only [OwnerOp.apply, NounsAuctionHouse.transferOwnership, bind_eq_ok, pure_eq_ok] at hh
    obtain ⟨_, _, _, _, rfl⟩ := hh
    exact ⟨⟨rfl, rfl, rfl, by simp [emit, createdIds], by simp [emit, settledIds],
      by simp [emit, bidLogs]⟩, rfl, id⟩
  | setTimeBuffer _ | setReservePrice _ | setMinBidIncrementPercentage _ | renounceOwnership =>
    simp only [OwnerOp.apply, NounsAuctionHouse.setTimeBuffer, NounsAuctionHouse.setReservePrice,
      NounsAuctionHouse.setMinBidIncrementPercentage, NounsAuctionHouse.renounceOwnership,
      bind_eq_ok, pure_eq_ok] at hh
    obtain ⟨_, _, rfl⟩ := hh
    exact ⟨⟨rfl, rfl, rfl, by simp [emit, createdIds], by simp [emit, settledIds],
      by simp [emit, bidLogs]⟩, rfl, id⟩

theorem OwnerOp.apply_duration {sender : Address} {h h' : NounsAuctionHouse} {op : OwnerOp}
    (hh : op.apply sender h = .ok h') : h'.duration = h.duration := by
  cases op with
  | pause =>
    simp only [OwnerOp.apply, NounsAuctionHouse.pause, bind_eq_ok] at hh
    obtain ⟨_, _, hh⟩ := hh
    rw [(pauseInternal_ok hh).2]
  | transferOwnership a =>
    simp only [OwnerOp.apply, NounsAuctionHouse.transferOwnership, bind_eq_ok, pure_eq_ok] at hh
    obtain ⟨_, _, _, _, rfl⟩ := hh
    rfl
  | finishNounsDAOTreasuryShare | setTimeBuffer _ | setReservePrice _
  | setMinBidIncrementPercentage _ | renounceOwnership =>
    simp only [OwnerOp.apply, NounsAuctionHouse.finishNounsDAOTreasuryShare,
      NounsAuctionHouse.setTimeBuffer, NounsAuctionHouse.setReservePrice,
      NounsAuctionHouse.setMinBidIncrementPercentage, NounsAuctionHouse.renounceOwnership,
      bind_eq_ok, pure_eq_ok] at hh
    obtain ⟨_, _, rfl⟩ := hh
    rfl

/-- the receiver of a token is only asked -/
theorem AuctionExternal.after_eq {x : AuctionExternal} {ok : Bool} {w w' : AuctionWorld}
    (h : x.after ok w = .ok w') : w' = w := by
  cases x with
  | pay p => exact (Except.ok.inj h).symm
  | receiver x =>
    obtain ⟨t, ht, rfl⟩ := map_eq_ok.mp h
    simp only [TokenOp.after, bind_eq_ok, pure_eq_ok] at ht
    obtain ⟨_, _, rfl⟩ := ht
    rfl

namespace AuctionWorld
variable {P : Platform} {env : Env} {msg : Msg} {w w' : AuctionWorld}

/-! ## auctions -/

/-- the token goes from the house to whom it is due, and the auction is settled -/
theorem handOver_ok (hh : w.handOver P env = .ok w') :
    w.house.auction.Unsettled ∧ w.house.auction.endTime ≤ env.timestamp ∧
    w.token.owners w.house.auction.unounId = P.house ∧
    ∃ t, w' = ⟨{ w.house with auction := { w.house.auction with settled := true } }, t⟩ ∧
      w.token.transferFrom env P.house P.house (w.house.recipient w.house.auction)
        w.house.auction.unounId = .ok t ∧
      t.owners = update w.token.owners w.house.auction.unounId
        (w.house.recipient w.house.auction) ∧
      t.currentUNounId = w.token.currentUNounId := by
  simp only [handOver, beginSettle, bind_eq_ok, require_eq_ok, pure_eq_ok] at hh
  obtain ⟨_, ⟨_, h1, _, h2, _, h3, rfl⟩, t, ht, rfl⟩ := hh
  obtain ⟨h4, h5, h6⟩ := UNounsToken.transferFrom_ok ht
  exact ⟨⟨h1, h2⟩, h3, h4, t, rfl, ht, h5, h6⟩

theorem createAuction_ok {seeds : Nat → Result Seed}
    (hh : w.createAuction P env msg seeds = .ok w') :
    (∃ t id endTime, w.token.mint env P.house seeds = .ok (t, id) ∧
      endTime = env.timestamp + w.house.duration ∧ w' = ⟨{ w.house with
        auction := ⟨id, 0, env.timestamp, endTime, 0, false⟩
        logs := w.house.logs ++ [.auctionCreated id env.timestamp endTime] }, t⟩) ∨
    (∀ x, w.token.mint env P.house seeds ≠ .ok x) ∧ w.house.paused = false ∧
      w' = w.withHouse { w.house with
        paused := true, logs := w.house.logs ++ [.paused msg.sender] } := by
  unfold createAuction at hh
  split at hh
  case h_1 t id hm =>
    simp only [newAuction, bind_eq_ok, checkedAdd_eq_ok, pure_eq_ok] at hh
    obtain ⟨_, ⟨endTime, hend, rfl⟩, rfl⟩ := hh
    exact .inl ⟨t, id, endTime, hm, hend.2, rfl⟩
  case h_2 text hm =>
    simp only [bind_eq_ok, pure_eq_ok] at hh
    obtain ⟨_, hp, rfl⟩ := hh
    obtain ⟨h1, rfl⟩ := pauseInternal_ok hp
    refine .inr ⟨fun x hx => ?_, h1, rfl⟩
    rw [hx] at hm
    cases hm
  case h_3 => cases hh

theorem unpause_ok {seeds : Nat → Result Seed} (hh : w.unpause P env msg seeds = .ok w') :
    ∃ h, h = { w.house with paused := false, logs := w.house.logs ++ [.unpaused msg.sender] } ∧
      w.house.paused = true ∧
      (w.house.auction.Unsettled ∧ w' = w.withHouse h ∨
        ¬ w.house.auction.Unsettled ∧
          (w.withHouse h).createAuction P env msg seeds = .ok w') := by
  simp only [unpause, bind_eq_ok] at hh
  obtain ⟨h, hu, hh⟩ := hh
  obtain ⟨hp, rfl⟩ := beginUnpause_ok hu
  refine ⟨_, rfl, hp, ?_⟩
  split_ifs at hh with hc
  · exact .inr ⟨Auction.not_unsettled.mpr hc, hh⟩
  · cases hh
    exact .inl ⟨by_contra fun hn => hc (Auction.not_unsettled.mp hn), rfl⟩

end AuctionWorld

end UNouns
