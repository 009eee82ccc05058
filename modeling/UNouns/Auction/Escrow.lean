import UNouns.Auction.Runs

/-!
# The bids are safe with the auction house

* `Escrowed`         what the house owes, what it has, and what it has sent, in terms of the history;
* `auction_escrow`   it holds whenever nobody is in the house.
-/

set_option linter.unusedVariables false

namespace UNouns
open Function Reentrant NounsAuctionHouse

section
variable {P : Platform}

/-- what came in with the bids, one after the other -/
def bidValues (past : List (AuctionRecord P)) : List Nat :=
  (past.filter (·.op.op.bids)).map (·.op.msg.value)

theorem bids_account (past : List (AuctionRecord P)) :
    Escrow.bids ((conducted past).map auctionEvent) = bidValues past := by
  induction past with
  | nil => rfl
  | cons r past ih =>
    have e : conducted (r :: past) = conducted [r] ++ conducted past := conducted_append [r] past
    have e' : bidValues (r :: past) = bidValues [r] ++ bidValues past := by
      simp [bidValues, List.filter_cons]
      split <;> rfl
    rw [e, e', List.map_append, Escrow.bids_append, ih]
    congr 1
    cases hb : r.op.op.bids <;> cases hs : r.op.op.settles <;>
      simp [conducted, bidValues, auctionEvent, Escrow.bids, hb, hs]

/-- a refund or a payment of proceeds is not refused for want of ether: once the checks are passed,
the house pays -/
structure Solvent (P : Platform) (e : Env) (w : AuctionWorld) : Prop where
  refund : ∀ env msg id r, e ≤ env → w.house.auction.bidder ≠ 0 →
    w.createBid env msg id = .revert r → w.house.beginBid env msg id = .error r
  proceeds : ∀ env h next r, w.house.enter = .ok h → 0 < w.house.auction.amount →
    (w.withHouse h).settleAuctionInternal P env next = .revert r →
    (w.withHouse h).handOver P env = .error r

/-- * `conserved`: the ether that came with bids is the ether sent and that of the open auction;
* `balance`: so this is the ether in the house, but for what was forced on it;
* `paid`: each payment refunds the bid that is displaced, or pays out the bid that has won;
* `held`: the bid neither refunded nor paid out is the one on record;
* `once`: each bid was sent once or is held (empty ones aside);
* `solvent`: and so it will be. -/
structure Escrowed (e : Env) (c : AuctionConfig P) : Prop where
  conserved : (bidValues c.past).sum
    = (c.now.house.sent.map (·.payment.amount)).sum + c.now.house.auction.escrow
  balance : c.now.house.balance = c.now.house.auction.escrow + forced c.past
  paid : c.now.house.sent.map Transfer.entry = (account c.past).paid
  held : c.now.house.auction.standing = (account c.past).held
  once : (c.now.house.sent.map (·.payment.amount)
      ++ c.now.house.auction.standing.toList.map Prod.snd).filter (0 < ·)
    = (bidValues c.past).filter (0 < ·)
  solvent : Solvent P e c.now

theorem safeTransfer_ne_revert {w : AuctionWorld} {p : Payment} {next : AuctionWorld → AuctionCode}
    {r : Revert} (hp : p.amount ≤ w.house.balance) :
    w.safeTransferETHWithFallback p next ≠ .revert r := by
  unfold AuctionWorld.safeTransferETHWithFallback
  rw [if_pos hp]
  exact fun h => by cases h

theorem Books.solvent {e : Env} {c : AuctionConfig P} (hb : Books e c) : Solvent P e c.now where
  refund env msg id r he hbidder hr := by
    unfold AuctionWorld.createBid at hr
    cases hbegin : c.now.house.beginBid env msg id with
    | error r' =>
      rw [hbegin] at hr
      cases hr
      rfl
    | ok h =>
      simp only [hbegin, if_pos hbidder] at hr
      obtain ⟨_, _, htime, rfl⟩ := beginBid_ok hbegin
      refine absurd hr (safeTransfer_ne_revert ?_)
      have h1 := hb.balance
      rw [Auction.escrow, if_pos (hb.unsettled he htime)] at h1
      simp only [AuctionWorld.withHouse]
      omega
  proceeds env h next r henter hamount hr := by
    obtain ⟨_, rfl⟩ := enter_ok henter
    unfold AuctionWorld.settleAuctionInternal at hr
    cases hand : (c.now.withHouse { c.now.house with entered := true }).handOver P env with
    | error r' =>
      rw [hand] at hr
      cases hr
      rfl
    | ok w =>
      obtain ⟨hu, _, _, t, rfl, _⟩ := AuctionWorld.handOver_ok hand
      rw [hand] at hr
      dsimp only at hr
      split_ifs at hr with h0
      · refine absurd hr (safeTransfer_ne_revert ?_)
        have h1 := hb.balance
        have h2 : c.now.house.auction.escrow = c.now.house.auction.amount := if_pos hu
        simp only [AuctionWorld.withHouse]
        omega
      · exact absurd hamount h0

/-- the amount of the bid held is the ether of the auction -/
theorem Books.standing_amount {e : Env} {c : AuctionConfig P} (hb : Books e c) :
    (c.now.house.auction.standing.map Prod.snd).getD 0 = c.now.house.auction.escrow := by
  by_cases hu : c.now.house.auction.Unsettled
  · rw [Auction.escrow, if_pos hu]
    by_cases h0 : c.now.house.auction.bidder = 0
    · simp [Auction.standing, h0, hb.amount h0]
    · simp [Auction.standing, h0, hu.2]
  · rw [hb.idle hu, Auction.escrow, if_neg hu]
    rfl

theorem Books.escrowed {e : Env} {c : AuctionConfig P} (hb : Books e c) : Escrowed e c where
  conserved := by
    have h1 := Escrow.conservation ((conducted c.past).map auctionEvent)
    have h2 : (account c.past).paid.map Prod.snd = c.now.house.sent.map (·.payment.amount) := by
      rw [hb.paid, List.map_map]
      rfl
    rw [← bids_account, ← hb.standing_amount, ← hb.held, ← h2]
    exact h1
  balance := hb.balance
  paid := hb.paid.symm
  held := hb.held.symm
  once := by
    have h1 := Escrow.paid_once ((conducted c.past).map auctionEvent)
    rw [bids_account, List.map_append] at h1
    have h2 : (account c.past).paid.map Prod.snd = c.now.house.sent.map (·.payment.amount) := by
      rw [hb.paid, List.map_map]
      rfl
    rw [← h2, ← hb.held]
    exact h1
  solvent := hb.solvent

/-- **The bids are in escrow**: after each transaction, and wherever else nobody is in the house, what
came in with bids is what was sent as a refund or to the payee, and the open bid. -/
theorem auction_escrow (s : AuctionSetup) (w : AuctionWorld) (e : Env) (h : s.deploy = .ok w)
    (ts : List (Tx Env (AuctionCall P))) (hch : (e :: ts.map Tx.env).IsChain (· ≤ ·)) :
    (∀ o ∈ observations AuctionCall.code e ts ⟨[], w⟩, (∀ r ∈ o.2.past, Stipend r) →
      o.2.now.house.entered = false → Escrowed o.1 o.2) ∧
    ((∀ r ∈ (runTxs AuctionCall.code ts ⟨[], w⟩).2.past, Stipend r) →
      (runTxs AuctionCall.code ts ⟨[], w⟩).2.now.house.entered = false ∧
        Escrowed (lastEnv e ts) (runTxs AuctionCall.code ts ⟨[], w⟩).2) := by
  obtain ⟨h1, h2⟩ := books_run h hch
  refine ⟨fun o ho hf hfree => (h1 o ho hf hfree).1.escrowed, fun hf => ⟨h2 hf, ?_⟩⟩
  exact (h1 _ (final_mem_observations _ _ _ _) hf (h2 hf)).1.escrowed

end

/-! ## a run -/

abbrev auctionPlatform : Platform := .plain 10 11 4

/-- a house with a token that it may mint -/
def auctionSetup : AuctionSetup where
  deployer := 1
  nouns := 12
  weth := 13
  nounsDAOTreasury := 14
  halloffame := 15
  timeBuffer := 50
  proceedsShareEndTime := 0
  reservePrice := 100
  minBidIncrementPercentage := 5
  duration := 1000
  token := UNounsToken.deploy 1 2 3 4 5 6

def auctionWorld : AuctionWorld := auctionSetup.deploy.toOption.get (by decide +kernel)

theorem auctionWorld_deployed : auctionSetup.deploy = .ok auctionWorld := eq_ok_get _

def auctionCall (sender : Address) (value : Nat) (op : AuctionOp)
    (replies : Replies (AuctionCall auctionPlatform) := .nil)
    (h : decide (sender ≠ 0 ∧ sender ≠ 4) = true := by exact Eq.refl true) :
    Call (AuctionCall auctionPlatform) :=
  .mk ⟨⟨sender, value, (of_decide_eq_true h).1⟩, op, (of_decide_eq_true h).2⟩ replies

/-- no `unpause` from within the house -/
theorem stipend_of_check {P : Platform} {past : List (AuctionRecord P)}
    (h : past.all (fun r => !r.pre.house.entered || match r.op.op with
      | .unpause _ => false
      | _ => true) = true) : ∀ r ∈ past, Stipend r := by
  intro r hr hentered hm
  obtain ⟨seeds, x, hop, _⟩ := hm
  have h1 := List.all_eq_true.mp h r hr
  rw [hentered, hop] at h1
  cases h1

/-- `7` bids 200 wei for the first token and is displaced by `8`, who bids 300: `7` refuses the ether,
after an attempt to bid again; the owner sets the reserve price from within the settlement -/
def auctionTxs : List (Tx Env (AuctionCall auctionPlatform)) :=
  [⟨.block 7 70, auctionCall 1 0 (.unpause fun _ => .ok ⟨0, 0, 0, 0, 0⟩)⟩,
   ⟨.block 8 80, auctionCall 7 200 (.createBid 1)⟩,
   ⟨.block 9 90, auctionCall 8 300 (.createBid 1)
     (.cons false (.cons (auctionCall 7 400 (.createBid 1)) .nil) .nil)⟩,
   ⟨.block 99 2000, auctionCall 9 0
     (.settleCurrentAndCreateNewAuction fun _ => .ok ⟨0, 0, 0, 0, 0⟩)
     (.cons true (.cons (auctionCall 1 0 (.admin (.setReservePrice 500))) .nil) .nil)⟩,
   ⟨.block 100 2100, auctionCall 7 600 (.createBid 3)⟩]

theorem auctionTxs_chain :
    (Env.block 6 60 :: auctionTxs.map Tx.env).IsChain (· ≤ ·) := by
  simp [auctionTxs, Env.le_def, Env.block]

theorem auctionTxs_stipend :
    ∀ r ∈ (runTxs AuctionCall.code auctionTxs ⟨[], auctionWorld⟩).2.past, Stipend r := by
  have h : (runTxs AuctionCall.code auctionTxs ⟨[], auctionWorld⟩).2.past.all (fun r =>
      !r.pre.house.entered || match r.op.op with
      | .unpause _ => false
      | _ => true) = true := by decide +kernel
  exact stipend_of_check h

/-- the treasury has a share until 5000, and the next token has the number 88 -/
def sharedSetup : AuctionSetup :=
  { auctionSetup with
    proceedsShareEndTime := 5000
    token := { UNounsToken.deploy 1 2 3 4 5 6 with currentUNounId := 88 } }

def sharedWorld : AuctionWorld := sharedSetup.deploy.toOption.get (by decide +kernel)

/-- `7` gets token 88, and `8` the one after it -/
def sharedTxs : List (Tx Env (AuctionCall auctionPlatform)) :=
  [⟨.block 7 70, auctionCall 1 0 (.unpause fun _ => .ok ⟨0, 0, 0, 0, 0⟩)⟩,
   ⟨.block 8 80, auctionCall 7 300 (.createBid 88)⟩,
   ⟨.block 99 2000, auctionCall 9 0
     (.settleCurrentAndCreateNewAuction fun _ => .ok ⟨0, 0, 0, 0, 0⟩)⟩,
   ⟨.block 100 2100, auctionCall 8 600 (.createBid 89)⟩,
   ⟨.block 200 3500, auctionCall 9 0
     (.settleCurrentAndCreateNewAuction fun _ => .ok ⟨0, 0, 0, 0, 0⟩)⟩]

theorem sharedTxs_chain : (Env.block 6 60 :: sharedTxs.map Tx.env).IsChain (· ≤ ·) := by
  simp [sharedTxs, Env.le_def, Env.block]

theorem auction_escrow_run :
    let last := (runTxs AuctionCall.code auctionTxs ⟨[], auctionWorld⟩).2
    let shared := (runTxs AuctionCall.code sharedTxs ⟨[], sharedWorld⟩).2
    (last.now.house.entered = false ∧
      last.now.house.sent = [⟨⟨7, 200⟩, true⟩, ⟨⟨1, 300⟩, false⟩] ∧
      bidValues last.past = [200, 300, 600] ∧ last.now.house.balance = 600 ∧
      Escrowed (.block 100 2100) last) ∧
    shared.now.house.nounsDAOTreasury = 14 ∧ shared.now.house.owner = 1 ∧
      shared.now.house.sent = [⟨⟨14, 300⟩, false⟩, ⟨⟨1, 600⟩, false⟩] ∧
      Escrowed (.block 200 3500) shared := by
  intro last shared
  have h := auction_escrow auctionSetup auctionWorld (.block 6 60) auctionWorld_deployed auctionTxs
    auctionTxs_chain
  have h' := auction_escrow sharedSetup sharedWorld (.block 6 60) (eq_ok_get _) sharedTxs sharedTxs_chain
  obtain ⟨hfree, hlast⟩ := h.2 auctionTxs_stipend
  obtain ⟨_, hshared⟩ := h'.2 (stipend_of_check (by decide +kernel))
  subst last shared
  exact ⟨⟨hfree, by decide +kernel, by decide +kernel, by decide +kernel, hlast⟩, by decide +kernel,
    by decide +kernel, by decide +kernel, hshared⟩

end UNouns
