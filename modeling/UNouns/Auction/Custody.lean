import UNouns.Auction.Escrow

/-!
# Each token is auctioned once

* `Entrusted`         the auctions that were created and settled, and who owns their tokens;
* `auction_custody`   it holds whenever nobody is in the house.
-/

set_option linter.unusedVariables false

namespace UNouns
open Function Reentrant NounsAuctionHouse

section
variable {P : Platform}

/-- * `created`: all auctions created but the current one are settled, in order, so that none is
ever overwritten, and there is one open auction at most;
* `unpaused`: exactly one, if the house is not paused;
* `custody`: the house owns the token of the open auction;
* `settled`, `handsOver`: each settlement of the history settled one auction, with the token in the
house, and left the token with the bidder or, without a bid, with the hall of fame;
* `increasing`: no token is put up for auction twice, and so none is handed out twice (`once`);
* `bids`: each bid was made for the auction open then, before its end. -/
structure Entrusted (c : AuctionConfig P) : Prop where
  created : createdIds c.now.house.logs = settledIds c.now.house.logs ++
    if c.now.house.auction.Unsettled then [c.now.house.auction.unounId] else []
  unpaused : c.now.house.paused = false → c.now.house.auction.Unsettled
  custody : c.now.house.auction.Unsettled →
    c.now.token.owners c.now.house.auction.unounId = P.house
  settled : settledIds c.now.house.logs = settlements c.past
  handsOver : Linked HandsOver c
  increasing : (createdIds c.now.house.logs).Pairwise (· < ·)
  once : (settlements c.past).Nodup
  bids : ∀ r ∈ c.past, BidStands r

theorem Books.entrusted {e : Env} {c : AuctionConfig P} (hb : Books e c)
    (hu : c.now.house.paused = false → c.now.house.auction.Unsettled)
    (hk : ∀ r ∈ c.past, KeepsHouse r) : Entrusted c where
  created := hb.created
  unpaused := hu
  custody := hb.custody hk
  settled := hb.settled
  handsOver := hb.settles
  increasing := hb.increasing
  once := by
    have h1 := hb.increasing
    rw [hb.created] at h1
    rw [← hb.settled]
    exact (List.pairwise_append.mp h1).1.imp Nat.ne_of_lt
  bids := hb.bids

/-- **Each token is auctioned once**: after each transaction, and wherever else nobody is in the house,
it owns the token of the one open auction, and has handed over those of all others. -/
theorem auction_custody (s : AuctionSetup) (w : AuctionWorld) (e : Env) (h : s.deploy = .ok w)
    (ts : List (Tx Env (AuctionCall P))) (hch : (e :: ts.map Tx.env).IsChain (· ≤ ·)) :
    (∀ o ∈ observations AuctionCall.code e ts ⟨[], w⟩, (∀ r ∈ o.2.past, Stipend r) →
      (∀ r ∈ o.2.past, KeepsHouse r) → o.2.now.house.entered = false → Entrusted o.2) ∧
    ((∀ r ∈ (runTxs AuctionCall.code ts ⟨[], w⟩).2.past, Stipend r) →
      (∀ r ∈ (runTxs AuctionCall.code ts ⟨[], w⟩).2.past, KeepsHouse r) →
      (runTxs AuctionCall.code ts ⟨[], w⟩).2.now.house.entered = false ∧
        Entrusted (runTxs AuctionCall.code ts ⟨[], w⟩).2) := by
  obtain ⟨h1, h2⟩ := books_run h hch
  refine ⟨fun o ho hf hk hfree => ?_, fun hf hk => ⟨h2 hf, ?_⟩⟩
  · obtain ⟨hb, hu⟩ := h1 o ho hf hfree
    exact hb.entrusted hu hk
  · obtain ⟨hb, hu⟩ := h1 _ (final_mem_observations _ _ _ _) hf (h2 hf)
    exact hb.entrusted hu hk

end

/-- two more settlements: `7` gets token 3, and nobody bids for token 4 -/
def custodyTxs : List (Tx Env (AuctionCall auctionPlatform)) := auctionTxs ++
  [⟨.block 200 3500, auctionCall 9 0
     (.settleCurrentAndCreateNewAuction fun _ => .ok ⟨0, 0, 0, 0, 0⟩)⟩,
   ⟨.block 300 5000, auctionCall 9 0
     (.settleCurrentAndCreateNewAuction fun _ => .ok ⟨0, 0, 0, 0, 0⟩)⟩]

theorem custodyTxs_chain : (Env.block 6 60 :: custodyTxs.map Tx.env).IsChain (· ≤ ·) := by
  simp [custodyTxs, auctionTxs, Env.le_def, Env.block]

theorem custodyTxs_stipend :
    ∀ r ∈ (runTxs AuctionCall.code custodyTxs ⟨[], auctionWorld⟩).2.past, Stipend r :=
  stipend_of_check (by decide +kernel)

theorem custodyTxs_keeps :
    ∀ r ∈ (runTxs AuctionCall.code custodyTxs ⟨[], auctionWorld⟩).2.past, KeepsHouse r := by
  intro r hr op t hop
  have h1 : (runTxs AuctionCall.code custodyTxs ⟨[], auctionWorld⟩).2.past.all (fun r =>
      match r.op.op with
      | .token _ => false
      | _ => true) = true := by decide +kernel
  have h2 := List.all_eq_true.mp h1 r hr
  rw [hop] at h2
  cases h2

theorem auction_custody_run :
    let last := (runTxs AuctionCall.code custodyTxs ⟨[], auctionWorld⟩).2
    last.now.house.auction.unounId = 5 ∧ last.now.house.halloffame = 15 ∧
      [1, 3, 4, 5].map last.now.token.owners = [8, 7, 15, 4] ∧ settlements last.past = [1, 3, 4] ∧
      Entrusted last := by
  intro last
  have h := auction_custody auctionSetup auctionWorld (.block 6 60) auctionWorld_deployed custodyTxs
    custodyTxs_chain
  have hlast := (h.2 custodyTxs_stipend custodyTxs_keeps).2
  subst last
  exact ⟨by decide +kernel, by decide +kernel, by decide +kernel, by decide +kernel, hlast⟩

end UNouns
