import UNouns.Auction.Timeline
import UNouns.Auction.Escrow

/-!
# Bids in time, and one above the other

Two laws for whole histories of bids, both read off the `Chronicle` of the calm calls.

* `anti_sniping`          the end of an auction, its bids and its settlement;
* `bids_increase_iff`     when the bids for a token increase: the increment is rounded down, to nothing
                          for small bids, and then an equal bid is let through (`equal_bids`).
-/

set_option linter.unusedVariables false

namespace UNouns
open Function Reentrant NounsAuctionHouse Timeline

section
variable {P : Platform}

/-! ## time -/

/-- the laws of time for a history: `next` is the state that a bid has led to -/
structure AntiSniping (c : AuctionConfig P) : Prop where
  calm : ∀ r ∈ c.past, (r.op.op.bids || r.op.op.settles) = true → r ∈ (calm c).past
  bid : Linked (fun r next => ∀ id, r.op.op = .createBid id →
    r.pre.house.auction.unounId = id ∧ r.pre.house.auction.Unsettled ∧
    r.env.timestamp < r.pre.house.auction.endTime ∧ next.house.auction.unounId = id ∧
    r.env.timestamp + next.house.timeBuffer ≤ next.house.auction.endTime) (Timeline.calm c)
  endTime : c.states.Pairwise fun w w' => w.house.auction.startTime ≠ 0 →
    w'.house.auction.unounId = w.house.auction.unounId →
    w.house.auction.endTime ≤ w'.house.auction.endTime
  settle : ∀ r ∈ c.past, r.op.op.settles = true →
    r.pre.house.auction.Unsettled ∧ r.pre.house.auction.endTime ≤ r.env.timestamp
  final : c.past.Pairwise fun r s => r.op.op.settles = true →
    s.op.op ≠ .createBid r.pre.house.auction.unounId

theorem mem_calm_of_conducted {e : Env} {c : AuctionConfig P} (h : TimelineInv e c)
    {r : AuctionRecord P} (hr : r ∈ c.past) (hop : (r.op.op.bids || r.op.op.settles) = true) :
    r ∈ (calm c).past := by
  have h1 : r ∈ conducted c.past := List.mem_filter.mpr ⟨hr, hop⟩
  rw [h.conducted] at h1
  exact (List.mem_filter.mp h1).1

/-- what a call of the history has done -/
theorem Chronicle.outcome {e : Env} {c : AuctionConfig P} (h : Chronicle e c)
    {r : AuctionRecord P} (hr : r ∈ c.past) : ∃ w, Outcome r w := by
  obtain ⟨xs, ys, hp⟩ := List.append_of_mem hr
  exact ⟨_, h.outcomes xs r ys hp⟩

theorem antiSniping_of_timeline {e : Env} {c : AuctionConfig P} (h : TimelineInv e c) :
    AntiSniping c where
  calm _ hr hop := mem_calm_of_conducted h hr hop
  bid := by
    intro xs r ys hp id hid
    have ha := (h.chronicle.outcomes xs r ys hp).effect.accepts hid
    refine ⟨ha.unounId, ha.unsettled, ha.before, ?_, ha.buffer⟩
    rw [ha.auction]
    exact ha.unounId
  endTime := h.later.imp Later.endTime_le
  settle r hr hs := by
    have hcalm := mem_calm_of_conducted h hr (by simp [hs])
    obtain ⟨xs, ys, hp⟩ := List.append_of_mem hcalm
    have hset := (h.chronicle.outcomes xs r ys hp).effect.settles hs
    exact ⟨hset.unsettled, hset.ended⟩
  final := by
    have h1 := h.chronicle.final.filter fun r => r.op.op.bids || r.op.op.settles
    have h2 : (conducted c.past).Pairwise fun r s => r.op.op.settles = true →
        s.op.op ≠ .createBid r.pre.house.auction.unounId := by
      rw [h.conducted]
      exact h1
    refine (List.pairwise_filter.mp h2).imp fun {r s} hrs hr hid => ?_
    exact hrs (by simp [hr]) (by simp [bids_of_createBid hid]) hr hid

/-- **Anti-sniping window**: after each transaction, and wherever else nobody is in the house. -/
theorem anti_sniping (s : AuctionSetup) (w : AuctionWorld) (e : Env) (h : s.deploy = .ok w)
    (ts : List (Tx Env (AuctionCall P))) (hch : (e :: ts.map Tx.env).IsChain (· ≤ ·)) :
    (∀ o ∈ observations AuctionCall.code e ts ⟨[], w⟩, o.2.now.house.entered = false →
      AntiSniping o.2) ∧
    (runTxs AuctionCall.code ts ⟨[], w⟩).2.now.house.entered = false ∧
      AntiSniping (runTxs AuctionCall.code ts ⟨[], w⟩).2 := by
  obtain ⟨h1, h2⟩ := timeline_run h hch
  exact ⟨fun o ho hfree => antiSniping_of_timeline (h1 o ho hfree), h2,
    antiSniping_of_timeline (h1 _ (final_mem_observations _ _ _ _) h2)⟩

/-! ## amounts -/

theorem pairwise_concat_iff {l : List Nat} {v : Nat} (hv : 0 < v) :
    (l ++ [v]).Pairwise (· < ·) ↔ l.Pairwise (· < ·) ∧ l.getLast?.getD 0 < v := by
  rcases List.eq_nil_or_concat l with rfl | ⟨l, x, rfl⟩
  · simpa using hv
  rw [List.concat_eq_append]
  have hlast : (l ++ [x]).getLast?.getD 0 = x := by simp
  rw [hlast]
  refine ⟨fun h => ?_, fun ⟨h, hx⟩ => ?_⟩
  · obtain ⟨h1, _, h2⟩ := List.pairwise_append.mp h
    exact ⟨h1, h2 x (by simp) v (by simp)⟩
  · refine List.pairwise_append.mpr ⟨h, List.pairwise_singleton _ _, fun a ha b hb => ?_⟩
    rw [List.mem_singleton.mp hb]
    rcases List.mem_append.mp ha with ha | ha
    · exact Nat.lt_trans ((List.pairwise_append.mp h).2.2 a ha x (by simp)) hx
    · rw [List.mem_singleton.mp ha]
      exact hx

/-- the amounts increase where each bid exceeds the last one before it -/
theorem bidAmounts_increase {id : Nat} {past : List (AuctionRecord P)}
    (hpos : ∀ r ∈ past, r.op.op = .createBid id → 0 < r.op.msg.value) :
    (bidAmounts id past).Pairwise (· < ·) ↔
      ∀ xs r ys, past = xs ++ r :: ys → r.op.op = .createBid id → lastBid id xs < r.op.msg.value := by
  induction past using List.reverseRecOn with
  | nil => simp [bidAmounts]
  | append_singleton past r ih =>
    rw [forall_cuts_concat, ← ih fun r hr => hpos r (List.mem_append_left _ hr), bidAmounts_append]
    by_cases hop : r.op.op = .createBid id
    · have e : bidAmounts id [r] = [r.op.msg.value] := by simp [bidAmounts, hop]
      rw [e, pairwise_concat_iff (hpos r (by simp) hop)]
      simp [hop, lastBid]
    · have e : bidAmounts id [r] = [] := bidAmounts_nil fun s hs => by
        rw [List.mem_singleton.mp hs]
        exact hop
      simp [e, hop]

theorem bidAmounts_conducted (id : Nat) (past : List (AuctionRecord P)) :
    bidAmounts id (conducted past) = bidAmounts id past := by
  unfold bidAmounts conducted
  rw [List.filterMap_filter]
  congr 1
  funext r
  cases hop : r.op.op <;> simp [AuctionOp.bids, AuctionOp.settles]

/-- the bids for one token increase, and each exceeds the bid that it displaces -/
def Increases (c : AuctionConfig P) : Prop :=
  (∀ id, (bidAmounts id c.past).Pairwise (· < ·)) ∧
    ∀ r ∈ c.past, r.op.op.bids = true → r.pre.house.auction.amount < r.op.msg.value

/-- the bid of before once more, when the increment asked for is less than a wei -/
def Repeats (r : AuctionRecord P) : Prop :=
  r.op.msg.value = r.pre.house.auction.amount ∧
    r.pre.house.auction.amount * r.pre.house.minBidIncrementPercentage.toNat < 100

theorem Timeline.Accepts.exceeds_iff {r : AuctionRecord P} {id : Nat} {w : AuctionWorld}
    (h : Accepts r.env r.op.msg id r.pre w) :
    r.pre.house.auction.amount < r.op.msg.value ↔ ¬ Repeats r := by
  have h1 := h.increment
  unfold Repeats
  generalize r.pre.house.auction.amount * r.pre.house.minBidIncrementPercentage.toNat = n at h1 ⊢
  omega

theorem bids_eq_true {op : AuctionOp} (h : op.bids = true) : ∃ id, op = .createBid id := by
  cases op with
  | createBid id => exact ⟨id, rfl⟩
  | _ => cases h

theorem increases_iff {e : Env} {c : AuctionConfig P} (h : TimelineInv e c)
    (hreserve : ∀ v ∈ c.states, 0 < v.house.reservePrice) :
    Increases c ↔ ∀ r ∈ c.past, r.op.op.bids = true → ¬ Repeats r := by
  have accepted : ∀ r ∈ c.past, ∀ id, r.op.op = .createBid id →
      ∃ xs ys w, (calm c).past = xs ++ r :: ys ∧ Accepts r.env r.op.msg id r.pre w := by
    intro r hr id hid
    have hcalm := mem_calm_of_conducted h hr (by simp [bids_of_createBid hid])
    obtain ⟨xs, ys, hp⟩ := List.append_of_mem hcalm
    exact ⟨xs, ys, _, hp, (h.chronicle.outcomes xs r ys hp).effect.accepts hid⟩
  have hexceeds : (∀ r ∈ c.past, r.op.op.bids = true →
      r.pre.house.auction.amount < r.op.msg.value) ↔
      ∀ r ∈ c.past, r.op.op.bids = true → ¬ Repeats r := by
    refine forall_congr' fun r => forall_congr' fun hr => forall_congr' fun hb => ?_
    obtain ⟨id, hid⟩ := bids_eq_true hb
    obtain ⟨_, _, _, _, ha⟩ := accepted r hr id hid
    exact ha.exceeds_iff
  unfold Increases
  rw [← hexceeds]
  refine ⟨fun h => h.2, fun hall => ⟨fun id => ?_, hall⟩⟩
  have hsub : ∀ r ∈ (calm c).past, r ∈ c.past := fun r hr => (List.mem_filter.mp hr).1
  have e1 : bidAmounts id c.past = bidAmounts id (calm c).past := by
    rw [← bidAmounts_conducted, h.conducted, bidAmounts_conducted]
  rw [e1]
  refine (bidAmounts_increase fun r hr hid => ?_).mpr fun xs r ys hp hid => ?_
  · obtain ⟨_, _, _, _, ha⟩ := accepted r (hsub r hr) id hid
    have h1 := ha.reserve
    have h2 := hreserve r.pre (List.mem_append_left _ (List.mem_map_of_mem (hsub r hr)))
    omega
  · rw [← h.chronicle.displaced xs r ys hp id hid]
    exact hall r (hsub r (by simp [hp])) (bids_of_createBid hid)

/-- **When bids increase**: the increment is a percentage rounded down, so that small bids may be
repeated. -/
theorem bids_increase_iff (s : AuctionSetup) (w : AuctionWorld) (e : Env) (h : s.deploy = .ok w)
    (ts : List (Tx Env (AuctionCall P))) (hch : (e :: ts.map Tx.env).IsChain (· ≤ ·)) :
    (∀ o ∈ observations AuctionCall.code e ts ⟨[], w⟩, o.2.now.house.entered = false →
      (∀ v ∈ o.2.states, 0 < v.house.reservePrice) →
      (Increases o.2 ↔ ∀ r ∈ o.2.past, r.op.op.bids = true → ¬ Repeats r)) ∧
    (runTxs AuctionCall.code ts ⟨[], w⟩).2.now.house.entered = false ∧
    ((∀ v ∈ (runTxs AuctionCall.code ts ⟨[], w⟩).2.states, 0 < v.house.reservePrice) →
      (Increases (runTxs AuctionCall.code ts ⟨[], w⟩).2 ↔
        ∀ r ∈ (runTxs AuctionCall.code ts ⟨[], w⟩).2.past, r.op.op.bids = true → ¬ Repeats r)) := by
  obtain ⟨h1, h2⟩ := timeline_run h hch
  exact ⟨fun o ho hfree hreserve => increases_iff (h1 o ho hfree) hreserve, h2,
    increases_iff (h1 _ (final_mem_observations _ _ _ _) h2)⟩

end

/-! ## runs -/

instance {P : Platform} (r : AuctionRecord P) : Decidable (Repeats r) :=
  inferInstanceAs (Decidable (_ ∧ _))

theorem anti_sniping_run :
    let last := (runTxs AuctionCall.code auctionTxs ⟨[], auctionWorld⟩).2
    last.now.house.auction.endTime = 3000 ∧ bidAmounts 1 last.past = [200, 300] ∧
      AntiSniping last := by
  intro last
  have h := anti_sniping auctionSetup auctionWorld (.block 6 60) auctionWorld_deployed auctionTxs
    auctionTxs_chain
  exact ⟨by decide +kernel, by decide +kernel, h.2.2⟩

theorem auctionTxs_reserve :
    ∀ v ∈ (runTxs AuctionCall.code auctionTxs ⟨[], auctionWorld⟩).2.states,
      0 < v.house.reservePrice := by
  have h : (runTxs AuctionCall.code auctionTxs ⟨[], auctionWorld⟩).2.states.all
      (fun v => decide (0 < v.house.reservePrice)) = true := by decide +kernel
  exact fun v hv => of_decide_eq_true (List.all_eq_true.mp h v hv)

theorem auctionTxs_exceed :
    ∀ r ∈ (runTxs AuctionCall.code auctionTxs ⟨[], auctionWorld⟩).2.past,
      r.op.op.bids = true → ¬ Repeats r := by
  have h : (runTxs AuctionCall.code auctionTxs ⟨[], auctionWorld⟩).2.past.all
      (fun r => !r.op.op.bids || decide (¬ Repeats r)) = true := by decide +kernel
  intro r hr hb
  have h1 := List.all_eq_true.mp h r hr
  rw [hb] at h1
  exact of_decide_eq_true h1

theorem bids_increase_iff_run :
    let last := (runTxs AuctionCall.code auctionTxs ⟨[], auctionWorld⟩).2
    last.now.house.entered = false ∧ Increases last := by
  have h := bids_increase_iff auctionSetup auctionWorld (.block 6 60) auctionWorld_deployed auctionTxs
    auctionTxs_chain
  exact ⟨h.2.1, (h.2.2 auctionTxs_reserve).mpr auctionTxs_exceed⟩

/-- a house that takes bids of one wei, and asks for two per cent more each time -/
def pennySetup : AuctionSetup :=
  { auctionSetup with reservePrice := 1, minBidIncrementPercentage := 2 }

def pennyWorld : AuctionWorld := pennySetup.deploy.toOption.get (by decide +kernel)

theorem pennyWorld_deployed : pennySetup.deploy = .ok pennyWorld := eq_ok_get _

/-- `7` bids one wei and is displaced by `8`, who bids one wei -/
def pennyTxs : List (Tx Env (AuctionCall auctionPlatform)) :=
  [⟨.block 7 70, auctionCall 1 0 (.unpause fun _ => .ok ⟨0, 0, 0, 0, 0⟩)⟩,
   ⟨.block 8 80, auctionCall 7 1 (.createBid 1)⟩,
   ⟨.block 9 90, auctionCall 8 1 (.createBid 1)⟩]

theorem equal_bids :
    pennySetup.deploy = .ok pennyWorld ∧
    let last := (runTxs AuctionCall.code pennyTxs ⟨[], pennyWorld⟩).2
    (∀ v ∈ last.states, 0 < v.house.reservePrice ∧ 0 < v.house.minBidIncrementPercentage) ∧
      last.now.house.auction.bidder = 8 ∧ last.now.house.sent = [⟨⟨7, 1⟩, false⟩] ∧
      bidAmounts 1 last.past = [1, 1] ∧ ¬ Increases last := by
  refine ⟨pennyWorld_deployed, ?_⟩
  intro last
  have hstates : last.states.all (fun v => decide (0 < v.house.reservePrice ∧
      0 < v.house.minBidIncrementPercentage)) = true := by decide +kernel
  have hbids : bidAmounts 1 last.past = [1, 1] := by decide +kernel
  refine ⟨fun v hv => of_decide_eq_true (List.all_eq_true.mp hstates v hv), by decide +kernel,
    by decide +kernel, hbids, fun h => ?_⟩
  have h1 := h.1 1
  rw [hbids] at h1
  exact absurd h1 (by decide)

end UNouns
