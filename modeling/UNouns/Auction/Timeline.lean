import UNouns.Auction.Runs

/-!
# The auction house from call to call

What each call does to the auction.  A call that finds somebody in the house is part of another one;
the story is told of the others, the `calm` ones.

* `Outcome`        an accepted bid, a settlement, or neither;
* `Later`          what any state of the run owes to the earlier ones;
* `Chronicle`      the outcomes of the calm calls, and what follows for the auction now;
* `Announced`      the last bid that was announced is the one on record;
* `TimelineInv`    kept by every entry (`AuctionCall.code_timely`), and so by all runs
                   (`timeline_run`).
-/

set_option linter.unusedVariables false

namespace UNouns.Timeline
open Function Reentrant NounsAuctionHouse

section
variable {P : Platform}

/-! ## the outcome of a call -/

/-- what stays, whatever is called -/
structure Lasting (w w' : AuctionWorld) : Prop where
  duration : w'.house.duration = w.house.duration
  nextId : w.token.currentUNounId ≤ w'.token.currentUNounId

/-- an auction was opened, of a token that was minted meanwhile -/
structure Opened (w w' : AuctionWorld) : Prop where
  minted : w.token.currentUNounId ≤ w'.house.auction.unounId
  unounId_lt : w'.house.auction.unounId < w'.token.currentUNounId
  unsettled : w'.house.auction.Unsettled
  amount : w'.house.auction.amount = 0
  span : w'.house.auction.startTime + w.house.duration ≤ w'.house.auction.endTime

/-- neither a bid nor a settlement: an auction is opened only where none is open -/
def Idles (w w' : AuctionWorld) : Prop :=
  w'.house.auction = w.house.auction ∨ ¬ w.house.auction.Unsettled ∧ Opened w w'

/-- a bid was accepted: the first fields are its checks, the last three what it leaves -/
structure Accepts (env : Env) (msg : Msg) (id : Nat) (w w' : AuctionWorld) : Prop where
  unounId : w.house.auction.unounId = id
  unsettled : w.house.auction.Unsettled
  before : env.timestamp < w.house.auction.endTime
  reserve : w.house.reservePrice ≤ msg.value
  increment : w.house.auction.amount
    + w.house.auction.amount * w.house.minBidIncrementPercentage.toNat / 100 ≤ msg.value
  auction : w'.house.auction = { w.house.auction with
    amount := msg.value, bidder := msg.sender, endTime := w'.house.auction.endTime }
  endTime_le : w.house.auction.endTime ≤ w'.house.auction.endTime
  buffer : env.timestamp + w'.house.timeBuffer ≤ w'.house.auction.endTime

/-- an auction was settled, and perhaps another one opened -/
structure Settles (env : Env) (w w' : AuctionWorld) : Prop where
  unsettled : w.house.auction.Unsettled
  ended : w.house.auction.endTime ≤ env.timestamp
  auction : w'.house.auction = { w.house.auction with settled := true } ∨ Opened w w'

def Effect (env : Env) (msg : Msg) (w w' : AuctionWorld) : AuctionOp → Prop
  | .createBid id => Accepts env msg id w w'
  | .settleAuction | .settleCurrentAndCreateNewAuction _ => Settles env w w'
  | _ => Idles w w'

/-- a bid is announced, and nothing else is announced as one -/
def Announces (msg : Msg) (w w' : AuctionWorld) : AuctionOp → Prop
  | .createBid id => ∃ extended,
      bidLogs w'.house.logs = bidLogs w.house.logs ++ [⟨id, msg.sender, msg.value, extended⟩]
  | _ => bidLogs w'.house.logs = bidLogs w.house.logs

/-- what a call that found nobody in the house has done once nobody is there again -/
structure Outcome (r : AuctionRecord P) (w' : AuctionWorld) : Prop extends Lasting r.pre w' where
  effect : Effect r.env r.op.msg r.pre w' r.op.op
  bids : Announces r.op.msg r.pre w' r.op.op

theorem Lasting.refl (w : AuctionWorld) : Lasting w w := ⟨rfl, Nat.le_refl _⟩

theorem Lasting.trans {a b c : AuctionWorld} (h1 : Lasting a b) (h2 : Lasting b c) : Lasting a c :=
  ⟨h2.duration.trans h1.duration, Nat.le_trans h1.nextId h2.nextId⟩

theorem Opened.of_lasting {a b c : AuctionWorld} (h : Lasting a b) (ho : Opened b c) : Opened a c :=
  ⟨Nat.le_trans h.nextId ho.minted, ho.unounId_lt, ho.unsettled, ho.amount, h.duration ▸ ho.span⟩

theorem Opened.lasting {a b c : AuctionWorld} (ho : Opened a b) (h : Lasting b c)
    (ha : c.house.auction = b.house.auction) : Opened a c := by
  refine ⟨ha ▸ ho.minted, ?_, ha ▸ ho.unsettled, ha ▸ ho.amount, ha ▸ ho.span⟩
  rw [ha]
  exact Nat.lt_of_lt_of_le ho.unounId_lt h.nextId

theorem Idles.refl (w : AuctionWorld) : Idles w w := .inl rfl

theorem Idles.trans {a b c : AuctionWorld} (h1 : Idles a b) (h2 : Idles b c) (l1 : Lasting a b)
    (l2 : Lasting b c) : Idles a c := by
  rcases h1 with e1 | ⟨u1, o1⟩
  · rcases h2 with e2 | ⟨u2, o2⟩
    · exact .inl (e2.trans e1)
    · exact .inr ⟨e1 ▸ u2, o2.of_lasting l1⟩
  · rcases h2 with e2 | ⟨u2, o2⟩
    · exact .inr ⟨u1, o1.lasting l2 e2⟩
    · exact absurd o1.unsettled u2

/-- an open auction stays as it is -/
theorem Idles.auction_eq {w w' : AuctionWorld} (h : Idles w w') (hu : w.house.auction.Unsettled) :
    w'.house.auction = w.house.auction := h.resolve_right fun h => h.1 hu

/-! ## earlier and later states -/

/-- the token for sale has been minted -/
def Minted (w : AuctionWorld) : Prop :=
  w.house.auction.startTime ≠ 0 → w.house.auction.unounId < w.token.currentUNounId

/-- the auction stays open for no less long, until it is settled or gives way to one of a later
token -/
structure Later (w w' : AuctionWorld) : Prop where
  begun : w.house.auction.startTime ≠ 0 → w'.house.auction.startTime ≠ 0
  unounId_le : w.house.auction.startTime ≠ 0 → w.house.auction.unounId ≤ w'.house.auction.unounId
  endTime_le : w.house.auction.startTime ≠ 0 →
    w'.house.auction.unounId = w.house.auction.unounId →
    w.house.auction.endTime ≤ w'.house.auction.endTime
  settled : w.house.auction.startTime ≠ 0 →
    w'.house.auction.unounId = w.house.auction.unounId →
    w.house.auction.settled = true → w'.house.auction.settled = true

theorem Later.trans {a b c : AuctionWorld} (h1 : Later a b) (h2 : Later b c) : Later a c := by
  have hid : a.house.auction.startTime ≠ 0 → c.house.auction.unounId = a.house.auction.unounId →
      b.house.auction.unounId = a.house.auction.unounId := by
    intro ha e
    have l1 := h1.unounId_le ha
    have l2 := h2.unounId_le (h1.begun ha)
    omega
  refine ⟨fun ha => h2.begun (h1.begun ha), fun ha => ?_, fun ha e => ?_, fun ha e hs => ?_⟩
  · exact Nat.le_trans (h1.unounId_le ha) (h2.unounId_le (h1.begun ha))
  · have e1 := hid ha e
    exact Nat.le_trans (h1.endTime_le ha e1) (h2.endTime_le (h1.begun ha) (e.trans e1.symm))
  · have e1 := hid ha e
    exact h2.settled (h1.begun ha) (e.trans e1.symm) (h1.settled ha e1 hs)

/-- the same auction, with an end no earlier and perhaps settled -/
theorem Later.of_same {w w' : AuctionWorld}
    (hid : w'.house.auction.unounId = w.house.auction.unounId)
    (hstart : w'.house.auction.startTime = w.house.auction.startTime)
    (hend : w.house.auction.endTime ≤ w'.house.auction.endTime)
    (hsettled : w.house.auction.settled = true → w'.house.auction.settled = true) : Later w w' :=
  ⟨fun h => hstart ▸ h, fun _ => Nat.le_of_eq hid.symm, fun _ _ => hend, fun _ _ => hsettled⟩

theorem Opened.later {w w' : AuctionWorld} (hm : Minted w) (h : Opened w w') : Later w w' := by
  have hlt : w.house.auction.startTime ≠ 0 →
      w.house.auction.unounId < w'.house.auction.unounId := fun h0 =>
    Nat.lt_of_lt_of_le (hm h0) h.minted
  exact ⟨fun _ => h.unsettled.1, fun h0 => Nat.le_of_lt (hlt h0),
    fun h0 e => absurd e (Nat.ne_of_gt (hlt h0)), fun h0 e => absurd e (Nat.ne_of_gt (hlt h0))⟩

theorem Opened.minted_after {w w' : AuctionWorld} (h : Opened w w') : Minted w' :=
  fun _ => h.unounId_lt

theorem Minted.of_same {w w' : AuctionWorld} (hm : Minted w) (hl : Lasting w w')
    (hid : w'.house.auction.unounId = w.house.auction.unounId)
    (hstart : w'.house.auction.startTime = w.house.auction.startTime) : Minted w' := by
  intro h0
  rw [hid]
  exact Nat.lt_of_lt_of_le (hm (hstart ▸ h0)) hl.nextId

theorem Idles.later {w w' : AuctionWorld} (hm : Minted w) (h : Idles w w') : Later w w' := by
  rcases h with e | ⟨_, h⟩
  · exact .of_same (by rw [e]) (by rw [e]) (by rw [e]) (by rw [e]; exact fun h => h)
  · exact h.later hm

theorem Idles.minted {w w' : AuctionWorld} (hm : Minted w) (hl : Lasting w w') (h : Idles w w') :
    Minted w' := by
  rcases h with e | ⟨_, h⟩
  · exact hm.of_same hl (by rw [e]) (by rw [e])
  · exact h.minted_after

/-- every state is `Later` than those before it -/
structure Sound (c : AuctionConfig P) : Prop where
  later : c.states.Pairwise Later
  minted : Minted c.now

theorem Sound.rest {past : List (AuctionRecord P)} {w w' : AuctionWorld} (h : Sound ⟨past, w⟩)
    (hl : Later w w') (hm : Minted w') : Sound ⟨past, w'⟩ := by
  obtain ⟨h1, h2, h3⟩ := List.pairwise_append.mp h.later
  refine ⟨List.pairwise_append.mpr ⟨h1, List.pairwise_singleton _ _, fun a ha b hb => ?_⟩, hm⟩
  rw [List.mem_singleton.mp hb]
  exact (h3 a ha w (List.mem_singleton_self _)).trans hl

theorem Sound.enter {env : Env} {call : AuctionCall P} {c : AuctionConfig P} {w' : AuctionWorld}
    (h : Sound c) (hl : Later c.now w') (hm : Minted w') : Sound ⟨c.enter env call, w'⟩ := by
  have hlast : ∀ a ∈ c.states, Later a w' := by
    intro a ha
    rcases List.mem_append.mp ha with h1 | h1
    · exact ((List.pairwise_append.mp h.later).2.2 a h1 _ (List.mem_singleton_self _)).trans hl
    · rw [List.mem_singleton.mp h1]
      exact hl
  have e : Config.states (⟨c.enter env call, w'⟩ : AuctionConfig P) = c.states ++ [w'] := by
    simp [Config.states, Config.enter]
  refine ⟨e ▸ List.pairwise_append.mpr ⟨h.later, List.pairwise_singleton _ _, ?_⟩, hm⟩
  intro a ha b hb
  rw [List.mem_singleton.mp hb]
  exact hlast a ha

/-! ## the calm calls -/

/-- the calls that found nobody in the house, and the state now -/
def calm (c : AuctionConfig P) : AuctionConfig P :=
  ⟨c.past.filter fun r => !r.pre.house.entered, c.now⟩

/-- the bids for a token, in order -/
def bidAmounts (id : Nat) (past : List (AuctionRecord P)) : List Nat :=
  past.filterMap fun r => match r.op.op with
    | .createBid i => if i = id then some r.op.msg.value else none
    | _ => none

/-- the last of them -/
def lastBid (id : Nat) (past : List (AuctionRecord P)) : Nat := (bidAmounts id past).getLast?.getD 0

theorem bidAmounts_append (id : Nat) (l m : List (AuctionRecord P)) :
    bidAmounts id (l ++ m) = bidAmounts id l ++ bidAmounts id m := List.filterMap_append

theorem bidAmounts_nil {id : Nat} {past : List (AuctionRecord P)}
    (h : ∀ r ∈ past, r.op.op ≠ .createBid id) : bidAmounts id past = [] := by
  refine List.filterMap_eq_nil_iff.mpr fun r hr => ?_
  have h1 := h r hr
  split
  · next i hi =>
    rw [if_neg]
    rintro rfl
    exact h1 hi
  · rfl

variable {env : Env} {c : AuctionConfig P} {call : AuctionCall P}

theorem bidAmounts_enter_other {id : Nat} (h : call.op ≠ .createBid id) :
    bidAmounts id (c.enter env call) = bidAmounts id c.past := by
  have hnone : bidAmounts id [(⟨env, c.now, call⟩ : AuctionRecord P)] = [] :=
    bidAmounts_nil fun r hr => by
      rw [List.mem_singleton.mp hr]
      exact h
  rw [Config.enter, bidAmounts_append, hnone, List.append_nil]

theorem bidAmounts_enter_bid {id : Nat} (h : call.op = .createBid id) :
    bidAmounts id (c.enter env call) = bidAmounts id c.past ++ [call.msg.value] := by
  rw [Config.enter, bidAmounts_append]
  simp [bidAmounts, h]

theorem calm_enter (h : c.now.house.entered = false) (w : AuctionWorld) :
    calm ⟨c.enter env call, w⟩ = ⟨(calm c).enter env call, w⟩ := by
  simp [calm, Config.enter, h]

theorem calm_enter_held (h : c.now.house.entered = true) (w : AuctionWorld) :
    (calm ⟨c.enter env call, w⟩).past = (calm c).past := by
  simp [calm, Config.enter, h]

/-! ## what the calm calls tell of the auction now -/

/-- the history of the calm calls; `final` says that no bid follows on a settlement -/
structure Told (c : AuctionConfig P) : Prop where
  outcomes : Linked Outcome c
  bids_lt : ∀ r ∈ c.past, ∀ id, r.op.op = .createBid id → id < c.now.token.currentUNounId
  settled_lt : ∀ r ∈ c.past, r.op.op.settles = true →
    r.pre.house.auction.unounId < c.now.token.currentUNounId
  displaced : ∀ xs r ys, c.past = xs ++ r :: ys → ∀ id, r.op.op = .createBid id →
    r.pre.house.auction.amount = lastBid id xs
  final : c.past.Pairwise fun r s => r.op.op.settles = true →
    s.op.op ≠ .createBid r.pre.house.auction.unounId

structure Chronicle (e : Env) (c : AuctionConfig P) : Prop extends Told c where
  ended : c.now.house.auction.settled = true → c.now.house.auction.endTime ≤ e.timestamp
  unbegun : c.now.house.auction.startTime = 0 → c.now.house.auction.endTime = 0
  span : c.now.house.auction.startTime ≠ 0 →
    c.now.house.auction.startTime + c.now.house.duration ≤ c.now.house.auction.endTime
  standing : c.now.house.auction.startTime ≠ 0 →
    c.now.house.auction.amount = lastBid c.now.house.auction.unounId c.past
  closed : ∀ r ∈ c.past, r.op.op.settles = true → c.now.house.auction.Unsettled →
    r.pre.house.auction.unounId ≠ c.now.house.auction.unounId

theorem Chronicle.tick {e e' : Env} (h : Chronicle e c) (he : e ≤ e') : Chronicle e' c :=
  { h with ended := fun hs => Nat.le_trans (h.ended hs) he.2 }

/-- an auction that has not ended has begun, and is not settled -/
theorem Chronicle.unsettled {e : Env} (h : Chronicle e c) (he : e ≤ env)
    (htime : env.timestamp < c.now.house.auction.endTime) : c.now.house.auction.Unsettled := by
  refine ⟨fun h0 => ?_, Bool.eq_false_of_not_eq_true fun h1 => ?_⟩
  · have := h.unbegun h0
    omega
  · have h2 := h.ended h1
    have h3 := he.2
    omega

variable {w' : AuctionWorld}

/-! ## one more calm call -/

theorem Effect.accepts {msg : Msg} {op : AuctionOp} {id : Nat} {w : AuctionWorld}
    (h : Effect env msg w w' op) (hop : op = .createBid id) : Accepts env msg id w w' := by
  rw [hop] at h
  exact h

theorem Effect.settles {msg : Msg} {op : AuctionOp} {w : AuctionWorld}
    (h : Effect env msg w w' op) (hop : op.settles = true) : Settles env w w' := by
  cases op with
  | settleAuction | settleCurrentAndCreateNewAuction _ => exact h
  | _ => cases hop

theorem Effect.idles {msg : Msg} {op : AuctionOp} {w : AuctionWorld}
    (h : Effect env msg w w' op) (hb : op.bids = false) (hs : op.settles = false) :
    Idles w w' := by
  cases op with
  | createBid id => cases hb
  | settleAuction | settleCurrentAndCreateNewAuction _ => cases hs
  | _ => exact h

theorem Effect.of_idles {msg : Msg} {op : AuctionOp} {w : AuctionWorld} (hb : op.bids = false)
    (hs : op.settles = false) (h : Idles w w') : Effect env msg w w' op := by
  cases op with
  | createBid id => cases hb
  | settleAuction | settleCurrentAndCreateNewAuction _ => cases hs
  | _ => exact h

theorem Effect.of_settles {msg : Msg} {op : AuctionOp} {w : AuctionWorld} (hs : op.settles = true)
    (h : Settles env w w') : Effect env msg w w' op := by
  cases op with
  | settleAuction | settleCurrentAndCreateNewAuction _ => exact h
  | _ => cases hs

theorem bids_of_settles {op : AuctionOp} (h : op.settles = true) : op.bids = false := by
  cases op with
  | createBid id => cases h
  | _ => rfl

theorem Announces.of_same {msg : Msg} {op : AuctionOp} {w : AuctionWorld} (hb : op.bids = false)
    (h : bidLogs w'.house.logs = bidLogs w.house.logs) : Announces msg w w' op := by
  cases op with
  | createBid id => cases hb
  | _ => exact h

theorem Announces.same {msg : Msg} {op : AuctionOp} {w : AuctionWorld} (hb : op.bids = false)
    (h : Announces msg w w' op) : bidLogs w'.house.logs = bidLogs w.house.logs := by
  cases op with
  | createBid id => cases hb
  | _ => exact h

theorem bids_of_createBid {op : AuctionOp} {id : Nat} (h : op = .createBid id) :
    op.bids = true := by
  rw [h]
  rfl

/-- the history with one more call -/
theorem Chronicle.told (h : Chronicle env c) (hm : Minted c.now)
    (ho : Outcome ⟨env, c.now, call⟩ w') : Told ⟨c.enter env call, w'⟩ := by
  have hlt : ∀ {n : Nat}, n < c.now.token.currentUNounId → n < w'.token.currentUNounId :=
    fun hn => Nat.lt_of_lt_of_le hn ho.nextId
  constructor
  case outcomes => exact Linked.enter h.outcomes ho
  case bids_lt =>
    refine forall_enter (fun r hr id hid => hlt (h.bids_lt r hr id hid)) fun id hid => ?_
    have ha := ho.effect.accepts hid
    exact hlt (ha.unounId ▸ hm ha.unsettled.1)
  case settled_lt =>
    refine forall_enter (fun r hr hs => hlt (h.settled_lt r hr hs)) fun hs => ?_
    exact hlt (hm (ho.effect.settles hs).unsettled.1)
  case displaced =>
    refine forall_cuts_concat.mpr ⟨fun xs r ys hp => h.displaced xs r ys hp, fun id hid => ?_⟩
    have ha := ho.effect.accepts hid
    rw [← ha.unounId]
    exact h.standing ha.unsettled.1
  case final =>
    refine List.pairwise_append.mpr ⟨h.final, List.pairwise_singleton _ _, fun r hr s hs hset hop => ?_⟩
    rw [List.mem_singleton.mp hs] at hop
    have ha := ho.effect.accepts hop
    exact h.closed r hr hset ha.unsettled ha.unounId.symm

/-- the auction now, if it is a new one -/
theorem Chronicle.opened (h : Chronicle env c) (hm : Minted c.now)
    (ht : Told ⟨c.enter env call, w'⟩) (hl : Lasting c.now w') (hb : call.op.bids = false)
    (hs : call.op.settles = true → c.now.house.auction.startTime ≠ 0) (ho : Opened c.now w') :
    Chronicle env ⟨c.enter env call, w'⟩ where
  toTold := ht
  ended hs := absurd hs (by simp [ho.unsettled.2])
  unbegun h0 := absurd h0 ho.unsettled.1
  span _ := hl.duration ▸ ho.span
  standing _ := by
    have hnone : bidAmounts w'.house.auction.unounId c.past = [] :=
      bidAmounts_nil fun r hr hid => by
        have h1 := h.bids_lt r hr _ hid
        have h2 := ho.minted
        omega
    have hother : call.op ≠ .createBid w'.house.auction.unounId := fun e => by
      rw [bids_of_createBid e] at hb
      cases hb
    rw [ho.amount, lastBid, bidAmounts_enter_other hother, hnone]
    rfl
  closed := by
    have hne : ∀ {n : Nat}, n < c.now.token.currentUNounId → n ≠ w'.house.auction.unounId :=
      fun hn => Nat.ne_of_lt (Nat.lt_of_lt_of_le hn ho.minted)
    exact forall_enter (fun r hr hset _ => hne (h.settled_lt r hr hset))
      fun hset _ => hne (hm (hs hset))

/-- if it is the same one, without a bid -/
theorem Chronicle.same (h : Chronicle env c) (ht : Told ⟨c.enter env call, w'⟩)
    (hl : Lasting c.now w') (hb : call.op.bids = false) {b : Bool}
    (ha : w'.house.auction = { c.now.house.auction with settled := b })
    (hended : b = true → c.now.house.auction.endTime ≤ env.timestamp)
    (hopen : b = false → c.now.house.auction.settled = false ∧ call.op.settles = false) :
    Chronicle env ⟨c.enter env call, w'⟩ where
  toTold := ht
  ended := by
    rw [ha]
    exact hended
  unbegun := by
    rw [ha]
    exact h.unbegun
  span := by
    rw [ha, hl.duration]
    exact h.span
  standing := by
    have hother : call.op ≠ .createBid c.now.house.auction.unounId := fun e => by
      rw [bids_of_createBid e] at hb
      cases hb
    rw [ha, lastBid, bidAmounts_enter_other hother]
    exact h.standing
  closed := by
    rw [ha]
    refine forall_enter (fun r hr hs hu => h.closed r hr hs ⟨hu.1, (hopen hu.2).1⟩) fun hs hu => ?_
    rw [(hopen hu.2).2] at hs
    cases hs

/-- if it has got a bid -/
theorem Chronicle.accepted {id : Nat} (h : Chronicle env c) (ht : Told ⟨c.enter env call, w'⟩)
    (hl : Lasting c.now w') (hop : call.op = .createBid id)
    (ho : Accepts env call.msg id c.now w') : Chronicle env ⟨c.enter env call, w'⟩ where
  toTold := ht
  ended := by
    rw [ho.auction]
    exact fun hs => absurd (ho.unsettled.2.symm.trans hs) Bool.false_ne_true
  unbegun := by
    rw [ho.auction]
    exact fun h0 => absurd h0 ho.unsettled.1
  span h0 := by
    have h1 := h.span ho.unsettled.1
    have h2 := ho.endTime_le
    show w'.house.auction.startTime + w'.house.duration ≤ w'.house.auction.endTime
    have e : w'.house.auction.startTime = c.now.house.auction.startTime := by rw [ho.auction]
    rw [e, hl.duration]
    omega
  standing _ := by
    rw [ho.auction, lastBid, ho.unounId, bidAmounts_enter_bid hop]
    simp
  closed := by
    have hu : ∀ {n : Nat}, n ≠ c.now.house.auction.unounId → n ≠ w'.house.auction.unounId := by
      rw [ho.auction]
      exact fun hn => hn
    refine forall_enter (fun r hr hs _ => hu (h.closed r hr hs ho.unsettled)) fun hs _ => ?_
    rw [hop] at hs
    cases hs

/-- **One more calm call, whatever it has done.** -/
theorem Chronicle.enter (h : Chronicle env c) (hm : Minted c.now)
    (ho : Outcome ⟨env, c.now, call⟩ w') : Chronicle env ⟨c.enter env call, w'⟩ := by
  have ht := h.told hm ho
  cases hb : call.op.bids with
  | true =>
    cases hop : call.op with
    | createBid id => exact h.accepted ht ho.toLasting hop (ho.effect.accepts hop)
    | _ => rw [hop] at hb; cases hb
  | false =>
    cases hs : call.op.settles with
    | true =>
      have hset := ho.effect.settles hs
      rcases hset.auction with ha | hopen
      · exact h.same ht ho.toLasting hb ha (fun _ => hset.ended) fun h0 => absurd h0 Bool.true_eq_false.mp
      · exact h.opened hm ht ho.toLasting hb (fun _ => hset.unsettled.1) hopen
    | false =>
      rcases ho.effect.idles hb hs with ha | ⟨_, hopen⟩
      · exact h.same ht ho.toLasting hb (b := c.now.house.auction.settled) ha h.ended
          fun h0 => ⟨h0, hs⟩
      · exact h.opened hm ht ho.toLasting hb (fun h0 => absurd (hs.symm.trans h0) Bool.false_ne_true)
          hopen

/-! ## the announcements -/

/-- the bids for a token, as they were announced -/
def bidsOn (id : Nat) (w : AuctionWorld) : List AuctionBid :=
  (bidLogs w.house.logs).filter fun b => b.unounId = id

/-- the last bid that was announced is the one on record, and none before it was higher -/
structure Announced (w : AuctionWorld) : Prop where
  lt : ∀ b ∈ bidLogs w.house.logs, b.unounId < w.token.currentUNounId
  leader : w.house.auction.startTime ≠ 0 → ∀ b, (bidsOn w.house.auction.unounId w).getLast? = some b →
    w.house.auction.amount = b.value ∧ w.house.auction.bidder = b.sender
  rise : ∀ id, ((bidsOn id w).map AuctionBid.value).IsChain (· ≤ ·)

/-- no bid is announced -/
theorem Announced.same {w : AuctionWorld} (h : Announced w) (hl : Lasting w w')
    (hb : bidLogs w'.house.logs = bidLogs w.house.logs)
    (ha : (w'.house.auction.unounId = w.house.auction.unounId ∧
        w'.house.auction.startTime = w.house.auction.startTime ∧
        w'.house.auction.amount = w.house.auction.amount ∧
        w'.house.auction.bidder = w.house.auction.bidder) ∨ Opened w w') : Announced w' := by
  have hon : ∀ id, bidsOn id w' = bidsOn id w := fun id => by
    unfold bidsOn
    rw [hb]
  refine ⟨fun b hm => Nat.lt_of_lt_of_le (h.lt b (hb ▸ hm)) hl.nextId, fun hs b hlast => ?_,
    fun id => by rw [hon]; exact h.rise id⟩
  rw [hon] at hlast
  rcases ha with ⟨hid, hstart, hamount, hbidder⟩ | ho
  · rw [hamount, hbidder]
    exact h.leader (hstart ▸ hs) b (hid ▸ hlast)
  · -- nobody has bid for a new token
    obtain ⟨hm, hid⟩ := List.mem_filter.mp (List.mem_of_getLast? hlast)
    have h1 := h.lt b hm
    have h2 := ho.minted
    have h3 := of_decide_eq_true hid
    omega

/-- a bid is announced -/
theorem Announced.accepted {w : AuctionWorld} {msg : Msg} {id : Nat} {extended : Bool}
    (h : Announced w) (hm : Minted w) (hl : Lasting w w') (ho : Accepts env msg id w w')
    (hb : bidLogs w'.house.logs = bidLogs w.house.logs ++ [⟨id, msg.sender, msg.value, extended⟩]) :
    Announced w' := by
  have hid := ho.unounId
  have hon : ∀ i, bidsOn i w' = bidsOn i w
      ++ if id = i then [⟨id, msg.sender, msg.value, extended⟩] else [] := fun i => by
    unfold bidsOn
    rw [hb, List.filter_append, List.filter_singleton]
    by_cases e : id = i <;> simp [e]
  refine ⟨fun b hmem => ?_, fun hs b hlast => ?_, fun i => ?_⟩
  · rw [hb] at hmem
    rcases List.mem_append.mp hmem with hmem | hmem
    · exact Nat.lt_of_lt_of_le (h.lt b hmem) hl.nextId
    · rw [List.mem_singleton.mp hmem]
      have hlt := hm ho.unsettled.1
      have hnext := hl.nextId
      show id < _
      omega
  · rw [ho.auction, hon, hid, if_pos rfl, List.getLast?_concat] at hlast
    rw [ho.auction, ← Option.some.inj hlast]
    exact ⟨rfl, rfl⟩
  · rw [hon]
    by_cases e : id = i
    · rw [if_pos e, List.map_append]
      refine List.isChain_append.mpr ⟨h.rise i, List.isChain_singleton _, fun x hx y hy => ?_⟩
      obtain ⟨b, hlast, rfl⟩ := Option.map_eq_some_iff.mp (List.getLast?_map ▸ hx)
      have hleader := (h.leader ho.unsettled.1 b (by rw [hid, e]; exact hlast)).1
      have hincrement := ho.increment
      rw [← Option.some.inj hy]
      show b.value ≤ msg.value
      omega
    · rw [if_neg e, List.append_nil]
      exact h.rise i

/-- **The announcements keep up with every calm call.** -/
theorem Announced.step {w : AuctionWorld} (h : Announced w) (hm : Minted w)
    (ho : Outcome ⟨env, w, call⟩ w') : Announced w' := by
  cases hb : call.op.bids with
  | true =>
    cases hop : call.op with
    | createBid id =>
      have hbids := ho.bids
      dsimp only at hbids
      rw [hop] at hbids
      obtain ⟨extended, hlogs⟩ := hbids
      exact h.accepted hm ho.toLasting (ho.effect.accepts hop) hlogs
    | _ => rw [hop] at hb; cases hb
  | false =>
    refine h.same ho.toLasting (ho.bids.same hb) ?_
    cases hs : call.op.settles with
    | true =>
      refine (ho.effect.settles hs).auction.imp (fun e => ?_) fun h => h
      rw [e]
      exact ⟨rfl, rfl, rfl, rfl⟩
    | false =>
      refine (ho.effect.idles hb hs).imp (fun e => ?_) fun h => h.2
      rw [e]
      exact ⟨rfl, rfl, rfl, rfl⟩

/-! ## the guard -/

/-- from one state behind the guard to another one -/
structure Undisturbed (c d : AuctionConfig P) : Prop extends Lasting c.now d.now where
  entered : d.now.house.entered = true
  calm : (calm d).past = (calm c).past
  conducted : conducted d.past = conducted c.past
  idles : Idles c.now d.now
  sound : Sound c → Sound d
  bids : bidLogs d.now.house.logs = bidLogs c.now.house.logs

structure TimelineInv (e : Env) (c : AuctionConfig P) : Prop extends Sound c where
  chronicle : Chronicle e (calm c)
  conducted : conducted c.past = conducted (calm c).past
  announced : Announced c.now

variable {d : AuctionConfig P} {w : AuctionWorld}

theorem Undisturbed.refl (h : c.now.house.entered = true) : Undisturbed c c :=
  ⟨Lasting.refl _, h, rfl, rfl, Idles.refl _, fun h => h, rfl⟩

theorem Undisturbed.trans {b : AuctionConfig P} (h1 : Undisturbed b c) (h2 : Undisturbed c d) :
    Undisturbed b d :=
  ⟨h1.toLasting.trans h2.toLasting, h2.entered, h2.calm.trans h1.calm,
    h2.conducted.trans h1.conducted, h1.idles.trans h2.idles h1.toLasting h2.toLasting,
    fun h => h2.sound (h1.sound h), h2.bids.trans h1.bids⟩

/-- the call that is under way goes on -/
theorem Undisturbed.still (h : Undisturbed c d) (he : w.house.entered = true)
    (hl : Lasting d.now w) (ha : w.house.auction = d.now.house.auction)
    (hb : bidLogs w.house.logs = bidLogs d.now.house.logs) : Undisturbed c ⟨d.past, w⟩ :=
  ⟨h.toLasting.trans hl, he, h.calm, h.conducted, h.idles.trans (.inl ha) h.toLasting hl,
    fun hs => (h.sound hs).rest (Idles.later (h.sound hs).minted (.inl ha))
      (Idles.minted (h.sound hs).minted hl (.inl ha)), hb.trans h.bids⟩

def timelineGuard (P : Platform) : Guard Env AuctionWorld (AuctionCall P) where
  held w := w.house.entered = true
  Fits _ := True
  Frozen := Undisturbed
  Inv := TimelineInv
  fits_of_prefix := fun _ h => h
  refl := Undisturbed.refl
  trans := Undisturbed.trans
  still_held := fun h => h.entered

/-- the condition on the code of an entry that began in `c` -/
abbrev Timely (env : Env) (c : AuctionConfig P) : AuctionCode → List (AuctionRecord P) → Prop :=
  Code.Meets ((timelineGuard P).Done env) ((timelineGuard P).Midway env) c

theorem conducted_enter_other (hb : call.op.bids = false) (hs : call.op.settles = false) :
    UNouns.conducted (c.enter env call) = UNouns.conducted c.past := by
  simp [Config.enter, UNouns.conducted, hb, hs]

/-- an entry that neither bids nor settles, within another one or not -/
theorem idle_done (hb : call.op.bids = false) (hs : call.op.settles = false)
    (he : w.house.entered = c.now.house.entered) (hl : Lasting c.now w) (hi : Idles c.now w)
    (hbids : bidLogs w.house.logs = bidLogs c.now.house.logs) : (timelineGuard P).Done env c ⟨c.enter env call, w⟩ := by
  have hsound : Sound c → Sound ⟨c.enter env call, w⟩ := fun h =>
    h.enter (hi.later h.minted) (hi.minted h.minted hl)
  refine ⟨List.prefix_append _ _, fun _ => ⟨fun hh => ?_, fun hh hI => ?_⟩⟩
  · exact ⟨hl, he.trans hh, calm_enter_held hh w, conducted_enter_other hb hs, hi, hsound, hbids⟩
  · have hfree : c.now.house.entered = false := Bool.eq_false_of_not_eq_true hh
    have ho : Outcome ⟨env, c.now, call⟩ w := ⟨hl, .of_idles hb hs hi, .of_same hb hbids⟩
    refine ⟨fun h => hh (he.symm.trans h), hsound hI.toSound, ?_, ?_, hI.announced.step hI.minted ho⟩
    · rw [calm_enter hfree]
      exact hI.chronicle.enter hI.minted ho
    · rw [calm_enter hfree, conducted_enter_other hb hs, hI.conducted]
      exact (conducted_enter_other hb hs).symm

/-- the end of an entry that took the lock in `w`, and waited until `d` -/
theorem locked_done {w' : AuctionWorld} (hfree : c.now.house.entered = false)
    (hp : c.past <+: d.past) (hu : Undisturbed ⟨c.enter env call, w⟩ d)
    (hw : Minted c.now → Later c.now w ∧ Minted w) (he : w'.house.entered = false)
    (hw' : TimelineInv env c → Minted d.now → Later d.now w' ∧ Minted w')
    (ho : TimelineInv env c → Outcome ⟨env, c.now, call⟩ w')
    (hc : (call.op.bids || call.op.settles) = true) :
    (timelineGuard P).Done env c ⟨d.past, w'⟩ := by
  refine ⟨hp, fun _ => ⟨fun hh => ?_, fun _ hI => ?_⟩⟩
  · exact absurd (hfree.symm.trans hh) Bool.false_ne_true
  obtain ⟨h1, h2⟩ := hw hI.minted
  have hd : Sound d := hu.sound (hI.toSound.enter h1 h2)
  obtain ⟨h3, h4⟩ := hw' hI hd.minted
  have hcalm : calm ⟨d.past, w'⟩ = ⟨(calm c).enter env call, w'⟩ :=
    (congrArg (Config.mk · w') hu.calm).trans (calm_enter hfree w')
  refine ⟨fun h => absurd (he.symm.trans h) Bool.false_ne_true, hd.rest h3 h4, ?_, ?_,
    hI.announced.step hI.minted (ho hI)⟩
  · rw [hcalm]
    exact hI.chronicle.enter hI.minted (ho hI)
  · rw [hcalm]
    refine hu.conducted.trans ?_
    rw [conducted_enter hc, hI.conducted]
    exact (conducted_enter (c := calm c) hc).symm

/-! ## entries -/

theorem createBid_timely {id : Nat} (hop : call.op = .createBid id) :
    Timely env c (c.now.createBid env call.msg id) (c.enter env call) := by
  unfold AuctionWorld.createBid
  cases hbegin : c.now.house.beginBid env call.msg id with
  | error e => trivial
  | ok h =>
    obtain ⟨hfree, hid, htime, hh⟩ := beginBid_ok hbegin
    obtain ⟨_, _, hreserve, hincrement⟩ := checkBid_ok (beginBid_checked hbegin)
    have finish : ∀ (w : AuctionWorld) (d : AuctionConfig P), c.enter env call <+: d.past →
        Lasting c.now w → w.house.auction = c.now.house.auction →
        bidLogs w.house.logs = bidLogs c.now.house.logs → Undisturbed ⟨c.enter env call, w⟩ d →
        Timely env c (Code.ofExcept ((d.now.house.endBid env call.msg c.now.house.auction).map
          d.now.withHouse)) d.past := by
      intro w d hp hl ha hb hu
      refine Code.ofExcept_meets fun w' hw' => ?_
      obtain ⟨h', hend, rfl⟩ := map_eq_ok.mp hw'
      obtain ⟨hlate, hearly⟩ := endBid_endTime hend
      obtain ⟨extended, hlogs⟩ := endBid_bidLogs hend
      have hbids := hu.bids.trans hb
      obtain ⟨endTime, logs, rfl, _⟩ := endBid_ok hend
      have ends : TimelineInv env c → d.now.house.auction = c.now.house.auction ∧
          c.now.house.auction.endTime ≤ endTime ∧
          env.timestamp + d.now.house.timeBuffer ≤ endTime := by
        intro hI
        have hopen := hI.chronicle.unsettled (Env.le_refl env) htime
        have ea : d.now.house.auction = c.now.house.auction :=
          (hu.idles.auction_eq (ha ▸ hopen)).trans ha
        rw [ea] at hearly
        refine ⟨ea, ?_⟩
        by_cases hlt : c.now.house.auction.endTime - env.timestamp < d.now.house.timeBuffer
        · have := hlate hlt
          dsimp only at this
          omega
        · have := hearly (Nat.not_lt.mp hlt)
          dsimp only at this
          omega
      have hcd := hl.trans hu.toLasting
      refine locked_done hfree ((List.prefix_append _ _).trans hp) hu (fun hm => ⟨Idles.later hm
        (.inl ha), Idles.minted hm hl (.inl ha)⟩) rfl (fun hI hm => ?_) (fun hI => ?_) (by rw [hop]; rfl)
      · obtain ⟨ea, hle, _⟩ := ends hI
        exact ⟨.of_same rfl rfl (by rw [ea]; exact hle) fun h => h, hm.of_same ⟨rfl, Nat.le_refl _⟩ rfl rfl⟩
      · obtain ⟨ea, hle, hbuffer⟩ := ends hI
        refine ⟨⟨hcd.duration, hcd.nextId⟩, ?_, ?_⟩
        · show Effect env call.msg c.now _ call.op
          rw [hop]
          exact ⟨hid, hI.chronicle.unsettled (Env.le_refl env) htime, htime, hreserve, hincrement,
            by simp only [AuctionWorld.withHouse, ea], hle, hbuffer⟩
        · show Announces call.msg c.now _ call.op
          rw [hop]
          exact ⟨extended, by rw [← hid, ← hbids]; exact hlogs⟩
    by_cases hbidder : c.now.house.auction.bidder ≠ 0
    · simp only [if_pos hbidder]
      refine safeTransfer_meets (fun _ h => h) (List.prefix_append _ _) (by rw [hh]; rfl)
        fun d asWeth hp hd => ?_
      have hu : Undisturbed _ d := hd trivial
      exact finish ((c.now.withHouse h).spend c.now.house.auction.amount)
        ⟨d.past, d.now.recordSent _ asWeth⟩ hp ⟨by rw [hh]; rfl, Nat.le_refl _⟩
        (by rw [hh]; rfl) (by rw [hh]; rfl) (hu.still hu.entered ⟨rfl, Nat.le_refl _⟩ rfl rfl)
    · simp only [if_neg hbidder]
      exact finish (c.now.withHouse h) ⟨c.enter env call, c.now.withHouse h⟩ (List.prefix_refl _)
        ⟨by rw [hh]; rfl, Nat.le_refl _⟩ (by rw [hh]; rfl) (by rw [hh]; rfl)
        (.refl (by rw [hh]; rfl))

/-- a new auction, or a pause instead -/
theorem createAuction_opens {msg : Msg} {seeds : Nat → Result Seed} {w' : AuctionWorld}
    (h : w.createAuction P env msg seeds = .ok w') :
    Lasting w w' ∧ w'.house.entered = w.house.entered ∧
      (Opened w w' ∨ w'.house.auction = w.house.auction) ∧
      bidLogs w'.house.logs = bidLogs w.house.logs := by
  rcases AuctionWorld.createAuction_ok h with ⟨t, id, endTime, hm, hend, rfl⟩ | ⟨_, _, rfl⟩
  · obtain ⟨h1, h2, _⟩ := UNounsToken.mint_ok hm
    refine ⟨⟨rfl, ?_⟩, rfl, .inl ⟨h1, ?_, ⟨Nat.ne_of_gt env.timestamp_pos, rfl⟩, rfl, ?_⟩,
      by simp [bidLogs]⟩
    · show w.token.currentUNounId ≤ t.currentUNounId
      omega
    · show id < t.currentUNounId
      omega
    · exact Nat.le_of_eq hend.symm
  · exact ⟨⟨rfl, Nat.le_refl _⟩, rfl, .inr rfl, by simp [AuctionWorld.withHouse, bidLogs]⟩

/-- a settlement, and what follows on it: a new auction or nothing -/
theorem settleAuctionInternal_timely {h : NounsAuctionHouse} {next : AuctionWorld → AuctionCode}
    (hop : call.op.settles = true) (henter : c.now.house.enter = .ok h)
    (hnext : ∀ w, ∃ r : Result AuctionWorld, next w = Code.ofExcept r ∧ ∀ w', r = .ok w' →
      w'.house.entered = false ∧ Lasting w w' ∧
        (Opened w w' ∨ w'.house.auction = w.house.auction) ∧
        bidLogs w'.house.logs = bidLogs w.house.logs) :
    Timely env c ((c.now.withHouse h).settleAuctionInternal P env next) (c.enter env call) := by
  obtain ⟨hfree, hh⟩ := enter_ok henter
  have ha : h.auction = c.now.house.auction := by rw [hh]
  unfold AuctionWorld.settleAuctionInternal
  cases hand : (c.now.withHouse h).handOver P env with
  | error e => trivial
  | ok w =>
    obtain ⟨hopen, htime, _, t, hw, _, _, hid⟩ := AuctionWorld.handOver_ok hand
    simp only [AuctionWorld.withHouse, ha] at hopen htime hw hid
    have finish : ∀ (w1 : AuctionWorld) (d : AuctionConfig P), c.enter env call <+: d.past →
        Lasting c.now w1 → w1.house.auction = { c.now.house.auction with settled := true } →
        bidLogs w1.house.logs = bidLogs c.now.house.logs → Undisturbed ⟨c.enter env call, w1⟩ d →
        Timely env c (next (d.now.withHouse (endSettle c.now.house.auction d.now.house))) d.past := by
      intro w1 d hp hl hsettled hb hu
      obtain ⟨r, hr, hok⟩ := hnext (d.now.withHouse (endSettle c.now.house.auction d.now.house))
      rw [hr]
      refine Code.ofExcept_meets fun w' hw' => ?_
      obtain ⟨he, hl', hopened, hbids⟩ := hok w' hw'
      have hdw : Lasting d.now w' := ⟨hl'.duration, hl'.nextId⟩
      -- an auction opened during the payment gives way to the new one
      have hdo : Opened d.now w' ∨ w'.house.auction = d.now.house.auction :=
        hopened.imp (fun h => ⟨h.minted, h.unounId_lt, h.unsettled, h.amount, h.span⟩) fun h => h
      have hcd := hl.trans hu.toLasting
      refine locked_done hfree ((List.prefix_append _ _).trans hp) hu (fun hm => ?_) he
        (fun _ hm => ?_) (fun hI => ⟨hcd.trans hdw, .of_settles hop ⟨hopen, htime, ?_⟩, ?_⟩) (by rw [hop]; simp)
      · exact ⟨.of_same (by rw [hsettled]) (by rw [hsettled]) (by rw [hsettled])
          (by rw [hsettled]; exact fun _ => rfl), hm.of_same hl (by rw [hsettled]) (by rw [hsettled])⟩
      · rcases hdo with ho | e
        · exact ⟨ho.later hm, ho.minted_after⟩
        · exact ⟨Idles.later hm (.inl e), Idles.minted hm hdw (.inl e)⟩
      · rcases hdo with ho | e
        · exact .inr (ho.of_lasting hcd)
        · rcases hu.idles with e1 | ⟨_, ho⟩
          · exact .inl (e.trans (e1.trans hsettled))
          · exact .inr ((ho.of_lasting hl).lasting hdw e)
      · refine .of_same (bids_of_settles hop) (hbids.trans ?_)
        refine Eq.trans ?_ (hu.bids.trans hb)
        simp [AuctionWorld.withHouse, endSettle, emit, bidLogs]
    have hl : Lasting c.now w := ⟨by rw [hw, hh], by rw [hw]; exact Nat.le_of_eq hid.symm⟩
    have hset : w.house.auction = { c.now.house.auction with settled := true } := by rw [hw]
    have hent : w.house.entered = true := by rw [hw, hh]
    have hlogs : bidLogs w.house.logs = bidLogs c.now.house.logs := by rw [hw, hh]
    simp only [AuctionWorld.withHouse, ha] at finish ⊢
    by_cases hamount : 0 < c.now.house.auction.amount
    · rw [if_pos hamount]
      refine safeTransfer_meets (fun _ h => h) (List.prefix_append _ _) hent fun d asWeth hp hd => ?_
      have hu : Undisturbed _ d := hd trivial
      exact finish (w.spend c.now.house.auction.amount) ⟨d.past, d.now.recordSent _ asWeth⟩ hp
        ⟨hl.duration, hl.nextId⟩ hset (by rw [← hlogs]; rfl)
        (hu.still hu.entered ⟨rfl, Nat.le_refl _⟩ rfl rfl)
    · rw [if_neg hamount]
      exact finish w ⟨c.enter env call, w⟩ (List.prefix_refl _) hl hset hlogs (.refl hent)

theorem settleAuction_timely (hop : call.op = .settleAuction) :
    Timely env c (c.now.settleAuction P env) (c.enter env call) := by
  unfold AuctionWorld.settleAuction
  cases hbegin : (do c.now.house.whenPaused; c.now.house.enter) with
  | error e => trivial
  | ok h =>
    simp only [bind_eq_ok] at hbegin
    obtain ⟨_, _, henter⟩ := hbegin
    refine settleAuctionInternal_timely (by rw [hop]; rfl) henter fun w => ⟨.ok _, rfl, fun w' hw' => ?_⟩
    obtain rfl := Except.ok.inj hw'
    exact ⟨rfl, ⟨rfl, Nat.le_refl _⟩, .inr rfl, rfl⟩

theorem settleCurrentAndCreateNewAuction_timely {seeds : Nat → Result Seed}
    (hop : call.op = .settleCurrentAndCreateNewAuction seeds) :
    Timely env c (c.now.settleCurrentAndCreateNewAuction P env call.msg seeds)
      (c.enter env call) := by
  unfold AuctionWorld.settleCurrentAndCreateNewAuction
  cases hbegin : (do let h ← c.now.house.enter; h.whenNotPaused; pure h) with
  | error e => trivial
  | ok h =>
    simp only [bind_eq_ok, pure_eq_ok] at hbegin
    obtain ⟨_, henter, _, _, rfl⟩ := hbegin
    refine settleAuctionInternal_timely (by rw [hop]; rfl) henter fun w => ⟨_, rfl, fun w' hw' => ?_⟩
    obtain ⟨w1, hcreate, rfl⟩ := map_eq_ok.mp hw'
    obtain ⟨hl, _, ho, hbids⟩ := createAuction_opens hcreate
    exact ⟨rfl, ⟨hl.duration, hl.nextId⟩,
      ho.imp (fun h => ⟨h.minted, h.unounId_lt, h.unsettled, h.amount, h.span⟩) fun h => h, hbids⟩

theorem unpause_timely {seeds : Nat → Result Seed} (hop : call.op = .unpause seeds) :
    Timely env c (Code.ofExcept (c.now.unpause P env call.msg seeds)) (c.enter env call) := by
  refine Code.ofExcept_meets fun w hw => ?_
  have hb : call.op.bids = false := by rw [hop]; rfl
  have hs : call.op.settles = false := by rw [hop]; rfl
  obtain ⟨h, hh, _, ⟨_, rfl⟩ | ⟨hu, hcreate⟩⟩ := AuctionWorld.unpause_ok hw
  · exact idle_done hb hs (by rw [hh]; rfl) ⟨by rw [hh]; rfl, Nat.le_refl _⟩ (.inl (by rw [hh]; rfl))
      (by rw [hh]; simp [AuctionWorld.withHouse, bidLogs])
  · obtain ⟨hl, he, ho, hbids⟩ := createAuction_opens hcreate
    rw [hh] at hl he ho hbids
    refine idle_done hb hs he ⟨hl.duration, hl.nextId⟩ ?_
      (hbids.trans (by simp [AuctionWorld.withHouse, bidLogs]))
    rcases ho with ho | e
    · exact .inr ⟨hu, ho.minted, ho.unounId_lt, ho.unsettled, ho.amount, ho.span⟩
    · exact .inl e

/-- **Every entry respects the guard.** -/
theorem code_timely (env : Env) (call : AuctionCall P) (c : AuctionConfig P) :
    Timely env c (call.code env c.now) (c.enter env call) := by
  unfold AuctionCall.code
  cases hop : call.op with
  | token op =>
    have hb : call.op.bids = false := by rw [hop]; rfl
    have hs : call.op.settles = false := by rw [hop]; rfl
    refine Code.once_meets (Guard.summary env) (fun w x h => ?_) fun x ok w w' h => ?_
    · obtain ⟨t, ht, hw⟩ := map_eq_ok.mp h
      obtain ⟨rfl, _⟩ := Prod.mk.inj hw
      exact idle_done hb hs rfl ⟨rfl, TokenOp.apply_nextId ht⟩ (.inl rfl) rfl
    · exact AuctionExternal.after_eq h
  | createBid id => exact createBid_timely hop
  | settleAuction => exact settleAuction_timely hop
  | settleCurrentAndCreateNewAuction seeds => exact settleCurrentAndCreateNewAuction_timely hop
  | unpause seeds => exact unpause_timely hop
  | admin op =>
    refine Code.ofExcept_meets fun w hw => ?_
    obtain ⟨h, hh, rfl⟩ := map_eq_ok.mp hw
    obtain ⟨hsame, _, _⟩ := OwnerOp.apply_ok hh
    refine idle_done (by rw [hop]; rfl) (by rw [hop]; rfl) hsame.entered
      ⟨OwnerOp.apply_duration hh, Nat.le_refl _⟩ (.inl hsame.auction) hsame.bids
  | initializeAgain => trivial
  | forced => exact idle_done (by rw [hop]; rfl) (by rw [hop]; rfl) rfl ⟨rfl, Nat.le_refl _⟩ (.inl rfl) rfl

/-! ## runs -/

theorem deploy_timely {s : AuctionSetup} {w : AuctionWorld} (h : s.deploy = .ok w) (e : Env) :
    TimelineInv e (⟨[], w⟩ : AuctionConfig P) := by
  simp only [AuctionSetup.deploy, NounsAuctionHouse.deploy, bind_eq_ok, pure_eq_ok] at h
  obtain ⟨_, ⟨_, _, _, _, _, _, rfl⟩, rfl⟩ := h
  refine ⟨⟨List.pairwise_singleton _ _, fun h0 => absurd rfl h0⟩, ?_, rfl,
    fun b hm => absurd hm List.not_mem_nil, fun h0 => absurd rfl h0, fun id => List.isChain_nil⟩
  constructor
  case toTold =>
    exact ⟨Linked.nil _, fun _ hr => absurd hr List.not_mem_nil,
      fun _ hr => absurd hr List.not_mem_nil, fun xs r ys hp => by simp [calm] at hp,
      List.Pairwise.nil⟩
  case ended => exact fun hs => absurd hs Bool.false_ne_true
  case unbegun => exact fun _ => rfl
  case span => exact fun h0 => absurd rfl h0
  case standing => exact fun h0 => absurd rfl h0
  case closed => exact fun _ hr => absurd hr List.not_mem_nil

/-- **The timeline holds wherever nobody is in the house**, and nobody is there after a
transaction. -/
theorem timeline_run {s : AuctionSetup} {w : AuctionWorld} {e : Env}
    {ts : List (Tx Env (AuctionCall P))} (h : s.deploy = .ok w)
    (hch : (e :: ts.map Tx.env).IsChain (· ≤ ·)) :
    (∀ o ∈ observations AuctionCall.code e ts ⟨[], w⟩, o.2.now.house.entered = false →
      TimelineInv o.1 o.2) ∧
    (runTxs AuctionCall.code ts ⟨[], w⟩).2.now.house.entered = false := by
  have hfree := (AuctionSetup.deploy_ok (P := P) h).1
  obtain ⟨h1, h2⟩ := Guard.invariant (g := timelineGuard P) (c := ⟨[], w⟩) code_timely
    (fun e e' c hI he => { hI with chronicle := hI.chronicle.tick he }) hch
    (fun hh => absurd (hfree.symm.trans hh) Bool.false_ne_true) (deploy_timely h e)
  refine ⟨fun o ho hfree => h1 o ho trivial fun hh => ?_, Bool.eq_false_of_not_eq_true (h2 trivial)⟩
  exact absurd (hfree.symm.trans hh) Bool.false_ne_true

end

end UNouns.Timeline
