import UNouns.Auction.Books

/-!
# The auction house keeps its books

One lemma for each kind of entry, then all runs:

* `endBid_books`, `endSettle_books`, `createAuction_books`   the books after a bid, a settlement and
                             a new auction, whatever happened while a payment was under way;
* `AuctionCall.code_meets`   every entry respects the guard;
* `books_run`                the books are right whenever nobody is in the house.
-/

set_option linter.unusedVariables false

namespace UNouns
open Function Reentrant NounsAuctionHouse

section
variable {P : Platform} {env : Env} {c d : AuctionConfig P} {call : AuctionCall P}

/-! ## payments -/

/-- the house once a payment has left it -/
def AuctionWorld.spend (w : AuctionWorld) (amount : Nat) : AuctionWorld :=
  w.withHouse { w.house with balance := w.house.balance - amount }

/-- while a payment is under way nothing happens but what the guard allows -/
theorem safeTransfer_meets {g : Guard Env AuctionWorld (AuctionCall P)}
    (hheld : ∀ w : AuctionWorld, w.house.entered = true → g.held w) {past : List (AuctionRecord P)}
    {w : AuctionWorld} {p : Payment} {next : AuctionWorld → AuctionCode} (hp : c.past <+: past)
    (hw : w.house.entered = true)
    (hnext : ∀ (d : AuctionConfig P) asWeth, past <+: d.past →
      (g.Fits d.past → g.Frozen ⟨past, w.spend p.amount⟩ d) →
      (next (d.now.recordSent p asWeth)).Meets (g.Done env) (g.Midway env) c d.past) :
    (w.safeTransferETHWithFallback p next).Meets (g.Done env) (g.Midway env) c past := by
  have hspent : g.held (w.spend p.amount) := hheld _ hw
  unfold AuctionWorld.safeTransferETHWithFallback
  split
  swap
  · trivial
  refine ⟨Guard.Midway.of_held hp hspent, fun d hd => ?_, ?_⟩
  · exact hnext d _ hd.1 fun hf => (hd.2 hf).1 hspent
  · exact hnext ⟨past, w.spend p.amount⟩ _ (List.prefix_refl _) fun _ => g.refl hspent

theorem conducted_enter (h : (call.op.bids || call.op.settles) = true) :
    conducted (c.enter env call) = conducted c.past ++ [⟨env, c.now, call⟩] := by
  simp [Config.enter, conducted, h]

theorem forced_enter (h : call.forced = 0) : forced (c.enter env call) = forced c.past := by
  simp [Config.enter, forced, h]

theorem forall_enter {p : AuctionRecord P → Prop} (hp : ∀ r ∈ c.past, p r)
    (h : p ⟨env, c.now, call⟩) : ∀ r ∈ c.enter env call, p r := by
  intro r hr
  rcases List.mem_append.mp hr with hr | hr
  · exact hp r hr
  · rw [List.mem_singleton.mp hr]
    exact h

/-- an auction that has not ended has begun, and is not settled -/
theorem Books.unsettled {e env : Env} (hb : Books e c) (he : e ≤ env)
    (htime : env.timestamp < c.now.house.auction.endTime) : c.now.house.auction.Unsettled := by
  refine ⟨fun h0 => ?_, Bool.eq_false_of_not_eq_true fun h1 => ?_⟩
  · have := (hb.unbegun h0).1
    omega
  · have h2 := hb.ended h1
    have h3 := he.2
    omega

/-! ## a bid -/

/-- the books after a bid; `refund` is what the displaced bidder has got meanwhile -/
theorem endBid_books {id : Nat} {h h' : NounsAuctionHouse} {refund : List Transfer}
    (hb : Books env c) (hop : call.op = .createBid id)
    (hbegin : c.now.house.beginBid env call.msg id = .ok h)
    (hrefund : refund.map Transfer.entry = c.now.house.auction.standing.toList)
    (hq : Quiet ⟨c.enter env call, (c.now.withHouse h).spend c.now.house.auction.amount⟩ d)
    (hend : endBid env call.msg c.now.house.auction
      { d.now.house with sent := d.now.house.sent ++ refund } = .ok h') :
    Books env ⟨d.past, d.now.withHouse h'⟩ ∧ h'.entered = false ∧ h'.auction.Unsettled := by
  obtain ⟨_, hid, htime, rfl⟩ := beginBid_ok hbegin
  obtain ⟨endTime, logs, rfl, hcreated, hsettled⟩ := endBid_ok hend
  have hu := hb.unsettled (Env.le_refl env) htime
  have ea : d.now.house.auction = c.now.house.auction := hq.books.auction
  have hforced : call.forced = 0 := by simp [AuctionCall.forced, hop]
  have econd : conducted d.past = conducted c.past ++ [⟨env, c.now, call⟩] := by
    rw [hq.conducted]
    exact conducted_enter (by simp [hop, AuctionOp.bids])
  have eaccount : account d.past
      = (account c.past).step (.bid call.msg.sender call.msg.value) := by
    simp [account, econd, auctionEvent, hop, AuctionOp.bids]
  have hu' : (⟨c.now.house.auction.unounId, call.msg.value, c.now.house.auction.startTime, endTime,
      call.msg.sender, c.now.house.auction.settled⟩ : Auction).Unsettled := hu
  refine ⟨?_, rfl, by simpa [ea] using hu'⟩
  constructor
  case held =>
    simp [eaccount, Escrow.Account.step, Auction.standing, AuctionWorld.withHouse, ea, hu.2,
      call.msg.sender_ne]
  case paid =>
    have e1 : d.now.house.sent = c.now.house.sent := hq.books.sent
    simp [eaccount, Escrow.Account.step, AuctionWorld.withHouse, e1, hb.paid, hb.held, hrefund]
  case balance =>
    have e1 := hq.balance
    have e2 := hb.balance
    rw [forced_enter hforced] at e1
    rw [Auction.escrow, if_pos hu] at e2
    simp only [AuctionWorld.spend, AuctionWorld.withHouse] at e1
    have e3 : (⟨c.now.house.auction.unounId, call.msg.value, c.now.house.auction.startTime, endTime,
        call.msg.sender, c.now.house.auction.settled⟩ : Auction).escrow = call.msg.value := if_pos hu'
    simp only [AuctionWorld.withHouse, ea, e3]
    omega
  case amount => exact fun h0 => absurd h0 call.msg.sender_ne
  case unbegun => exact fun h0 => absurd h0 (by simpa [AuctionWorld.withHouse, ea] using hu.1)
  case ended =>
    intro h0
    simp [AuctionWorld.withHouse, ea, hu.2] at h0
  case created =>
    have e1 := hb.created
    have e2 : createdIds d.now.house.logs = createdIds c.now.house.logs := hq.books.created
    have e3 : settledIds d.now.house.logs = settledIds c.now.house.logs := hq.books.settled
    simp only [AuctionWorld.withHouse, ea, hcreated, hsettled, e2, e3]
    rw [if_pos hu] at e1
    rw [if_pos hu']
    exact e1
  case settled =>
    have e3 : settledIds d.now.house.logs = settledIds c.now.house.logs := hq.books.settled
    simp only [AuctionWorld.withHouse, hsettled, e3, hb.settled, settlements_eq, econd]
    simp [hop, AuctionOp.settles]
  case increasing =>
    have e2 : createdIds d.now.house.logs = createdIds c.now.house.logs := hq.books.created
    simp only [AuctionWorld.withHouse, hcreated, e2]
    exact hb.increasing
  case below =>
    have e2 : createdIds d.now.house.logs = createdIds c.now.house.logs := hq.books.created
    simp only [AuctionWorld.withHouse, hcreated, e2]
    exact fun i hi => Nat.lt_of_lt_of_le (hb.below i hi) hq.nextId
  case custody =>
    intro hk _
    have hpast : c.past <+: d.past := (List.prefix_append _ _).trans hq.past
    simp only [AuctionWorld.withHouse, ea]
    exact hq.kept hk _ (hb.custody (fun r hr => hk r (hpast.subset hr)) hu)
  case bids =>
    refine hq.forall_past (fun r h1 _ => .of_other h1) (forall_enter hb.bids fun i hi => ?_)
    rw [hop] at hi
    cases hi
    exact ⟨hu, hid, htime⟩
  case settles =>
    exact (hq.settles (hb.settles.enter (.of_other (by simp [hop, AuctionOp.settles])))).rest
      fun _ _ h => h.rest fun _ => rfl

/-! ## a settlement -/

theorem AuctionOp.bids_of_settles {op : AuctionOp} (h : op.settles = true) : op.bids = false := by
  cases op <;> first | rfl | cases h

theorem AuctionCall.forced_of_settles (h : call.op.settles = true) : call.forced = 0 := by
  unfold AuctionCall.forced
  split
  case h_1 e => rw [e] at h; cases h
  case h_2 => rfl

/-- the code pays the proceeds to whom they are due -/
theorem auctionEvent_settles (h : call.op.settles = true) :
    auctionEvent ⟨env, c.now, call⟩ = .settle (c.now.house.payee env c.now.house.auction) := by
  unfold auctionEvent payee
  rw [AuctionOp.bids_of_settles h, ← ite_and]
  rfl

/-- the books after a settlement; `sent` is the payment of the proceeds -/
theorem endSettle_books {h : NounsAuctionHouse} {w : AuctionWorld} {sent : List Transfer}
    (hb : Books env c) (hop : call.op.settles = true) (henter : c.now.house.enter = .ok h)
    (hand : (c.now.withHouse h).handOver P env = .ok w)
    (hsent : sent.map Transfer.entry = (c.now.house.auction.standing.toList.filter (0 < ·.2)).map
      fun b => (c.now.house.payee env c.now.house.auction, b.2))
    (hq : Quiet ⟨c.enter env call, w.spend c.now.house.auction.amount⟩ d) :
    Books env ⟨d.past, d.now.withHouse
        (endSettle c.now.house.auction { d.now.house with sent := d.now.house.sent ++ sent })⟩ ∧
      ¬ d.now.house.auction.Unsettled := by
  obtain ⟨_, rfl⟩ := enter_ok henter
  obtain ⟨hu, htime, howner, t, rfl, htransfer, howners, hnext⟩ := AuctionWorld.handOver_ok hand
  simp only [AuctionWorld.withHouse] at hu htime howner htransfer howners hnext
  have ea : d.now.house.auction = { c.now.house.auction with settled := true } := hq.books.auction
  have hclosed : ¬ d.now.house.auction.Unsettled := by
    rw [ea]
    exact fun h => absurd h.2 Bool.true_eq_false.mp
  have econd : conducted d.past = conducted c.past ++ [⟨env, c.now, call⟩] := by
    rw [hq.conducted]
    exact conducted_enter (by simp [hop])
  have eaccount : account d.past
      = (account c.past).step (.settle (c.now.house.payee env c.now.house.auction)) := by
    rw [account, econd, List.map_append, List.map_singleton, Escrow.run_append, auctionEvent_settles hop]
    rfl
  have ecreated : createdIds d.now.house.logs = createdIds c.now.house.logs := hq.books.created
  have esettled : settledIds d.now.house.logs = settledIds c.now.house.logs := hq.books.settled
  have efinal : settledIds (d.now.house.logs ++ [.auctionSettled c.now.house.auction.unounId
        (d.now.house.recipient c.now.house.auction) c.now.house.auction.amount])
      = settledIds c.now.house.logs ++ [c.now.house.auction.unounId] := by
    rw [settledIds_append, esettled]
    rfl
  refine ⟨?_, hclosed⟩
  constructor
  case held => simp [eaccount, Escrow.Account.step, Auction.standing, AuctionWorld.withHouse,
    endSettle, emit, ea]
  case paid =>
    have e1 : d.now.house.sent = c.now.house.sent := hq.books.sent
    simp [eaccount, Escrow.Account.step, AuctionWorld.withHouse, endSettle, emit, e1, hb.paid,
      hb.held, hsent]
  case balance =>
    have e1 := hq.balance
    have e2 := hb.balance
    rw [forced_enter (AuctionCall.forced_of_settles hop)] at e1
    rw [Auction.escrow, if_pos hu] at e2
    simp only [AuctionWorld.spend, AuctionWorld.withHouse] at e1
    have e3 : d.now.house.auction.escrow = 0 := if_neg hclosed
    simp only [AuctionWorld.withHouse, endSettle, emit, e3]
    omega
  case amount =>
    simp only [AuctionWorld.withHouse, endSettle, emit, ea]
    exact hb.amount
  case unbegun =>
    simp only [AuctionWorld.withHouse, endSettle, emit, ea]
    exact hb.unbegun
  case ended =>
    simp only [AuctionWorld.withHouse, endSettle, emit, ea]
    exact fun _ => htime
  case created =>
    have e1 := hb.created
    rw [if_pos hu] at e1
    refine Eq.trans ?_ (congrArg (HAppend.hAppend _) (if_neg hclosed)).symm
    refine Eq.trans ?_ (congrArg (· ++ []) efinal).symm
    refine (createdIds_append _ _).trans ?_
    rw [ecreated, e1, List.append_nil]
    exact List.append_nil _
  case settled =>
    simp only [AuctionWorld.withHouse, endSettle, emit]
    refine efinal.trans ?_
    rw [hb.settled, settlements_eq, settlements_eq, econd]
    simp [hop]
  case increasing =>
    simp only [AuctionWorld.withHouse, endSettle, emit, createdIds_append, ecreated]
    simpa [createdIds] using hb.increasing
  case below =>
    have e1 : c.now.token.currentUNounId ≤ d.now.token.currentUNounId :=
      Nat.le_trans (Nat.le_of_eq hnext.symm) hq.nextId
    simp only [AuctionWorld.withHouse, endSettle, emit, createdIds_append, ecreated]
    intro i hi
    exact Nat.lt_of_lt_of_le (hb.below i (by simpa [createdIds] using hi)) e1
  case custody => exact fun _ hu' => absurd hu' hclosed
  case bids =>
    exact hq.forall_past (fun r h1 _ => .of_other h1)
      (forall_enter hb.bids (.of_other (AuctionOp.bids_of_settles hop)))
  case settles =>
    refine (hq.settles (hb.settles.enter fun _ => ?_)).rest fun _ _ h => h.rest fun _ => rfl
    exact ⟨hu, htime, howner, (congrFun howners _).trans (update_self _ _ _)⟩

/-! ## a new auction -/

/-- between two auctions no bid is held -/
theorem Books.idle {e : Env} {c : AuctionConfig P} (hb : Books e c)
    (hu : ¬ c.now.house.auction.Unsettled) :
    c.now.house.auction.standing = none := by
  rcases Auction.not_unsettled.mp hu with h0 | hs
  · simp [Auction.standing, (hb.unbegun h0).2]
  · simp [Auction.standing, hs]

theorem createAuction_books (past : List (AuctionRecord P)) {w w' : AuctionWorld} {msg : Msg}
    {seeds : Nat → Result Seed} (hb : Books env ⟨past, w⟩) (hu : ¬ w.house.auction.Unsettled)
    (h : w.createAuction P env msg seeds = .ok w') :
    Books env ⟨past, w'⟩ ∧ (w'.house.paused = false → w'.house.auction.Unsettled) ∧
      w'.house.entered = w.house.entered := by
  have hstanding := hb.idle hu
  have hescrow : w.house.auction.escrow = 0 := if_neg hu
  have hcreated := hb.created
  rw [if_neg hu, List.append_nil] at hcreated
  rcases AuctionWorld.createAuction_ok h with ⟨t, id, endTime, hm, _, rfl⟩ | ⟨_, _, rfl⟩
  · obtain ⟨h1, h2, h3⟩ := UNounsToken.mint_ok hm
    have hu' : (⟨id, 0, env.timestamp, endTime, 0, false⟩ : Auction).Unsettled :=
      ⟨Nat.ne_of_gt env.timestamp_pos, rfl⟩
    have enew : createdIds (w.house.logs ++ [.auctionCreated id env.timestamp endTime])
        = createdIds w.house.logs ++ [id] := createdIds_append _ _
    have esame : settledIds (w.house.logs ++ [.auctionCreated id env.timestamp endTime])
        = settledIds w.house.logs := (settledIds_append _ _).trans (List.append_nil _)
    refine ⟨?_, fun _ => hu', rfl⟩
    constructor
    case held => exact hb.held.trans hstanding
    case paid => exact hb.paid
    case balance =>
      have e1 : (⟨id, 0, env.timestamp, endTime, 0, false⟩ : Auction).escrow = 0 := if_pos hu'
      exact hb.balance.trans (congrArg (· + forced past) (hescrow.trans e1.symm))
    case amount => exact fun _ => rfl
    case unbegun => exact fun h0 => absurd h0 (Nat.ne_of_gt env.timestamp_pos)
    case ended => exact fun hs => absurd hs Bool.false_ne_true
    case created =>
      refine enew.trans ?_
      rw [if_pos hu', esame, ← hcreated]
    case settled => exact esame.trans hb.settled
    case increasing =>
      simp only [enew]
      refine List.pairwise_append.mpr ⟨hb.increasing, List.pairwise_singleton _ _, ?_⟩
      intro i hi j hj
      rw [List.mem_singleton.mp hj]
      exact Nat.lt_of_lt_of_le (hb.below i hi) h1
    case below =>
      simp only [enew]
      intro i hi
      rcases List.mem_append.mp hi with hi | hi
      · have : i < w.token.currentUNounId := hb.below i hi
        show i < t.currentUNounId
        omega
      · rw [List.mem_singleton.mp hi]
        show id < t.currentUNounId
        omega
    case custody => exact fun _ _ => h3
    case bids => exact hb.bids
    case settles =>
      refine hb.settles.rest fun r hr hands => hands.rest fun hs => UNounsToken.mint_owners hm _ ?_
      have hid : r.pre.house.auction.unounId ∈ createdIds w.house.logs := by
        rw [hcreated, hb.settled]
        exact List.mem_map_of_mem (List.mem_filter.mpr ⟨hr, hs⟩)
      exact hb.below _ hid
  · refine ⟨?_, fun hp => absurd hp Bool.true_eq_false.mp, rfl⟩
    have enew : createdIds (w.house.logs ++ [.paused msg.sender]) = createdIds w.house.logs :=
      (createdIds_append _ _).trans (List.append_nil _)
    have esame : settledIds (w.house.logs ++ [.paused msg.sender]) = settledIds w.house.logs :=
      (settledIds_append _ _).trans (List.append_nil _)
    exact { hb with
      created := enew.trans (hb.created.trans (congrArg (· ++ _) esame.symm))
      settled := esame.trans hb.settled
      settles := hb.settles.rest fun _ _ hands => hands.rest fun _ => rfl
      increasing := (congrArg (List.Pairwise (· < ·)) enew).mpr hb.increasing
      below := fun i hi => hb.below i (enew ▸ hi) }

/-! ## entries -/

/-- the condition on the code of an entry that began in `c` -/
abbrev Respects (env : Env) (c : AuctionConfig P) : AuctionCode → List (AuctionRecord P) → Prop :=
  Code.Meets ((auctionGuard P).Done env) ((auctionGuard P).Midway env) c

/-- the end of an entry that found the house empty -/
theorem done_of_free {past : List (AuctionRecord P)} {w : AuctionWorld} (hp : c.past <+: past)
    (hfree : c.now.house.entered = false)
    (h : (auctionGuard P).Fits past → Books env c →
      (c.now.house.paused = false → c.now.house.auction.Unsettled) →
      w.house.entered = false ∧ Books env ⟨past, w⟩ ∧
        (w.house.paused = false → w.house.auction.Unsettled)) :
    (auctionGuard P).Done env c ⟨past, w⟩ := by
  refine ⟨hp, fun hf => ⟨fun hh => ?_, fun _ hI => ?_⟩⟩
  · exact absurd (hfree.symm.trans hh) Bool.false_ne_true
  · obtain ⟨h1, h2, h3⟩ := h hf hI.1 hI.2
    exact ⟨fun hh => absurd (h1.symm.trans hh) Bool.false_ne_true, h2, h3⟩

theorem createBid_meets {id : Nat} (hop : call.op = .createBid id) :
    Respects env c (c.now.createBid env call.msg id) (c.enter env call) := by
  unfold AuctionWorld.createBid
  cases hbegin : c.now.house.beginBid env call.msg id with
  | error e => trivial
  | ok h =>
    obtain ⟨hfree, _, _, hh⟩ := beginBid_ok hbegin
    have finish : ∀ (d : AuctionConfig P) (refund : List Transfer), c.enter env call <+: d.past →
        ((auctionGuard P).Fits d.past → Books env c →
          refund.map Transfer.entry = c.now.house.auction.standing.toList ∧
          Quiet ⟨c.enter env call, (c.now.withHouse h).spend c.now.house.auction.amount⟩ d) →
        Respects env c (Code.ofExcept ((endBid env call.msg c.now.house.auction
          { d.now.house with sent := d.now.house.sent ++ refund }).map d.now.withHouse)) d.past := by
      intro d refund hp hd
      refine Code.ofExcept_meets fun w hw => ?_
      obtain ⟨h', hend, rfl⟩ := map_eq_ok.mp hw
      refine done_of_free ((List.prefix_append _ _).trans hp) hfree fun hf hb _ => ?_
      obtain ⟨hrefund, hq⟩ := hd hf hb
      obtain ⟨h1, h2, h3⟩ := endBid_books hb hop hbegin hrefund hq hend
      exact ⟨h2, h1, fun _ => h3⟩
    by_cases hbidder : c.now.house.auction.bidder ≠ 0
    · simp only [if_pos hbidder]
      refine safeTransfer_meets (fun _ h => h) (List.prefix_append _ _) (by rw [hh]; rfl)
        fun d asWeth hp hd => ?_
      refine finish d [⟨⟨c.now.house.auction.bidder, c.now.house.auction.amount⟩, asWeth⟩] hp
        fun hf hb => ⟨?_, (hd hf).2.toQuiet⟩
      have hsettled := (hb.unsettled (Env.le_refl env) (beginBid_ok hbegin).2.2.1).2
      simp [Auction.standing, hbidder, hsettled, Transfer.entry]
    · simp only [if_neg hbidder]
      have h0 := not_not.mp hbidder
      have := finish ⟨c.enter env call, c.now.withHouse h⟩ [] (List.prefix_refl _) fun _ hb => by
        have e : (c.now.withHouse h).spend c.now.house.auction.amount = c.now.withHouse h := by
          rw [hb.amount h0]
          rfl
        rw [e]
        exact ⟨by simp [Auction.standing, h0], Quiet.refl _⟩
      simpa only [List.append_nil] using this

/-- a settlement, and what follows on it -/
theorem settleAuctionInternal_meets {h : NounsAuctionHouse} {next : AuctionWorld → AuctionCode}
    (hop : call.op.settles = true) (henter : c.now.house.enter = .ok h)
    (hnext : ∀ d : AuctionConfig P, c.past <+: d.past →
      ((auctionGuard P).Fits d.past → Books env c → Books env d ∧ ¬ d.now.house.auction.Unsettled ∧
        (d.now.house.paused = false → c.now.house.paused = false)) →
      Respects env c (next d.now) d.past) :
    Respects env c ((c.now.withHouse h).settleAuctionInternal P env next) (c.enter env call) := by
  obtain ⟨_, hh⟩ := enter_ok henter
  have ha : h.auction = c.now.house.auction := by rw [hh]
  unfold AuctionWorld.settleAuctionInternal
  cases hand : (c.now.withHouse h).handOver P env with
  | error e => trivial
  | ok w =>
    obtain ⟨_, _, _, t, hw, _⟩ := AuctionWorld.handOver_ok hand
    have hpayee : w.house.payee env c.now.house.auction
        = c.now.house.payee env c.now.house.auction := by
      rw [hw, hh]
      rfl
    have finish : ∀ (d : AuctionConfig P) (sent : List Transfer), c.enter env call <+: d.past →
        ((auctionGuard P).Fits d.past → Books env c →
          sent.map Transfer.entry = (c.now.house.auction.standing.toList.filter (0 < ·.2)).map
            (fun b => (c.now.house.payee env c.now.house.auction, b.2)) ∧
          Dormant ⟨c.enter env call, w.spend c.now.house.auction.amount⟩ d) →
        Respects env c (next (d.now.withHouse (endSettle c.now.house.auction
          { d.now.house with sent := d.now.house.sent ++ sent }))) d.past := by
      intro d sent hp hd
      refine hnext ⟨d.past, d.now.withHouse _⟩ ((List.prefix_append _ _).trans hp) fun hf hb => ?_
      obtain ⟨hsent, hq⟩ := hd hf hb
      obtain ⟨h1, h2⟩ := endSettle_books hb hop henter hand hsent hq.toQuiet
      refine ⟨h1, h2, fun hpaused => ?_⟩
      rcases hq.paused hpaused with h3 | h3
      · rw [hw, hh] at h3
        exact h3
      · rw [hw] at h3
        exact absurd h3.2 Bool.true_eq_false.mp
    simp only [AuctionWorld.withHouse, ha] at finish ⊢
    by_cases hamount : 0 < c.now.house.auction.amount
    · rw [if_pos hamount]
      refine safeTransfer_meets (fun _ h => h) (List.prefix_append _ _) (by rw [hw, hh]; rfl)
        fun d asWeth hp hd => ?_
      refine finish d [⟨⟨w.house.payee env c.now.house.auction, c.now.house.auction.amount⟩,
        asWeth⟩] hp fun hf hb => ⟨?_, (hd hf).2⟩
      have hu := (AuctionWorld.handOver_ok hand).1
      have hbidder : c.now.house.auction.bidder ≠ 0 := fun h0 => by
        have := hb.amount h0
        omega
      simp only [AuctionWorld.withHouse, ha] at hu
      simp [Auction.standing, hu.2, hbidder, Transfer.entry, hpayee, hamount]
    · rw [if_neg hamount]
      have h0 : c.now.house.auction.amount = 0 := by omega
      have := finish ⟨c.enter env call, w⟩ [] (List.prefix_refl _) fun _ hb => by
        have e : w.spend c.now.house.auction.amount = w := by
          rw [h0]
          rfl
        rw [e]
        refine ⟨?_, Dormant.refl _⟩
        unfold Auction.standing
        split_ifs
        · rfl
        · simp [h0]
      simpa only [List.append_nil] using this

/-- nobody is in the house any more -/
theorem Books.leave {d : AuctionConfig P} (hb : Books env d) :
    Books env ⟨d.past, d.now.withHouse d.now.house.leave⟩ :=
  { hb with settles := hb.settles.rest fun _ _ hands => hands.rest fun _ => rfl }

theorem settleAuction_meets (hop : call.op = .settleAuction) :
    Respects env c (c.now.settleAuction P env) (c.enter env call) := by
  unfold AuctionWorld.settleAuction
  cases hbegin : (do c.now.house.whenPaused; c.now.house.enter) with
  | error e => trivial
  | ok h =>
    simp only [whenPaused, bind_eq_ok, require_eq_ok] at hbegin
    obtain ⟨_, hpaused, henter⟩ := hbegin
    refine settleAuctionInternal_meets (by rw [hop]; rfl) henter fun d hp hd => ?_
    refine done_of_free hp (enter_ok henter).1 fun hf hb _ => ?_
    obtain ⟨h1, _, h3⟩ := hd hf hb
    exact ⟨rfl, h1.leave, fun h0 => absurd ((h3 h0).symm.trans hpaused) Bool.false_ne_true⟩

theorem settleCurrentAndCreateNewAuction_meets {seeds : Nat → Result Seed}
    (hop : call.op = .settleCurrentAndCreateNewAuction seeds) :
    Respects env c (c.now.settleCurrentAndCreateNewAuction P env call.msg seeds)
      (c.enter env call) := by
  unfold AuctionWorld.settleCurrentAndCreateNewAuction
  cases hbegin : (do let h ← c.now.house.enter; h.whenNotPaused; pure h) with
  | error e => trivial
  | ok h =>
    simp only [bind_eq_ok, pure_eq_ok] at hbegin
    obtain ⟨_, henter, _, _, rfl⟩ := hbegin
    refine settleAuctionInternal_meets (by rw [hop]; rfl) henter fun d hp hd => ?_
    refine Code.ofExcept_meets fun w hw => ?_
    obtain ⟨w, hcreate, rfl⟩ := map_eq_ok.mp hw
    refine done_of_free hp (enter_ok henter).1 fun hf hb _ => ?_
    obtain ⟨h1, h2, _⟩ := hd hf hb
    obtain ⟨h4, h5, _⟩ := createAuction_books d.past h1 h2 hcreate
    exact ⟨rfl, h4.leave, h5⟩

theorem unpause_meets {seeds : Nat → Result Seed} (hop : call.op = .unpause seeds) :
    Respects env c (Code.ofExcept (c.now.unpause P env call.msg seeds)) (c.enter env call) := by
  refine Code.ofExcept_meets fun w hw => ?_
  have hforced : call.forced = 0 := by simp [AuctionCall.forced, hop]
  have quiet : ∀ h : NounsAuctionHouse, c.now.house.SameBooks h →
      h.balance = c.now.house.balance → Quiet c ⟨c.enter env call, c.now.withHouse h⟩ :=
    fun h hs hbal => Quiet.entry (by rw [hop]; rfl) (by rw [hop]; rfl) hs (by rw [hforced]; exact hbal)
      (Nat.le_refl _) (fun _ _ h => h)
  obtain ⟨h, hh, hpaused, ⟨hu, rfl⟩ | ⟨hu, hcreate⟩⟩ := AuctionWorld.unpause_ok hw
  · have hs : c.now.house.SameBooks h := by
      rw [hh]
      exact ⟨rfl, rfl, rfl, by simp [createdIds], by simp [settledIds], by simp [bidLogs]⟩
    exact Dormant.done ⟨quiet h hs (by rw [hh]), fun _ => .inr hu⟩
  · have hs : c.now.house.SameBooks h := by
      rw [hh]
      exact ⟨rfl, rfl, rfl, by simp [createdIds], by simp [settledIds], by simp [bidLogs]⟩
    have hu' : ¬ h.auction.Unsettled := by rw [hh]; exact hu
    rcases AuctionWorld.createAuction_ok hcreate with ⟨t, id, endTime, hm, _⟩ | ⟨_, _, rfl⟩
    · -- an auction is opened: not from within the house, and else as `createAuction_books` says
      refine ⟨List.prefix_append _ _, fun hf => ⟨fun hh' => ?_, fun hh' hI => ?_⟩⟩
      · exact absurd ⟨seeds, _, hop, hu, hm⟩
          (hf ⟨env, c.now, call⟩ (List.mem_append_right _ (List.mem_singleton_self _)) hh')
      · have hb := (quiet h hs (by rw [hh])).books_kept hI.1
        obtain ⟨h1, h2, h3⟩ := createAuction_books _ hb hu' hcreate
        exact ⟨fun he => hh' (hs.entered.symm.trans (h3.symm.trans he)), h1, h2⟩
    · refine Dormant.done ⟨quiet _ ?_ (by rw [hh]; rfl), fun hp => absurd hp Bool.true_eq_false.mp⟩
      refine ⟨hs.entered, hs.auction, hs.sent, ?_, ?_, ?_⟩
      · exact (createdIds_append _ _).trans ((List.append_nil _).trans hs.created)
      · exact (settledIds_append _ _).trans ((List.append_nil _).trans hs.settled)
      · exact (bidLogs_append _ _).trans ((List.append_nil _).trans hs.bids)

theorem token_meets {op : TokenOp} (hop : call.op = .token op) :
    Respects env c (call.code env c.now) (c.enter env call) := by
  unfold AuctionCall.code
  rw [hop]
  refine Code.once_meets (Guard.summary env) (fun w x h => ?_) fun x ok w w' h => ?_
  · obtain ⟨t, ht, hw⟩ := map_eq_ok.mp h
    obtain ⟨rfl, _⟩ := Prod.mk.inj hw
    refine Dormant.done ⟨?_, .inl⟩
    refine Quiet.entry (by rw [hop]; rfl) (by rw [hop]; rfl) .rfl (by simp [AuctionCall.forced, hop,
      AuctionWorld.withToken]) (TokenOp.apply_nextId ht) fun hk => hk op t hop ht
  · exact AuctionExternal.after_eq h

/-- **Every entry respects the guard.** -/
theorem AuctionCall.code_meets (env : Env) (call : AuctionCall P) (c : AuctionConfig P) :
    Respects env c (call.code env c.now) (c.enter env call) := by
  cases hop : call.op with
  | token op => exact token_meets hop
  | createBid id =>
    unfold AuctionCall.code
    rw [hop]
    exact createBid_meets hop
  | settleAuction =>
    unfold AuctionCall.code
    rw [hop]
    exact settleAuction_meets hop
  | settleCurrentAndCreateNewAuction seeds =>
    unfold AuctionCall.code
    rw [hop]
    exact settleCurrentAndCreateNewAuction_meets hop
  | unpause seeds =>
    unfold AuctionCall.code
    rw [hop]
    exact unpause_meets hop
  | admin op =>
    unfold AuctionCall.code
    rw [hop]
    refine Code.ofExcept_meets fun w hw => ?_
    obtain ⟨h, hh, rfl⟩ := map_eq_ok.mp hw
    obtain ⟨hs, hbal, hpaused⟩ := OwnerOp.apply_ok hh
    refine Dormant.done ⟨?_, fun hp => .inl (hpaused hp)⟩
    exact Quiet.entry (by rw [hop]; rfl) (by rw [hop]; rfl) hs
      (hbal.trans (by simp [AuctionCall.forced, hop])) (Nat.le_refl _) fun _ _ h => h
  | initializeAgain =>
    unfold AuctionCall.code
    rw [hop]
    trivial
  | forced =>
    unfold AuctionCall.code
    rw [hop]
    refine Dormant.done ⟨?_, .inl⟩
    exact Quiet.entry (by rw [hop]; rfl) (by rw [hop]; rfl) ⟨rfl, rfl, rfl, rfl, rfl, rfl⟩
      (by simp [AuctionCall.forced, hop, AuctionWorld.withHouse]) (Nat.le_refl _) fun _ _ h => h

/-! ## runs -/

theorem AuctionSetup.deploy_ok {s : AuctionSetup} {w : AuctionWorld} (h : s.deploy = .ok w) :
    w.house.entered = false ∧ w.house.paused = true ∧ ∀ e, Books e (⟨[], w⟩ : AuctionConfig P) := by
  simp only [AuctionSetup.deploy, NounsAuctionHouse.deploy, bind_eq_ok, pure_eq_ok] at h
  obtain ⟨_, ⟨_, _, _, _, _, _, rfl⟩, rfl⟩ := h
  refine ⟨rfl, rfl, fun e => ?_⟩
  constructor
  case held => rfl
  case paid => rfl
  case balance => rfl
  case amount => exact fun _ => rfl
  case unbegun => exact fun _ => ⟨rfl, rfl⟩
  case ended => exact fun h => absurd h Bool.false_ne_true
  case created => rfl
  case settled => rfl
  case increasing => exact List.Pairwise.nil
  case below => exact fun _ h => absurd h List.not_mem_nil
  case custody => exact fun _ hu => absurd rfl hu.1
  case bids => exact fun _ h => absurd h List.not_mem_nil
  case settles => exact Linked.nil _

/-- **The books are right wherever nobody is in the house**, and an unpaused house has an
auction. -/
theorem books_run {s : AuctionSetup} {w : AuctionWorld} {e : Env}
    {ts : List (Tx Env (AuctionCall P))} (h : s.deploy = .ok w)
    (hch : (e :: ts.map Tx.env).IsChain (· ≤ ·)) :
    (∀ o ∈ observations AuctionCall.code e ts ⟨[], w⟩, (∀ r ∈ o.2.past, Stipend r) →
      o.2.now.house.entered = false → Books o.1 o.2 ∧
        (o.2.now.house.paused = false → o.2.now.house.auction.Unsettled)) ∧
    ((∀ r ∈ (runTxs AuctionCall.code ts ⟨[], w⟩).2.past, Stipend r) →
      (runTxs AuctionCall.code ts ⟨[], w⟩).2.now.house.entered = false) := by
  obtain ⟨hfree, hpaused, hb⟩ := AuctionSetup.deploy_ok (P := P) h
  obtain ⟨h1, h2⟩ := Guard.invariant (g := auctionGuard P) (c := ⟨[], w⟩)
    (fun env call c => AuctionCall.code_meets env call c)
    (fun e e' c hI he => ⟨hI.1.tick he, hI.2⟩) hch
    (fun hh => absurd (hfree.symm.trans hh) Bool.false_ne_true)
    ⟨hb e, fun hp => absurd (hpaused.symm.trans hp) Bool.true_eq_false.mp⟩
  refine ⟨fun o ho hf hfree => h1 o ho hf fun hh => ?_, fun hf => ?_⟩
  · exact absurd (hfree.symm.trans hh) Bool.false_ne_true
  · exact Bool.eq_false_of_not_eq_true (h2 hf)

end

end UNouns
