import UNouns.Auction.Bidding

/-!
# A settlement and the mint after it

* `settlement`, `settled`   the first half of `settleCurrentAndCreateNewAuction`, and what it leads to
                            (`settled_ok`, `settleCurrent_eq`);
* `Concludes`               what the whole of it is for: the old auction is settled, and a new one or a
                            pause follows, as the mint goes;
* `concludes_iff`           when that is so: only an `Error(string)` of the mint is caught.
-/

set_option linter.unusedVariables false

namespace UNouns
open Function Reentrant NounsAuctionHouse Timeline

section
variable {P : Platform} {env : Env} {c m : AuctionConfig P} {call : AuctionCall P}
  {rs : Replies (AuctionCall P)}

/-! ## the settlement alone -/

/-- the modifier and `_settleAuction`, and no more -/
def settlement (P : Platform) (env : Env) (w : AuctionWorld) : AuctionCode :=
  match w.house.enter with
  | .error e => .revert e
  | .ok h => (w.withHouse h).settleAuctionInternal P env .done

/-- where they lead to: the configuration in which the token is asked to mint -/
def settled (env : Env) (c : AuctionConfig P) (call : AuctionCall P) (rs : Replies (AuctionCall P)) :
    Except Revert (AuctionConfig P) :=
  (rs.run AuctionCall.code env (settlement P env c.now) (c.enter env call)).2

theorem settleAuctionInternal_run (w : AuctionWorld) (f : AuctionWorld → Result AuctionWorld)
    (past : List (AuctionRecord P)) :
    (rs.run AuctionCall.code env (w.settleAuctionInternal P env fun w => Code.ofExcept (f w)) past).2
      = (rs.run AuctionCall.code env (w.settleAuctionInternal P env .done) past).2.bind
        fun d => (f d.now).map (Config.mk d.past) := by
  unfold AuctionWorld.settleAuctionInternal
  cases hand : w.handOver P env with
  | error e => cases rs <;> rfl
  | ok w' =>
    dsimp only
    split_ifs
    · unfold AuctionWorld.safeTransferETHWithFallback
      split_ifs
      · have hdone : ∀ w : AuctionWorld, (.done w : AuctionCode) = Code.ofExcept (.ok w) :=
          fun w => rfl
        simp only [hdone]
        rw [Replies.run_call, Replies.run_call]
        rfl
      · cases rs <;> rfl
    · rw [Replies.run_ofExcept]
      cases rs <;> rfl

/-- **The whole is the settlement, and then a new auction.** -/
theorem settleCurrent_eq (env : Env) (rs : Replies (AuctionCall P)) {seeds : Nat → Result Seed}
    (hop : call.op = .settleCurrentAndCreateNewAuction seeds)
    (hpaused : c.now.house.paused = false) :
    ((Call.mk call rs).run AuctionCall.code env c).2 = (settled env c call rs).bind fun d =>
      ((d.now.createAuction P env call.msg seeds).map fun w => w.withHouse w.house.leave).map
        (Config.mk d.past) := by
  unfold settled settlement Call.run AuctionCall.code
  rw [hop]
  dsimp only
  unfold AuctionWorld.settleCurrentAndCreateNewAuction
  cases henter : c.now.house.enter with
  | error e => cases rs <;> rfl
  | ok h =>
    have hw : h.whenNotPaused = .ok () := by
      rw [(enter_ok henter).2]
      simp [whenNotPaused, require, hpaused]
    have hbegin : (do let h ← c.now.house.enter; h.whenNotPaused; pure h) = .ok h := by
      rw [henter]
      simp [bind, Except.bind, hw]
    rw [henter] at hbegin
    simp only [hbegin]
    exact settleAuctionInternal_run _ _ _

/-- the payment of the proceeds, if there are any: to the treasury for one token in a hundred, as long as
it has its share, and else to the owner -/
def proceeds (env : Env) (h : NounsAuctionHouse) : List (Address × Nat) :=
  let payee := if env.timestamp < h.proceedsShareEndTime ∧ h.auction.unounId % 100 = 88 then
    h.nounsDAOTreasury else h.owner
  if 0 < h.auction.amount then [(payee, h.auction.amount)] else []

theorem proceeds_eq (env : Env) (h : NounsAuctionHouse) :
    proceeds env h = if 0 < h.auction.amount then [(h.payee env h.auction, h.auction.amount)] else [] := by
  unfold proceeds payee
  rw [← ite_and]

/-- the auction of `c` is settled in `m`: the token has gone from the house to the bidder or, without a
bid, to the hall of fame, who has it when the next call begins or, if there was none, now; and the
proceeds are paid -/
structure SettledBy (env : Env) (c : AuctionConfig P) (call : AuctionCall P) (m : AuctionConfig P) :
    Prop where
  custody : c.now.token.owners c.now.house.auction.unounId = P.house
  token : ∃ later, m.past = c.past ++ ⟨env, c.now, call⟩ :: later ∧
    ((later.head?.map Record.pre).getD m.now).token.owners c.now.house.auction.unounId
      = if c.now.house.auction.bidder = 0 then c.now.house.halloffame else c.now.house.auction.bidder
  sent : m.now.house.sent.map Transfer.entry
    = c.now.house.sent.map Transfer.entry ++ proceeds env c.now.house
  auction : m.now.house.auction = { c.now.house.auction with settled := true }

theorem enter_eq {h : NounsAuctionHouse} (hfree : h.entered = false) :
    h.enter = .ok { h with entered := true } := by
  simp [enter, require, hfree]

/-- the token goes over if it accepts that -/
theorem handOver_eq (P : Platform) (env : Env) {w : AuctionWorld} {t : UNounsToken}
    (hu : w.house.auction.Unsettled)
    (hended : w.house.auction.endTime ≤ env.timestamp)
    (ht : w.token.transferFrom env P.house P.house (w.house.recipient w.house.auction)
      w.house.auction.unounId = .ok t) :
    w.handOver P env
      = .ok ⟨{ w.house with auction := { w.house.auction with settled := true } }, t⟩ := by
  simp only [AuctionWorld.handOver, beginSettle, bind_eq_ok, require_eq_ok, pure_eq_ok]
  exact ⟨_, ⟨(), hu.1, (), hu.2, (), hended, rfl⟩, t, ht, rfl⟩

theorem handOver_of_settled (h : settled env c call rs = .ok m) :
    ∃ t, c.now.token.transferFrom env P.house P.house (c.now.house.recipient c.now.house.auction)
      c.now.house.auction.unounId = .ok t := by
  unfold settled settlement at h
  cases henter : c.now.house.enter with
  | error e =>
    rw [henter] at h
    cases rs <;> cases h
  | ok house =>
    obtain ⟨_, rfl⟩ := enter_ok henter
    rw [henter] at h
    dsimp only at h
    unfold AuctionWorld.settleAuctionInternal at h
    cases hand : (c.now.withHouse { c.now.house with entered := true }).handOver P env with
    | error e =>
      rw [hand] at h
      cases rs <;> cases h
    | ok w =>
      obtain ⟨_, _, _, t, _, ht, _⟩ := AuctionWorld.handOver_ok hand
      exact ⟨t, ht⟩

/-- **The settlement goes through**, whatever the payee does. -/
theorem settled_ok (rs : Replies (AuctionCall P)) {t : UNounsToken} (hb : Books env c)
    (hfree : c.now.house.entered = false)
    (hop : call.op.settles = true) (hu : c.now.house.auction.Unsettled)
    (hended : c.now.house.auction.endTime ≤ env.timestamp)
    (ht : c.now.token.transferFrom env P.house P.house (c.now.house.recipient c.now.house.auction)
      c.now.house.auction.unounId = .ok t) :
    ∃ m, settled env c call rs = .ok m ∧ m.now.house.duration = c.now.house.duration ∧
      ((∀ r ∈ m.past, Stipend r) → SettledBy env c call m) := by
  have hand := handOver_eq P env
    (w := c.now.withHouse { c.now.house with entered := true }) (t := t) hu hended ht
  obtain ⟨howner, howners, _⟩ := UNounsToken.transferFrom_ok ht
  have hands : ∀ w : AuctionWorld, w.token = t → HandsOver ⟨env, c.now, call⟩ w := fun w hw _ =>
    ⟨hu, hended, howner, hw ▸ (congrFun howners _).trans (update_self _ _ _)⟩
  unfold settled settlement
  rw [enter_eq hfree]
  dsimp only
  unfold AuctionWorld.settleAuctionInternal
  rw [hand]
  dsimp only [AuctionWorld.withHouse]
  have hdone : ∀ w : AuctionWorld, (.done w : AuctionCode) = Code.ofExcept (.ok w) := fun w => rfl
  simp only [hdone]
  by_cases hamount : 0 < c.now.house.auction.amount
  · have hbalance : c.now.house.auction.amount ≤ c.now.house.balance := by
      have h1 := hb.balance
      rw [Auction.escrow, if_pos hu] at h1
      omega
    -- the configuration in which the payee gets control
    let paying : AuctionConfig P := ⟨c.enter env call, AuctionWorld.mk { c.now.house with
      entered := true
      auction := { c.now.house.auction with settled := true }
      balance := c.now.house.balance - c.now.house.auction.amount } t⟩
    rw [if_pos hamount]
    unfold AuctionWorld.safeTransferETHWithFallback
    rw [if_pos hbalance, Replies.run_call]
    refine ⟨_, rfl, ?_, fun hf => ?_⟩
    · exact (((Replies.reply_meets env (Guard.summary env) (code_timely env) rs paying).2
        trivial).1 rfl).duration
    · have hq : Dormant paying (rs.reply AuctionCall.code env paying).2 :=
        (((Replies.reply_meets env (Guard.summary env) (AuctionCall.code_meets env) rs paying).2
          hf).1 rfl).2
      have hsent : (rs.reply AuctionCall.code env paying).2.now.house.sent = c.now.house.sent :=
        hq.books.sent
      refine ⟨howner, ?_, ?_, hq.books.auction⟩
      · -- the payee may have made calls
        obtain ⟨later, hlater⟩ := hq.past
        have hpast : (rs.reply AuctionCall.code env paying).2.past
            = c.past ++ ⟨env, c.now, call⟩ :: later := hlater.symm.trans (List.append_assoc _ _ _)
        have hlinked := hq.settles (hb.settles.enter (hands paying.now rfl))
        refine ⟨later, hpast, ?_⟩
        obtain ⟨_, _, _, hnext⟩ := hlinked _ _ _ hpast hop
        cases later <;> exact hnext
      · simp only [endSettle, emit, AuctionWorld.recordSent, AuctionWorld.withHouse, List.map_append]
        rw [hsent, proceeds_eq, if_pos hamount]
        rfl
  · rw [if_neg hamount, Replies.run_ofExcept]
    refine ⟨_, rfl, rfl, fun _ => ⟨howner, ⟨[], rfl, ?_⟩, ?_, rfl⟩⟩
    · exact (congrFun howners _).trans (update_self _ _ _)
    · simp [proceeds, hamount, endSettle, emit]

/-! ## and what follows -/

/-- what the mint leads to, whichever way it goes -/
def AfterMint (env : Env) (duration : Nat) (m d : AuctionWorld) :
    Result (UNounsToken × Nat) → Prop
  | .ok (t, id) => d.token = t ∧
    d.house.auction = ⟨id, 0, env.timestamp, env.timestamp + duration, 0, false⟩
  | .error _ => d.token = m.token ∧ d.house.paused = true ∧ d.house.auction = m.house.auction

/-- the auction is settled, and the house goes on or pauses -/
def Concludes (env : Env) (c : AuctionConfig P) (call : AuctionCall P) (seeds : Nat → Result Seed)
    (rs : Replies (AuctionCall P)) : Prop :=
  ∃ m d, settled env c call rs = .ok m ∧ SettledBy env c call m ∧
    ((Call.mk call rs).run AuctionCall.code env c).2 = .ok d ∧
    d.past = m.past ∧ d.now.house.sent = m.now.house.sent ∧ d.now.house.entered = false ∧
    AfterMint env c.now.house.duration m.now d.now (m.now.token.mint env P.house seeds)

/-- the mint succeeds, or it reverts with an `Error(string)` while the house can still be paused -/
def Caught (env : Env) (seeds : Nat → Result Seed) (m : AuctionConfig P) : Prop :=
  (∃ x, m.now.token.mint env P.house seeds = .ok x) ∨
    (∃ text, m.now.token.mint env P.house seeds = .error (.error text)) ∧
      m.now.house.paused = false

theorem createAuction_caught {msg : Msg} {seeds : Nat → Result Seed} {w : AuctionWorld}
    (h : m.now.createAuction P env msg seeds = .ok w) : Caught env seeds m := by
  unfold AuctionWorld.createAuction at h
  cases hm : m.now.token.mint env P.house seeds with
  | ok x => exact .inl ⟨x, hm⟩
  | error e =>
    rw [hm] at h
    cases e with
    | error text =>
      simp only [bind_eq_ok, pure_eq_ok] at h
      obtain ⟨_, hp, _⟩ := h
      exact .inr ⟨⟨text, hm⟩, (pauseInternal_ok hp).1⟩
    | _ => cases h

theorem createAuction_follows (msg : Msg) {seeds : Nat → Result Seed}
    (hlt : env.timestamp + m.now.house.duration < 2^256) (h : Caught env seeds m) :
    ∃ w, m.now.createAuction P env msg seeds = .ok w ∧ w.house.sent = m.now.house.sent ∧
      AfterMint env m.now.house.duration m.now w (m.now.token.mint env P.house seeds) := by
  unfold AuctionWorld.createAuction
  rcases h with ⟨⟨t, id⟩, hm⟩ | ⟨⟨text, hm⟩, hp⟩
  · rw [hm]
    simp only [newAuction, bind_eq_ok, checkedAdd_eq_ok, pure_eq_ok]
    exact ⟨_, ⟨_, ⟨_, ⟨hlt, rfl⟩, rfl⟩, rfl⟩, rfl, rfl, rfl⟩
  · rw [hm]
    simp only [pauseInternal, whenNotPaused, bind_eq_ok, require_eq_ok, pure_eq_ok]
    exact ⟨_, ⟨_, ⟨(), hp, rfl⟩, rfl⟩, rfl, rfl, rfl, rfl⟩

/-- in a house whose books are right -/
theorem concludes_iff_caught (rs : Replies (AuctionCall P)) {seeds : Nat → Result Seed}
    (hI : TimelineInv env c) (hb : Books env c)
    (hop : call.op = .settleCurrentAndCreateNewAuction seeds)
    (hpaused : c.now.house.paused = false) (hfree : c.now.house.entered = false)
    (hu : c.now.house.auction.Unsettled) (hended : c.now.house.auction.endTime ≤ env.timestamp)
    (hf : ∀ m, settled env c call rs = .ok m → ∀ r ∈ m.past, Stipend r) :
    Concludes env c call seeds rs ↔
      (∃ t, c.now.token.transferFrom env P.house P.house
        (c.now.house.recipient c.now.house.auction) c.now.house.auction.unounId = .ok t) ∧
      ∀ m, settled env c call rs = .ok m → Caught env seeds m := by
  have hrun := settleCurrent_eq env rs hop hpaused
  have hset : call.op.settles = true := by rw [hop]; rfl
  constructor
  · rintro ⟨m, d, hm, hby, hd, _⟩
    refine ⟨handOver_of_settled hm, fun m' hm' => ?_⟩
    obtain rfl := Except.ok.inj (hm.symm.trans hm')
    rw [hrun, hm] at hd
    obtain ⟨w, hw, _⟩ := map_eq_ok.mp hd
    obtain ⟨w', hw', _⟩ := map_eq_ok.mp hw
    exact createAuction_caught hw'
  · rintro ⟨⟨t, ht⟩, hcaught⟩
    obtain ⟨m, hm, hduration, hby⟩ := settled_ok rs hb hfree hset hu hended ht
    have hlt : env.timestamp + m.now.house.duration < 2^256 := by
      have h1 : c.now.house.auction.startTime + c.now.house.duration ≤ c.now.house.auction.endTime :=
        hI.chronicle.span hu.1
      have h2 := env.timestamp_lt
      rw [hduration]
      omega
    obtain ⟨w, hw, hsent, hafter⟩ := createAuction_follows call.msg hlt (hcaught m hm)
    rw [hduration] at hafter
    refine ⟨m, ⟨m.past, w.withHouse w.house.leave⟩, hm, hby (hf m hm), ?_, rfl, hsent, rfl, ?_⟩
    · rw [hrun, hm]
      show Except.map (Config.mk m.past) (Except.map _ (m.now.createAuction P env call.msg seeds)) = _
      rw [hw]
      rfl
    · revert hafter
      cases m.now.token.mint env P.house seeds <;> exact fun h => h

theorem settled_free (h : settled env c call rs = .ok m) : c.now.house.entered = false := by
  unfold settled settlement at h
  cases henter : c.now.house.enter with
  | error e =>
    rw [henter] at h
    cases rs <;> cases h
  | ok w => exact (enter_ok henter).1

/-- **When a failing mint does not block the settlement**: the token has to accept that it is handed
over, and the mint has to fail with an `Error(string)`, if it fails. -/
theorem settlement_concludes_iff (s : AuctionSetup) (w : AuctionWorld) (e : Env)
    (h : s.deploy = .ok w) (ts : List (Tx Env (AuctionCall P)))
    (hch : (e :: ts.map Tx.env).IsChain (· ≤ ·)) (e' : Env) (c : AuctionConfig P)
    (hc : (e', c) ∈ observations AuctionCall.code e ts ⟨[], w⟩) (hstipend : ∀ r ∈ c.past, Stipend r)
    (env : Env) (he : e' ≤ env) (hpaused : c.now.house.paused = false)
    (hu : c.now.house.auction.Unsettled) (hended : c.now.house.auction.endTime ≤ env.timestamp)
    (call : AuctionCall P) (seeds : Nat → Result Seed)
    (hop : call.op = .settleCurrentAndCreateNewAuction seeds) (rs : Replies (AuctionCall P))
    (hnested : ∀ m, settled env c call rs = .ok m → ∀ r ∈ m.past, Stipend r) :
    Concludes env c call seeds rs ↔
      c.now.house.entered = false ∧
      (∃ t, c.now.token.transferFrom env P.house P.house
        (if c.now.house.auction.bidder = 0 then c.now.house.halloffame else c.now.house.auction.bidder)
        c.now.house.auction.unounId = .ok t) ∧
      ∀ m, settled env c call rs = .ok m → Caught env seeds m := by
  have key : c.now.house.entered = false → _ := fun hfree =>
    have hb := ((books_run h hch).1 (e', c) hc hstipend hfree).1
    have hI := (timeline_run h hch).1 (e', c) hc hfree
    concludes_iff_caught rs { hI with chronicle := hI.chronicle.tick he } (hb.tick he) hop
      hpaused hfree hu hended hnested
  constructor
  · intro hcon
    obtain ⟨m, d, hm, _⟩ := id hcon
    have hfree := settled_free hm
    exact ⟨hfree, (key hfree).mp hcon⟩
  · rintro ⟨hfree, hcaught⟩
    exact (key hfree).mpr hcaught

end

/-! ## runs -/

/-- an auction with a bid of 300 wei, and then the token gets another minter if `minter` says so -/
def endedTxs (minter : Option Address) : List (Tx Env (AuctionCall auctionPlatform)) :=
  [⟨.block 7 70, auctionCall 1 0 (.unpause fun _ => .ok ⟨0, 0, 0, 0, 0⟩)⟩,
   ⟨.block 8 80, auctionCall 7 300 (.createBid 1)⟩] ++
  minter.toList.map fun a => ⟨.block 9 90, auctionCall 1 0 (.token (.setMinter a))⟩

def endedConfig (minter : Option Address) : AuctionConfig auctionPlatform :=
  (runTxs AuctionCall.code (endedTxs minter) ⟨[], auctionWorld⟩).2

/-- the call that is to settle it -/
def settleCall (seeds : Nat → Result Seed) : AuctionCall auctionPlatform :=
  ⟨.of 9 0, .settleCurrentAndCreateNewAuction seeds, by decide⟩

theorem endedTxs_chain (minter : Option Address) :
    (Env.block 6 60 :: (endedTxs minter).map Tx.env).IsChain (· ≤ ·) := by
  cases minter <;> simp [endedTxs, Env.le_def, Env.block]

theorem stipend_of_settled {P : Platform} {env : Env} {c : AuctionConfig P} {call : AuctionCall P}
    {rs : Replies (AuctionCall P)}
    (h : ((settled env c call rs).toOption.map fun m => m.past.all fun r =>
      !r.pre.house.entered || match r.op.op with
        | .unpause _ => false
        | _ => true) = some true) :
    ∀ m, settled env c call rs = .ok m → ∀ r ∈ m.past, Stipend r := by
  intro m hm
  rw [hm] at h
  exact stipend_of_check (Option.some.inj h)

/-- nobody has bid yet -/
def unbidConfig : AuctionConfig auctionPlatform :=
  (runTxs AuctionCall.code ((endedTxs none).take 1) ⟨[], auctionWorld⟩).2

/-- the token of the auction, the payments and the pause after a settlement -/
def afterSettling (c : AuctionConfig auctionPlatform) : Option (Address × List Transfer × Bool) :=
  ((Call.mk (settleCall fun _ => .ok ⟨0, 0, 0, 0, 0⟩) .nil).run AuctionCall.code (.block 99 2000)
    c).2.toOption.map fun d => (d.now.token.owners 1, d.now.house.sent, d.now.house.paused)

/-- the minter was changed without a pause: the settlement goes through, and the house pauses; without
a bid the token goes to the hall of fame, and the next auction begins -/
theorem settlement_concludes_iff_run :
    (afterSettling (endedConfig (some 20)) = some (7, [⟨⟨1, 300⟩, false⟩], true) ∧
      Concludes (.block 99 2000) (endedConfig (some 20)) (settleCall fun _ => .ok ⟨0, 0, 0, 0, 0⟩)
        (fun _ => .ok ⟨0, 0, 0, 0, 0⟩) .nil) ∧
    afterSettling unbidConfig = some (15, [], false) ∧
      Concludes (.block 99 2000) unbidConfig (settleCall fun _ => .ok ⟨0, 0, 0, 0, 0⟩)
        (fun _ => .ok ⟨0, 0, 0, 0, 0⟩) .nil := by
  have hmint : ((settled (.block 99 2000) (endedConfig (some 20))
      (settleCall fun _ => .ok ⟨0, 0, 0, 0, 0⟩) .nil).toOption.map fun m =>
        (failure (m.now.token.mint (.block 99 2000) auctionPlatform.house
          fun _ => .ok ⟨0, 0, 0, 0, 0⟩), m.now.house.paused))
      = some (some (.error "Sender is not the minter"), false) := by decide +kernel
  have hmint' : ((settled (.block 99 2000) unbidConfig
      (settleCall fun _ => .ok ⟨0, 0, 0, 0, 0⟩) .nil).toOption.map fun m =>
        (m.now.token.mint (.block 99 2000) auctionPlatform.house
          fun _ => .ok ⟨0, 0, 0, 0, 0⟩).toOption.isSome) = some true := by decide +kernel
  refine ⟨⟨by decide +kernel, ?_⟩, by decide +kernel, ?_⟩
  · refine (settlement_concludes_iff auctionSetup auctionWorld (.block 6 60) auctionWorld_deployed
      (endedTxs (some 20)) (endedTxs_chain _) _ (endedConfig (some 20))
      (final_mem_observations AuctionCall.code (.block 6 60) (endedTxs (some 20)) ⟨[], auctionWorld⟩)
      (stipend_of_check (by decide +kernel)) (.block 99 2000) (by decide) (by decide +kernel)
      (by decide +kernel) (by decide +kernel) (settleCall fun _ => .ok ⟨0, 0, 0, 0, 0⟩)
      (fun _ => .ok ⟨0, 0, 0, 0, 0⟩) rfl .nil (stipend_of_settled (by decide +kernel))).mpr
      ⟨by decide +kernel, ⟨_, eq_ok_get (by decide +kernel)⟩, fun m hm => ?_⟩
    rw [hm] at hmint
    obtain ⟨h1, h2⟩ := Prod.mk.inj (Option.some.inj hmint)
    exact .inr ⟨⟨_, eq_error_of_failure h1⟩, h2⟩
  · refine (settlement_concludes_iff auctionSetup auctionWorld (.block 6 60) auctionWorld_deployed
      ((endedTxs none).take 1) (by simp [endedTxs, Env.le_def, Env.block]) _ unbidConfig
      (final_mem_observations AuctionCall.code (.block 6 60) ((endedTxs none).take 1) ⟨[], auctionWorld⟩)
      (stipend_of_check (by decide +kernel)) (.block 99 2000) (by decide) (by decide +kernel)
      (by decide +kernel) (by decide +kernel) (settleCall fun _ => .ok ⟨0, 0, 0, 0, 0⟩)
      (fun _ => .ok ⟨0, 0, 0, 0, 0⟩) rfl .nil (stipend_of_settled (by decide +kernel))).mpr
      ⟨by decide +kernel, ⟨_, eq_ok_get (by decide +kernel)⟩, fun m hm => ?_⟩
    rw [hm] at hmint'
    exact .inl ⟨_, eq_ok_get (Option.some.inj hmint')⟩

/-- the seeder panics, for want of parts to choose from: nothing is settled -/
theorem panic_blocks_settlement :
    (endedConfig none).now.house.paused = false ∧
    (endedConfig none).now.house.auction = ⟨1, 300, 70, 1070, 7, false⟩ ∧
    (endedConfig none).now.house.entered = false ∧
    failure ((Call.mk (settleCall fun _ => .error (.panic 0x12)) .nil).run AuctionCall.code
      (.block 99 2000) (endedConfig none)).2 = some (.panic 0x12) ∧
    ¬ Concludes (.block 99 2000) (endedConfig none) (settleCall fun _ => .error (.panic 0x12))
      (fun _ => .error (.panic 0x12)) .nil := by
  have hpanic : failure ((Call.mk (settleCall fun _ => .error (.panic 0x12)) .nil).run
      AuctionCall.code (.block 99 2000) (endedConfig none)).2 = some (.panic 0x12) := by
    decide +kernel
  refine ⟨by decide +kernel, by decide +kernel, by decide +kernel, hpanic, ?_⟩
  rintro ⟨m, d, _, _, hd, _⟩
  rw [hd] at hpanic
  cases hpanic

end UNouns
