import UNouns.Subgraph.Auctions
import UNouns.Token.Issuance

/-!
# What the history of a run comes to

The subgraph keeps one transfer for each transaction and token, and one bid for each transaction.  In a
run of the two contracts every bid finds its auction, and every mint is two transfers under one key.

* `MintedTwice`      a token that is minted is transferred twice in the log;
* `Preannounced`     each bid in the log comes after the creation of its auction;
* `Heralds`          what any part of an entry does to both logs (`code_heralds`, `tx_heralds`);
* `Emitted`          the events of a run, one list for each transaction;
* `history_filed`    the entities are the last ones of their keys, and as many as there are logs if and
  only if no two logs have one key; after a mint they never are.
-/

set_option linter.unusedVariables false

namespace UNouns.Subgraph
open Function Files Reentrant NounsAuctionHouse UNounsToken

/-! ## the log of the token -/

/-- the transfers of a token -/
def movesOf (id : Nat) (vs : List TokenEvent) : List TokenEvent :=
  vs.filter fun v => v.moved.map (·.2.2) = some id

theorem movesOf_append (id : Nat) (vs ws : List TokenEvent) :
    movesOf id (vs ++ ws) = movesOf id vs ++ movesOf id ws := List.filter_append _ _

/-- the log of the token grows, and tells of each new token twice -/
structure MintedTwice (t t' : UNounsToken) : Prop where
  nextId : t.currentUNounId ≤ t'.currentUNounId
  logs : ∃ vs, t'.logs = t.logs ++ vs ∧
    ∀ id, t.currentUNounId ≤ id → id < t'.currentUNounId → 2 ≤ (movesOf id vs).length

section
variable {env : Env} {t t' : UNounsToken}

theorem MintedTwice.of_tells (h : UNouns.Tells t t') (hid : t'.currentUNounId = t.currentUNounId) :
    MintedTwice t t' := by
  obtain ⟨vs, hl, _⟩ := h
  exact ⟨Nat.le_of_eq hid.symm, vs, hl, fun id h1 h2 => absurd h1 (by omega)⟩

theorem MintedTwice.refl (t : UNounsToken) : MintedTwice t t := .of_tells (.refl t) rfl

theorem MintedTwice.trans {t'' : UNounsToken} (h1 : MintedTwice t t') (h2 : MintedTwice t' t'') :
    MintedTwice t t'' := by
  obtain ⟨vs, hl1, hv⟩ := h1.logs
  obtain ⟨ws, hl2, hw⟩ := h2.logs
  refine ⟨Nat.le_trans h1.nextId h2.nextId, vs ++ ws, by rw [hl2, hl1, List.append_assoc],
    fun id hid hid' => ?_⟩
  rw [movesOf_append, List.length_append]
  by_cases hlt : id < t'.currentUNounId
  · have := hv id hid hlt
    omega
  · have := hw id (Nat.le_of_not_lt hlt) hid'
    omega

/-- to the creator, and from there to the owner -/
theorem mintNext_twice {dst : Address} {seeds : Nat → Result Seed}
    (h : t.mintNext env dst seeds = .ok t') : MintedTwice t t' := by
  obtain ⟨_, hid, _⟩ := mintNext_ok h
  simp only [mintNext, mintTo, mintInternal, bind_eq_ok, pure_eq_ok] at h
  obtain ⟨seed, _, _, ⟨_, _, _, _, u, hu, rfl⟩, rfl⟩ := h
  obtain ⟨vs, hl, _⟩ := beforeTokenTransfer_minor hu
  have hl' : u.logs = t.logs ++ vs := hl
  refine ⟨by omega, vs ++ [.transfer 0 t.owner t.currentUNounId, .transfer t.owner dst t.currentUNounId,
    .nounCreated t.currentUNounId seed], ?_, fun id h1 h2 => ?_⟩
  · show ((u.logs ++ [_]) ++ [_]) ++ [_] = _
    rw [hl']
    simp
  · obtain rfl : id = t.currentUNounId := by omega
    rw [movesOf_append, List.length_append]
    simp [movesOf, TokenEvent.moved]

theorem mint_twice {sender : Address} {seeds : Nat → Result Seed} {unounId : Nat}
    (h : t.mint env sender seeds = .ok (t', unounId)) : MintedTwice t t' := by
  have reward : ∀ {c : Prop} [Decidable c] {t u : UNounsToken} {dst : Address},
      (if c then t.mintNext env dst seeds else pure t) = .ok u → MintedTwice t u := by
    intro c _ t u dst h
    split_ifs at h
    · exact mintNext_twice h
    · cases h
      exact .refl t
  simp only [mint, bind_eq_ok, pure_eq_ok, Prod.mk.injEq] at h
  obtain ⟨_, _, u, hu, v, hv, w, hw, rfl, _⟩ := h
  exact ((reward hu).trans (reward hv)).trans (mintNext_twice hw)

theorem apply_twice {P : Platform} {sender : Address} {op : TokenOp}
    (h : op.apply P env sender t = .ok t') : MintedTwice t t' := by
  by_cases hop : ∃ seeds, op = .mint seeds
  · obtain ⟨seeds, rfl⟩ := hop
    simp only [TokenOp.apply, bind_eq_ok, pure_eq_ok] at h
    obtain ⟨⟨u, id⟩, hm, rfl⟩ := h
    exact mint_twice hm
  · have hquiet := TokenOp.apply_quiet h fun seeds e => hop ⟨seeds, e⟩
    have hid := congrArg List.length hquiet.ids
    rw [List.map_nil, List.append_nil, List.length_range, List.length_range] at hid
    exact .of_tells (TokenOp.apply_tells h) hid.symm

theorem transferFrom_twice (P : Platform) {sender src dst : Address} {id : Nat}
    (h : t.transferFrom env sender src dst id = .ok t') : MintedTwice t t' := by
  have hop : TokenOp.apply P env sender t (.transferFrom src dst id) = .ok t' := h
  exact apply_twice hop

end

/-! ## the log of the house -/

/-- each bid comes after the creation of its auction -/
def Preannounced (logs : List HouseEvent) : Prop :=
  ∀ us id sender value extended vs, logs = us ++ .auctionBid id sender value extended :: vs →
    id ∈ createdIds us

theorem Preannounced.append {logs ws : List HouseEvent} (h : Preannounced logs)
    (hws : ∀ us id sender value extended vs, ws = us ++ .auctionBid id sender value extended :: vs →
      id ∈ createdIds logs) : Preannounced (logs ++ ws) := by
  intro us id sender value extended vs e
  rcases Journal.cut_append e with ⟨vs', e'⟩ | ⟨cs, rfl, e'⟩
  · exact h us id sender value extended vs' e'
  · rw [createdIds_append]
    exact List.mem_append_left _ (hws cs id sender value extended vs e')

/-- events that are no bids -/
theorem Preannounced.append_silent {logs ws : List HouseEvent} (h : Preannounced logs)
    (hws : ∀ v ∈ ws, ∀ id sender value extended, v ≠ .auctionBid id sender value extended) :
    Preannounced (logs ++ ws) :=
  h.append fun us id sender value extended vs e =>
    absurd rfl (hws _ (e ▸ List.mem_append_right _ List.mem_cons_self) id sender value extended)

/-- the auction there is has been created in the log -/
def Created (h : NounsAuctionHouse) : Prop := h.auction.unounId ∈ createdIds h.logs

structure OnFile (h : NounsAuctionHouse) : Prop where
  auction : h.auction.endTime ≠ 0 → Created h
  bids : Preannounced h.logs

/-- what a part of an entry does to both logs -/
structure Heralds (w w' : AuctionWorld) : Prop where
  token : MintedTwice w.token w'.token
  logs : w.house.logs <+: w'.house.logs
  created : Created w.house → Created w'.house
  onFile : OnFile w.house → OnFile w'.house

theorem Heralds.refl (w : AuctionWorld) : Heralds w w := ⟨.refl _, List.prefix_refl _, id, id⟩

theorem Heralds.trans {a b c : AuctionWorld} (h1 : Heralds a b) (h2 : Heralds b c) : Heralds a c :=
  ⟨h1.token.trans h2.token, h1.logs.trans h2.logs, h2.created ∘ h1.created, h2.onFile ∘ h1.onFile⟩

section
variable {P : Platform} {env : Env} {call : AuctionCall P} {c : AuctionConfig P} {w w' : AuctionWorld}

/-- the auction stays what it is, and no bid is told -/
theorem Heralds.same (ht : MintedTwice w.token w'.token)
    (hid : w'.house.auction.unounId = w.house.auction.unounId)
    (hend : w'.house.auction.endTime = w.house.auction.endTime) {vs : List HouseEvent}
    (hl : w'.house.logs = w.house.logs ++ vs)
    (hvs : ∀ v ∈ vs, ∀ id sender value extended, v ≠ .auctionBid id sender value extended) :
    Heralds w w' := by
  have hc : Created w.house → Created w'.house := fun h => by
    unfold Created
    rw [hid, hl, createdIds_append]
    exact List.mem_append_left _ h
  refine ⟨ht, ⟨vs, hl.symm⟩, hc, fun h => ⟨fun h0 => hc (h.auction (hend ▸ h0)), ?_⟩⟩
  rw [hl]
  exact h.bids.append_silent hvs

theorem Heralds.silent (ht : MintedTwice w.token w'.token) (ha : w'.house.auction = w.house.auction)
    (hl : w'.house.logs = w.house.logs) : Heralds w w' :=
  .same ht (by rw [ha]) (by rw [ha]) (hl.trans (List.append_nil _).symm) fun v hv => absurd hv List.not_mem_nil

/-- the end of a bid, in the log -/
theorem endBid_logs {msg : Msg} {a : Auction} {h h' : NounsAuctionHouse} (hh : h.endBid env msg a = .ok h') :
    ∃ extended vs, h'.logs = h.logs ++ .auctionBid a.unounId msg.sender msg.value extended :: vs ∧
      ∀ v ∈ vs, ∀ id sender value extended, v ≠ .auctionBid id sender value extended := by
  simp only [endBid, bind_eq_ok, pure_eq_ok] at hh
  obtain ⟨endTime, _, rfl⟩ := hh
  refine ⟨decide (a.endTime - env.timestamp < h.timeBuffer), ?_⟩
  split_ifs
  · exact ⟨[.auctionExtended a.unounId endTime], List.append_assoc _ _ _, by simp⟩
  · exact ⟨[], rfl, fun v hv => absurd hv List.not_mem_nil⟩

/-- a bid on an auction that is in the log -/
theorem endBid_heralds {msg : Msg} {a : Auction} {h : NounsAuctionHouse}
    (hh : endBid env msg a w.house = .ok h) (ha : a.unounId ∈ createdIds w.house.logs)
    (hc : Created w.house) : Heralds w (w.withHouse h) := by
  obtain ⟨extended, vs, hl, hvs⟩ := endBid_logs hh
  obtain ⟨endTime, logs, rfl, hcreated, _⟩ := endBid_ok hh
  have hcreated' : w.house.auction.unounId ∈ createdIds logs := hcreated ▸ hc
  refine ⟨.refl _, ⟨_, hl.symm⟩, fun _ => hcreated', fun hr => ⟨fun _ => hcreated', ?_⟩⟩
  show Preannounced logs
  rw [show logs = _ from hl]
  refine hr.bids.append fun us id sender value extended' vs' e => ?_
  cases us with
  | nil =>
    cases e
    exact ha
  | cons u us =>
    refine absurd rfl (hvs (.auctionBid id sender value extended') ?_ id sender value extended')
    rw [(List.cons.inj e).2]
    exact List.mem_append_right _ List.mem_cons_self

theorem createAuction_heralds {msg : Msg} {seeds : Nat → Result Seed}
    (h : w.createAuction P env msg seeds = .ok w') : Heralds w w' := by
  rcases AuctionWorld.createAuction_ok h with ⟨t, id, endTime, hm, _, rfl⟩ | ⟨_, _, rfl⟩
  · have hc : id ∈ createdIds (w.house.logs ++ [.auctionCreated id env.timestamp endTime]) := by
      rw [createdIds_append]
      exact List.mem_append_right _ (List.mem_singleton_self _)
    refine ⟨mint_twice hm, ⟨_, rfl⟩, fun _ => hc, fun hr => ⟨fun _ => hc, ?_⟩⟩
    exact hr.bids.append_silent (by simp)
  · exact .same (.refl _) rfl rfl rfl (by simp)

/-! ## entries -/

/-- what may have been done up to a payment, or to the end -/
def Follows (c c' : AuctionConfig P) : Prop := OnFile c.now.house → Heralds c.now c'.now

theorem follows_summary : Summary (Follows (P := P)) Follows where
  refl c _ := .refl _
  trans a b c h1 h2 hr := (h1 hr).trans (h2 ((h1 hr).onFile hr))
  midway a b := id
  through a b c h1 h2 hr := (h1 hr).trans (h2 ((h1 hr).onFile hr))

theorem safeTransfer_heralds {past : List (AuctionRecord P)} {p : Payment}
    {next : AuctionWorld → AuctionCode} (hw : OnFile c.now.house → Heralds c.now w)
    (hnext : ∀ d past, (OnFile c.now.house → Heralds c.now d) →
      (next d).Meets Follows Follows c past) :
    (w.safeTransferETHWithFallback p next).Meets Follows Follows c past := by
  have hspent : Follows c ⟨past, w.spend p.amount⟩ := fun hr => (hw hr).trans (.silent (.refl _) rfl rfl)
  have hsent : ∀ (d : AuctionWorld) asWeth, Heralds d (d.recordSent p asWeth) := fun d asWeth =>
    .silent (.refl _) rfl rfl
  unfold AuctionWorld.safeTransferETHWithFallback
  split_ifs
  · exact ⟨hspent,
      fun d hd => hnext _ _ fun hr => (follows_summary.trans _ _ _ hspent hd hr).trans (hsent _ _),
      hnext _ _ fun hr => (hspent hr).trans (hsent _ _)⟩
  · trivial

theorem createBid_heralds {id : Nat} {past : List (AuctionRecord P)} {msg : Msg} :
    (c.now.createBid env msg id).Meets Follows Follows c past := by
  unfold AuctionWorld.createBid
  cases hbegin : c.now.house.beginBid env msg id with
  | error e => trivial
  | ok h =>
    obtain ⟨_, _, htime, rfl⟩ := beginBid_ok hbegin
    have hentered : Heralds c.now (c.now.withHouse
        { c.now.house with balance := c.now.house.balance + msg.value, entered := true }) :=
      .silent (.refl _) rfl rfl
    -- the auction of the bid was in the log when the entry began, and so it is at its end
    have finish : ∀ d past, (OnFile c.now.house → Heralds c.now d) →
        (Code.ofExcept ((d.house.endBid env msg c.now.house.auction).map d.withHouse) : AuctionCode).Meets
          Follows Follows c past := by
      intro d past hd
      refine Code.ofExcept_meets fun w hw hr => ?_
      obtain ⟨h, hh, rfl⟩ := map_eq_ok.mp hw
      have hc : Created c.now.house := hr.auction (by omega)
      obtain ⟨vs, hvs⟩ := (hd hr).logs
      refine (hd hr).trans (endBid_heralds hh ?_ ((hd hr).created hc))
      rw [← hvs, createdIds_append]
      exact List.mem_append_left _ hc
    dsimp only
    split_ifs
    · exact safeTransfer_heralds (fun _ => hentered) finish
    · exact finish _ _ fun _ => hentered

theorem settleAuctionInternal_heralds {past : List (AuctionRecord P)} {next : AuctionWorld → AuctionCode}
    (hw : Heralds c.now w) (hnext : ∀ d past, (OnFile c.now.house → Heralds c.now d) →
      (next d).Meets Follows Follows c past) :
    (w.settleAuctionInternal P env next).Meets Follows Follows c past := by
  unfold AuctionWorld.settleAuctionInternal
  cases hand : w.handOver P env with
  | error e => trivial
  | ok u =>
    obtain ⟨_, _, _, t, rfl, ht, _⟩ := AuctionWorld.handOver_ok hand
    have hgiven : Heralds w ⟨{ w.house with auction := { w.house.auction with settled := true } }, t⟩ :=
      .same (transferFrom_twice P ht) rfl rfl (List.append_nil _).symm fun v hv => absurd hv List.not_mem_nil
    have finish : ∀ d past, (OnFile c.now.house → Heralds c.now d) →
        (next (d.withHouse (d.house.endSettle w.house.auction))).Meets Follows Follows c past :=
      fun d past hd => hnext _ _ fun hr => (hd hr).trans (.same (.refl _) rfl rfl rfl (by simp))
    dsimp only
    split_ifs
    · exact safeTransfer_heralds (fun _ => hw.trans hgiven) finish
    · exact finish _ _ fun _ => hw.trans hgiven

/-- **An entry heralds what it does.** -/
theorem code_heralds (env : Env) (call : AuctionCall P) (c : AuctionConfig P) :
    (call.code env c.now).Meets Follows Follows c (c.enter env call) := by
  have hleave : ∀ d : AuctionWorld, Heralds d (d.withHouse d.house.leave) := fun d =>
    .silent (.refl _) rfl rfl
  unfold AuctionCall.code
  cases hop : call.op with
  | token op =>
    refine Code.once_meets follows_summary (fun w x h _ => ?_) fun x ok w w' h => AuctionExternal.after_eq h
    obtain ⟨t, ht, hw⟩ := map_eq_ok.mp h
    obtain ⟨rfl, _⟩ := Prod.mk.inj hw
    exact .silent (apply_twice ht) rfl rfl
  | createBid id => exact createBid_heralds
  | settleAuction =>
    unfold AuctionWorld.settleAuction
    cases hbegin : (do c.now.house.whenPaused; c.now.house.enter) with
    | error e => trivial
    | ok h =>
      obtain ⟨_, _, henter⟩ := bind_eq_ok.mp hbegin
      obtain ⟨_, rfl⟩ := enter_ok henter
      exact settleAuctionInternal_heralds (.silent (.refl _) rfl rfl) fun d past hd hr =>
        (hd hr).trans (hleave d)
  | settleCurrentAndCreateNewAuction seeds =>
    unfold AuctionWorld.settleCurrentAndCreateNewAuction
    cases hbegin : (do let h ← c.now.house.enter; h.whenNotPaused; pure h) with
    | error e => trivial
    | ok h =>
      simp only [bind_eq_ok, pure_eq_ok] at hbegin
      obtain ⟨_, henter, _, _, rfl⟩ := hbegin
      obtain ⟨_, rfl⟩ := enter_ok henter
      refine settleAuctionInternal_heralds (.silent (.refl _) rfl rfl) fun d past hd =>
        Code.ofExcept_meets fun w hw hr => ?_
      obtain ⟨w1, hcreate, rfl⟩ := map_eq_ok.mp hw
      exact ((hd hr).trans (createAuction_heralds hcreate)).trans (hleave w1)
  | unpause seeds =>
    refine Code.ofExcept_meets fun w hw _ => ?_
    have hunpaused : Heralds c.now (c.now.withHouse { c.now.house with
        paused := false, logs := c.now.house.logs ++ [.unpaused call.msg.sender] }) :=
      .same (.refl _) rfl rfl rfl (by simp)
    obtain ⟨h, rfl, _, ⟨_, rfl⟩ | ⟨_, hcreate⟩⟩ := AuctionWorld.unpause_ok hw
    · exact hunpaused
    · exact hunpaused.trans (createAuction_heralds hcreate)
  | admin op =>
    refine Code.ofExcept_meets fun w hw _ => ?_
    obtain ⟨h, hh, rfl⟩ := map_eq_ok.mp hw
    obtain ⟨vs, hlogs, hvs⟩ := OwnerOp.apply_logs hh
    have ha := (OwnerOp.apply_ok hh).1.auction
    refine .same (.refl _) (congrArg Auction.unounId ha) (congrArg Auction.endTime ha) hlogs ?_
    rintro v hv id sender value extended rfl
    cases hvs _ hv
  | initializeAgain => trivial
  | forced => exact fun _ => .silent (.refl _) rfl rfl

/-- so does a transaction -/
theorem tx_heralds (t : Tx Env (AuctionCall P)) (c : AuctionConfig P) :
    Follows c (commit c (t.call.run AuctionCall.code t.env c).2) :=
  Call.commit_meets t.env follows_summary (code_heralds t.env) t.call c

end

/-! ## runs -/

/-- the events of the token among others -/
def tokenLogs (es : List (Event MarketEvent)) : List TokenEvent :=
  es.filterMap fun e => match e.params with
    | .token v => some v
    | .house _ _ => none

section
variable {P : Platform}

/-- the events of a run, one list for each transaction: they have its hash, and are what the two contracts
have emitted in it, those of the one among those of the other -/
inductive Emitted : AuctionConfig P → List (Tx Env (AuctionCall P)) →
    List (List (Event MarketEvent)) → Prop
  | nil (c : AuctionConfig P) : Emitted c [] []
  | cons {c c' : AuctionConfig P} {t : Tx Env (AuctionCall P)} {ts : List (Tx Env (AuctionCall P))}
      {es : List (Event MarketEvent)} {ess : List (List (Event MarketEvent))} (hash : BitVec 256)
      (hc : c' = commit c (t.call.run AuctionCall.code t.env c).2)
      (hhash : ∀ e ∈ es, e.transactionHash = hash)
      (htokens : c'.now.token.logs = c.now.token.logs ++ tokenLogs es)
      (hhouses : c'.now.house.logs = c.now.house.logs ++ houses es) (h : Emitted c' ts ess) :
      Emitted c (t :: ts) (es :: ess)

/-- in one block, the token's first -/
def stamped (hash : BitVec 256) (us : List TokenEvent) (vs : List HouseEvent) : List (Event MarketEvent) :=
  (us.map MarketEvent.token ++ vs.map (MarketEvent.house · 0)).map (⟨·, ⟨7, 70⟩, hash⟩)

theorem stamped_split (hash : BitVec 256) (us : List TokenEvent) (vs : List HouseEvent) :
    tokenLogs (stamped hash us vs) = us ∧ houses (stamped hash us vs) = vs := by
  constructor
  · simp [tokenLogs, stamped, List.filterMap_map, Function.comp_def, List.filterMap_some]
  · simp [houses, stamped, List.filterMap_map, Function.comp_def, List.filterMap_some]

/-- the numbers of the transactions are their hashes -/
def eventsOf : Nat → List (Tx Env (AuctionCall P)) → AuctionConfig P → List (List (Event MarketEvent))
  | _, [], _ => []
  | n, t :: ts, c =>
    let c' := commit c (t.call.run AuctionCall.code t.env c).2
    stamped (BitVec.ofNat 256 n) (c'.now.token.logs.drop c.now.token.logs.length)
      (c'.now.house.logs.drop c.now.house.logs.length) :: eventsOf (n + 1) ts c'

variable {c : AuctionConfig P} {ts : List (Tx Env (AuctionCall P))} {ess : List (List (Event MarketEvent))}

theorem eventsOf_emitted {n : Nat} (hr : OnFile c.now.house) : Emitted c ts (eventsOf n ts c) := by
  induction ts generalizing n c with
  | nil => exact .nil c
  | cons t ts ih =>
    have hh := tx_heralds t c hr
    obtain ⟨us, hus, _⟩ := hh.token.logs
    obtain ⟨vs, hvs⟩ := hh.logs
    refine .cons (BitVec.ofNat 256 n) rfl (List.forall_mem_map.mpr fun _ _ => rfl) ?_ ?_ (ih (hh.onFile hr))
    · rw [(stamped_split _ _ _).1, hus, List.drop_left]
    · rw [(stamped_split _ _ _).2, ← hvs, List.drop_left]

theorem Emitted.houses (h : Emitted c ts ess) :
    (runTxs AuctionCall.code ts c).2.now.house.logs = c.now.house.logs ++ houses ess.flatten := by
  induction h with
  | nil c => exact (List.append_nil _).symm
  | @cons c c' t ts es ess hash hc hhash htokens hhouses h ih =>
    subst hc
    show (runTxs AuctionCall.code ts _).2.now.house.logs = _
    rw [ih, hhouses, List.append_assoc, List.flatten_cons]
    exact congrArg _ (List.filterMap_append).symm

theorem runs_onFile (ts : List (Tx Env (AuctionCall P))) : ∀ c : AuctionConfig P,
    OnFile c.now.house → OnFile (runTxs AuctionCall.code ts c).2.now.house := by
  induction ts with
  | nil => exact fun c hr => hr
  | cons t ts ih => exact fun c hr => ih _ ((tx_heralds t c hr).onFile hr)

/-- the transfers of a token under one hash -/
def transfersUnder (key : BitVec 256 × Nat) (es : List (Event MarketEvent)) : List TransferEvent :=
  (es.filterMap TransferEvent.of).filter fun x => x.id = key

theorem transfersUnder_append (key : BitVec 256 × Nat) (es fs : List (Event MarketEvent)) :
    transfersUnder key (es ++ fs) = transfersUnder key es ++ transfersUnder key fs := by
  unfold transfersUnder
  rw [List.filterMap_append, List.filter_append]

theorem transfersUnder_length {hash : BitVec 256} {es : List (Event MarketEvent)}
    (h : ∀ e ∈ es, e.transactionHash = hash) (id : Nat) :
    (transfersUnder (hash, id) es).length = (movesOf id (tokenLogs es)).length := by
  induction es with
  | nil => rfl
  | cons e es ih =>
    obtain ⟨he, hes⟩ := List.forall_mem_cons.mp h
    have hsingle : (transfersUnder (hash, id) [e]).length = (movesOf id (tokenLogs [e])).length := by
      cases hp : e.params with
      | house v n => simp [transfersUnder, TransferEvent.of, movesOf, tokenLogs, hp]
      | token v =>
        cases v with
        | transfer src dst i =>
          by_cases hid : i = id <;>
            simp [transfersUnder, TransferEvent.of, movesOf, tokenLogs, TokenEvent.moved, hp, he, hid]
        | _ => simp [transfersUnder, TransferEvent.of, movesOf, tokenLogs, TokenEvent.moved, hp]
    have htokens : tokenLogs ([e] ++ es) = tokenLogs [e] ++ tokenLogs es := List.filterMap_append
    rw [← List.singleton_append, transfersUnder_append, htokens, movesOf_append, List.length_append,
      List.length_append, hsingle, ih hes]

/-- each token that is minted has two transfers under one key -/
theorem Emitted.twice (h : Emitted c ts ess) (hr : OnFile c.now.house) {id : Nat}
    (h1 : c.now.token.currentUNounId ≤ id)
    (h2 : id < (runTxs AuctionCall.code ts c).2.now.token.currentUNounId) :
    ∃ hash, 2 ≤ (transfersUnder (hash, id) ess.flatten).length := by
  induction h with
  | nil c => exact absurd h1 (Nat.not_le_of_lt h2)
  | @cons c c' t ts es ess hash hc hhash htokens hhouses h ih =>
    have hh : Heralds c.now c'.now := hc ▸ tx_heralds t c hr
    subst hc
    by_cases hlt : id < (commit c (t.call.run AuctionCall.code t.env c).2).now.token.currentUNounId
    · obtain ⟨vs, hvs, htwice⟩ := hh.token.logs
      have e := List.append_cancel_left (hvs.symm.trans htokens)
      refine ⟨hash, ?_⟩
      have := htwice id h1 hlt
      rw [List.flatten_cons, transfersUnder_append, List.length_append, transfersUnder_length hhash, ← e]
      omega
    · obtain ⟨hash', h'⟩ := ih (hh.onFile hr) (Nat.le_of_not_lt hlt) h2
      refine ⟨hash', ?_⟩
      rw [List.flatten_cons, transfersUnder_append, List.length_append]
      omega

end

theorem deploy_onFile {s : AuctionSetup} {w : AuctionWorld} (h : s.deploy = .ok w) :
    OnFile w.house := by
  simp only [AuctionSetup.deploy, NounsAuctionHouse.deploy, bind_eq_ok, pure_eq_ok] at h
  obtain ⟨_, ⟨_, _, _, _, _, _, rfl⟩, rfl⟩ := h
  refine ⟨fun h0 => absurd rfl h0, fun us id sender value extended vs e => ?_⟩
  have e' : [HouseEvent.ownershipTransferred 0 s.deployer, .paused s.deployer]
      = us ++ .auctionBid id sender value extended :: vs := e
  have hmem : HouseEvent.auctionBid id sender value extended ∈
      [.ownershipTransferred 0 s.deployer, .paused s.deployer] :=
    e' ▸ List.mem_append_right _ List.mem_cons_self
  simp at hmem

/-- **Every bid finds its auction**, where an auction is created once its token has been minted. -/
theorem bidsOf_eq {es : List (Event MarketEvent)} (h : Preannounced (houses es)) (hfirst : MintFirst es) :
    Market.empty.bidsOf es = es.filterMap Bid.of := by
  induction es using List.reverseRecOn with
  | nil => rfl
  | append_singleton es e ih =>
    have hhouses : houses (es ++ [e]) = houses es ++ houses [e] := List.filterMap_append
    have hes : MintFirst es := fun us hus => hfirst us <| by
      rw [List.mem_inits] at hus ⊢
      exact hus.trans (List.prefix_append _ _)
    have hpre : Preannounced (houses es) := fun us id sender value extended vs e' =>
      h us id sender value extended (vs ++ houses [e]) (by rw [hhouses, e']; simp)
    have hlast : (Market.empty.read es).bidOf e = Bid.of e := by
      unfold Market.bidOf
      cases hp : e.params with
      | token v => simp [Bid.of, hp]
      | house v n =>
        cases v with
        | auctionBid id sender value extended =>
          have hmem : id ∈ createdIds (houses es) := h _ id sender value extended [] (by
            rw [hhouses]
            simp [houses, hp])
          have hsome := isSome_told hmem
          rw [← (read_auctions hes).auctions] at hsome
          simp [Bid.of, hp, hsome]
        | _ => simp [Bid.of, hp]
    have hnil : (handleMarketEvent (Market.empty.read es) e).bidsOf [] = [] := rfl
    rw [Market.bidsOf_append, ih hpre hes, List.filterMap_append]
    refine congrArg _ ?_
    show ((Market.empty.read es).bidOf e).toList ++ [] = _
    rw [hlast, List.append_nil]
    cases hof : Bid.of e <;> simp [hof]

/-- **The history as it is kept.**  Whatever the events are: under each hash and token there is the last
transfer, under each hash the last bid; and every log has an entity of its own if and only if no two logs
have one key.  In a run of the house with its token every bid finds its auction, and each token that is
minted has two transfers under one key, so that there are fewer entities than logs. -/
theorem history_filed :
    (∀ es : List (Event MarketEvent),
      let m := Market.empty.read es
      let transfers := es.filterMap TransferEvent.of
      let bids := Market.empty.bidsOf es
      (∀ k, m.store.transferEvents k = (transfers.filter (·.id = k)).getLast?) ∧
      (∀ h, m.bids h = (bids.filter (·.id = h)).getLast?) ∧
      (({k | (m.store.transferEvents k).isSome = true} : Set (BitVec 256 × Nat)).ncard = transfers.length
        ↔ transfers.Pairwise fun x y => x.id ≠ y.id) ∧
      (({h | (m.bids h).isSome = true} : Set (BitVec 256)).ncard = bids.length
        ↔ bids.Pairwise fun x y => x.id ≠ y.id)) ∧
    ∀ (P : Platform) (s : AuctionSetup) (w : AuctionWorld) (ts : List (Tx Env (AuctionCall P)))
      (ess : List (List (Event MarketEvent))) (older : List (Event MarketEvent)), s.deploy = .ok w →
      houses older = w.house.logs → Emitted ⟨[], w⟩ ts ess → MintFirst (older ++ ess.flatten) →
        let es := older ++ ess.flatten
        Market.empty.bidsOf es = es.filterMap Bid.of ∧
        ∀ id, w.token.currentUNounId ≤ id →
          id < (runTxs AuctionCall.code ts ⟨[], w⟩).2.now.token.currentUNounId →
          ∃ hash, 2 ≤ (transfersUnder (hash, id) es).length := by
  constructor
  · intro es m transfers bids
    have h := archived_read es
    refine ⟨fun k => ?_, fun k => ?_, ?_, ?_⟩
    · rw [h.transfers, file_eq]
    · rw [h.bids, file_eq]
    · rw [h.transfers, ncard_file_iff, List.Nodup, List.pairwise_map]
    · rw [h.bids, ncard_file_iff, List.Nodup, List.pairwise_map]
  · intro P s w ts ess older hw holder hes hfirst es
    have hr := deploy_onFile hw
    have hhouses : houses es = (runTxs AuctionCall.code ts ⟨[], w⟩).2.now.house.logs := by
      rw [hes.houses, ← holder]
      exact List.filterMap_append
    refine ⟨bidsOf_eq (hhouses ▸ (runs_onFile ts _ hr).bids) hfirst, fun id h1 h2 => ?_⟩
    obtain ⟨hash, h⟩ := hes.twice hr h1 h2
    refine ⟨hash, ?_⟩
    rw [transfersUnder_append, List.length_append]
    omega

/-- the events of the sample run, with those of the deployment -/
def auctionHistory : List (Event MarketEvent) :=
  auctionWorld.house.logs.map (fun v => ⟨.house v 0, ⟨7, 70⟩, 0⟩) ++
    (eventsOf 1 auctionTxs ⟨[], auctionWorld⟩).flatten

theorem history_filed_run : Market.empty.bidsOf auctionHistory = auctionHistory.filterMap Bid.of ∧
    (auctionHistory.filterMap Bid.of).length = 3 ∧
    ∃ hash, 2 ≤ (transfersUnder (hash, 2) auctionHistory).length := by
  have hlast : (runTxs AuctionCall.code auctionTxs ⟨[], auctionWorld⟩).2.now.token.currentUNounId = 4 := by
    decide +kernel
  have holder : houses (auctionWorld.house.logs.map fun v => ⟨.house v 0, ⟨7, 70⟩, 0⟩)
      = auctionWorld.house.logs := by decide +kernel
  have hfirst : MintFirst auctionHistory := by decide +kernel
  have hbids : (auctionHistory.filterMap Bid.of).length = 3 := by decide +kernel
  have hstart : auctionWorld.token.currentUNounId = 0 := by decide +kernel
  obtain ⟨h1, h2⟩ := history_filed.2 _ auctionSetup auctionWorld auctionTxs _ _ auctionWorld_deployed holder
    (eventsOf_emitted (deploy_onFile auctionWorld_deployed)) hfirst
  exact ⟨h1, hbids, h2 2 (by omega) (by omega)⟩

/-- what a house and its token emit in the transaction that opens the first auction -/
def openingEvents : List (Event MarketEvent) :=
  let w := (Reentrant.runTxs AuctionCall.code (auctionTxs.take 1) ⟨[], auctionWorld⟩).2.now
  let tokens := (w.token.logs.drop auctionWorld.token.logs.length).map MarketEvent.token
  let houses := (w.house.logs.drop auctionWorld.house.logs.length).map (MarketEvent.house · 0)
  (houses.take 1 ++ tokens ++ houses.drop 1).map (⟨·, ⟨7, 70⟩, 5⟩)

/-- **A mint is kept as one transfer**, though it emits two: of four transfers two are left. -/
theorem history_overwritten :
    let m := Market.empty.read openingEvents
    let transfers := openingEvents.filterMap TransferEvent.of
    transfers.map (fun x => (x.id, x.previousHolder, x.newHolder))
      = [((5, 0), 0, 1), ((5, 0), 1, 2), ((5, 1), 0, 1), ((5, 1), 1, 4)] ∧
    ({k | (m.store.transferEvents k).isSome = true} : Set (BitVec 256 × Nat)).ncard = 2 ∧
    (m.store.transferEvents (5, 1)).map (fun x => (x.previousHolder, x.newHolder)) = some (1, 4) := by
  intro m transfers
  refine ⟨by decide +kernel, ?_, by decide +kernel⟩
  rw [(archived_read openingEvents).transfers, ncard_file]
  decide +kernel

end UNouns.Subgraph
