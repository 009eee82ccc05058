import UNouns.Auction.Timeline
import UNouns.Subgraph.Market

/-!
# The auctions, as they are told

The entity of an auction is made from the events of the house.  While the house waits for a payment it
lags behind: a settlement is announced only after its payment, and an auction that was opened meanwhile
is announced first.

* `told`             the auctions as the events of the house tell them;
* `MintFirst`        an auction is created once its token has been minted;
* `read_auctions`    then the subgraph keeps what is told, wherever the events of the token stand;
* `Dozes`            what calls do that neither bid nor settle, within another call or not;
* `Portrayed`         nobody is in the house, and what is told is true (`code_mirrors`);
* `auctions_indexed` so it is with all runs.
-/

set_option linter.unusedVariables false

namespace UNouns.Subgraph
open Function Reentrant NounsAuctionHouse Timeline

/-! ## what the events tell -/

/-- an auction of the house, as an entity -/
def AuctionEntity.of (a : Auction) : AuctionEntity where
  id := a.unounId
  noun := a.unounId
  amount := a.amount
  startTime := a.startTime
  endTime := a.endTime
  bidder := if a.bidder = 0 then none else some a.bidder
  settled := a.settled

def tell (f : Nat → Option AuctionEntity) : HouseEvent → Nat → Option AuctionEntity
  | .auctionCreated id startTime endTime => update f id (some ⟨id, id, 0, startTime, endTime, none, false⟩)
  | .auctionBid id sender value _ =>
    update f id ((f id).map fun a => { a with amount := value, bidder := some sender })
  | .auctionExtended id endTime => update f id ((f id).map fun a => { a with endTime := endTime })
  | .auctionSettled id _ _ => update f id ((f id).map fun a => { a with settled := true })
  | _ => f

def told (logs : List HouseEvent) : Nat → Option AuctionEntity := logs.foldl tell fun _ => none

/-- the auction that an event is about -/
def auctionOf : HouseEvent → Option Nat
  | .auctionCreated id _ _ | .auctionBid id _ _ _ | .auctionExtended id _ | .auctionSettled id _ _ => some id
  | _ => none

theorem told_append (l m : List HouseEvent) : told (l ++ m) = m.foldl tell (told l) := List.foldl_append

theorem told_snoc (l : List HouseEvent) (v : HouseEvent) : told (l ++ [v]) = tell (told l) v :=
  told_append l [v]

/-- an event tells of its own auction only -/
theorem tell_other {v : HouseEvent} {id : Nat} (h : auctionOf v ≠ some id) (f : Nat → Option AuctionEntity) :
    tell f v id = f id := by
  cases v with
  | auctionCreated i _ _ | auctionBid i _ _ _ | auctionExtended i _ | auctionSettled i _ _ =>
    exact update_of_ne (fun e => h (congrArg some e.symm)) _ _
  | _ => rfl

theorem told_others {vs : List HouseEvent} {id : Nat} (h : ∀ v ∈ vs, auctionOf v ≠ some id)
    (l : List HouseEvent) : told (l ++ vs) id = told l id := by
  rw [told_append]
  generalize told l = f
  induction vs generalizing f with
  | nil => rfl
  | cons v vs ih =>
    exact (ih (fun w hw => h w (List.mem_cons_of_mem _ hw)) (tell f v)).trans
      (tell_other (h v List.mem_cons_self) f)

/-- the auctions there are, are those that were created -/
theorem told_isSome (logs : List HouseEvent) (id : Nat) :
    (told logs id).isSome = true → id ∈ createdIds logs := by
  induction logs using List.reverseRecOn with
  | nil => exact fun h => by cases h
  | append_singleton logs v ih =>
    rw [told_snoc, createdIds_append, List.mem_append]
    by_cases hv : auctionOf v = some id
    · cases v with
      | auctionCreated i s e =>
        exact fun _ => .inr (by simpa [createdIds] using (Option.some.inj hv).symm)
      | auctionBid i _ _ _ | auctionExtended i _ | auctionSettled i _ _ =>
        obtain rfl := Option.some.inj hv
        intro h
        exact .inl (ih (by simpa [tell] using h))
      | _ => cases hv
    · rw [tell_other hv]
      exact fun h => .inl (ih h)

theorem isSome_told {logs : List HouseEvent} {id : Nat} (h : id ∈ createdIds logs) :
    (told logs id).isSome = true := by
  induction logs using List.reverseRecOn with
  | nil => cases h
  | append_singleton logs v ih =>
    rw [createdIds_append, List.mem_append] at h
    rw [told_snoc]
    by_cases hv : auctionOf v = some id
    · cases v with
      | auctionCreated i s e =>
        obtain rfl := Option.some.inj hv
        simp [tell]
      | auctionBid i _ _ _ | auctionExtended i _ | auctionSettled i _ _ =>
        obtain rfl := Option.some.inj hv
        simpa [tell] using ih (h.resolve_right (by simp [createdIds]))
      | _ => cases hv
    · rw [tell_other hv]
      refine ih (h.resolve_right fun hid => hv ?_)
      cases v with
      | auctionCreated i s e => simpa [createdIds, auctionOf, eq_comm] using hid
      | _ => simp [createdIds] at hid

/-! ## reading -/

/-- the events of the house among others -/
def houses (es : List (Event MarketEvent)) : List HouseEvent :=
  es.filterMap fun e => match e.params with
    | .house v _ => some v
    | .token _ => none

/-- the tokens that have moved, and so have got a noun -/
def movedIds (es : List (Event MarketEvent)) : List Nat :=
  es.filterMap fun e => match e.params with
    | .token (.transfer _ _ id) => some id
    | _ => none

/-- an auction is created once its token has been minted -/
def MintFirst (es : List (Event MarketEvent)) : Prop :=
  ∀ us ∈ es.inits, ∀ id ∈ createdIds (houses us), id ∈ movedIds us

instance (es : List (Event MarketEvent)) : Decidable (MintFirst es) :=
  inferInstanceAs (Decidable (∀ us ∈ es.inits, ∀ id ∈ createdIds (houses us), id ∈ movedIds us))

/-- the store has the nouns that have moved, and the auctions that were told -/
structure Reads (es : List (Event MarketEvent)) (m : Market) : Prop where
  nouns : ∀ id ∈ movedIds es, (m.store.nouns id).isSome = true
  auctions : m.auctions = told (houses es)

section
variable {V : Type} {m : Market} (hm : m.Keyed) (e : Event V) (id : Nat)
include hm

/-- an auction that is loaded, changed and saved -/
theorem Market.Keyed.saveAuction_auctions {a : AuctionEntity} (change : AuctionEntity → AuctionEntity)
    (ha : m.auctions id = some a) (hid : (change a).id = a.id) :
    (m.saveAuction (change a)).auctions = update m.auctions id ((m.auctions id).map change) := by
  rw [ha]
  show update m.auctions (change a).id _ = _
  rw [hid, (hm.auction id a ha).1]
  rfl

theorem handleAuctionCreated_tells (startTime endTime : Nat) (hn : (m.store.nouns id).isSome = true) :
    (handleAuctionCreated m e id startTime endTime).auctions
      = tell m.auctions (.auctionCreated id startTime endTime) := by
  obtain ⟨noun, hnoun⟩ := Option.isSome_iff_exists.mp hn
  unfold handleAuctionCreated
  rw [hnoun]
  show update m.auctions id (some ⟨id, noun.id, _, _, _, _, _⟩) = _
  rw [hm.store.noun id noun hnoun]
  rfl

theorem handleAuctionBid_tells (txIndex : Nat) (sender : Address) (value : Nat) (extended : Bool) :
    (handleAuctionBid m e txIndex id sender value).auctions
      = tell m.auctions (.auctionBid id sender value extended) := by
  have hsender : (m.store.getOrCreateAccount sender).1.id = sender := by
    rw [m.store.getOrCreateAccount_fst, hm.store.new_account]
  unfold handleAuctionBid
  simp only [hsender]
  cases ha : m.auctions id with
  | none =>
    show m.auctions = update m.auctions id ((m.auctions id).map _)
    rw [ha]
    exact (update_eq_self_iff.mpr ha.symm).symm
  | some a => exact hm.saveAuction_auctions id (fun a => { a with amount := value, bidder := some sender }) ha rfl

theorem handleAuctionExtended_tells (endTime : Nat) :
    (handleAuctionExtended m e id endTime).auctions = tell m.auctions (.auctionExtended id endTime) := by
  unfold handleAuctionExtended
  cases ha : m.auctions id with
  | none =>
    show m.auctions = update m.auctions id ((m.auctions id).map _)
    rw [ha]
    exact (update_eq_self_iff.mpr ha.symm).symm
  | some a => exact hm.saveAuction_auctions id (fun a => { a with endTime := endTime }) ha rfl

theorem handleAuctionSettled_tells (winner : Address) (amount : Nat) :
    (handleAuctionSettled m e id).auctions = tell m.auctions (.auctionSettled id winner amount) := by
  unfold handleAuctionSettled
  cases ha : m.auctions id with
  | none =>
    show m.auctions = update m.auctions id ((m.auctions id).map _)
    rw [ha]
    exact (update_eq_self_iff.mpr ha.symm).symm
  | some a => exact hm.saveAuction_auctions id (fun a => { a with settled := true }) ha rfl

end

/-- **The handlers do what is told**, where a new auction finds its noun. -/
theorem handleHouseEvent_tells {m : Market} (hm : m.Keyed) (e : Event MarketEvent) (txIndex : Nat)
    (v : HouseEvent) (hn : ∀ id s t, v = .auctionCreated id s t → (m.store.nouns id).isSome = true) :
    (handleHouseEvent m e txIndex v).auctions = tell m.auctions v ∧
      (handleHouseEvent m e txIndex v).store.nouns = m.store.nouns := by
  cases v with
  | auctionCreated id s t =>
    refine ⟨handleAuctionCreated_tells hm e id s t (hn id s t rfl), ?_⟩
    simp only [handleHouseEvent, handleAuctionCreated]
    split <;> rfl
  | auctionBid id sender value extended =>
    refine ⟨handleAuctionBid_tells hm e id txIndex sender value extended, ?_⟩
    have hsame := (Store.getOrCreateAccount_snd hm.store sender).2.2.1
    simp only [handleHouseEvent, handleAuctionBid]
    split <;> exact hsame
  | auctionExtended id t =>
    refine ⟨handleAuctionExtended_tells hm e id t, ?_⟩
    simp only [handleHouseEvent, handleAuctionExtended]
    split <;> rfl
  | auctionSettled id winner amount =>
    refine ⟨handleAuctionSettled_tells hm e id winner amount, ?_⟩
    simp only [handleHouseEvent, handleAuctionSettled]
    split <;> rfl
  | _ => exact ⟨rfl, rfl⟩

/-- nouns stay, and a transfer makes its own -/
theorem handleTokenEvent_nouns {s : Store} (hk : s.Keyed) {V : Type} (e : Event V) (v : TokenEvent) (id : Nat)
    (h : (s.nouns id).isSome = true ∨ ∃ src dst, v = .transfer src dst id) :
    ((handleTokenEvent s e v).nouns id).isSome = true := by
  have hnouns : ∀ s : Store, (s.nouns id).isSome = (s.books.owner id).isSome := fun s => by simp [Store.books]
  rw [hnouns, (handleTokenEvent_books hk e v).2]
  rw [hnouns] at h
  have hkept : ∀ src dst i, (s.books.owner id).isSome = true ∨ i = id →
      ((s.books.transfer src dst i).owner id).isSome = true := by
    intro src dst i h
    by_cases hid : id = i
    · simp [Books.transfer, hid]
    · simpa [Books.transfer, update_of_ne hid] using h.resolve_right (Ne.symm hid)
  cases v with
  | transfer src dst i =>
    refine hkept src dst i (h.imp_right ?_)
    rintro ⟨_, _, h⟩
    cases h
    rfl
  | _ => exact h.resolve_right fun ⟨_, _, h⟩ => by cases h

theorem mem_movedIds_token {es : List (Event MarketEvent)} {e : Event MarketEvent} {v : TokenEvent} {id : Nat}
    (he : e.params = .token v) (h : id ∈ movedIds (es ++ [e])) :
    id ∈ movedIds es ∨ ∃ src dst, v = .transfer src dst id := by
  rw [movedIds, List.filterMap_append, List.mem_append] at h
  refine h.imp_right fun h => ?_
  rw [List.filterMap_cons, he] at h
  cases v with
  | transfer src dst i => exact ⟨src, dst, by rw [List.mem_singleton.mp h]⟩
  | _ => cases h

/-- **The subgraph keeps what is told**, wherever the events of the token stand among the others. -/
theorem read_auctions {es : List (Event MarketEvent)} (h : MintFirst es) :
    Reads es (Market.empty.read es) := by
  induction es using List.reverseRecOn with
  | nil => exact ⟨fun id hid => absurd hid List.not_mem_nil, rfl⟩
  | append_singleton es e ih =>
    have hes : Reads es (Market.empty.read es) := ih fun us hus => h us <| by
      rw [List.mem_inits] at hus ⊢
      exact hus.trans (List.prefix_append _ _)
    have hlast := h (es ++ [e]) ((List.mem_inits _ _).mpr (List.prefix_refl _))
    have hm := (archived_read es).keyed
    have hread : Market.empty.read (es ++ [e]) = handleMarketEvent (Market.empty.read es) e := by
      unfold Market.read
      rw [List.foldl_append]
      rfl
    rw [hread]
    generalize Market.empty.read es = m at hes hm ⊢
    unfold handleMarketEvent
    cases he : e.params with
    | token v =>
      have hhouses : houses (es ++ [e]) = houses es := by simp [houses, he]
      exact ⟨fun id hid => handleTokenEvent_nouns hm.store e v id
        ((mem_movedIds_token he hid).imp_left (hes.nouns id)), hhouses ▸ hes.auctions⟩
    | house v txIndex =>
      have hhouses : houses (es ++ [e]) = houses es ++ [v] := by simp [houses, he]
      have hmoved : movedIds (es ++ [e]) = movedIds es := by simp [movedIds, he]
      rw [hhouses, hmoved, createdIds_append] at hlast
      obtain ⟨h1, h2⟩ := handleHouseEvent_tells hm e txIndex v fun id s t hv => by
        refine hes.nouns id (hlast id (List.mem_append_right _ ?_))
        rw [hv]
        exact List.mem_singleton_self _
      refine ⟨fun id hid => ?_, ?_⟩
      · show ((handleHouseEvent m e txIndex v).store.nouns id).isSome = true
        rw [h2]
        exact hes.nouns id (hmoved ▸ hid)
      · rw [hhouses, told_snoc, ← hes.auctions]
        exact h1

/-! ## calls that neither bid nor settle -/

section
variable {P : Platform} {env : Env} {call : AuctionCall P} {c d : AuctionConfig P} {w w' : AuctionWorld}

/-- the auction there is, is told as it is -/
def Current (w : AuctionWorld) : Prop :=
  told w.house.logs w.house.auction.unounId = some (.of w.house.auction)

/-- what happens to the auctions is told, and none is settled -/
structure Tells (w w' : AuctionWorld) : Prop extends Lasting w w' where
  auction : w'.house.auction = w.house.auction ∨ Opened w w' ∧ Current w'
  old : ∀ id < w.token.currentUNounId, told w'.house.logs id = told w.house.logs id
  settled : ∀ id winner amount, .auctionSettled id winner amount ∈ w'.house.logs →
    .auctionSettled id winner amount ∈ w.house.logs

theorem Tells.same (hl : Lasting w w') (ha : w'.house.auction = w.house.auction) {vs : List HouseEvent}
    (hlogs : w'.house.logs = w.house.logs ++ vs) (hvs : ∀ v ∈ vs, auctionOf v = none) : Tells w w' := by
  refine ⟨hl, .inl ha, fun id _ => ?_, fun id winner amount h => ?_⟩
  · rw [hlogs]
    exact told_others (fun v hv e => by rw [hvs v hv] at e; cases e) _
  · rw [hlogs] at h
    exact (List.mem_append.mp h).resolve_right fun h => by cases hvs _ h

theorem Tells.silent (hl : Lasting w w') (ha : w'.house.auction = w.house.auction)
    (hlogs : w'.house.logs = w.house.logs) : Tells w w' :=
  .same hl ha (hlogs.trans (List.append_nil _).symm) fun _ h => absurd h List.not_mem_nil

theorem Tells.trans {a b c : AuctionWorld} (h1 : Tells a b) (h2 : Tells b c) : Tells a c where
  toLasting := h1.toLasting.trans h2.toLasting
  auction := by
    rcases h2.auction with e2 | ⟨o2, hc⟩
    · rcases h1.auction with e1 | ⟨o1, hb⟩
      · exact .inl (e2.trans e1)
      · refine .inr ⟨o1.lasting h2.toLasting e2, ?_⟩
        unfold Current
        rw [e2, h2.old _ o1.unounId_lt]
        exact hb
    · exact .inr ⟨o2.of_lasting h1.toLasting, hc⟩
  old := fun id hid => (h2.old id (Nat.lt_of_lt_of_le hid h1.nextId)).trans (h1.old id hid)
  settled := fun id winner amount h => h1.settled id winner amount (h2.settled id winner amount h)

/-- and an open auction is left alone -/
structure Dozes (w w' : AuctionWorld) : Prop extends Tells w w' where
  idles : Idles w w'

theorem Dozes.same (hl : Lasting w w') (ha : w'.house.auction = w.house.auction) {vs : List HouseEvent}
    (hlogs : w'.house.logs = w.house.logs ++ vs) (hvs : ∀ v ∈ vs, auctionOf v = none) : Dozes w w' :=
  ⟨.same hl ha hlogs hvs, .inl ha⟩

theorem Dozes.silent (hl : Lasting w w') (ha : w'.house.auction = w.house.auction)
    (hlogs : w'.house.logs = w.house.logs) : Dozes w w' :=
  ⟨.silent hl ha hlogs, .inl ha⟩

theorem Dozes.trans {a b c : AuctionWorld} (h1 : Dozes a b) (h2 : Dozes b c) : Dozes a c :=
  ⟨h1.toTells.trans h2.toTells, h1.idles.trans h2.idles h1.toLasting h2.toLasting⟩

/-- a new auction is told, and so is a pause instead -/
theorem createAuction_tells {msg : Msg} {seeds : Nat → Result Seed}
    (h : w.createAuction P env msg seeds = .ok w') : Tells w w' := by
  obtain ⟨hl, _, hopened, _⟩ := createAuction_opens h
  rcases AuctionWorld.createAuction_ok h with ⟨t, id, endTime, hm, _, rfl⟩ | ⟨_, _, rfl⟩
  · have hle := (UNounsToken.mint_ok hm).1
    refine ⟨hl, ?_, fun i hi => told_others (fun v hv => ?_) _, fun i winner amount hmem => ?_⟩
    · refine hopened.symm.imp_right fun ho => ⟨ho, ?_⟩
      show told (_ ++ [_]) id = _
      rw [told_snoc]
      exact update_self ..
    · rw [List.mem_singleton.mp hv]
      exact fun e => absurd (Option.some.inj e ▸ hi) (Nat.not_lt.mpr hle)
    · exact (List.mem_append.mp hmem).resolve_right fun h => by cases List.mem_singleton.mp h
  · refine .same hl rfl rfl fun v hv => ?_
    rw [List.mem_singleton.mp hv]
    rfl

theorem OwnerOp.apply_logs {sender : Address} {h h' : NounsAuctionHouse} {op : OwnerOp}
    (hh : op.apply sender h = .ok h') :
    ∃ vs, h'.logs = h.logs ++ vs ∧ ∀ v ∈ vs, auctionOf v = none := by
  have hone : ∀ v : HouseEvent, auctionOf v = none → ∀ x ∈ [v], auctionOf x = none := fun v hv x hx => by
    rw [List.mem_singleton.mp hx]
    exact hv
  cases op with
  | pause =>
    obtain ⟨_, _, hh⟩ := bind_eq_ok.mp hh
    rw [(pauseInternal_ok hh).2]
    exact ⟨_, rfl, hone _ rfl⟩
  | finishNounsDAOTreasuryShare =>
    obtain ⟨_, _, hh⟩ := bind_eq_ok.mp hh
    cases hh
    exact ⟨[], (List.append_nil _).symm, fun _ h => absurd h List.not_mem_nil⟩
  | transferOwnership a =>
    simp only [OwnerOp.apply, NounsAuctionHouse.transferOwnership, bind_eq_ok, pure_eq_ok] at hh
    obtain ⟨_, _, _, _, rfl⟩ := hh
    exact ⟨_, rfl, hone _ rfl⟩
  | setTimeBuffer _ | setReservePrice _ | setMinBidIncrementPercentage _ | renounceOwnership =>
    obtain ⟨_, _, hh⟩ := bind_eq_ok.mp hh
    cases hh
    exact ⟨_, rfl, hone _ rfl⟩

/-! ## what is true of the entities -/

/-- the auction that is on is told as it is, and a settled one with its end -/
structure Portrayed (e : Env) (w : AuctionWorld) : Prop where
  minted : Minted w
  unbegun : w.house.auction.startTime = 0 → w.house.auction.endTime = 0
  ended : w.house.auction.settled = true → w.house.auction.endTime ≤ e.timestamp
  current : w.house.auction.startTime ≠ 0 → Current w
  closed : ∀ id winner amount, .auctionSettled id winner amount ∈ w.house.logs →
    id < w.token.currentUNounId ∧ ∃ x, told w.house.logs id = some x ∧ x.settled = true ∧
      x.amount = amount ∧ ∀ b, x.bidder = some b → b = winner

theorem Portrayed.tells (h : Portrayed env w) (ht : Tells w w') : Portrayed env w' := by
  have hclosed : ∀ id winner amount, .auctionSettled id winner amount ∈ w'.house.logs →
      id < w'.token.currentUNounId ∧ ∃ x, told w'.house.logs id = some x ∧ x.settled = true ∧
        x.amount = amount ∧ ∀ b, x.bidder = some b → b = winner := fun id winner amount hmem => by
    obtain ⟨hlt, hx⟩ := h.closed id winner amount (ht.settled id winner amount hmem)
    rw [ht.old id hlt]
    exact ⟨Nat.lt_of_lt_of_le hlt ht.nextId, hx⟩
  rcases ht.auction with e | ⟨ho, hcurrent⟩
  · refine ⟨Idles.minted h.minted ht.toLasting (.inl e), ?_, ?_, fun hs => ?_, hclosed⟩
    · rw [e]
      exact h.unbegun
    · rw [e]
      exact h.ended
    · have hs' : w.house.auction.startTime ≠ 0 := e ▸ hs
      unfold Current
      rw [e, ht.old _ (h.minted hs')]
      exact h.current hs'
  · exact ⟨ho.minted_after, fun h0 => absurd h0 ho.unsettled.1,
      fun hs => absurd (ho.unsettled.2.symm.trans hs) Bool.false_ne_true, fun _ => hcurrent, hclosed⟩

/-- what has not ended is open -/
theorem Portrayed.unsettled (h : Portrayed env w) (htime : env.timestamp < w.house.auction.endTime) :
    w.house.auction.Unsettled := by
  refine ⟨fun h0 => ?_, Bool.eq_false_of_not_eq_true fun h1 => ?_⟩
  · have := h.unbegun h0
    omega
  · have := h.ended h1
    omega

/-- an open auction has not been settled before -/
theorem Portrayed.ne_closed (h : Portrayed env w) (hu : w.house.auction.Unsettled) {id : Nat} {winner : Address}
    {amount : Nat} (hmem : .auctionSettled id winner amount ∈ w.house.logs) :
    id ≠ w.house.auction.unounId := by
  rintro rfl
  obtain ⟨_, x, hx, hsettled, _⟩ := h.closed _ winner amount hmem
  rw [h.current hu.1] at hx
  cases hx
  exact absurd (hu.2.symm.trans hsettled) Bool.false_ne_true

/-- the end of a bid is told -/
theorem endBid_told {msg : Msg} {h h' : NounsAuctionHouse} (hh : h.endBid env msg h.auction = .ok h')
    (hcurrent : told h.logs h.auction.unounId = some (.of h.auction)) :
    told h'.logs h.auction.unounId = some (.of h'.auction) ∧
      (∀ id ≠ h.auction.unounId, told h'.logs id = told h.logs id) ∧
      ∀ id winner amount, .auctionSettled id winner amount ∈ h'.logs →
        .auctionSettled id winner amount ∈ h.logs := by
  simp only [endBid, bind_eq_ok, pure_eq_ok] at hh
  obtain ⟨endTime, hend, rfl⟩ := hh
  by_cases hlt : h.auction.endTime - env.timestamp < h.timeBuffer
  · simp only [decide_eq_true hlt, if_true, emit, leave, List.append_assoc] at hend ⊢
    refine ⟨?_, fun id hid => told_others ?_ _, fun id winner amount hmem => ?_⟩
    · rw [told_append, List.singleton_append]
      simp [tell, hcurrent, AuctionEntity.of, msg.sender_ne]
    · simp [auctionOf, Ne.symm hid]
    · simpa using hmem
  · simp only [decide_eq_false hlt, Bool.false_eq_true, if_false, pure_eq_ok, emit, leave] at hend ⊢
    refine ⟨?_, fun id hid => told_others ?_ _, fun id winner amount hmem => ?_⟩
    · rw [told_snoc]
      simp [tell, hcurrent, AuctionEntity.of, msg.sender_ne, hend]
    · simp [auctionOf, Ne.symm hid]
    · simpa using hmem

/-- the end of a bid, when nothing has happened to the auction meanwhile -/
theorem Portrayed.bid {msg : Msg} {h' : NounsAuctionHouse} (h : Portrayed env w)
    (hu : w.house.auction.Unsettled) (hend : w.house.endBid env msg w.house.auction = .ok h') :
    Portrayed env (w.withHouse h') := by
  obtain ⟨hcurrent, hother, hsettled⟩ := endBid_told hend (h.current hu.1)
  obtain ⟨endTime, logs, rfl, _⟩ := endBid_ok hend
  refine ⟨h.minted, fun h0 => absurd h0 hu.1, fun hs => absurd (hu.2.symm.trans hs) Bool.false_ne_true,
    fun _ => hcurrent, fun id winner amount hmem => ?_⟩
  obtain ⟨hlt, hx⟩ := h.closed id winner amount (hsettled id winner amount hmem)
  exact ⟨hlt, (hother id (h.ne_closed hu (hsettled id winner amount hmem))) ▸ hx⟩

/-- the end of a settlement; `a` was open at its beginning, and perhaps another auction is by now -/
theorem Portrayed.settle {w1 : AuctionWorld} {a : Auction} (h : Portrayed env w) (ha : w.house.auction = a)
    (hu : a.Unsettled) (htime : a.endTime ≤ env.timestamp) (hl : Lasting w w1)
    (ha1 : w1.house.auction = { a with settled := true }) (hlogs : w1.house.logs = w.house.logs)
    (hd : Dozes w1 w') : Portrayed env (w'.withHouse (endSettle a w'.house)) := by
  subst ha
  have hlt := h.minted hu.1
  have hold : ∀ id < w.token.currentUNounId, told w'.house.logs id = told w.house.logs id := fun id hid =>
    (hd.old id (Nat.lt_of_lt_of_le hid hl.nextId)).trans (by rw [hlogs])
  have htold : told (endSettle w.house.auction w'.house).logs w.house.auction.unounId
      = some (.of { w.house.auction with settled := true }) := by
    show told (_ ++ [_]) _ = _
    rw [told_snoc]
    simp only [tell, update_self, hold _ hlt, show told _ _ = _ from h.current hu.1]
    rfl
  have hother : ∀ id ≠ w.house.auction.unounId,
      told (endSettle w.house.auction w'.house).logs id = told w'.house.logs id := fun id hid =>
    told_others (fun v hv e => hid (by rw [List.mem_singleton.mp hv] at e; exact (Option.some.inj e).symm)) _
  have hclosed : ∀ id winner amount,
      .auctionSettled id winner amount ∈ (endSettle w.house.auction w'.house).logs →
      id < w'.token.currentUNounId ∧ ∃ x, told (endSettle w.house.auction w'.house).logs id = some x ∧
        x.settled = true ∧ x.amount = amount ∧ ∀ b, x.bidder = some b → b = winner := by
    intro id winner amount hmem
    have hnext := hl.nextId
    have hnext' := hd.nextId
    rcases List.mem_append.mp hmem with hmem | hmem
    · have hmem' := hd.settled id winner amount hmem
      rw [hlogs] at hmem'
      obtain ⟨hid, hx⟩ := h.closed id winner amount hmem'
      rw [hother id (h.ne_closed hu hmem'), hold id hid]
      exact ⟨by omega, hx⟩
    · obtain ⟨rfl, rfl, rfl⟩ : id = w.house.auction.unounId ∧ winner = w'.house.recipient w.house.auction ∧
          amount = w.house.auction.amount := by simpa using hmem
      refine ⟨by omega, _, htold, rfl, rfl, fun b hb => ?_⟩
      unfold recipient
      by_cases h0 : w.house.auction.bidder = 0
      · simp [AuctionEntity.of, h0] at hb
      · simpa [AuctionEntity.of, h0, eq_comm] using hb
  rcases hd.auction with e | ⟨ho, hcurrent⟩
  · rw [ha1] at e
    refine ⟨?_, ?_, fun _ => ?_, fun _ => ?_, hclosed⟩
    · intro _
      have hnext := hl.nextId
      have hnext' := hd.nextId
      show w'.house.auction.unounId < w'.token.currentUNounId
      rw [e]
      show w.house.auction.unounId < _
      omega
    · exact fun h0 => absurd ((congrArg Auction.startTime e).symm.trans h0) hu.1
    · show w'.house.auction.endTime ≤ _
      rw [e]
      exact htime
    · show told _ w'.house.auction.unounId = some (.of w'.house.auction)
      rw [e]
      exact htold
  · refine ⟨ho.minted_after, fun h0 => absurd h0 ho.unsettled.1,
      fun hs => absurd (ho.unsettled.2.symm.trans hs) Bool.false_ne_true, fun _ => ?_, hclosed⟩
    have hnext := hl.nextId
    have hminted := ho.minted
    have hne : w'.house.auction.unounId ≠ w.house.auction.unounId := by omega
    exact (hother _ hne).trans hcurrent

/-! ## the guard -/

def mirrorGuard (P : Platform) : Guard Env AuctionWorld (AuctionCall P) where
  held w := w.house.entered = true
  Fits _ := True
  Frozen c d := d.now.house.entered = true ∧ Dozes c.now d.now
  Inv e c := Portrayed e c.now
  fits_of_prefix := fun _ h => h
  refl := fun h => ⟨h, .silent (Lasting.refl _) rfl rfl⟩
  trans := fun h1 h2 => ⟨h2.1, h1.2.trans h2.2⟩
  still_held := fun h => h.1

/-- the condition on the code of an entry that began in `c` -/
abbrev Mirroring (env : Env) (c : AuctionConfig P) : AuctionCode → List (AuctionRecord P) → Prop :=
  Code.Meets ((mirrorGuard P).Done env) ((mirrorGuard P).Midway env) c

/-- an entry that neither bids nor settles, within another one or not -/
theorem dozing_done (he : w.house.entered = c.now.house.entered) (hd : Dozes c.now w) :
    (mirrorGuard P).Done env c ⟨c.enter env call, w⟩ :=
  ⟨List.prefix_append _ _, fun _ => ⟨fun hh => ⟨he.trans hh, hd⟩,
    fun hh hI => ⟨fun h => hh (he.symm.trans h), Portrayed.tells hI hd.toTells⟩⟩⟩

/-- the end of an entry that found the house empty -/
theorem portrayed_done {past : List (AuctionRecord P)} (hp : c.past <+: past)
    (hfree : c.now.house.entered = false) (he : w'.house.entered = false)
    (h : Portrayed env c.now → Portrayed env w') : (mirrorGuard P).Done env c ⟨past, w'⟩ :=
  ⟨hp, fun _ => ⟨fun hh => absurd (hfree.symm.trans hh) Bool.false_ne_true,
    fun _ hI => ⟨fun hh => absurd (he.symm.trans hh) Bool.false_ne_true, h hI⟩⟩⟩

/-! ## entries -/

theorem createBid_mirrors {id : Nat} :
    Mirroring env c (c.now.createBid env call.msg id) (c.enter env call) := by
  unfold AuctionWorld.createBid
  cases hbegin : c.now.house.beginBid env call.msg id with
  | error e => trivial
  | ok h =>
    obtain ⟨hfree, _, htime, hh⟩ := beginBid_ok hbegin
    have finish : ∀ d : AuctionConfig P, c.enter env call <+: d.past → Dozes c.now d.now →
        Mirroring env c (Code.ofExcept ((d.now.house.endBid env call.msg c.now.house.auction).map
          d.now.withHouse)) d.past := by
      intro d hp hd
      refine Code.ofExcept_meets fun w' hw' => ?_
      obtain ⟨h', hend, rfl⟩ := map_eq_ok.mp hw'
      have hleft : h'.entered = false := by
        obtain ⟨_, _, rfl, _⟩ := endBid_ok hend
        rfl
      refine portrayed_done ((List.prefix_append _ _).trans hp) hfree hleft fun hI => ?_
      have hu := hI.unsettled htime
      have e := hd.idles.auction_eq hu
      rw [← e] at hend
      exact (hI.tells hd.toTells).bid (e ▸ hu) hend
    have hbegun : Dozes c.now (c.now.withHouse h) :=
      .silent ⟨by rw [hh]; rfl, Nat.le_refl _⟩ (by rw [hh]; rfl) (by rw [hh]; rfl)
    by_cases hbidder : c.now.house.auction.bidder ≠ 0
    · simp only [if_pos hbidder]
      refine safeTransfer_meets (fun _ h => h) (List.prefix_append _ _) (by rw [hh]; rfl)
        fun d asWeth hp hd => ?_
      refine finish ⟨d.past, d.now.recordSent _ asWeth⟩ hp ((hbegun.trans ?_).trans (hd trivial).2 |>.trans ?_)
      · exact .silent ⟨rfl, Nat.le_refl _⟩ rfl rfl
      · exact .silent ⟨rfl, Nat.le_refl _⟩ rfl rfl
    · simp only [if_neg hbidder]
      exact finish ⟨c.enter env call, c.now.withHouse h⟩ (List.prefix_refl _) hbegun

/-- a settlement, and what follows on it: a new auction or nothing -/
theorem settleAuctionInternal_mirrors {h : NounsAuctionHouse} {next : AuctionWorld → AuctionCode}
    (henter : c.now.house.enter = .ok h)
    (hnext : ∀ w, ∃ r : Result AuctionWorld, next w = Code.ofExcept r ∧
      ∀ w', r = .ok w' → w'.house.entered = false ∧ Tells w w') :
    Mirroring env c ((c.now.withHouse h).settleAuctionInternal P env next) (c.enter env call) := by
  obtain ⟨hfree, hh⟩ := enter_ok henter
  have ha : h.auction = c.now.house.auction := by rw [hh]
  unfold AuctionWorld.settleAuctionInternal
  cases hand : (c.now.withHouse h).handOver P env with
  | error e => trivial
  | ok w =>
    obtain ⟨hopen, htime, _, t, hw, _, _, hid⟩ := AuctionWorld.handOver_ok hand
    simp only [AuctionWorld.withHouse, ha] at hopen htime hw hid
    have hl : Lasting c.now w := ⟨by rw [hw, hh], by rw [hw]; exact Nat.le_of_eq hid.symm⟩
    have hset : w.house.auction = { c.now.house.auction with settled := true } := by rw [hw]
    have hent : w.house.entered = true := by rw [hw, hh]
    have hlogs : w.house.logs = c.now.house.logs := by rw [hw, hh]
    have finish : ∀ d : AuctionConfig P, c.enter env call <+: d.past → Dozes w d.now →
        Mirroring env c (next (d.now.withHouse (endSettle c.now.house.auction d.now.house))) d.past := by
      intro d hp hd
      obtain ⟨r, hr, hok⟩ := hnext (d.now.withHouse (endSettle c.now.house.auction d.now.house))
      rw [hr]
      refine Code.ofExcept_meets fun w' hw' => ?_
      obtain ⟨he, ht⟩ := hok w' hw'
      exact portrayed_done ((List.prefix_append _ _).trans hp) hfree he fun hI =>
        (hI.settle rfl hopen htime hl hset hlogs hd).tells ht
    simp only [AuctionWorld.withHouse, ha] at finish ⊢
    by_cases hamount : 0 < c.now.house.auction.amount
    · rw [if_pos hamount]
      refine safeTransfer_meets (fun _ h => h) (List.prefix_append _ _) hent fun d asWeth hp hd => ?_
      refine finish ⟨d.past, d.now.recordSent _ asWeth⟩ hp ((Dozes.trans ?_ (hd trivial).2).trans ?_)
      · exact .silent ⟨rfl, Nat.le_refl _⟩ rfl rfl
      · exact .silent ⟨rfl, Nat.le_refl _⟩ rfl rfl
    · rw [if_neg hamount]
      exact finish ⟨c.enter env call, w⟩ (List.prefix_refl _) (.silent (Lasting.refl _) rfl rfl)

/-- **Every entry respects the guard.** -/
theorem code_mirrors (env : Env) (call : AuctionCall P) (c : AuctionConfig P) :
    Mirroring env c (call.code env c.now) (c.enter env call) := by
  unfold AuctionCall.code
  cases hop : call.op with
  | token op =>
    refine Code.once_meets (Guard.summary env) (fun w x h => ?_) fun x ok w w' h => ?_
    · obtain ⟨t, ht, hw⟩ := map_eq_ok.mp h
      obtain ⟨rfl, _⟩ := Prod.mk.inj hw
      exact dozing_done rfl (.silent ⟨rfl, TokenOp.apply_nextId ht⟩ rfl rfl)
    · exact AuctionExternal.after_eq h
  | createBid id => exact createBid_mirrors
  | settleAuction =>
    unfold AuctionWorld.settleAuction
    cases hbegin : (do c.now.house.whenPaused; c.now.house.enter) with
    | error e => trivial
    | ok h =>
      obtain ⟨_, _, henter⟩ := bind_eq_ok.mp hbegin
      refine settleAuctionInternal_mirrors henter fun w => ⟨.ok _, rfl, fun w' hw' => ?_⟩
      obtain rfl := Except.ok.inj hw'
      exact ⟨rfl, .silent ⟨rfl, Nat.le_refl _⟩ rfl rfl⟩
  | settleCurrentAndCreateNewAuction seeds =>
    unfold AuctionWorld.settleCurrentAndCreateNewAuction
    cases hbegin : (do let h ← c.now.house.enter; h.whenNotPaused; pure h) with
    | error e => trivial
    | ok h =>
      simp only [bind_eq_ok, pure_eq_ok] at hbegin
      obtain ⟨_, henter, _, _, rfl⟩ := hbegin
      refine settleAuctionInternal_mirrors henter fun w => ⟨_, rfl, fun w' hw' => ?_⟩
      obtain ⟨w1, hcreate, rfl⟩ := map_eq_ok.mp hw'
      exact ⟨rfl, (createAuction_tells hcreate).trans (.silent ⟨rfl, Nat.le_refl _⟩ rfl rfl)⟩
  | unpause seeds =>
    refine Code.ofExcept_meets fun w hw => ?_
    have hunpaused : Dozes c.now (c.now.withHouse { c.now.house with
        paused := false, logs := c.now.house.logs ++ [.unpaused call.msg.sender] }) :=
      .same ⟨rfl, Nat.le_refl _⟩ rfl rfl fun v hv => by rw [List.mem_singleton.mp hv]; rfl
    obtain ⟨h, rfl, _, ⟨_, rfl⟩ | ⟨hu, hcreate⟩⟩ := AuctionWorld.unpause_ok hw
    · exact dozing_done rfl hunpaused
    · obtain ⟨hl, he, ho, _⟩ := createAuction_opens hcreate
      refine dozing_done he (hunpaused.trans ⟨createAuction_tells hcreate, ?_⟩)
      exact ho.symm.imp_right fun ho => ⟨hu, ho⟩
  | admin op =>
    refine Code.ofExcept_meets fun w hw => ?_
    obtain ⟨h, hh, rfl⟩ := map_eq_ok.mp hw
    obtain ⟨vs, hlogs, hvs⟩ := OwnerOp.apply_logs hh
    have hsame := (OwnerOp.apply_ok hh).1
    exact dozing_done hsame.entered
      (.same ⟨OwnerOp.apply_duration hh, Nat.le_refl _⟩ hsame.auction hlogs hvs)
  | initializeAgain => trivial
  | forced => exact dozing_done rfl (.silent ⟨rfl, Nat.le_refl _⟩ rfl rfl)

/-! ## runs -/

theorem deploy_portrayed {s : AuctionSetup} {w : AuctionWorld} (h : s.deploy = .ok w) (e : Env) :
    Portrayed e w := by
  simp only [AuctionSetup.deploy, NounsAuctionHouse.deploy, bind_eq_ok, pure_eq_ok] at h
  obtain ⟨_, ⟨_, _, _, _, _, _, rfl⟩, rfl⟩ := h
  refine ⟨fun h0 => absurd rfl h0, fun _ => rfl, fun hs => absurd hs Bool.false_ne_true,
    fun h0 => absurd rfl h0, fun id winner amount hmem => ?_⟩
  rcases List.mem_cons.mp hmem with h | h
  · cases h
  · cases List.mem_singleton.mp h

/-- **The subgraph has the auctions of the house.**  Wherever a run is looked at and nobody is in the
house, whatever was called while payments were made: the entity of the auction that is on has its fields;
there is one entity for each auction that was created; a settled one shows the amount and, if there was
a bid, the winner.  If no auction was opened from within another call, all others are settled. -/
theorem auctions_indexed (s : AuctionSetup) (w : AuctionWorld) (e : Env) (hw : s.deploy = .ok w)
    (ts : List (Tx Env (AuctionCall P))) (hch : (e :: ts.map Tx.env).IsChain (· ≤ ·)) :
    ∀ o ∈ observations AuctionCall.code e ts ⟨[], w⟩, o.2.now.house.entered = false →
      ∀ es, houses es = o.2.now.house.logs → MintFirst es →
        let a := o.2.now.house.auction
        let m := Market.empty.read es
        (a.startTime ≠ 0 → m.auctions a.unounId = some (.of a)) ∧
        (∀ id, (m.auctions id).isSome = true ↔ id ∈ createdIds o.2.now.house.logs) ∧
        (∀ id winner amount, .auctionSettled id winner amount ∈ o.2.now.house.logs →
          ∃ x, m.auctions id = some x ∧ x.settled = true ∧ x.amount = amount ∧
            ∀ b, x.bidder = some b → b = winner) ∧
        ((∀ r ∈ o.2.past, Stipend r) → ∀ id x, m.auctions id = some x → id ≠ a.unounId →
          x.settled = true) := by
  intro o ho hfree es hes hfirst a m
  have hstart := (AuctionSetup.deploy_ok (P := P) hw).1
  have hportrayed : Portrayed o.1 o.2.now :=
    (Guard.invariant (g := mirrorGuard P) (c := ⟨[], w⟩) code_mirrors
      (fun e e' c (hI : Portrayed e c.now) (he : e ≤ e') =>
        { hI with ended := fun hs => Nat.le_trans (hI.ended hs) he.2 }) hch
      (fun hh => absurd (hstart.symm.trans hh) Bool.false_ne_true) (deploy_portrayed hw e)).1 o ho trivial
      fun hh => absurd (hfree.symm.trans hh) Bool.false_ne_true
  have hread : m.auctions = told o.2.now.house.logs := hes ▸ (read_auctions hfirst).auctions
  have hsettled : ∀ id winner amount, .auctionSettled id winner amount ∈ o.2.now.house.logs →
      ∃ x, m.auctions id = some x ∧ x.settled = true ∧ x.amount = amount ∧
        ∀ b, x.bidder = some b → b = winner := fun id winner amount hmem =>
    hread ▸ (hportrayed.closed id winner amount hmem).2
  refine ⟨fun h0 => hread ▸ hportrayed.current h0, fun id => ?_, hsettled, fun hf id x hx hne => ?_⟩
  · rw [hread]
    exact ⟨told_isSome _ id, isSome_told⟩
  · -- what was created and is not on has been settled
    have hcreated : id ∈ createdIds o.2.now.house.logs := told_isSome _ id (by rw [← hread, hx]; rfl)
    rw [((books_run hw hch).1 o ho hf hfree).1.created, List.mem_append] at hcreated
    have hid : id ∈ settledIds o.2.now.house.logs := hcreated.resolve_right fun h => by
      split_ifs at h
      · exact hne (List.mem_singleton.mp h)
      · cases h
    obtain ⟨v, hv, hvid⟩ := List.mem_filterMap.mp hid
    cases v with
    | auctionSettled i winner amount =>
      cases hvid
      obtain ⟨y, hy, hs, _⟩ := hsettled _ winner amount hv
      rw [hx] at hy
      exact Option.some.inj hy ▸ hs
    | _ => cases hvid

end

/-- the events of the sample run, the token's before the house's in each transaction -/
def auctionEvents : List (Event MarketEvent) :=
  let after := fun n => (runTxs AuctionCall.code (auctionTxs.take n) ⟨[], auctionWorld⟩).2.now
  let entry := fun n =>
    ((after (n + 1)).token.logs.drop (after n).token.logs.length).map MarketEvent.token ++
      ((after (n + 1)).house.logs.drop (after n).house.logs.length).map (MarketEvent.house · 0)
  (auctionWorld.house.logs.map (MarketEvent.house · 0) ++ (List.range 5).flatMap entry).map (⟨·, ⟨7, 70⟩, 5⟩)

theorem auctions_indexed_run :
    let last := (runTxs AuctionCall.code auctionTxs ⟨[], auctionWorld⟩).2
    (last.now.house.auction.unounId, last.now.house.auction.amount) = (3, 600) ∧
      (Market.empty.read auctionEvents).auctions 3 = some (.of last.now.house.auction) ∧
      ∃ x, (Market.empty.read auctionEvents).auctions 1 = some x ∧ x.settled = true ∧ x.amount = 300 := by
  intro last
  have ha : (last.now.house.auction.unounId, last.now.house.auction.amount) = (3, 600) := by decide +kernel
  have hbegun : last.now.house.auction.startTime ≠ 0 := by decide +kernel
  have hfree : last.now.house.entered = false := by decide +kernel
  have hsettled : HouseEvent.auctionSettled 1 8 300 ∈ last.now.house.logs := by decide +kernel
  have hhouses : houses auctionEvents = last.now.house.logs := by decide +kernel
  have hfirst : MintFirst auctionEvents := by decide +kernel
  have h := auctions_indexed auctionSetup auctionWorld (.block 6 60) auctionWorld_deployed auctionTxs
    auctionTxs_chain (_, last) (final_mem_observations _ _ _ _)
  -- from here on nothing is to be computed
  clear_value last
  generalize auctionEvents = es at h hhouses hfirst ⊢
  obtain ⟨h1, _, h2, _⟩ := h hfree es hhouses hfirst
  obtain ⟨x, hx, hs, hamount, _⟩ := h2 1 8 300 hsettled
  have h3 := h1 hbegun
  rw [show last.now.house.auction.unounId = 3 from (Prod.mk.inj ha).1] at h3
  exact ⟨ha, h3, x, hx, hs, hamount⟩

end UNouns.Subgraph
