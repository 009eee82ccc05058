import UNouns.Auction.Effects
import UNouns.Lib.Escrow
import UNouns.Lib.Guard

/-!
# The books of the auction house

What a history of calls says about the money and the tokens, and how the house agrees with it.

* `account`, `settlements`, `forced`   read from the history: the escrow account of the bids, the
                                       tokens settled, the ether that nobody bid;
* `Stipend`, `KeepsHouse`   what is assumed of the history;
* `Quiet`, `Dormant`   what is done without a bid, a settlement or a new auction, and without an
                       end to a pause between two auctions;
* `Books`              house, token and history agree (`Quiet.books_kept`);
* `auctionGuard`       the reentrancy guard of the house: behind it nothing happens.
-/

set_option linter.unusedVariables false

namespace UNouns
open Function Reentrant

/-! ## the history -/

def AuctionOp.bids : AuctionOp → Bool
  | .createBid _ => true
  | _ => false

def AuctionOp.settles : AuctionOp → Bool
  | .settleAuction | .settleCurrentAndCreateNewAuction _ => true
  | _ => false

section
variable {P : Platform}

/-- bids and settlements, in the order in which they began -/
def conducted (past : List (AuctionRecord P)) : List (AuctionRecord P) :=
  past.filter fun r => r.op.op.bids || r.op.op.settles

/-- a bid comes from its sender; the proceeds go to the treasury for one token in a hundred, as long as
it has its share, and else to the owner -/
def auctionEvent (r : AuctionRecord P) : Escrow.Event Address :=
  let h := r.pre.house
  if r.op.op.bids then .bid r.op.msg.sender r.op.msg.value
  else .settle (if r.env.timestamp < h.proceedsShareEndTime ∧ h.auction.unounId % 100 = 88 then
    h.nounsDAOTreasury else h.owner)

def account (past : List (AuctionRecord P)) : Escrow.Account Address :=
  Escrow.run ((conducted past).map auctionEvent)

/-- the tokens settled, in order -/
def settlements (past : List (AuctionRecord P)) : List Nat :=
  (past.filter (·.op.op.settles)).map fun r => r.pre.house.auction.unounId

/-- the ether that came without a bid with one entry -/
def AuctionCall.forced (call : AuctionCall P) : Nat :=
  match call.op with
  | .forced => call.msg.value
  | _ => 0

def forced (past : List (AuctionRecord P)) : Nat := (past.map (·.op.forced)).sum

theorem settlements_eq (past : List (AuctionRecord P)) :
    settlements past
      = ((conducted past).filter (·.op.op.settles)).map fun r => r.pre.house.auction.unounId := by
  unfold settlements conducted
  rw [List.filter_filter]
  congr 2
  funext r
  cases r.op.op.settles <;> simp

theorem mem_conducted {past : List (AuctionRecord P)} {r : AuctionRecord P} :
    r ∈ conducted past ↔ r ∈ past ∧ (r.op.op.bids = true ∨ r.op.op.settles = true) := by
  simp [conducted]

/-! ## what is assumed of it -/

/-- a successful mint, in an `unpause` that opens an auction -/
def Mints (r : AuctionRecord P) : Prop :=
  ∃ seeds x, r.op.op = .unpause seeds ∧ ¬ r.pre.house.auction.Unsettled ∧
    r.pre.token.mint r.env P.house seeds = .ok x

/-- while the house is in a function of its own, other code runs on the 30,000 gas that come with a
payment; a mint writes several fresh slots of storage and costs more than that -/
def Stipend (r : AuctionRecord P) : Prop := r.pre.house.entered = true → ¬ Mints r

/-- a call of the token from outside moves none of the tokens of the house -/
def KeepsHouse (r : AuctionRecord P) : Prop :=
  ∀ op t, r.op.op = .token op → op.apply P r.env r.op.msg.sender r.pre.token = .ok t →
    ∀ id, r.pre.token.owners id = P.house → t.owners id = P.house

/-! ## the auction and its bid -/

/-- the bid in the hands of the house -/
def Auction.standing (a : Auction) : Option (Address × Nat) :=
  if a.settled = true ∨ a.bidder = 0 then none else some (a.bidder, a.amount)

/-- the ether that belongs to the auction -/
def Auction.escrow (a : Auction) : Nat := if a.Unsettled then a.amount else 0

def Transfer.entry (t : Transfer) : Address × Nat := (t.payment.toAddr, t.payment.amount)

/-- a settlement: the token is in the house, and from there it goes to the bidder or, without a bid, to
the hall of fame; `next` is the state in which the next call begins, or the state now -/
def HandsOver (r : AuctionRecord P) (next : AuctionWorld) : Prop :=
  r.op.op.settles = true →
    let h := r.pre.house
    h.auction.Unsettled ∧ h.auction.endTime ≤ r.env.timestamp ∧
    r.pre.token.owners h.auction.unounId = P.house ∧
    next.token.owners h.auction.unounId
      = if h.auction.bidder = 0 then h.halloffame else h.auction.bidder

theorem HandsOver.of_other {r : AuctionRecord P} {next : AuctionWorld} (h : r.op.op.settles = false) :
    HandsOver r next := by
  intro hs
  rw [h] at hs
  cases hs

/-- the token goes no further -/
theorem HandsOver.rest {r : AuctionRecord P} {w w' : AuctionWorld} (h : HandsOver r w)
    (ho : r.op.op.settles = true → w'.token.owners r.pre.house.auction.unounId
      = w.token.owners r.pre.house.auction.unounId) : HandsOver r w' := by
  intro hs
  obtain ⟨h1, h2, h3, h4⟩ := h hs
  exact ⟨h1, h2, h3, (ho hs).trans h4⟩

/-! ## nothing but owner's functions, token calls and stray ether -/

/-- neither a bid nor a settlement, nor a new auction -/
structure Quiet (c c' : AuctionConfig P) : Prop where
  past : c.past <+: c'.past
  conducted : conducted c'.past = conducted c.past
  books : c.now.house.SameBooks c'.now.house
  balance : c'.now.house.balance + forced c.past = c.now.house.balance + forced c'.past
  nextId : c.now.token.currentUNounId ≤ c'.now.token.currentUNounId
  kept : (∀ r ∈ c'.past, KeepsHouse r) → ∀ id, c.now.token.owners id = P.house →
    c'.now.token.owners id = P.house
  settles : Linked HandsOver c → Linked HandsOver c'

/-- nor does a pause end, unless there is an auction -/
structure Dormant (c c' : AuctionConfig P) : Prop extends Quiet c c' where
  paused : c'.now.house.paused = false →
    c.now.house.paused = false ∨ c.now.house.auction.Unsettled

theorem Quiet.refl (c : AuctionConfig P) : Quiet c c :=
  ⟨List.prefix_refl _, rfl, .rfl, rfl, Nat.le_refl _, fun _ _ h => h, fun h => h⟩

theorem Dormant.refl (c : AuctionConfig P) : Dormant c c := ⟨Quiet.refl c, .inl⟩

theorem Quiet.trans {a b c : AuctionConfig P} (h1 : Quiet a b) (h2 : Quiet b c) : Quiet a c where
  past := h1.past.trans h2.past
  conducted := h2.conducted.trans h1.conducted
  books :=
    { entered := h2.books.entered.trans h1.books.entered
      auction := h2.books.auction.trans h1.books.auction
      sent := h2.books.sent.trans h1.books.sent
      created := h2.books.created.trans h1.books.created
      settled := h2.books.settled.trans h1.books.settled
      bids := h2.books.bids.trans h1.books.bids }
  balance := by
    have e1 := h1.balance
    have e2 := h2.balance
    omega
  nextId := Nat.le_trans h1.nextId h2.nextId
  kept := fun hk id h =>
    h2.kept hk id (h1.kept (fun r hr => hk r (h2.past.subset hr)) id h)
  settles := fun h => h2.settles (h1.settles h)

theorem Dormant.trans {a b c : AuctionConfig P} (h1 : Dormant a b) (h2 : Dormant b c) :
    Dormant a c where
  toQuiet := h1.toQuiet.trans h2.toQuiet
  paused := fun h => by
    rcases h2.paused h with h | h
    · exact h1.paused h
    · rw [h1.books.auction] at h
      exact .inr h

theorem conducted_append (l m : List (AuctionRecord P)) :
    UNouns.conducted (l ++ m) = UNouns.conducted l ++ UNouns.conducted m := List.filter_append ..

theorem forced_append (l m : List (AuctionRecord P)) :
    forced (l ++ m) = forced l + forced m := by
  simp [forced]

/-- one entry of the quiet kind -/
theorem Quiet.entry {c : AuctionConfig P} {env : Env} {call : AuctionCall P} {w : AuctionWorld}
    (hb : call.op.bids = false) (hs : call.op.settles = false)
    (hbooks : c.now.house.SameBooks w.house)
    (hbal : w.house.balance = c.now.house.balance + call.forced)
    (hid : c.now.token.currentUNounId ≤ w.token.currentUNounId)
    (hkept : KeepsHouse (⟨env, c.now, call⟩ : AuctionRecord P) → ∀ id,
      c.now.token.owners id = P.house → w.token.owners id = P.house) :
    Quiet c ⟨c.enter env call, w⟩ where
  past := List.prefix_append _ _
  conducted := by simp [Config.enter, UNouns.conducted, hb, hs]
  books := hbooks
  balance := by
    show w.house.balance + _ = _ + forced (c.enter env call)
    simp only [Config.enter, forced_append, hbal]
    simp [forced]
    omega
  nextId := hid
  kept := fun hk => hkept (hk _ (List.mem_append_right _ (List.mem_singleton_self _)))
  settles := fun h => h.enter (.of_other hs)

/-! ## the books -/

/-- a bid that was accepted -/
def BidStands (r : AuctionRecord P) : Prop :=
  ∀ id, r.op.op = .createBid id →
    r.pre.house.auction.Unsettled ∧ r.pre.house.auction.unounId = id ∧
      r.env.timestamp < r.pre.house.auction.endTime

structure Books (e : Env) (c : AuctionConfig P) : Prop where
  held : (account c.past).held = c.now.house.auction.standing
  paid : (account c.past).paid = c.now.house.sent.map Transfer.entry
  balance : c.now.house.balance = c.now.house.auction.escrow + forced c.past
  amount : c.now.house.auction.bidder = 0 → c.now.house.auction.amount = 0
  unbegun : c.now.house.auction.startTime = 0 →
    c.now.house.auction.endTime = 0 ∧ c.now.house.auction.bidder = 0
  ended : c.now.house.auction.settled = true → c.now.house.auction.endTime ≤ e.timestamp
  created : createdIds c.now.house.logs = settledIds c.now.house.logs ++
    if c.now.house.auction.Unsettled then [c.now.house.auction.unounId] else []
  settled : settledIds c.now.house.logs = settlements c.past
  increasing : (createdIds c.now.house.logs).Pairwise (· < ·)
  below : ∀ id ∈ createdIds c.now.house.logs, id < c.now.token.currentUNounId
  custody : (∀ r ∈ c.past, KeepsHouse r) → c.now.house.auction.Unsettled →
    c.now.token.owners c.now.house.auction.unounId = P.house
  bids : ∀ r ∈ c.past, BidStands r
  settles : Linked HandsOver c

/-- time does no harm -/
theorem Books.tick {e e' : Env} {c : AuctionConfig P} (h : Books e c) (he : e ≤ e') : Books e' c :=
  { h with ended := fun hs => Nat.le_trans (h.ended hs) he.2 }

theorem BidStands.of_other {r : AuctionRecord P} (h : r.op.op.bids = false) : BidStands r := by
  intro id hop
  rw [hop] at h
  cases h

/-- what is true of each bid and each settlement stays so -/
theorem Quiet.forall_past {c c' : AuctionConfig P} (h : Quiet c c') {p : AuctionRecord P → Prop}
    (hother : ∀ r : AuctionRecord P, r.op.op.bids = false → r.op.op.settles = false → p r)
    (hp : ∀ r ∈ c.past, p r) : ∀ r ∈ c'.past, p r := by
  intro r hr
  by_cases hc : r.op.op.bids = true ∨ r.op.op.settles = true
  · have h1 := mem_conducted.mpr ⟨hr, hc⟩
    rw [h.conducted] at h1
    exact hp r (mem_conducted.mp h1).1
  · exact hother r (Bool.eq_false_of_not_eq_true fun e => hc (.inl e))
      (Bool.eq_false_of_not_eq_true fun e => hc (.inr e))

/-- the books do not change while all is quiet -/
theorem Quiet.books_kept {e : Env} {c c' : AuctionConfig P} (h : Quiet c c') (hb : Books e c) :
    Books e c' := by
  have ea := h.books.auction
  have eaccount : account c'.past = account c.past := by rw [account, h.conducted, account]
  have esettle : settlements c'.past = settlements c.past := by
    rw [settlements_eq, h.conducted, settlements_eq]
  constructor
  case held => rw [eaccount, ea, hb.held]
  case paid => rw [eaccount, h.books.sent, hb.paid]
  case balance =>
    have e1 := h.balance
    have e2 := hb.balance
    rw [ea]
    omega
  case amount => rw [ea]; exact hb.amount
  case unbegun => rw [ea]; exact hb.unbegun
  case ended => rw [ea]; exact hb.ended
  case created => rw [h.books.created, h.books.settled, ea, hb.created]
  case settled => rw [h.books.settled, esettle, hb.settled]
  case increasing => rw [h.books.created]; exact hb.increasing
  case below =>
    rw [h.books.created]
    exact fun id hid => Nat.lt_of_lt_of_le (hb.below id hid) h.nextId
  case custody =>
    rw [ea]
    exact fun hk hu => h.kept hk _ (hb.custody (fun r hr => hk r (h.past.subset hr)) hu)
  case bids => exact h.forall_past (fun r h1 _ => .of_other h1) hb.bids
  case settles => exact h.settles hb.settles

/-! ## the guard -/

def auctionGuard (P : Platform) : Guard Env AuctionWorld (AuctionCall P) where
  held w := w.house.entered = true
  Fits past := ∀ r ∈ past, Stipend r
  Frozen c c' := c'.now.house.entered = true ∧ Dormant c c'
  Inv e c := Books e c ∧ (c.now.house.paused = false → c.now.house.auction.Unsettled)
  fits_of_prefix := fun hp hf r hr => hf r (hp.subset hr)
  refl := fun h => ⟨h, Dormant.refl _⟩
  trans := fun h1 h2 => ⟨h2.1, h1.2.trans h2.2⟩
  still_held := fun h => h.1

theorem Dormant.done {env : Env} {c c' : AuctionConfig P} (h : Dormant c c') :
    (auctionGuard P).Done env c c' := by
  refine ⟨h.past, fun _ => ⟨fun hh => ⟨h.books.entered.trans hh, h⟩, fun hh hI => ?_⟩⟩
  refine ⟨fun hh' => hh (h.books.entered.symm.trans hh'), h.books_kept hI.1, fun hp => ?_⟩
  rw [h.books.auction]
  rcases h.paused hp with hp | hu
  · exact hI.2 hp
  · exact hu

end

end UNouns
