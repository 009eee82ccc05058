import UNouns.Subgraph.Token
import UNouns.Token.Transfers
import Mathlib.Algebra.Order.Ring.Int

/-!
# What the token mapping does to the books

`Store.books` is what the store says of holdings, owners and their numbers.  Of the events of the
token only `Transfer` changes it.

* `Books.transfer`             what a transfer does, with both accounts loaded before either is saved;
* `handleTokenEvent_books`     and that is all;
* `Store.SameFiles`            what the mapping of the token leaves alone.
-/

set_option linter.unusedVariables false

namespace UNouns.Subgraph
open Function

/-! ## the books -/

structure Holding where
  raw : Int
  balance : Int
  nouns : List Nat

def Account.holding (a : Account) : Holding := ⟨a.tokenBalanceRaw, a.tokenBalance, a.nouns⟩

/-- `holders` and `supply` are `currentTokenHolders` and `totalTokenHolders` -/
structure Books where
  holding : Address → Holding
  owner : Nat → Option Address
  holders : Int
  supply : Int

/-- an account that has not been made yet is empty -/
def Store.account (s : Store) (a : Address) : Account := (s.accounts a).getD (.new a)

def Store.books (s : Store) : Books where
  holding := fun a => (s.account a).holding
  owner := fun id => (s.nouns id).map Noun.owner
  holders := s.getGovernanceEntity.currentTokenHolders
  supply := s.getGovernanceEntity.totalTokenHolders

/-- entities are kept under their ids -/
structure Store.Keyed (s : Store) : Prop where
  account : ∀ a x, s.accounts a = some x → x.id = a
  noun : ∀ id x, s.nouns id = some x → x.id = id

/-! ## loading and saving -/

/-- what leaves the books alone -/
structure Store.SameBooks (s s' : Store) : Prop where
  accounts : s'.accounts = s.accounts
  nouns : s'.nouns = s.nouns
  holders : s'.getGovernanceEntity.currentTokenHolders = s.getGovernanceEntity.currentTokenHolders
  supply : s'.getGovernanceEntity.totalTokenHolders = s.getGovernanceEntity.totalTokenHolders

theorem Store.SameBooks.refl (s : Store) : s.SameBooks s := ⟨rfl, rfl, rfl, rfl⟩

theorem Store.SameBooks.trans {s s' s'' : Store} (h1 : s.SameBooks s') (h2 : s'.SameBooks s'') :
    s.SameBooks s'' :=
  ⟨h2.accounts.trans h1.accounts, h2.nouns.trans h1.nouns, h2.holders.trans h1.holders,
    h2.supply.trans h1.supply⟩

theorem Store.SameBooks.books {s s' : Store} (h : s.SameBooks s') : s'.books = s.books := by
  unfold Store.books Store.account
  rw [h.accounts, h.nouns, h.holders, h.supply]

theorem Store.SameBooks.keyed {s s' : Store} (h : s.SameBooks s') (hk : s.Keyed) : s'.Keyed :=
  ⟨fun a x hx => hk.account a x (h.accounts ▸ hx), fun id x hx => hk.noun id x (h.nouns ▸ hx)⟩

theorem Store.getOrCreateDelegate_same (s : Store) (id : Address) :
    s.SameBooks (s.getOrCreateDelegate id).2 := by
  unfold Store.getOrCreateDelegate
  cases s.delegates id with
  | some d => exact .refl s
  | none =>
    by_cases h : id ≠ 0
    · simp only [if_pos h]
      exact ⟨rfl, rfl, rfl, rfl⟩
    · simp only [if_neg h]
      exact ⟨rfl, rfl, rfl, rfl⟩

theorem Store.Keyed.new_account {s : Store} (hk : s.Keyed) (a : Address) : (s.account a).id = a := by
  unfold Store.account
  cases h : s.accounts a with
  | none => rfl
  | some x => exact hk.account a x h

theorem Store.getOrCreateAccount_fst (s : Store) (a : Address) :
    (s.getOrCreateAccount a).1 = s.account a := by
  unfold Store.getOrCreateAccount Store.account
  cases s.accounts a <;> rfl

theorem Store.Keyed.saveAccount {s : Store} (hk : s.Keyed) (x : Account) : (s.saveAccount x).Keyed := by
  refine ⟨fun a y hy => ?_, hk.noun⟩
  have hy' : update s.accounts x.id (some x) a = some y := hy
  by_cases e : a = x.id
  · rw [e, update_self] at hy'
    rw [e, Option.some.inj hy']
  · rw [update_of_ne e] at hy'
    exact hk.account a y hy'

theorem Store.Keyed.saveNoun {s : Store} (hk : s.Keyed) (x : Noun) : (s.saveNoun x).Keyed := by
  refine ⟨hk.account, fun id y hy => ?_⟩
  have hy' : update s.nouns x.id (some x) id = some y := hy
  by_cases e : id = x.id
  · rw [e, update_self] at hy'
    rw [e, Option.some.inj hy']
  · rw [update_of_ne e] at hy'
    exact hk.noun id y hy'

theorem Store.saveAccount_account (s : Store) (x : Account) :
    (s.saveAccount x).account = update s.account x.id x := by
  funext a
  show (update s.accounts x.id (some x) a).getD (.new a) = _
  by_cases e : a = x.id
  · rw [e, update_self, update_self]
    rfl
  · rw [update_of_ne e, update_of_ne e]
    rfl

theorem Store.getOrCreateAccount_snd {s : Store} (hk : s.Keyed) (a : Address) :
    (s.getOrCreateAccount a).2.account = s.account ∧ (s.getOrCreateAccount a).2.Keyed ∧
      (s.getOrCreateAccount a).2.nouns = s.nouns ∧
      (s.getOrCreateAccount a).2.governance = s.governance := by
  unfold Store.getOrCreateAccount
  cases h : s.accounts a with
  | some x => exact ⟨rfl, hk, rfl, rfl⟩
  | none =>
    refine ⟨?_, hk.saveAccount _, rfl, rfl⟩
    rw [Store.saveAccount_account]
    funext b
    by_cases e : b = a
    · rw [e]
      show update s.account a _ a = _
      rw [update_self, Store.account, h]
      rfl
    · exact update_of_ne e _ _

/-- saving an account changes its holding only -/
theorem Store.saveAccount_books (s : Store) (x : Account) :
    (s.saveAccount x).books = { s.books with holding := update s.books.holding x.id x.holding } := by
  have h : (fun a => ((s.saveAccount x).account a).holding)
      = update s.books.holding x.id x.holding := by
    rw [Store.saveAccount_account]
    funext a
    by_cases e : a = x.id
    · rw [e, update_self, update_self]
    · rw [update_of_ne e, update_of_ne e]
      rfl
  show Books.mk _ _ _ _ = _
  rw [h]
  rfl

theorem Store.saveGovernance_books (s : Store) (g : Governance) :
    (s.saveGovernance g).books
      = { s.books with holders := g.currentTokenHolders, supply := g.totalTokenHolders } := rfl

theorem Store.saveNoun_books (s : Store) (n : Noun) :
    (s.saveNoun n).books = { s.books with owner := update s.books.owner n.id (some n.owner) } := by
  have h : (fun id => ((s.saveNoun n).nouns id).map Noun.owner)
      = update s.books.owner n.id (some n.owner) := by
    funext id
    show (update s.nouns n.id (some n) id).map Noun.owner = _
    by_cases e : id = n.id
    · rw [e, update_self, update_self]
      rfl
    · rw [update_of_ne e, update_of_ne e]
      rfl
  show Books.mk _ _ _ _ = _
  rw [h]
  rfl

/-! ## transfers -/

def Holding.lose (h : Holding) (id : Nat) : Holding :=
  ⟨h.raw - 1, h.raw - 1, h.nouns.filter (· ≠ id)⟩

def Holding.gain (h : Holding) (id : Nat) : Holding := ⟨h.raw + 1, h.raw + 1, h.nouns ++ [id]⟩

/-- what an account adds to the holders when its balance changes -/
def holderChange (previous balance : Int) : Int :=
  if Emptied previous balance then -1 else if Filled previous balance then 1 else 0

def Books.transfer (b : Books) (src dst : Address) (id : Nat) : Books where
  holding := update
    (if src = 0 then b.holding else update b.holding src ((b.holding src).lose id))
    dst ((b.holding dst).gain id)
  owner := update b.owner id (some dst)
  holders := b.holders
    + (if src = 0 then 0 else holderChange (b.holding src).raw ((b.holding src).raw - 1))
    + holderChange (b.holding dst).raw ((b.holding dst).raw + 1)
  supply := b.supply + (if src = 0 then 1 else 0) - (if dst = 0 then 1 else 0)

/-- the governance entity in hand is the one in the store, as far as the books go -/
structure InHand (s : Store) (g : Governance) : Prop where
  holders : s.getGovernanceEntity.currentTokenHolders = g.currentTokenHolders
  supply : s.getGovernanceEntity.totalTokenHolders = g.totalTokenHolders

theorem Store.SameBooks.inHand {s s' : Store} {g : Governance} (h : s.SameBooks s')
    (hg : InHand s g) : InHand s' g := ⟨h.holders.trans hg.holders, h.supply.trans hg.supply⟩

theorem InHand.books {s : Store} {g : Governance} (h : InHand s g) :
    s.books.holders = g.currentTokenHolders ∧ s.books.supply = g.totalTokenHolders :=
  ⟨h.holders, h.supply⟩

theorem Store.unrepresent_same (s : Store) (delegate : Option Address) (id : Nat) :
    s.SameBooks (s.unrepresent delegate id) := by
  cases delegate with
  | none => exact .refl s
  | some d => exact (s.getOrCreateDelegate_same d).trans ⟨rfl, rfl, rfl, rfl⟩

theorem Store.represent_same (s : Store) (delegate : Address) (id : Nat) :
    s.SameBooks (s.represent delegate id) :=
  (s.getOrCreateDelegate_same delegate).trans ⟨rfl, rfl, rfl, rfl⟩

theorem Store.recount_books {s : Store} {g : Governance} (hk : s.Keyed) (hg : InHand s g)
    (previous balance : Int) :
    (s.recount g previous balance).2.Keyed ∧
    InHand (s.recount g previous balance).2 (s.recount g previous balance).1 ∧
    (s.recount g previous balance).2.books
      = { s.books with holders := s.books.holders + holderChange previous balance } := by
  obtain ⟨hh, hs⟩ := hg.books
  unfold Store.recount holderChange
  split_ifs with h1 h2
  · refine ⟨⟨hk.account, hk.noun⟩, ⟨rfl, rfl⟩, ?_⟩
    rw [Store.saveGovernance_books, hh, ← hs]
    rfl
  · refine ⟨⟨hk.account, hk.noun⟩, ⟨rfl, rfl⟩, ?_⟩
    rw [Store.saveGovernance_books, hh, ← hs]
  · refine ⟨hk, hg, ?_⟩
    rw [add_zero]

theorem transferFromHolder_books {s : Store} {g : Governance} (hk : s.Keyed) (hg : InHand s g)
    (src : Address) (id : Nat) :
    (transferFromHolder s g (s.account src) src id).store.Keyed ∧
    InHand (transferFromHolder s g (s.account src) src id).store
      (transferFromHolder s g (s.account src) src id).governance ∧
    (transferFromHolder s g (s.account src) src id).store.books = { s.books with
      holding := if src = 0 then s.books.holding else
        update s.books.holding src ((s.books.holding src).lose id)
      holders := s.books.holders + (if src = 0 then 0 else
        holderChange (s.books.holding src).raw ((s.books.holding src).raw - 1))
      supply := s.books.supply + (if src = 0 then 1 else 0) } := by
  have hid := hk.new_account src
  obtain ⟨hh, hs⟩ := hg.books
  unfold transferFromHolder
  by_cases h0 : src = 0
  · simp only [if_pos h0]
    refine ⟨⟨hk.account, hk.noun⟩, ⟨rfl, rfl⟩, ?_⟩
    rw [Store.saveGovernance_books, hh, hs, add_zero]
  · simp only [if_neg h0]
    have hsame := s.unrepresent_same (s.account src).delegate id
    obtain ⟨hk2, hg2, hb2⟩ := Store.recount_books (hsame.keyed hk) (hsame.inHand hg)
      (s.account src).tokenBalanceRaw ((s.account src).tokenBalanceRaw - 1)
    refine ⟨hk2.saveAccount _, ⟨hg2.holders, hg2.supply⟩, ?_⟩
    rw [Store.saveAccount_books, hb2, hsame.books, add_zero]
    simp only [hid]
    rfl

theorem Store.receive_books {s : Store} {g : Governance} (hk : s.Keyed) (hg : InHand s g)
    (toHolder : Account) (id : Nat) :
    (s.receive g toHolder id).Keyed ∧ (s.receive g toHolder id).books = { s.books with
      holding := update s.books.holding toHolder.id (toHolder.holding.gain id)
      owner := update s.books.owner id (some toHolder.id)
      holders := s.books.holders
        + holderChange toHolder.tokenBalanceRaw (toHolder.tokenBalanceRaw + 1) } := by
  have hsame := s.represent_same (toHolder.delegate.getD toHolder.id) id
  obtain ⟨hk1, _, hb1⟩ := Store.recount_books (hsame.keyed hk) (hsame.inHand hg)
    toHolder.tokenBalanceRaw (toHolder.tokenBalanceRaw + 1)
  unfold Store.receive
  simp only
  generalize (s.represent (toHolder.delegate.getD toHolder.id) id).recount g toHolder.tokenBalanceRaw
    (toHolder.tokenBalanceRaw + 1) = r at hk1 hb1 ⊢
  have hnoun : ((r.2.nouns id).getD ⟨id, none, 0⟩).id = id := by
    cases hn : r.2.nouns id with
    | none => rfl
    | some n => exact hk1.noun id n hn
  refine ⟨(hk1.saveNoun _).saveAccount _, ?_⟩
  rw [Store.saveAccount_books, Store.saveNoun_books, hb1, hsame.books]
  simp only [hnoun]
  rfl

theorem transferToHolder_books {x : Transferring} (hk : x.store.Keyed)
    (hg : InHand x.store x.governance) {V : Type} (e : Event V) (toHolder : Account) (id : Nat) :
    (transferToHolder x e toHolder toHolder.id id).Keyed ∧
    (transferToHolder x e toHolder toHolder.id id).books = { x.store.books with
      holding := update x.store.books.holding toHolder.id (toHolder.holding.gain id)
      owner := update x.store.books.owner id (some toHolder.id)
      holders := x.store.books.holders
        + holderChange toHolder.tokenBalanceRaw (toHolder.tokenBalanceRaw + 1)
      supply := x.store.books.supply - (if toHolder.id = 0 then 1 else 0) } := by
  obtain ⟨hh, hs⟩ := hg.books
  unfold transferToHolder
  simp only
  generalize hev : DelegationEvent.mk _ _ _ _ _ _ = ev
  by_cases h0 : toHolder.id = 0
  · simp only [if_pos h0]
    generalize hg0 : { x.governance with
      totalTokenHolders := x.governance.totalTokenHolders - 1 } = g
    have hk0 : (x.store.saveGovernance g).Keyed := ⟨hk.account, hk.noun⟩
    have hsame : (x.store.saveGovernance g).SameBooks
      ((x.store.saveGovernance g).saveDelegationEvent ev) := ⟨rfl, rfl, rfl, rfl⟩
    have hg1 : InHand (x.store.saveGovernance g) g := ⟨rfl, rfl⟩
    obtain ⟨hk1, hb1⟩ := Store.receive_books (hsame.keyed hk0) (hsame.inHand hg1) toHolder id
    refine ⟨hk1, ?_⟩
    rw [hb1, hsame.books, Store.saveGovernance_books, hh, hs, ← hg0]
  · simp only [if_neg h0, sub_zero]
    have hsame : x.store.SameBooks (x.store.saveDelegationEvent ev) := ⟨rfl, rfl, rfl, rfl⟩
    obtain ⟨hk1, hb1⟩ := Store.receive_books (hsame.keyed hk) (hsame.inHand hg) toHolder id
    refine ⟨hk1, ?_⟩
    rw [hb1, hsame.books]

/-- **What a transfer does to the books.** -/
theorem handleTransfer_books {s : Store} (hk : s.Keyed) {V : Type} (e : Event V) (src dst : Address)
    (id : Nat) : (handleTransfer s e src dst id).Keyed ∧
      (handleTransfer s e src dst id).books = s.books.transfer src dst id := by
  obtain ⟨ha1, hk1, hn1, hg1⟩ := Store.getOrCreateAccount_snd hk src
  obtain ⟨ha2, hk2, hn2, hg2⟩ := Store.getOrCreateAccount_snd hk1 dst
  have hfrom : (s.getOrCreateAccount src).1 = s.account src := s.getOrCreateAccount_fst src
  have hto : ((s.getOrCreateAccount src).2.getOrCreateAccount dst).1 = s.account dst := by
    rw [Store.getOrCreateAccount_fst, ha1]
  have hbooks : ((s.getOrCreateAccount src).2.getOrCreateAccount dst).2.books = s.books := by
    unfold Store.books Store.getGovernanceEntity
    rw [ha2, ha1, hn2, hn1, hg2, hg1]
  unfold handleTransfer
  simp only [hfrom, hto]
  generalize ((s.getOrCreateAccount src).2.getOrCreateAccount dst).2 = s2 at ha2 hk2 hbooks ⊢
  rw [ha1] at ha2
  generalize hs3 : s2.saveTransferEvent _ = s3
  have hsame : s2.SameBooks s3 := by
    subst hs3
    exact ⟨rfl, rfl, rfl, rfl⟩
  have hacc : s3.account src = s.account src := by
    rw [← ha2]
    unfold Store.account
    rw [hsame.accounts]
  have hg3 : InHand s3 s2.getGovernanceEntity := hsame.inHand ⟨rfl, rfl⟩
  obtain ⟨hk4, hg4, hb4⟩ := transferFromHolder_books (hsame.keyed hk2) hg3 src id
  rw [hacc] at hk4 hg4 hb4
  obtain ⟨hk5, hb5⟩ := transferToHolder_books hk4 hg4 e (s.account dst) id
  rw [hk.new_account dst] at hk5 hb5
  refine ⟨hk5, ?_⟩
  rw [hb5, hb4, hsame.books, hbooks]
  rfl

/-! ## the other events -/

theorem handleNounCreated_books {s : Store} (hk : s.Keyed) {V : Type} (e : Event V) (id : Nat)
    (seed : Seed) : (handleNounCreated s e id seed).Keyed ∧
      (handleNounCreated s e id seed).books = s.books := by
  have hsame : s.SameBooks (s.saveSeed ⟨id, seed⟩) := ⟨rfl, rfl, rfl, rfl⟩
  rcases handleNounCreated_cases s e id seed with h | ⟨n, hn, h⟩
  · rw [h]
    exact ⟨hsame.keyed hk, hsame.books⟩
  · rw [h]
    refine ⟨(hsame.keyed hk).saveNoun _, ?_⟩
    have hid : n.id = id := hk.noun id n hn
    have ho : s.books.owner id = some n.owner := by
      show (s.nouns id).map Noun.owner = _
      rw [hn]
      rfl
    rw [Store.saveNoun_books, hsame.books]
    simp only [hid]
    rw [← ho, update_eq_self]

theorem handleDelegateVotesChanged_books {s : Store} (hk : s.Keyed) {V : Type} (e : Event V)
    (delegate : Address) (previousBalance newBalance : Nat) :
    (handleDelegateVotesChanged s e delegate previousBalance newBalance).Keyed ∧
      (handleDelegateVotesChanged s e delegate previousBalance newBalance).books = s.books := by
  have hsame : s.SameBooks (handleDelegateVotesChanged s e delegate previousBalance newBalance) := by
    have hd := s.getOrCreateDelegate_same delegate
    unfold handleDelegateVotesChanged
    refine ⟨hd.accounts, hd.nouns, ?_, ?_⟩
    · simp only
      split_ifs <;> rfl
    · simp only
      split_ifs <;> rfl
  exact ⟨hsame.keyed hk, hsame.books⟩

theorem handleDelegateChanged_books {s : Store} (hk : s.Keyed) {V : Type} (e : Event V)
    (delegator fromDelegate toDelegate : Address) :
    (handleDelegateChanged s e delegator fromDelegate toDelegate).Keyed ∧
      (handleDelegateChanged s e delegator fromDelegate toDelegate).books = s.books := by
  obtain ⟨ha1, hk1, hn1, hg1⟩ := Store.getOrCreateAccount_snd hk delegator
  have hacc : (s.getOrCreateAccount delegator).1 = s.account delegator := s.getOrCreateAccount_fst _
  have hbooks : (s.getOrCreateAccount delegator).2.books = s.books := by
    unfold Store.books Store.getGovernanceEntity
    rw [ha1, hn1, hg1]
  unfold handleDelegateChanged
  simp only [hacc]
  generalize (s.getOrCreateAccount delegator).2 = s1 at *
  generalize hs2 : ((s1.getOrCreateDelegate fromDelegate).2.getOrCreateDelegate toDelegate).2 = s2
  have hsame : s1.SameBooks s2 := by
    subst hs2
    exact (Store.getOrCreateDelegate_same _ _).trans (Store.getOrCreateDelegate_same _ _)
  have hfold : ∀ (xs : List Nat) (f : Nat → DelegationEvent) (s' : Store),
      s'.SameBooks (xs.foldl (fun s n => s.saveDelegationEvent (f n)) s') := by
    intro xs f
    induction xs with
    | nil => exact fun s' => .refl s'
    | cons n xs ih =>
      intro s'
      have h1 : s'.SameBooks (s'.saveDelegationEvent (f n)) := ⟨rfl, rfl, rfl, rfl⟩
      exact h1.trans (ih _)
  have hown : s1.books.holding delegator = (s.account delegator).holding := by
    rw [hbooks]
    rfl
  have hk2 := (hsame.keyed hk1).saveAccount { s.account delegator with
    delegate := some ((s1.getOrCreateDelegate fromDelegate).2.getOrCreateDelegate toDelegate).1.id }
  refine ⟨(hfold _ _ _).keyed ⟨hk2.account, hk2.noun⟩, ?_⟩
  rw [(hfold _ _ _).books]
  show (Store.saveAccount s2 _).books = _
  rw [Store.saveAccount_books, hsame.books, ← hbooks]
  simp only [hk.new_account]
  show { s1.books with holding := update s1.books.holding delegator (s.account delegator).holding }
    = s1.books
  rw [← hown, update_eq_self]

/-- **Of the events of the token only `Transfer` changes the books.** -/
theorem handleTokenEvent_books {s : Store} (hk : s.Keyed) {V : Type} (e : Event V) (v : TokenEvent) :
    (handleTokenEvent s e v).Keyed ∧ (handleTokenEvent s e v).books
      = match v.moved with
        | some (src, dst, id) => s.books.transfer src dst id
        | none => s.books := by
  cases v with
  | transfer src dst id => exact handleTransfer_books hk e src dst id
  | delegateChanged a b c => exact handleDelegateChanged_books hk e a b c
  | delegateVotesChanged a b c => exact handleDelegateVotesChanged_books hk e a b c
  | nounCreated id seed => exact handleNounCreated_books hk e id seed
  | _ => exact ⟨hk, rfl⟩

/-! ## what the token leaves alone -/

/-- the files that are about neither holdings nor votes -/
structure Store.SameFiles (s s' : Store) : Prop where
  proposals : s'.proposals = s.proposals
  params : s'.dynamicQuorumParams = s.dynamicQuorumParams
  votes : s'.votes = s.votes
  transferEvents : s'.transferEvents = s.transferEvents

theorem Store.SameFiles.refl (s : Store) : s.SameFiles s := ⟨rfl, rfl, rfl, rfl⟩

theorem Store.SameFiles.trans {s s' s'' : Store} (h1 : s.SameFiles s') (h2 : s'.SameFiles s'') :
    s.SameFiles s'' :=
  ⟨h2.proposals.trans h1.proposals, h2.params.trans h1.params, h2.votes.trans h1.votes,
    h2.transferEvents.trans h1.transferEvents⟩

theorem Store.getOrCreateAccount_files (s : Store) (a : Address) :
    s.SameFiles (s.getOrCreateAccount a).2 := by
  unfold Store.getOrCreateAccount
  cases s.accounts a <;> exact ⟨rfl, rfl, rfl, rfl⟩

theorem Store.getOrCreateDelegate_files (s : Store) (a : Address) :
    s.SameFiles (s.getOrCreateDelegate a).2 := by
  unfold Store.getOrCreateDelegate
  cases s.delegates a with
  | some d => exact .refl s
  | none =>
    dsimp only
    split_ifs <;> exact ⟨rfl, rfl, rfl, rfl⟩

theorem Store.unrepresent_files (s : Store) (delegate : Option Address) (id : Nat) :
    s.SameFiles (s.unrepresent delegate id) := by
  cases delegate with
  | none => exact .refl s
  | some d => exact (s.getOrCreateDelegate_files d).trans ⟨rfl, rfl, rfl, rfl⟩

theorem Store.represent_files (s : Store) (delegate : Address) (id : Nat) :
    s.SameFiles (s.represent delegate id) :=
  (s.getOrCreateDelegate_files delegate).trans ⟨rfl, rfl, rfl, rfl⟩

theorem Store.recount_files (s : Store) (g : Governance) (previous balance : Int) :
    s.SameFiles (s.recount g previous balance).2 := by
  unfold Store.recount
  split_ifs <;> exact ⟨rfl, rfl, rfl, rfl⟩

theorem transferFromHolder_files (s : Store) (g : Governance) (x : Account) (src : Address) (id : Nat) :
    s.SameFiles (transferFromHolder s g x src id).store := by
  unfold transferFromHolder
  by_cases h : src = 0
  · simp only [if_pos h]
    exact ⟨rfl, rfl, rfl, rfl⟩
  · simp only [if_neg h]
    exact ((s.unrepresent_files _ _).trans (Store.recount_files _ _ _ _)).trans ⟨rfl, rfl, rfl, rfl⟩

theorem Store.receive_files (s : Store) (g : Governance) (x : Account) (id : Nat) :
    s.SameFiles (s.receive g x id) :=
  ((s.represent_files _ _).trans (Store.recount_files _ _ _ _)).trans ⟨rfl, rfl, rfl, rfl⟩

theorem transferToHolder_files {V : Type} (x : Transferring) (e : Event V) (y : Account) (dst : Address)
    (id : Nat) : x.store.SameFiles (transferToHolder x e y dst id) := by
  unfold transferToHolder
  refine Store.SameFiles.trans ?_ (Store.receive_files _ _ _ _)
  by_cases h : dst = 0
  · simp only [if_pos h]
    exact ⟨rfl, rfl, rfl, rfl⟩
  · simp only [if_neg h]
    exact ⟨rfl, rfl, rfl, rfl⟩

theorem saveDelegationEvents_files (f : Nat → DelegationEvent) (ns : List Nat) :
    ∀ s : Store, s.SameFiles (ns.foldl (fun s n => s.saveDelegationEvent (f n)) s) := by
  induction ns with
  | nil => exact .refl
  | cons n ns ih =>
    intro s
    have h : s.SameFiles (s.saveDelegationEvent (f n)) := ⟨rfl, rfl, rfl, rfl⟩
    exact h.trans (ih _)

theorem handleDelegateChanged_files {V : Type} (s : Store) (e : Event V) (a b c : Address) :
    s.SameFiles (handleDelegateChanged s e a b c) := by
  have hload := ((s.getOrCreateAccount_files a).trans (Store.getOrCreateDelegate_files _ b)).trans
    (Store.getOrCreateDelegate_files _ c)
  unfold handleDelegateChanged
  refine Store.SameFiles.trans (hload.trans ?_) (saveDelegationEvents_files _ _ _)
  exact ⟨rfl, rfl, rfl, rfl⟩

theorem handleNounCreated_files {V : Type} (s : Store) (e : Event V) (id : Nat) (seed : Seed) :
    s.SameFiles (handleNounCreated s e id seed) := by
  rcases handleNounCreated_cases s e id seed with h | ⟨noun, _, h⟩ <;> rw [h] <;>
    exact ⟨rfl, rfl, rfl, rfl⟩

end UNouns.Subgraph
