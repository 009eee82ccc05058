import UNouns.Subgraph.Books

/-!
# What the token mapping does to the delegates

`Store.roll` is what the store says of delegates: whom each account has for one, and which tokens each
delegate represents.  A delegate is loaded as a copy too, so an account that names its delegate once
more is represented by two copies, of which the second is saved.

* `Roll.transfer`, `Roll.delegate`   what the two events do;
* `handleTokenEvent_roll`            and that is all.
-/

set_option linter.unusedVariables false

namespace UNouns.Subgraph
open Function

/-- whom an account has for its delegate, and the tokens of a delegate -/
structure Roll where
  delegate : Address → Option Address
  nouns : Address → List Nat

/-- a delegate that has not been made yet represents nothing -/
def Store.delegateOf (s : Store) (d : Address) : Delegate := (s.delegates d).getD (.new d)

def Store.roll (s : Store) : Roll where
  delegate := fun a => (s.account a).delegate
  nouns := fun d => (s.delegateOf d).nounsRepresented

/-- delegates are kept under their ids -/
def Store.Sorted (s : Store) : Prop := ∀ d x, s.delegates d = some x → x.id = d

/-! ## loading and saving -/

/-- what leaves the roll alone -/
structure Store.SameRoll (s s' : Store) : Prop where
  delegate : ∀ a, (s'.account a).delegate = (s.account a).delegate
  delegates : s'.delegates = s.delegates

theorem Store.SameRoll.refl (s : Store) : s.SameRoll s := ⟨fun _ => rfl, rfl⟩

theorem Store.SameRoll.trans {s s' s'' : Store} (h1 : s.SameRoll s') (h2 : s'.SameRoll s'') :
    s.SameRoll s'' := ⟨fun a => (h2.delegate a).trans (h1.delegate a), h2.delegates.trans h1.delegates⟩

theorem Store.SameRoll.roll {s s' : Store} (h : s.SameRoll s') : s'.roll = s.roll := by
  unfold Store.roll Store.delegateOf
  rw [h.delegates, funext h.delegate]

theorem Store.SameRoll.sorted {s s' : Store} (h : s.SameRoll s') (hs : s.Sorted) : s'.Sorted :=
  fun d x hx => hs d x (h.delegates ▸ hx)

theorem Store.Sorted.id {s : Store} (hs : s.Sorted) (d : Address) : (s.delegateOf d).id = d := by
  unfold Store.delegateOf
  cases h : s.delegates d with
  | none => rfl
  | some x => exact hs d x h

theorem Store.Sorted.saveDelegate {s : Store} (hs : s.Sorted) (x : Delegate) :
    (s.saveDelegate x).Sorted := by
  intro d y hy
  have hy' : update s.delegates x.id (some x) d = some y := hy
  by_cases e : d = x.id
  · rw [e, update_self] at hy'
    rw [e, Option.some.inj hy']
  · rw [update_of_ne e] at hy'
    exact hs d y hy'

/-- saving a delegate changes its tokens only -/
theorem Store.saveDelegate_roll (s : Store) (x : Delegate) :
    (s.saveDelegate x).roll = { s.roll with nouns := update s.roll.nouns x.id x.nounsRepresented } := by
  have h : (fun d => ((s.saveDelegate x).delegateOf d).nounsRepresented)
      = update s.roll.nouns x.id x.nounsRepresented := by
    funext d
    show ((update s.delegates x.id (some x) d).getD (.new d)).nounsRepresented = _
    by_cases e : d = x.id
    · rw [e, update_self, update_self]
      rfl
    · rw [update_of_ne e, update_of_ne e]
      rfl
  show Roll.mk _ _ = _
  rw [h]
  rfl

/-- saving an account changes its delegate only -/
theorem Store.saveAccount_roll (s : Store) (x : Account) :
    (s.saveAccount x).roll = { s.roll with delegate := update s.roll.delegate x.id x.delegate } := by
  have h : (fun a => ((s.saveAccount x).account a).delegate)
      = update s.roll.delegate x.id x.delegate := by
    rw [Store.saveAccount_account]
    funext a
    by_cases e : a = x.id
    · rw [e, update_self, update_self]
    · rw [update_of_ne e, update_of_ne e]
      rfl
  show Roll.mk _ _ = _
  rw [h]
  rfl

/-- a delegate that is loaded is the one of the roll, and loading it changes nothing there -/
theorem Store.getOrCreateDelegate_roll {s : Store} (hs : s.Sorted) (d : Address) :
    (s.getOrCreateDelegate d).1 = s.delegateOf d ∧ (s.getOrCreateDelegate d).2.Sorted ∧
      (s.getOrCreateDelegate d).2.accounts = s.accounts ∧
      (s.getOrCreateDelegate d).2.delegateOf = s.delegateOf := by
  have hnew : ∀ s' : Store, s'.delegates = s.delegates → s'.accounts = s.accounts →
      s.delegates d = none → (s'.saveDelegate (.new d)).Sorted ∧
        (s'.saveDelegate (.new d)).accounts = s.accounts ∧
        (s'.saveDelegate (.new d)).delegateOf = s.delegateOf := by
    intro s' hd ha hnone
    have hs' : s'.Sorted := fun c x hx => hs c x (hd ▸ hx)
    refine ⟨hs'.saveDelegate _, ha, ?_⟩
    funext c
    show (update s'.delegates d (some (Delegate.new d)) c).getD (.new c) = _
    by_cases e : c = d
    · rw [e, update_self, Store.delegateOf, hnone]
      rfl
    · rw [update_of_ne e, hd]
      rfl
  unfold Store.getOrCreateDelegate
  cases h : s.delegates d with
  | some x => exact ⟨by rw [Store.delegateOf, h]; rfl, hs, rfl, rfl⟩
  | none =>
    refine ⟨by rw [Store.delegateOf, h]; rfl, ?_⟩
    by_cases h0 : d ≠ 0
    · simp only [if_pos h0]
      exact hnew _ rfl rfl h
    · simp only [if_neg h0]
      exact hnew _ rfl rfl h

theorem Store.getOrCreateAccount_roll {s : Store} (hk : s.Keyed) (a : Address) :
    s.SameRoll (s.getOrCreateAccount a).2 := by
  obtain ⟨ha, _⟩ := Store.getOrCreateAccount_snd hk a
  refine ⟨fun b => by rw [ha], ?_⟩
  unfold Store.getOrCreateAccount
  cases s.accounts a <;> rfl

/-! ## transfers -/

/-- the tokens of the delegate, if there is one, without `id` -/
def Roll.without (r : Roll) (delegate : Option Address) (id : Nat) : Roll :=
  match delegate with
  | some d => { r with nouns := update r.nouns d ((r.nouns d).filter (· ≠ id)) }
  | none => r

/-- the tokens of the delegate, and `id` -/
def Roll.plus (r : Roll) (d : Address) (id : Nat) : Roll :=
  { r with nouns := update r.nouns d (r.nouns d ++ [id]) }

/-- the account of the sender, whose balance was `previous` -/
def Roll.lose (r : Roll) (src : Address) (previous : Int) (id : Nat) : Roll :=
  let r' := r.without (r.delegate src) id
  { r' with
    delegate := update r'.delegate src
      (if Emptied previous (previous - 1) then none else r.delegate src) }

/-- the account of the receiver, which had the delegate `delegate` -/
def Roll.gain (r : Roll) (dst : Address) (delegate : Option Address) (previous : Int) (id : Nat) :
    Roll :=
  let r' := r.plus (delegate.getD dst) id
  { r' with
    delegate := update r'.delegate dst
      (if ¬ Emptied previous (previous + 1) ∧ Filled previous (previous + 1) then some dst
        else delegate) }

def Roll.transfer (r : Roll) (raw : Address → Int) (src dst : Address) (id : Nat) : Roll :=
  (if src = 0 then r else r.lose src (raw src) id).gain dst (r.delegate dst) (raw dst) id

theorem Store.unrepresent_roll {s : Store} (hs : s.Sorted) (delegate : Option Address) (id : Nat) :
    (s.unrepresent delegate id).Sorted ∧ (s.unrepresent delegate id).accounts = s.accounts ∧
      (s.unrepresent delegate id).roll = s.roll.without delegate id := by
  cases delegate with
  | none => exact ⟨hs, rfl, rfl⟩
  | some d =>
    obtain ⟨h1, h2, h3, h4⟩ := Store.getOrCreateDelegate_roll hs d
    refine ⟨h2.saveDelegate _, h3, ?_⟩
    show (Store.saveDelegate _ _).roll = _
    rw [Store.saveDelegate_roll, h1]
    unfold Roll.without Store.roll Store.account
    simp only [h3, h4, hs.id d]

theorem Store.represent_roll {s : Store} (hs : s.Sorted) (d : Address) (id : Nat) :
    (s.represent d id).Sorted ∧ (s.represent d id).accounts = s.accounts ∧
      (s.represent d id).roll = s.roll.plus d id := by
  obtain ⟨h1, h2, h3, h4⟩ := Store.getOrCreateDelegate_roll hs d
  refine ⟨h2.saveDelegate _, h3, ?_⟩
  show (Store.saveDelegate _ _).roll = _
  rw [Store.saveDelegate_roll, h1]
  unfold Roll.plus Store.roll Store.account
  simp only [h3, h4, hs.id d]

theorem Store.recount_roll (s : Store) (g : Governance) (previous balance : Int) :
    (s.recount g previous balance).2.accounts = s.accounts ∧
      (s.recount g previous balance).2.delegates = s.delegates := by
  unfold Store.recount
  split_ifs <;> exact ⟨rfl, rfl⟩

theorem Store.sameRoll_of {s s' : Store} (ha : s'.accounts = s.accounts)
    (hd : s'.delegates = s.delegates) : s.SameRoll s' := by
  refine ⟨fun a => ?_, hd⟩
  unfold Store.account
  rw [ha]

theorem transferFromHolder_roll {s : Store} (hk : s.Keyed) (hs : s.Sorted) (g : Governance)
    (src : Address) (id : Nat) :
    (transferFromHolder s g (s.account src) src id).store.Sorted ∧
    (transferFromHolder s g (s.account src) src id).store.roll
      = if src = 0 then s.roll else s.roll.lose src (s.account src).tokenBalanceRaw id := by
  unfold transferFromHolder
  by_cases h0 : src = 0
  · simp only [if_pos h0]
    have hsame : s.SameRoll (s.saveGovernance
      { g with totalTokenHolders := g.totalTokenHolders + 1 }) := Store.sameRoll_of rfl rfl
    exact ⟨hsame.sorted hs, hsame.roll⟩
  · simp only [if_neg h0]
    obtain ⟨h1, h2, h3⟩ := Store.unrepresent_roll hs (s.account src).delegate id
    obtain ⟨ha, hd⟩ := Store.recount_roll (s.unrepresent (s.account src).delegate id) g
      (s.account src).tokenBalanceRaw ((s.account src).tokenBalanceRaw - 1)
    have hsame := Store.sameRoll_of ha hd
    refine ⟨hsame.sorted h1, ?_⟩
    rw [Store.saveAccount_roll, hsame.roll, h3]
    simp only [hk.new_account src]
    rfl

theorem Store.receive_roll {s : Store} (hs : s.Sorted) (g : Governance) (toHolder : Account)
    (id : Nat) : (s.receive g toHolder id).Sorted ∧ (s.receive g toHolder id).roll
      = s.roll.gain toHolder.id toHolder.delegate toHolder.tokenBalanceRaw id := by
  obtain ⟨h1, h2, h3⟩ := Store.represent_roll hs (toHolder.delegate.getD toHolder.id) id
  obtain ⟨ha, hd⟩ := Store.recount_roll (s.represent (toHolder.delegate.getD toHolder.id) id) g
    toHolder.tokenBalanceRaw (toHolder.tokenBalanceRaw + 1)
  have hsame := Store.sameRoll_of ha hd
  unfold Store.receive
  simp only
  generalize (s.represent (toHolder.delegate.getD toHolder.id) id).recount g toHolder.tokenBalanceRaw
    (toHolder.tokenBalanceRaw + 1) = r at hsame ⊢
  generalize (r.2.nouns id).getD ⟨id, none, 0⟩ = noun
  have hnoun : r.2.SameRoll (r.2.saveNoun { noun with owner := toHolder.id }) :=
    Store.sameRoll_of rfl rfl
  refine ⟨hnoun.sorted (hsame.sorted h1), ?_⟩
  rw [Store.saveAccount_roll, hnoun.roll, hsame.roll, h3]
  rfl

theorem transferToHolder_roll {x : Transferring} (hs : x.store.Sorted) {V : Type} (e : Event V)
    (toHolder : Account) (dst : Address) (id : Nat) :
    (transferToHolder x e toHolder dst id).Sorted ∧ (transferToHolder x e toHolder dst id).roll
      = x.store.roll.gain toHolder.id toHolder.delegate toHolder.tokenBalanceRaw id := by
  unfold transferToHolder
  simp only
  generalize hev : DelegationEvent.mk _ _ _ _ _ _ = ev
  generalize { x.governance with
    totalTokenHolders := x.governance.totalTokenHolders - (if dst = 0 then 1 else 0) } = g
  have hsame : x.store.SameRoll
      ((if dst = 0 then x.store.saveGovernance g else x.store).saveDelegationEvent ev) := by
    split_ifs <;> exact Store.sameRoll_of rfl rfl
  obtain ⟨h1, h2⟩ := Store.receive_roll (hsame.sorted hs) g toHolder id
  exact ⟨h1, by rw [h2, hsame.roll]⟩

theorem handleTransfer_roll {s : Store} (hk : s.Keyed) (hs : s.Sorted) {V : Type} (e : Event V)
    (src dst : Address) (id : Nat) : (handleTransfer s e src dst id).Sorted ∧
      (handleTransfer s e src dst id).roll
        = s.roll.transfer (fun a => (s.account a).tokenBalanceRaw) src dst id := by
  obtain ⟨ha1, hk1, _, _⟩ := Store.getOrCreateAccount_snd hk src
  obtain ⟨ha2, hk2, _, _⟩ := Store.getOrCreateAccount_snd hk1 dst
  have hroll1 := Store.getOrCreateAccount_roll hk src
  have hroll := hroll1.trans (Store.getOrCreateAccount_roll hk1 dst)
  have hfrom : (s.getOrCreateAccount src).1 = s.account src := s.getOrCreateAccount_fst src
  have hto : ((s.getOrCreateAccount src).2.getOrCreateAccount dst).1 = s.account dst := by
    rw [Store.getOrCreateAccount_fst, ha1]
  unfold handleTransfer
  simp only [hfrom, hto]
  generalize ((s.getOrCreateAccount src).2.getOrCreateAccount dst).2 = s2 at ha2 hk2 hroll ⊢
  rw [ha1] at ha2
  generalize hs3 : s2.saveTransferEvent _ = s3
  have hk3 : s3.Keyed := by
    subst hs3
    exact ⟨hk2.account, hk2.noun⟩
  have hsame : s2.SameRoll s3 := by
    subst hs3
    exact Store.sameRoll_of rfl rfl
  have hacc : s3.account src = s.account src := by
    subst hs3
    exact congrFun ha2 src
  have hsame' := hroll.trans hsame
  obtain ⟨h1, h2⟩ := transferFromHolder_roll hk3 (hsame'.sorted hs) s2.getGovernanceEntity src id
  rw [hacc] at h1 h2
  obtain ⟨h3, h4⟩ := transferToHolder_roll h1 e (s.account dst) dst id
  refine ⟨h3, ?_⟩
  rw [h4, h2, hsame'.roll, hk.new_account dst]
  rfl

/-! ## delegations -/

/-- the account `a` leaves the delegate `b` for `c` with its tokens; the copy of `c` was loaded before
that of `b` was saved -/
def Roll.redelegate (r : Roll) (tokens : List Nat) (a b c : Address) : Roll where
  delegate := update r.delegate a (some c)
  nouns := update (update r.nouns b ((r.nouns b).filter fun n => !tokens.contains n)) c
    (r.nouns c ++ tokens)

theorem saveDelegationEvents_roll (f : Nat → DelegationEvent) (ns : List Nat) :
    ∀ s : Store, s.SameRoll (ns.foldl (fun s n => s.saveDelegationEvent (f n)) s) := by
  induction ns with
  | nil => exact .refl
  | cons n ns ih =>
    intro s
    have h : s.SameRoll (s.saveDelegationEvent (f n)) := Store.sameRoll_of rfl rfl
    exact h.trans (ih _)

theorem handleDelegateChanged_roll {s : Store} (hk : s.Keyed) (hs : s.Sorted) {V : Type} (e : Event V)
    (a b c : Address) : (handleDelegateChanged s e a b c).Sorted ∧
      (handleDelegateChanged s e a b c).roll = s.roll.redelegate (s.account a).nouns a b c := by
  obtain ⟨ha1, _, _, _⟩ := Store.getOrCreateAccount_snd hk a
  have hroll1 := Store.getOrCreateAccount_roll hk a
  have hacc : (s.getOrCreateAccount a).1 = s.account a := s.getOrCreateAccount_fst a
  unfold handleDelegateChanged
  simp only [hacc]
  generalize (s.getOrCreateAccount a).2 = s1 at ha1 hroll1 ⊢
  obtain ⟨hb, hs2, hacc2, hof2⟩ := Store.getOrCreateDelegate_roll (hroll1.sorted hs) b
  obtain ⟨hc, hs3, hacc3, hof3⟩ := Store.getOrCreateDelegate_roll hs2 c
  rw [hb, hc, hof2]
  generalize ((s1.getOrCreateDelegate b).2.getOrCreateDelegate c).2 = s3 at hs3 hacc3 hof3 ⊢
  rw [hof2] at hof3
  rw [hacc2] at hacc3
  have hroll3 : s3.roll = s.roll := by
    rw [← hroll1.roll]
    unfold Store.roll Store.account
    rw [hacc3, hof3]
  have hb' : (s1.delegateOf b).id = b := (hroll1.sorted hs).id b
  have hc' : (s1.delegateOf c).id = c := (hroll1.sorted hs).id c
  have hof : ∀ d, (s1.delegateOf d).nounsRepresented = s.roll.nouns d := fun d => by
    rw [← hroll1.roll]
    rfl
  refine ⟨((saveDelegationEvents_roll _ _ _).sorted ?_), ?_⟩
  · have hs4 : (s3.saveAccount { s.account a with delegate := some (s1.delegateOf c).id }).Sorted := hs3
    exact (hs4.saveDelegate _).saveDelegate _
  · rw [(saveDelegationEvents_roll _ _ _).roll, Store.saveDelegate_roll, Store.saveDelegate_roll,
      Store.saveAccount_roll, hroll3]
    simp only [hb', hc', hk.new_account a, hof]
    rfl

/-! ## all events -/

theorem handleDelegateVotesChanged_roll {s : Store} (hs : s.Sorted) {V : Type} (e : Event V)
    (d : Address) (n m : Nat) : (handleDelegateVotesChanged s e d n m).Sorted ∧
      (handleDelegateVotesChanged s e d n m).roll = s.roll := by
  obtain ⟨hd, hs2, hacc, hof⟩ := Store.getOrCreateDelegate_roll hs d
  unfold handleDelegateVotesChanged
  simp only [hd]
  generalize (s.getOrCreateDelegate d).2 = s2 at hs2 hacc hof ⊢
  have hsave : ∀ g, (s2.saveDelegate { s.delegateOf d with
      delegatedVotesRaw := m, delegatedVotes := m }).SameRoll (Store.saveGovernance (s2.saveDelegate
        { s.delegateOf d with delegatedVotesRaw := m, delegatedVotes := m }) g) :=
    fun g => Store.sameRoll_of rfl rfl
  refine ⟨(hsave _).sorted (hs2.saveDelegate _), ?_⟩
  rw [(hsave _).roll, Store.saveDelegate_roll]
  have hroll : s2.roll = s.roll := by
    unfold Store.roll Store.account
    rw [hacc, hof]
  rw [hroll]
  show Roll.mk _ (update s.roll.nouns (s.delegateOf d).id (s.roll.nouns d)) = _
  rw [hs.id d, update_eq_self]

theorem handleNounCreated_roll {s : Store} {V : Type} (e : Event V) (id : Nat) (seed : Seed) :
    s.SameRoll (handleNounCreated s e id seed) := by
  rcases handleNounCreated_cases s e id seed with h | ⟨noun, _, h⟩ <;> rw [h] <;>
    exact Store.sameRoll_of rfl rfl

/-- what one event does to the roll -/
def Store.rolled (s : Store) : TokenEvent → Roll
  | .transfer src dst id => s.roll.transfer (fun a => (s.account a).tokenBalanceRaw) src dst id
  | .delegateChanged a b c => s.roll.redelegate (s.account a).nouns a b c
  | _ => s.roll

/-- **Only transfers and delegations change the roll.** -/
theorem handleTokenEvent_roll {s : Store} (hk : s.Keyed) (hs : s.Sorted) {V : Type} (e : Event V)
    (v : TokenEvent) : (handleTokenEvent s e v).Sorted ∧ (handleTokenEvent s e v).roll = s.rolled v := by
  cases v with
  | transfer src dst id => exact handleTransfer_roll hk hs e src dst id
  | delegateChanged a b c => exact handleDelegateChanged_roll hk hs e a b c
  | delegateVotesChanged a n m => exact handleDelegateVotesChanged_roll hs e a n m
  | nounCreated id seed =>
    exact ⟨(handleNounCreated_roll e id seed).sorted hs, (handleNounCreated_roll e id seed).roll⟩
  | _ => exact ⟨hs, rfl⟩

end UNouns.Subgraph
