import UNouns.Subgraph.Rolls
import UNouns.Subgraph.Dao

/-!
# What the mappings do to votes and queue

The governance entity adds up delegated votes, and counts those who have some and the proposals that
are queued.  Every mapping that saves it has loaded it itself, and nothing it calls in between changes
these numbers.

* `Totals`                    the numbers;
* `handleTokenEvent_totals`   the token changes those of votes, by `Totals.vote`;
* `handleDaoEvent_totals`     the DAO changes that of the queue.
-/

set_option linter.unusedVariables false

namespace UNouns.Subgraph
open Function

structure Totals where
  currentDelegates : Int
  delegatedVotesRaw : Int
  delegatedVotes : Int
  proposalsQueued : Int

def Governance.totals (g : Governance) : Totals :=
  ⟨g.currentDelegates, g.delegatedVotesRaw, g.delegatedVotes, g.proposalsQueued⟩

def Store.totals (s : Store) : Totals := s.getGovernanceEntity.totals

/-- the votes of a delegate go from `previous` to `new` -/
def Totals.vote (t : Totals) (previous new : Nat) : Totals := { t with
  currentDelegates := t.currentDelegates + (if previous = 0 ∧ 0 < new then 1 else 0)
    - (if new = 0 then 1 else 0)
  delegatedVotesRaw := t.delegatedVotesRaw + (new - previous)
  delegatedVotes := t.delegatedVotesRaw + (new - previous) }

/-! ## helpers -/

theorem Store.getOrCreateAccount_totals (s : Store) (a : Address) :
    (s.getOrCreateAccount a).2.totals = s.totals := by
  unfold Store.getOrCreateAccount
  cases s.accounts a <;> rfl

theorem Store.getOrCreateDelegate_totals (s : Store) (d : Address) :
    (s.getOrCreateDelegate d).2.totals = s.totals := by
  unfold Store.getOrCreateDelegate
  cases s.delegates d with
  | some x => rfl
  | none =>
    by_cases h : d ≠ 0
    · simp only [if_pos h]
      rfl
    · simp only [if_neg h]
      rfl

theorem Store.getOrCreateProposal_totals (s : Store) (id : Nat) :
    (s.getOrCreateProposal id).2.totals = s.totals := by
  unfold Store.getOrCreateProposal
  cases s.proposals id <;> rfl

theorem Store.getOrCreateDynamicQuorumParams_totals (s : Store) (block : Option Nat) :
    (s.getOrCreateDynamicQuorumParams block).2.totals = s.totals := by
  unfold Store.getOrCreateDynamicQuorumParams
  cases s.dynamicQuorumParams with
  | some q =>
    dsimp only
    split_ifs <;> rfl
  | none =>
    dsimp only
    split_ifs <;> rfl

section
variable {V : Type}

/-! ## the token -/

theorem Store.unrepresent_totals (s : Store) (delegate : Option Address) (id : Nat) :
    (s.unrepresent delegate id).totals = s.totals := by
  cases delegate with
  | none => rfl
  | some d => exact s.getOrCreateDelegate_totals d

theorem Store.represent_totals (s : Store) (delegate : Address) (id : Nat) :
    (s.represent delegate id).totals = s.totals := s.getOrCreateDelegate_totals delegate

/-- the governance entity in hand has the totals of the store, and so has what is saved -/
theorem Store.recount_totals {s : Store} {g : Governance} (hg : g.totals = s.totals)
    (previous balance : Int) :
    (s.recount g previous balance).1.totals = s.totals ∧
      (s.recount g previous balance).2.totals = s.totals := by
  unfold Store.recount
  split_ifs
  · exact ⟨hg, hg⟩
  · exact ⟨hg, hg⟩
  · exact ⟨hg, rfl⟩

theorem transferFromHolder_totals {s : Store} {g : Governance} (hg : g.totals = s.totals)
    (fromHolder : Account) (src : Address) (id : Nat) :
    (transferFromHolder s g fromHolder src id).governance.totals = s.totals ∧
      (transferFromHolder s g fromHolder src id).store.totals = s.totals := by
  unfold transferFromHolder
  by_cases h : src = 0
  · rw [if_pos h]
    exact ⟨hg, hg⟩
  · rw [if_neg h]
    have hu := s.unrepresent_totals fromHolder.delegate id
    obtain ⟨h1, h2⟩ := Store.recount_totals (hg.trans hu.symm) fromHolder.tokenBalanceRaw
      (fromHolder.tokenBalanceRaw - 1)
    exact ⟨h1.trans hu, h2.trans hu⟩

theorem Store.receive_totals {s : Store} {g : Governance} (hg : g.totals = s.totals)
    (toHolder : Account) (id : Nat) : (s.receive g toHolder id).totals = s.totals := by
  have hr := s.represent_totals (toHolder.delegate.getD toHolder.id) id
  exact (Store.recount_totals (hg.trans hr.symm) _ _).2.trans hr

theorem transferToHolder_totals {x : Transferring} (hg : x.governance.totals = x.store.totals)
    (e : Event V) (toHolder : Account) (dst : Address) (id : Nat) :
    (transferToHolder x e toHolder dst id).totals = x.store.totals := by
  unfold transferToHolder
  simp only
  generalize DelegationEvent.mk _ _ _ _ _ _ = ev
  generalize hg' : { x.governance with
    totalTokenHolders := x.governance.totalTokenHolders - (if dst = 0 then 1 else 0) } = g
  have htotals : g.totals = x.store.totals := by
    rw [← hg']
    exact hg
  have hsame : ((if dst = 0 then x.store.saveGovernance g else x.store).saveDelegationEvent ev).totals
      = x.store.totals := by
    by_cases h : dst = 0
    · rw [if_pos h]
      exact htotals
    · rw [if_neg h]
      rfl
  exact (Store.receive_totals (htotals.trans hsame.symm) toHolder id).trans hsame

theorem handleTransfer_totals (s : Store) (e : Event V) (src dst : Address) (id : Nat) :
    (handleTransfer s e src dst id).totals = s.totals := by
  have hsame : ((s.getOrCreateAccount src).2.getOrCreateAccount dst).2.totals = s.totals := by
    rw [Store.getOrCreateAccount_totals, Store.getOrCreateAccount_totals]
  unfold handleTransfer
  simp only
  generalize ((s.getOrCreateAccount src).2.getOrCreateAccount dst).2 = s2 at hsame ⊢
  generalize TransferEvent.mk _ _ _ _ _ _ = ev
  obtain ⟨h1, h2⟩ := transferFromHolder_totals (s := s2.saveTransferEvent ev)
    (g := s2.getGovernanceEntity) rfl (s.getOrCreateAccount src).1 src id
  rw [transferToHolder_totals (h1.trans h2.symm), h2]
  exact hsame

theorem saveDelegationEvents_totals (f : Nat → DelegationEvent) (ns : List Nat) :
    ∀ s : Store, (ns.foldl (fun s n => s.saveDelegationEvent (f n)) s).totals = s.totals := by
  induction ns with
  | nil => exact fun s => rfl
  | cons n ns ih => exact fun s => ih (s.saveDelegationEvent (f n))

theorem handleDelegateChanged_totals (s : Store) (e : Event V) (a b c : Address) :
    (handleDelegateChanged s e a b c).totals = s.totals := by
  unfold handleDelegateChanged
  simp only
  rw [saveDelegationEvents_totals]
  show Store.totals (Store.getOrCreateDelegate _ c).2 = _
  rw [Store.getOrCreateDelegate_totals, Store.getOrCreateDelegate_totals,
    Store.getOrCreateAccount_totals]

theorem handleNounCreated_totals (s : Store) (e : Event V) (id : Nat) (seed : Seed) :
    (handleNounCreated s e id seed).totals = s.totals := by
  rcases handleNounCreated_cases s e id seed with h | ⟨noun, _, h⟩ <;> rw [h] <;> rfl

theorem handleDelegateVotesChanged_totals (s : Store) (e : Event V) (d : Address) (n m : Nat) :
    (handleDelegateVotesChanged s e d n m).totals = s.totals.vote n m := by
  unfold handleDelegateVotesChanged Totals.vote
  simp only
  show Governance.totals (Governance.mk _ _ _ _ _ _ _ _) = _
  unfold Governance.totals Store.totals
  by_cases h1 : n = 0 ∧ 0 < m
  · have h2 : m ≠ 0 := Nat.ne_of_gt h1.2
    simp only [if_pos h1, if_neg h2, sub_zero]
    rfl
  · by_cases h2 : m = 0
    · simp only [if_neg h1, if_pos h2, add_zero]
      rfl
    · simp only [if_neg h1, if_neg h2, add_zero, sub_zero]
      rfl

/-- **The token changes the votes**, with the event that is about them. -/
theorem handleTokenEvent_totals (s : Store) (e : Event V) (v : TokenEvent) :
    (handleTokenEvent s e v).totals = match v with
      | .delegateVotesChanged _ n m => s.totals.vote n m
      | _ => s.totals := by
  cases v with
  | transfer src dst id => exact handleTransfer_totals s e src dst id
  | delegateChanged a b c => exact handleDelegateChanged_totals s e a b c
  | delegateVotesChanged d n m => exact handleDelegateVotesChanged_totals s e d n m
  | nounCreated id seed => exact handleNounCreated_totals s e id seed
  | _ => rfl

/-! ## the DAO -/

/-- by how many the queue is longer after an event -/
def queueChange : DaoEvent → Int
  | .proposalQueued .. => 1
  | .proposalExecuted _ => -1
  | _ => 0

theorem handleVoteCast_totals {s s' : Store} (e : Event V) {voter : Address} {id support votes : Nat}
    {reason : String} (h : handleVoteCast s e voter id support votes reason = some s') :
    s'.totals = s.totals := by
  unfold handleVoteCast at h
  simp only at h
  obtain ⟨p, _, h⟩ := Option.bind_eq_some_iff.mp h
  obtain rfl := Option.some.inj h
  show Store.totals (Store.getOrCreateDynamicQuorumParams _ _).2 = _
  rw [Store.getOrCreateDynamicQuorumParams_totals]
  show Store.totals (Store.getOrCreateDelegate _ voter).2 = _
  rw [Store.getOrCreateDelegate_totals, Store.getOrCreateProposal_totals]

/-- **The DAO changes the queue.** -/
theorem handleDaoEvent_totals {s s' : Store} (e : Event V) {v : DaoEvent}
    (h : handleDaoEvent s e v = some s') : s'.totals = { s.totals with
      proposalsQueued := s.totals.proposalsQueued + queueChange v } := by
  have hsame : ∀ s' : Store, s'.totals = s.totals → s'.totals
      = { s.totals with proposalsQueued := s.totals.proposalsQueued + 0 } := fun s' hs => by
    rw [hs, add_zero]
  cases v with
  | voteCast => exact hsame _ (handleVoteCast_totals e h)
  | proposalCreatedWithRequirements =>
    obtain rfl := Option.some.inj h
    refine hsame _ ?_
    unfold handleProposalCreatedWithRequirements
    show Store.totals (Store.getOrCreateDynamicQuorumParams _ _).2 = _
    rw [Store.getOrCreateDynamicQuorumParams_totals, Store.getOrCreateDelegate_totals,
      Store.getOrCreateProposal_totals]
  | proposalCanceled id | proposalVetoed id =>
    obtain rfl := Option.some.inj h
    exact hsame _ (s.getOrCreateProposal_totals id)
  | proposalQueued | proposalExecuted =>
    obtain rfl := Option.some.inj h
    rfl
  | minQuorumVotesBPSSet | maxQuorumVotesBPSSet | quorumCoefficientSet =>
    obtain rfl := Option.some.inj h
    exact hsame _ (s.getOrCreateDynamicQuorumParams_totals _)
  | _ =>
    obtain rfl := Option.some.inj h
    exact hsame _ rfl

end

end UNouns.Subgraph
