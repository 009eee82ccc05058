import UNouns.Subgraph.Rolls
import UNouns.Subgraph.Dao
import UNouns.Lib.Sums

/-!
# What the mappings do to the number of delegates

A delegate is counted in the governance entity when it is made.  A mapping that has loaded that entity
before, and saves it afterwards, takes the count back.

* `Census`                     the delegates that have an entity, and their number as it is kept;
* `Census.loads`, `.slips`     a delegate that is counted if it is new, and one that is not;
* `handleTransfer_census`      what the mappings of the token do;
* `handleDaoEvent_registers`   and those of the DAO.
-/

set_option linter.unusedVariables false

namespace UNouns.Subgraph
open Function Finset

/-! ## the census -/

structure Census where
  known : Address → Bool
  total : Int

def Store.census (s : Store) : Census :=
  ⟨fun d => (s.delegates d).isSome, s.getGovernanceEntity.totalDelegates⟩

/-- the delegates that are known are one more if this one is new -/
def Census.isNew (c : Census) (d : Address) : Prop := d ≠ 0 ∧ c.known d = false

instance (c : Census) (d : Address) : Decidable (c.isNew d) := inferInstanceAs (Decidable (_ ∧ _))

def Census.loads (c : Census) (d : Address) : Census :=
  ⟨update c.known d true, c.total + if c.isNew d then 1 else 0⟩

/-- it is known now, and has not been counted -/
def Census.slips (c : Census) (d : Address) : Census := ⟨update c.known d true, c.total⟩

/-- the delegates but for the zero address -/
def Census.delegates (c : Census) : Int := #{d : Address | d ≠ 0 ∧ c.known d = true}

/-- how many of them have not been counted -/
def Census.missed (c : Census) : Int := c.delegates - c.total

section
variable (c : Census) {d : Address}

theorem Census.slips_of_known (h : c.known d = true) : c.slips d = c := by
  unfold Census.slips
  rw [← h, update_eq_self]

theorem Census.loads_of_known (h : c.known d = true) : c.loads d = c := by
  have hn : ¬ c.isNew d := fun hn => by
    rw [hn.2] at h
    cases h
  unfold Census.loads
  rw [if_neg hn, add_zero, ← h, update_eq_self]

theorem Census.loads_known : (c.loads d).known d = true := update_self _ _ _

theorem Census.slips_known : (c.slips d).known d = true := update_self _ _ _

theorem Census.loads_other {a : Address} (h : c.known a = true) : (c.loads d).known a = true := by
  show update c.known d true a = true
  by_cases e : a = d
  · rw [e, update_self]
  · rw [update_of_ne e, h]

theorem Census.delegates_update :
    (⟨update c.known d true, c.total⟩ : Census).delegates
      = c.delegates + if c.isNew d then 1 else 0 := by
  have h := Sums.sum_change_one (f := fun a => if a ≠ 0 ∧ c.known a = true then 1 else 0)
    (g := fun a => if a ≠ 0 ∧ update c.known d true a = true then 1 else 0) (mem_univ d)
    (fun a ha => by rw [update_of_ne ha])
  rw [← card_filter, ← card_filter, update_self] at h
  have hd : (⟨update c.known d true, c.total⟩ : Census).delegates
      = (#{a : Address | a ≠ 0 ∧ update c.known d true a = true} : Nat) := rfl
  have hc : c.delegates = (#{a : Address | a ≠ 0 ∧ c.known a = true} : Nat) := rfl
  rw [hd, hc]
  by_cases hn : c.isNew d
  · have hk : ¬ (d ≠ 0 ∧ c.known d = true) := fun hk => by
      rw [hn.2] at hk
      cases hk.2
    rw [if_neg hk, if_pos ⟨hn.1, rfl⟩] at h
    rw [if_pos hn]
    omega
  · have hk : d ≠ 0 → c.known d = true := fun h0 => by simpa using fun hf => hn ⟨h0, hf⟩
    have hsame : (d ≠ 0 ∧ true = true) ↔ (d ≠ 0 ∧ c.known d = true) :=
      ⟨fun h => ⟨h.1, hk h.1⟩, fun h => ⟨h.1, rfl⟩⟩
    rw [if_congr hsame rfl rfl] at h
    rw [if_neg hn]
    omega

theorem Census.missed_loads (d : Address) : (c.loads d).missed = c.missed := by
  have h := c.delegates_update (d := d)
  have hd : (c.loads d).delegates = (⟨update c.known d true, c.total⟩ : Census).delegates := rfl
  have ht : (c.loads d).total = c.total + if c.isNew d then 1 else 0 := rfl
  unfold Census.missed
  omega

theorem Census.missed_slips (d : Address) :
    (c.slips d).missed = c.missed + if c.isNew d then 1 else 0 := by
  have h := c.delegates_update (d := d)
  have hd : (c.slips d).delegates = (⟨update c.known d true, c.total⟩ : Census).delegates := rfl
  have ht : (c.slips d).total = c.total := rfl
  unfold Census.missed
  omega

end

/-! ## loading and saving -/

theorem Store.saveDelegate_census (s : Store) (x : Delegate) :
    (s.saveDelegate x).census = s.census.slips x.id := by
  have h : (fun d => ((s.saveDelegate x).delegates d).isSome)
      = update (fun d => (s.delegates d).isSome) x.id true := by
    funext d
    show (update s.delegates x.id (some x) d).isSome = _
    by_cases e : d = x.id
    · rw [e, update_self, update_self]
      rfl
    · rw [update_of_ne e, update_of_ne e]
  unfold Store.census
  rw [h]
  rfl

theorem Store.saveGovernance_census (s : Store) (g : Governance) :
    (s.saveGovernance g).census = ⟨s.census.known, g.totalDelegates⟩ := rfl

/-- a governance entity with the same count -/
theorem Store.saveGovernance_same {s : Store} {g : Governance} (h : g.totalDelegates = s.census.total) :
    (s.saveGovernance g).census = s.census := by
  rw [Store.saveGovernance_census, h]

theorem Store.getOrCreateDelegate_census (s : Store) (d : Address) :
    (s.getOrCreateDelegate d).2.census = s.census.loads d := by
  have hk : s.census.known d = (s.delegates d).isSome := rfl
  unfold Store.getOrCreateDelegate
  cases h : s.delegates d with
  | some x =>
    rw [h] at hk
    exact (s.census.loads_of_known hk).symm
  | none =>
    rw [h] at hk
    by_cases h0 : d ≠ 0
    · have hnew : s.census.isNew d := ⟨h0, hk⟩
      simp only [if_pos h0]
      rw [Store.saveDelegate_census, Store.saveGovernance_census, Census.loads, if_pos hnew]
      rfl
    · have hnot : ¬ s.census.isNew d := fun hn => h0 hn.1
      simp only [if_neg h0]
      rw [Store.saveDelegate_census, Census.loads, if_neg hnot, add_zero]
      rfl

theorem Store.getOrCreateAccount_census (s : Store) (a : Address) :
    (s.getOrCreateAccount a).2.census = s.census := by
  unfold Store.getOrCreateAccount
  cases s.accounts a <;> rfl

/-- a delegate that is loaded and saved -/
theorem Store.resave_census (s : Store) {d : Address} {x : Delegate} (hx : x.id = d) :
    ((s.getOrCreateDelegate d).2.saveDelegate x).census = s.census.loads d := by
  rw [Store.saveDelegate_census, Store.getOrCreateDelegate_census, hx,
    Census.slips_of_known _ (Census.loads_known _)]

theorem Store.getOrCreateDelegate_id {s : Store} (hs : s.Sorted) (d : Address) :
    (s.getOrCreateDelegate d).1.id = d := by
  rw [(Store.getOrCreateDelegate_roll hs d).1, hs.id]

theorem saveDelegationEvents_census (f : Nat → DelegationEvent) (ns : List Nat) :
    ∀ s : Store, (ns.foldl (fun s n => s.saveDelegationEvent (f n)) s).census = s.census := by
  induction ns with
  | nil => exact fun s => rfl
  | cons n ns ih => exact fun s => ih (s.saveDelegationEvent (f n))

/-! ## the events of the token -/

section
variable {V : Type} {s : Store}

/-- the governance entity is loaded before the delegate, and saved after it -/
theorem handleDelegateVotesChanged_census (hs : s.Sorted) (e : Event V) (d : Address) (n m : Nat) :
    (handleDelegateVotesChanged s e d n m).census = s.census.slips d := by
  have hid := Store.getOrCreateDelegate_id hs d
  unfold handleDelegateVotesChanged
  simp only
  generalize hg : Governance.mk _ _ _ _ _ _ _ _ = g
  have htotal : g.totalDelegates = s.census.total := by
    rw [← hg]
    dsimp only
    split_ifs <;> rfl
  rw [Store.saveGovernance_census, Store.resave_census s (by exact hid), htotal]
  rfl

theorem handleDelegateChanged_census (hs : s.Sorted) (e : Event V) (a b c : Address) :
    (handleDelegateChanged s e a b c).census = (s.census.loads b).loads c := by
  have hsame := s.getOrCreateAccount_census a
  have hs1 : (s.getOrCreateAccount a).2.Sorted := by
    unfold Store.getOrCreateAccount
    cases s.accounts a <;> exact hs
  unfold handleDelegateChanged
  simp only
  generalize (s.getOrCreateAccount a).2 = s1 at hsame hs1 ⊢
  have hb := Store.getOrCreateDelegate_id hs1 b
  have hb2 := s1.getOrCreateDelegate_census b
  have hs2 := (Store.getOrCreateDelegate_roll hs1 b).2.1
  generalize s1.getOrCreateDelegate b = r at hb hb2 hs2 ⊢
  have hc := Store.getOrCreateDelegate_id hs2 c
  have hc2 := r.2.getOrCreateDelegate_census c
  generalize r.2.getOrCreateDelegate c = q at hc hc2 ⊢
  rw [hb2, hsame] at hc2
  have hknown : ((s.census.loads b).loads c).known b = true :=
    Census.loads_other _ (Census.loads_known _)
  rw [saveDelegationEvents_census, Store.saveDelegate_census, Store.saveDelegate_census]
  show (Census.slips (Store.census q.2) r.1.id).slips q.1.id = _
  rw [hc2, hb, hc, Census.slips_of_known _ hknown, Census.slips_of_known _ (Census.loads_known _)]

theorem handleNounCreated_census (e : Event V) (id : Nat) (seed : Seed) :
    (handleNounCreated s e id seed).census = s.census := by
  rcases handleNounCreated_cases s e id seed with h | ⟨noun, _, h⟩ <;> rw [h] <;> rfl

/-! ### transfers -/

theorem Store.unrepresent_census (hs : s.Sorted) {delegate : Option Address}
    (h : ∀ d, delegate = some d → s.census.known d = true) (id : Nat) :
    (s.unrepresent delegate id).census = s.census := by
  cases delegate with
  | none => rfl
  | some d =>
    refine (s.resave_census ?_).trans (Census.loads_of_known _ (h d rfl))
    exact Store.getOrCreateDelegate_id hs d

/-- the governance entity is saved with its own count, if it is saved -/
theorem Store.recount_census (s : Store) (g : Governance) (previous balance : Int) :
    (s.recount g previous balance).1.totalDelegates = g.totalDelegates ∧
    (s.recount g previous balance).2.census = ⟨s.census.known,
      if Emptied previous balance ∨ Filled previous balance then g.totalDelegates
      else s.census.total⟩ := by
  unfold Store.recount
  by_cases h1 : Emptied previous balance
  · rw [if_pos h1, if_pos (.inl h1)]
    exact ⟨rfl, rfl⟩
  · by_cases h2 : Filled previous balance
    · rw [if_neg h1, if_pos h2, if_pos (.inr h2)]
      exact ⟨rfl, rfl⟩
    · rw [if_neg h1, if_neg h2, if_neg (not_or.mpr ⟨h1, h2⟩)]
      exact ⟨rfl, rfl⟩

theorem transferFromHolder_census (hs : s.Sorted) {g : Governance}
    (hg : g.totalDelegates = s.census.total) {fromHolder : Account}
    (h : ∀ d, fromHolder.delegate = some d → s.census.known d = true) (src : Address) (id : Nat) :
    (transferFromHolder s g fromHolder src id).store.census = s.census ∧
    (transferFromHolder s g fromHolder src id).governance.totalDelegates = s.census.total := by
  unfold transferFromHolder
  by_cases h0 : src = 0
  · rw [if_pos h0]
    exact ⟨Store.saveGovernance_same hg, hg⟩
  · rw [if_neg h0]
    have hu := Store.unrepresent_census hs h id
    obtain ⟨h1, h2⟩ := (s.unrepresent fromHolder.delegate id).recount_census g
      fromHolder.tokenBalanceRaw (fromHolder.tokenBalanceRaw - 1)
    refine ⟨h2.trans ?_, h1.trans hg⟩
    rw [hu, hg, ite_self]

/-- the delegate of the receiver is loaded after the governance entity, which is saved with the first
token -/
theorem Store.receive_census (hs : s.Sorted) {g : Governance} (hg : g.totalDelegates = s.census.total)
    {toHolder : Account} (h : s.census.known (toHolder.delegate.getD toHolder.id) = false →
      toHolder.tokenBalanceRaw = 0) (id : Nat) :
    (s.receive g toHolder id).census = s.census.slips (toHolder.delegate.getD toHolder.id) := by
  have hr : (s.represent (toHolder.delegate.getD toHolder.id) id).census
      = s.census.loads (toHolder.delegate.getD toHolder.id) :=
    s.resave_census (Store.getOrCreateDelegate_id hs _)
  have h2 := ((s.represent (toHolder.delegate.getD toHolder.id) id).recount_census g
    toHolder.tokenBalanceRaw (toHolder.tokenBalanceRaw + 1)).2
  rw [hr, hg] at h2
  show (Store.recount _ g _ _).2.census = _
  rw [h2]
  cases hk : s.census.known (toHolder.delegate.getD toHolder.id) with
  | true =>
    rw [Census.loads_of_known _ hk, Census.slips_of_known _ hk, ite_self]
  | false =>
    have hfilled : Filled toHolder.tokenBalanceRaw (toHolder.tokenBalanceRaw + 1) := by
      rw [h hk]
      decide
    rw [if_pos (.inr hfilled)]
    rfl

theorem transferToHolder_census {x : Transferring} (hs : x.store.Sorted)
    (hg : x.governance.totalDelegates = x.store.census.total) (e : Event V) (toHolder : Account)
    (h : x.store.census.known (toHolder.delegate.getD toHolder.id) = false →
      toHolder.tokenBalanceRaw = 0) (dst : Address) (id : Nat) :
    (transferToHolder x e toHolder dst id).census
      = x.store.census.slips (toHolder.delegate.getD toHolder.id) := by
  unfold transferToHolder
  simp only
  generalize hev : DelegationEvent.mk _ _ _ _ _ _ = ev
  generalize hg' : { x.governance with
    totalTokenHolders := x.governance.totalTokenHolders - (if dst = 0 then 1 else 0) } = g
  have htotal : g.totalDelegates = x.store.census.total := by
    rw [← hg']
    exact hg
  have hsame : ((if dst = 0 then x.store.saveGovernance g else x.store).saveDelegationEvent ev).census
      = x.store.census := by
    by_cases h0 : dst = 0
    · rw [if_pos h0]
      exact Store.saveGovernance_same htotal
    · rw [if_neg h0]
      rfl
  have hsorted : ((if dst = 0 then x.store.saveGovernance g else x.store).saveDelegationEvent
      ev).Sorted := by
    by_cases h0 : dst = 0
    · rw [if_pos h0]
      exact hs
    · rw [if_neg h0]
      exact hs
  have hr := Store.receive_census hsorted (htotal.trans (congrArg Census.total hsame.symm))
    (by rw [hsame]; exact h) id
  rw [hr, hsame]

theorem handleTransfer_census (hk : s.Keyed) (hs : s.Sorted) (e : Event V) (src dst : Address)
    (hsrc : ∀ d, (s.account src).delegate = some d → s.census.known d = true)
    (hdst : s.census.known ((s.account dst).delegate.getD dst) = false →
      (s.account dst).tokenBalanceRaw = 0) (id : Nat) :
    (handleTransfer s e src dst id).census
      = s.census.slips ((s.account dst).delegate.getD dst) := by
  obtain ⟨ha1, hk1, _, _⟩ := Store.getOrCreateAccount_snd hk src
  obtain ⟨ha2, hk2, _, _⟩ := Store.getOrCreateAccount_snd hk1 dst
  have hsorted := ((Store.getOrCreateAccount_roll hk src).trans
    (Store.getOrCreateAccount_roll hk1 dst)).sorted hs
  have hfrom : (s.getOrCreateAccount src).1 = s.account src := s.getOrCreateAccount_fst src
  have hto : ((s.getOrCreateAccount src).2.getOrCreateAccount dst).1 = s.account dst := by
    rw [Store.getOrCreateAccount_fst, ha1]
  have hsame : ((s.getOrCreateAccount src).2.getOrCreateAccount dst).2.census = s.census := by
    rw [Store.getOrCreateAccount_census, Store.getOrCreateAccount_census]
  unfold handleTransfer
  simp only [hfrom, hto]
  generalize ((s.getOrCreateAccount src).2.getOrCreateAccount dst).2 = s2 at ha2 hk2 hsorted hsame ⊢
  rw [ha1] at ha2
  generalize hev : TransferEvent.mk _ _ _ _ _ _ = ev
  have hsame3 : (s2.saveTransferEvent ev).census = s.census := hsame
  have hacc : (s2.saveTransferEvent ev).account src = s.account src := congrFun ha2 src
  have hk3 : (s2.saveTransferEvent ev).Keyed := ⟨hk2.account, hk2.noun⟩
  have hsorted3 : (s2.saveTransferEvent ev).Sorted := hsorted
  have hg : s2.getGovernanceEntity.totalDelegates = (s2.saveTransferEvent ev).census.total := rfl
  generalize s2.saveTransferEvent ev = s3 at hsame3 hacc hk3 hsorted3 hg ⊢
  have hsorted4 := (transferFromHolder_roll hk3 hsorted3 s2.getGovernanceEntity src id).1
  rw [hacc] at hsorted4
  rw [← hsame3] at hsrc hdst ⊢
  obtain ⟨h1, h2⟩ := transferFromHolder_census hsorted3 hg hsrc src id
  generalize transferFromHolder s3 s2.getGovernanceEntity (s.account src) src id = x at h1 h2 hsorted4 ⊢
  rw [← h1] at h2 hdst ⊢
  have hid := hk.new_account dst
  have hr := transferToHolder_census hsorted4 h2 e (s.account dst) (by rw [hid]; exact hdst) dst id
  rw [hr, hid]

/-! ## the events of the DAO -/

/-- who proposes or votes -/
def senderOf : DaoEvent → Option Address
  | .proposalCreatedWithRequirements _ proposer _ _ _ _ _ _ _ _ _ => some proposer
  | .voteCast voter _ _ _ _ => some voter
  | _ => none

/-- what the mappings of the DAO leave alone -/
structure Store.SameRegister (s s' : Store) : Prop where
  accounts : s'.accounts = s.accounts
  nouns : s'.nouns = s.nouns
  delegates : s'.delegates = s.delegates
  total : s'.getGovernanceEntity.totalDelegates = s.getGovernanceEntity.totalDelegates

theorem Store.SameRegister.refl (s : Store) : s.SameRegister s := ⟨rfl, rfl, rfl, rfl⟩

theorem Store.SameRegister.census {s s' : Store} (h : s.SameRegister s') : s'.census = s.census := by
  unfold Store.census
  rw [h.delegates, h.total]

theorem Store.SameRegister.delegateOf {s s' : Store} (h : s.SameRegister s') :
    s'.delegateOf = s.delegateOf := by
  unfold Store.delegateOf
  rw [h.delegates]

theorem Store.SameRegister.trans {s s' s'' : Store} (h1 : s.SameRegister s') (h2 : s'.SameRegister s'') :
    s.SameRegister s'' :=
  ⟨h2.accounts.trans h1.accounts, h2.nouns.trans h1.nouns, h2.delegates.trans h1.delegates,
    h2.total.trans h1.total⟩

theorem Store.getOrCreateProposal_register (s : Store) (id : Nat) :
    s.SameRegister (s.getOrCreateProposal id).2 := by
  unfold Store.getOrCreateProposal
  cases s.proposals id with
  | some p => exact .refl s
  | none => exact ⟨rfl, rfl, rfl, rfl⟩

theorem Store.getOrCreateDynamicQuorumParams_register (s : Store) (block : Option Nat) :
    s.SameRegister (s.getOrCreateDynamicQuorumParams block).2 := by
  unfold Store.getOrCreateDynamicQuorumParams
  cases s.dynamicQuorumParams with
  | some q =>
    dsimp only
    split_ifs <;> exact ⟨rfl, rfl, rfl, rfl⟩
  | none =>
    dsimp only
    split_ifs <;> exact ⟨rfl, rfl, rfl, rfl⟩

/-- what an event of the DAO does to the register: its sender is counted if it is new -/
structure Store.Registers (s s' : Store) (sender : Option Address) : Prop where
  accounts : s'.accounts = s.accounts
  nouns : s'.nouns = s.nouns
  sorted : s.Sorted → s'.Sorted
  delegateOf : s.Sorted → s'.delegateOf = s.delegateOf
  census : s'.census = match sender with
    | some d => s.census.loads d
    | none => s.census

theorem Store.SameRegister.registers {s s' : Store} (h : s.SameRegister s') : s.Registers s' none :=
  ⟨h.accounts, h.nouns, fun hs d x hx => hs d x (h.delegates ▸ hx), fun _ => h.delegateOf, h.census⟩

/-- the sender is loaded between steps that leave the register alone -/
theorem Store.registers_sender {s s1 s' : Store} {d : Address} (h1 : s.SameRegister s1)
    (h2 : (s1.getOrCreateDelegate d).2.SameRegister s') : s.Registers s' (some d) := by
  have hb := s1.getOrCreateDelegate_same d
  have hs1 : s.Sorted → s1.Sorted := fun hs e x hx => hs e x (h1.delegates ▸ hx)
  refine ⟨h2.accounts.trans (hb.accounts.trans h1.accounts),
    h2.nouns.trans (hb.nouns.trans h1.nouns), fun hs e x hx => ?_, fun hs => ?_, ?_⟩
  · exact (Store.getOrCreateDelegate_roll (hs1 hs) d).2.1 e x (h2.delegates ▸ hx)
  · rw [h2.delegateOf, (Store.getOrCreateDelegate_roll (hs1 hs) d).2.2.2, h1.delegateOf]
  · show s'.census = s.census.loads d
    rw [h2.census, Store.getOrCreateDelegate_census, h1.census]

theorem handleVoteCast_registers {s' : Store} (e : Event V) {voter : Address} {id support votes : Nat}
    {reason : String} (h : handleVoteCast s e voter id support votes reason = some s') :
    s.Registers s' (some voter) := by
  unfold handleVoteCast at h
  simp only at h
  obtain ⟨p, _, h⟩ := Option.bind_eq_some_iff.mp h
  obtain rfl := Option.some.inj h
  refine Store.registers_sender (s.getOrCreateProposal_register id) ?_
  generalize (((s.getOrCreateProposal id).2).getOrCreateDelegate voter).2 = s2
  generalize Vote.mk _ _ _ _ _ _ _ _ _ _ = vote
  have h1 : s2.SameRegister (s2.saveVote vote) := ⟨rfl, rfl, rfl, rfl⟩
  have h2 := h1.trans ((s2.saveVote vote).getOrCreateDynamicQuorumParams_register none)
  exact h2.trans ⟨rfl, rfl, rfl, rfl⟩

theorem handleProposalCreatedWithRequirements_registers (e : Event V) (id : Nat) (proposer : Address)
    (targets : List Address) (values : List Nat) (signatures : List String) (calldatas : List Bytes)
    (startBlock endBlock proposalThreshold quorumVotes : Nat) :
    s.Registers (handleProposalCreatedWithRequirements s e id proposer targets values signatures
      calldatas startBlock endBlock proposalThreshold quorumVotes) (some proposer) := by
  refine Store.registers_sender (s.getOrCreateProposal_register id) ?_
  have h1 := (((s.getOrCreateProposal id).2).getOrCreateDelegate
    proposer).2.getOrCreateDynamicQuorumParams_register none
  exact h1.trans ⟨rfl, rfl, rfl, rfl⟩

/-- an event that saves a proposal, and perhaps the governance entity that was loaded before -/
theorem Store.save_register (s : Store) (id : Nat) (p : ProposalEntity) :
    s.SameRegister ((s.getOrCreateProposal id).2.saveProposal p) :=
  (s.getOrCreateProposal_register id).trans ⟨rfl, rfl, rfl, rfl⟩

theorem handleDaoEvent_registers {s' : Store} (e : Event V) {v : DaoEvent}
    (h : handleDaoEvent s e v = some s') : s.Registers s' (senderOf v) := by
  have hparams : ∀ (q : DynamicQuorumParams), s.SameRegister ((s.getOrCreateDynamicQuorumParams
      (some e.block.number)).2.saveDynamicQuorumParams q) := fun q =>
    (s.getOrCreateDynamicQuorumParams_register _).trans ⟨rfl, rfl, rfl, rfl⟩
  have hqueue : ∀ (id : Nat) (p : ProposalEntity) (n : Int), s.SameRegister
      (((s.getOrCreateProposal id).2.saveProposal p).saveGovernance
        { s.getGovernanceEntity with proposalsQueued := n }) := fun id p n =>
    have hs := s.save_register id p
    ⟨hs.accounts, hs.nouns, hs.delegates, rfl⟩
  cases v with
  | voteCast voter id support votes reason => exact handleVoteCast_registers e h
  | proposalCreatedWithRequirements id proposer =>
    obtain rfl := Option.some.inj h
    exact handleProposalCreatedWithRequirements_registers e _ _ _ _ _ _ _ _ _ _
  | proposalCanceled id | proposalVetoed id =>
    obtain rfl := Option.some.inj h
    exact (s.save_register id _).registers
  | proposalQueued id | proposalExecuted id =>
    obtain rfl := Option.some.inj h
    exact (hqueue id _ _).registers
  | minQuorumVotesBPSSet | maxQuorumVotesBPSSet | quorumCoefficientSet =>
    obtain rfl := Option.some.inj h
    exact (hparams _).registers
  | _ =>
    obtain rfl := Option.some.inj h
    exact (Store.SameRegister.refl s).registers

end

end UNouns.Subgraph
