import UNouns.Governance.System

/-!
# What the functions of the DAO do

One lemma for each function says what a successful call found and what it left.

* `state_*`                       what the phases of a proposal stand for;
* `propose_ok`, `castVoteInternal_ok`, `queue_ok`, `beginExecute_ok`, `cancel_ok`, `veto_ok`;
* `forActions_queue`, `forActions_cancel`   the bits of the timelock after a loop over the actions.
-/

set_option linter.unusedVariables false

namespace UNouns
open Function Checkpoints

/-! ## the actions of a proposal -/

/-- the actions, with the time they may be executed from -/
def Proposal.transactions (p : Proposal) (eta : Nat) : List Transaction :=
  p.indices.filterMap (fun i => (p.action eta i).toOption)

theorem Proposal.action_lt {p : Proposal} {eta i : Nat} {tx : Transaction}
    (h : p.action eta i = .ok tx) : i < p.targets.length := by
  unfold Proposal.action at h
  split at h
  · rename_i h1 _ _ _
    exact (List.getElem?_eq_some_iff.mp h1).1
  · cases h

theorem Proposal.action_eta {p : Proposal} {eta i : Nat} {tx : Transaction}
    (h : p.action eta i = .ok tx) : tx.eta = eta := by
  unfold Proposal.action at h
  split at h
  · cases h
    rfl
  · cases h

theorem Proposal.mem_transactions {p : Proposal} {eta : Nat} {tx : Transaction} :
    tx ∈ p.transactions eta ↔ ∃ i, p.action eta i = .ok tx := by
  unfold Proposal.transactions
  rw [List.mem_filterMap]
  constructor
  · rintro ⟨i, _, h⟩
    refine ⟨i, ?_⟩
    cases ha : p.action eta i with
    | error e => rw [ha] at h; cases h
    | ok tx' => rw [ha] at h; cases h; rfl
  · rintro ⟨i, h⟩
    exact ⟨i, List.mem_range.mpr (p.action_lt h), by rw [h]; rfl⟩

theorem Proposal.eta_of_mem {p : Proposal} {eta : Nat} {tx : Transaction}
    (h : tx ∈ p.transactions eta) : tx.eta = eta := by
  obtain ⟨i, hi⟩ := p.mem_transactions.mp h
  exact p.action_eta hi

namespace NounsDAOLogicV2
section
variable {P : Platform}

theorem foldlM_transactions {f : NounsDAOExecutor P → Transaction → Result (NounsDAOExecutor P)}
    {p : Proposal} {eta : Nat} (is : List Nat) :
    ∀ {tl tl' : NounsDAOExecutor P},
      is.foldlM (fun tl i => do let tx ← p.action eta i; f tl tx) tl = .ok tl' →
      (is.filterMap (fun i => (p.action eta i).toOption)).foldlM f tl = .ok tl' ∧
        ∀ i ∈ is, ∃ tx, p.action eta i = .ok tx := by
  induction is with
  | nil =>
    intro tl tl' h
    exact ⟨h, fun i hi => absurd hi List.not_mem_nil⟩
  | cons i is ih =>
    intro tl tl' h
    simp only [List.foldlM_cons, bind_eq_ok] at h
    obtain ⟨tl1, ⟨tx, htx, h1⟩, h2⟩ := h
    obtain ⟨h3, h4⟩ := ih h2
    refine ⟨?_, fun j hj => ?_⟩
    · rw [List.filterMap_cons, htx]
      simp only [Except.toOption, List.foldlM_cons, bind_eq_ok]
      exact ⟨tl1, h1, h3⟩
    · rcases List.mem_cons.mp hj with rfl | hj
      · exact ⟨tx, htx⟩
      · exact h4 j hj

/-- the loop over the actions is a loop over the transactions, and each action is there -/
theorem forActions_ok {f : NounsDAOExecutor P → Transaction → Result (NounsDAOExecutor P)}
    {p : Proposal} {eta : Nat} {tl tl' : NounsDAOExecutor P} (h : forActions f p eta tl = .ok tl') :
    (p.transactions eta).foldlM f tl = .ok tl' ∧
      ∀ i < p.targets.length, ∃ tx, p.action eta i = .ok tx := by
  obtain ⟨h1, h2⟩ := foldlM_transactions p.indices h
  exact ⟨h1, fun i hi => h2 i (List.mem_range.mpr hi)⟩

/-- the executor but for its bits and its log -/
structure SameExecutor (tl tl' : NounsDAOExecutor P) : Prop where
  admin : tl'.admin = tl.admin
  pendingAdmin : tl'.pendingAdmin = tl.pendingAdmin
  delay : tl'.delay = tl.delay

theorem SameExecutor.refl (tl : NounsDAOExecutor P) : SameExecutor tl tl := ⟨rfl, rfl, rfl⟩

theorem foldlM_queue {env : Env} (txs : List Transaction) :
    ∀ {tl tl' : NounsDAOExecutor P}, txs.foldlM (queueOrRevertInternal env) tl = .ok tl' →
      SameExecutor tl tl' ∧ (txs.map P.keccak256).Nodup ∧
      (∀ tx ∈ txs, tl.queuedTransactions (P.keccak256 tx) = false ∧ tl.admin = P.dao) ∧
      ∀ h, tl'.queuedTransactions h = true ↔
        h ∈ txs.map P.keccak256 ∨ tl.queuedTransactions h = true := by
  induction txs with
  | nil =>
    intro tl tl' h
    obtain rfl := pure_eq_ok.mp h
    exact ⟨.refl tl, by simp, by simp, by simp⟩
  | cons tx txs ih =>
    intro tl tl' h
    simp only [List.foldlM_cons, bind_eq_ok] at h
    obtain ⟨tl1, h1, h2⟩ := h
    simp only [queueOrRevertInternal, NounsDAOExecutor.queueTransaction, bind_eq_ok, require_eq_ok,
      pure_eq_ok] at h1
    obtain ⟨_, hfree, _, hadmin, _, _, rfl⟩ := h1
    obtain ⟨hs, hnd, hall, hset⟩ := ih h2
    have hne : P.keccak256 tx ∉ txs.map P.keccak256 := by
      intro hm
      obtain ⟨tx', htx', e⟩ := List.mem_map.mp hm
      have := (hall tx' htx').1
      rw [e] at this
      simp [NounsDAOExecutor.emit] at this
    refine ⟨⟨hs.admin, hs.pendingAdmin, hs.delay⟩, List.nodup_cons.mpr ⟨hne, hnd⟩,
      fun tx' htx' => ?_, fun h => ?_⟩
    · rcases List.mem_cons.mp htx' with rfl | htx'
      · exact ⟨hfree, hadmin.symm⟩
      · obtain ⟨h3, h4⟩ := hall tx' htx'
        refine ⟨?_, h4⟩
        have hne' : P.keccak256 tx' ≠ P.keccak256 tx :=
          fun e => hne (e ▸ List.mem_map_of_mem htx')
        rwa [show (({ tl with queuedTransactions := update tl.queuedTransactions (P.keccak256 tx) true
          } : NounsDAOExecutor P).emit (.queueTransaction (P.keccak256 tx) tx)).queuedTransactions
            (P.keccak256 tx') = tl.queuedTransactions (P.keccak256 tx') from
          update_of_ne hne' _ _] at h3
    · rw [hset h, List.map_cons, List.mem_cons, or_assoc]
      show _ ∨ update tl.queuedTransactions (P.keccak256 tx) true h = true ↔ _
      by_cases e : h = P.keccak256 tx
      · simp [e]
      · simp [e]

/-- queueing every action sets exactly their bits, none of which was set -/
theorem forActions_queue {env : Env} {p : Proposal} {eta : Nat} {tl tl' : NounsDAOExecutor P}
    (h : forActions (queueOrRevertInternal env) p eta tl = .ok tl') :
    SameExecutor tl tl' ∧ ((p.transactions eta).map P.keccak256).Nodup ∧
      (∀ tx ∈ p.transactions eta, tl.queuedTransactions (P.keccak256 tx) = false) ∧
      ∀ h, tl'.queuedTransactions h = true ↔
        h ∈ (p.transactions eta).map P.keccak256 ∨ tl.queuedTransactions h = true := by
  obtain ⟨hs, hnd, hall, hset⟩ := foldlM_queue _ (forActions_ok h).1
  exact ⟨hs, hnd, fun tx htx => (hall tx htx).1, hset⟩

theorem foldlM_cancel (txs : List Transaction) :
    ∀ {tl tl' : NounsDAOExecutor P},
      txs.foldlM (fun tl tx => tl.cancelTransaction P.dao tx) tl = .ok tl' →
      SameExecutor tl tl' ∧ ∀ h, tl'.queuedTransactions h = true ↔
        h ∉ txs.map P.keccak256 ∧ tl.queuedTransactions h = true := by
  induction txs with
  | nil =>
    intro tl tl' h
    obtain rfl := pure_eq_ok.mp h
    exact ⟨.refl tl, by simp⟩
  | cons tx txs ih =>
    intro tl tl' h
    simp only [List.foldlM_cons, bind_eq_ok] at h
    obtain ⟨tl1, h1, h2⟩ := h
    simp only [NounsDAOExecutor.cancelTransaction, bind_eq_ok, require_eq_ok, pure_eq_ok] at h1
    obtain ⟨_, _, rfl⟩ := h1
    obtain ⟨hs, hset⟩ := ih h2
    refine ⟨⟨hs.admin, hs.pendingAdmin, hs.delay⟩, fun h => ?_⟩
    rw [hset h, List.map_cons, List.mem_cons, not_or]
    show _ ∧ update tl.queuedTransactions (P.keccak256 tx) false h = true ↔ _
    by_cases e : h = P.keccak256 tx
    · simp [e]
    · simp [e]

/-- canceling every action clears exactly their bits -/
theorem forActions_cancel {p : Proposal} {eta : Nat} {tl tl' : NounsDAOExecutor P}
    (h : forActions (fun tl tx => tl.cancelTransaction P.dao tx) p eta tl = .ok tl') :
    SameExecutor tl tl' ∧ ∀ h, tl'.queuedTransactions h = true ↔
      h ∉ (p.transactions eta).map P.keccak256 ∧ tl.queuedTransactions h = true :=
  foldlM_cancel _ (forActions_ok h).1

end

/-! ## the phases of a proposal -/

/-- `state` when it is known whether the proposal is defeated -/
def phase (env : Env) (p : Proposal) (defeated : Bool) : ProposalState :=
  if p.vetoed then .vetoed
  else if p.canceled then .canceled
  else if env.number ≤ p.startBlock then .pending
  else if env.number ≤ p.endBlock then .active
  else if defeated then .defeated
  else if p.eta = 0 then .succeeded
  else if p.executed then .executed
  else if p.eta + NounsDAOExecutor.GRACE_PERIOD ≤ env.timestamp then .expired
  else .queued

theorem state_eq {env : Env} {d : NounsDAOLogicV2} {id : Nat} (hid : id ≤ d.proposalCount) {b : Bool}
    (hb : d.defeated (d.proposals id) = .ok b) : d.state env id = .ok (phase env (d.proposals id) b) := by
  simp only [state, require, if_pos hid, hb, phase]
  simp only [bind, Except.bind]
  split_ifs <;> rfl

theorem defeated_ok_false {d : NounsDAOLogicV2} {p : Proposal} (h : d.defeated p = .ok false) :
    p.againstVotes < p.forVotes ∧ ∃ q, d.quorumVotes p.id = .ok q ∧ q ≤ p.forVotes := by
  unfold defeated at h
  split_ifs at h with h1
  · cases h
  · simp only [bind_eq_ok, pure_eq_ok, decide_eq_false_iff_not, Nat.not_lt] at h
    exact ⟨Nat.lt_of_not_le h1, h⟩

/-- a proposal that was accepted by the voters -/
structure Carried (env : Env) (d : NounsDAOLogicV2) (p : Proposal) : Prop where
  vetoed : p.vetoed = false
  canceled : p.canceled = false
  started : p.startBlock < env.number
  ended : p.endBlock < env.number
  majority : p.againstVotes < p.forVotes
  quorum : ∃ q, d.quorumVotes p.id = .ok q ∧ q ≤ p.forVotes

section
variable {env : Env} {d : NounsDAOLogicV2} {id : Nat} {s : ProposalState}

/-- only when the voting is over does the vote count -/
theorem state_inv (h : d.state env id = .ok s) :
    id ≤ d.proposalCount ∧ ∃ b, s = phase env (d.proposals id) b ∧
      ((d.proposals id).vetoed = false → (d.proposals id).canceled = false →
        (d.proposals id).startBlock < env.number → (d.proposals id).endBlock < env.number →
        d.defeated (d.proposals id) = .ok b) := by
  simp only [state, bind_eq_ok, require_eq_ok] at h
  obtain ⟨_, hid, h⟩ := h
  refine ⟨hid, ?_⟩
  by_cases h1 : (d.proposals id).vetoed = true
  · rw [if_pos h1, pure_eq_ok] at h
    exact ⟨true, by simp [phase, h1, h], fun h' => absurd h1 (by simp [h'])⟩
  rw [if_neg h1] at h
  by_cases h2 : (d.proposals id).canceled = true
  · rw [if_pos h2, pure_eq_ok] at h
    exact ⟨true, by simp [phase, h1, h2, h], fun _ h' => absurd h2 (by simp [h'])⟩
  rw [if_neg h2] at h
  by_cases h3 : env.number ≤ (d.proposals id).startBlock
  · rw [if_pos h3, pure_eq_ok] at h
    exact ⟨true, by simp [phase, h1, h2, h3, h], fun _ _ h' => absurd h3 (by omega)⟩
  rw [if_neg h3] at h
  by_cases h4 : env.number ≤ (d.proposals id).endBlock
  · rw [if_pos h4, pure_eq_ok] at h
    exact ⟨true, by simp [phase, h1, h2, h3, h4, h], fun _ _ _ h' => absurd h4 (by omega)⟩
  rw [if_neg h4] at h
  simp only [bind_eq_ok] at h
  obtain ⟨b, hb, h⟩ := h
  refine ⟨b, ?_, fun _ _ _ _ => hb⟩
  simp only [phase, if_neg h1, if_neg h2, if_neg h3, if_neg h4]
  split_ifs at h ⊢ <;> exact (pure_eq_ok.mp h).symm

theorem state_le (h : d.state env id = .ok s) : id ≤ d.proposalCount := (state_inv h).1

theorem state_active (h : d.state env id = .ok .active) :
    (d.proposals id).vetoed = false ∧ (d.proposals id).canceled = false ∧
      (d.proposals id).startBlock < env.number ∧ env.number ≤ (d.proposals id).endBlock := by
  obtain ⟨_, b, h, _⟩ := state_inv h
  unfold phase at h
  split_ifs at h with h1 h2 h3 h4
  exact ⟨by simpa using h1, by simpa using h2, by omega, h4⟩

/-- the phases after an accepted vote, which the remaining fields tell apart -/
theorem state_carried (h : d.state env id = .ok s)
    (hs : s = .succeeded ∨ s = .queued ∨ s = .expired ∨ s = .executed) :
    Carried env d (d.proposals id) ∧ s = phase env (d.proposals id) false := by
  obtain ⟨_, b, hp, hb⟩ := state_inv h
  have hp' := hp
  unfold phase at hp'
  split_ifs at hp' with h1 h2 h3 h4 h5 <;> try simp [hp'] at hs
  all_goals
    have h1' : (d.proposals id).vetoed = false := by simpa using h1
    have h2' : (d.proposals id).canceled = false := by simpa using h2
    have hf : b = false := by simpa using h5
    subst hf
    obtain ⟨hm, hq⟩ := defeated_ok_false (hb h1' h2' (by omega) (by omega))
    exact ⟨⟨h1', h2', by omega, by omega, hm, hq⟩, hp⟩

theorem state_succeeded (h : d.state env id = .ok .succeeded) :
    Carried env d (d.proposals id) ∧ (d.proposals id).eta = 0 := by
  obtain ⟨hc, hp⟩ := state_carried h (.inl rfl)
  refine ⟨hc, ?_⟩
  simp only [phase, hc.vetoed, hc.canceled, Nat.not_le.mpr hc.started, Nat.not_le.mpr hc.ended,
    if_false, Bool.false_eq_true] at hp
  split_ifs at hp with h1
  exact h1

theorem state_queued (h : d.state env id = .ok .queued) :
    Carried env d (d.proposals id) ∧ (d.proposals id).eta ≠ 0 ∧
      (d.proposals id).executed = false ∧
      env.timestamp < (d.proposals id).eta + NounsDAOExecutor.GRACE_PERIOD := by
  obtain ⟨hc, hp⟩ := state_carried h (.inr (.inl rfl))
  refine ⟨hc, ?_⟩
  simp only [phase, hc.vetoed, hc.canceled, Nat.not_le.mpr hc.started, Nat.not_le.mpr hc.ended,
    if_false, Bool.false_eq_true] at hp
  split_ifs at hp with h1 h2 h3
  exact ⟨h1, by simpa using h2, Nat.lt_of_not_le h3⟩

end

/-! ## propose, vote -/

theorem safe32_ok {n m : Nat} {text : String} (h : safe32 n text = .ok m) : n < 2^32 ∧ m = n := by
  simp only [safe32, bind_eq_ok, require_eq_ok, pure_eq_ok] at h
  obtain ⟨_, h1, h2⟩ := h
  exact ⟨by omega, h2.symm⟩

theorem votesBefore_ok {env : Env} {t : UNounsToken} {a : Address} {n : Nat}
    (h : votesBefore env t a = .ok n) :
    1 ≤ env.number ∧ t.getPriorVotes env a (env.number - 1) = .ok n := by
  simp only [votesBefore, bind_eq_ok, checkedSub_eq_ok] at h
  obtain ⟨_, ⟨h1, rfl⟩, h2⟩ := h
  exact ⟨h1, h2⟩

theorem getDynamicQuorumParamsAt_ok {d : NounsDAOLogicV2} {b : Nat} {params : DynamicQuorumParams}
    (h : d.getDynamicQuorumParamsAt b = .ok params) : b < 2^32 := by
  simp only [getDynamicQuorumParamsAt, bind_eq_ok] at h
  obtain ⟨_, h1, _⟩ := h
  exact (safe32_ok h1).1

/-- one proposal is rewritten -/
structure SetsProposal (d d' : NounsDAOLogicV2) (id : Nat) (p : Proposal) : Prop where
  proposals : d'.proposals = update d.proposals id p
  proposalCount : d'.proposalCount = d.proposalCount
  quorumVotesBPS : d'.quorumVotesBPS = d.quorumVotesBPS
  checkpoints : d'.quorumParamsCheckpoints = d.quorumParamsCheckpoints

theorem SetsProposal.self {d d' : NounsDAOLogicV2} {id : Nat} {p : Proposal}
    (h : SetsProposal d d' id p) : d'.proposals id = p := by rw [h.proposals, update_self]

theorem SetsProposal.other {d d' : NounsDAOLogicV2} {id i : Nat} {p : Proposal}
    (h : SetsProposal d d' id p) (hi : i ≠ id) : d'.proposals i = d.proposals i := by
  rw [h.proposals, update_of_ne hi]

theorem propose_ok {env : Env} {sender : Address} {t : UNounsToken} {d d' : NounsDAOLogicV2}
    {targets : List Address} {values : List Nat} {signatures : List String}
    {calldatas : List Bytes} {description : String}
    (h : d.propose env sender t targets values signatures calldatas description = .ok d') :
    (∃ votes, t.getPriorVotes env sender (env.number - 1) = .ok votes ∧
      d.proposalThreshold t < votes) ∧
    (targets.length = values.length ∧ targets.length = signatures.length ∧
      targets.length = calldatas.length ∧ targets.length ≠ 0) ∧
    1 ≤ env.number ∧ env.number < 2^32 ∧
    d' = { d with
      proposalCount := d.proposalCount + 1
      proposals := update d.proposals (d.proposalCount + 1)
        (d.newProposal env sender t targets values signatures calldatas)
      latestProposalIds := update d.latestProposalIds sender (d.proposalCount + 1)
      logs := d'.logs } := by
  simp only [propose, bind_eq_ok, require_eq_ok, pure_eq_ok] at h
  obtain ⟨votes, hv, _, hthr, _, ⟨h1, h2, h3⟩, _, h4, _, _, _, _, _, hq, rfl⟩ := h
  obtain ⟨hn, hv⟩ := votesBefore_ok hv
  simp only [minQuorumVotes, bind_eq_ok] at hq
  obtain ⟨_, hq, _⟩ := hq
  exact ⟨⟨votes, hv, hthr⟩, ⟨h1, h2, h3, h4⟩, hn, getDynamicQuorumParamsAt_ok hq, rfl⟩

theorem propose_other {env : Env} {sender : Address} {t : UNounsToken} {d d' : NounsDAOLogicV2}
    {targets : List Address} {values : List Nat} {signatures : List String}
    {calldatas : List Bytes} {description : String}
    (h : d.propose env sender t targets values signatures calldatas description = .ok d') {i : Nat}
    (hi : i ≠ d.proposalCount + 1) : d'.proposals i = d.proposals i := by
  obtain ⟨_, _, _, _, e⟩ := propose_ok h
  rw [e]
  exact update_of_ne hi _ _

theorem castVoteInternal_ok {env : Env} {t : UNounsToken} {d d' : NounsDAOLogicV2} {voter : Address}
    {id support votes : Nat}
    (h : d.castVoteInternal env t voter id support = .ok (d', votes)) :
    d.state env id = .ok .active ∧ support ≤ 2 ∧ ((d.proposals id).receipts voter).hasVoted = false ∧
      (∃ b, d.proposalCreationBlock (d.proposals id) = .ok b ∧
        t.getPriorVotes env voter b = .ok votes) ∧
      SetsProposal d d' id (Proposal.withVote (d.proposals id) voter support votes) := by
  simp only [castVoteInternal, bind_eq_ok, require_eq_ok, pure_eq_ok, Prod.mk.injEq] at h
  obtain ⟨s, hs, _, rfl, _, h1, _, h2, b, hb, v, hv, rfl, rfl⟩ := h
  exact ⟨hs, h1, h2, ⟨b, hb, hv⟩, ⟨rfl, rfl, rfl, rfl⟩⟩

/-! ## queue, execute, cancel, veto -/

section
variable {P : Platform} {env : Env} {d : NounsDAOLogicV2} {tl : NounsDAOExecutor P} {id : Nat}
  {r : NounsDAOExecutor P × NounsDAOLogicV2}

theorem queue_ok (h : d.queue env tl id = .ok r) :
    d.state env id = .ok .succeeded ∧
      forActions (queueOrRevertInternal env) (d.proposals id) (env.timestamp + tl.delay) tl
        = .ok r.1 ∧
      SetsProposal d r.2 id { d.proposals id with eta := env.timestamp + tl.delay } := by
  simp only [queue, bind_eq_ok, require_eq_ok, pure_eq_ok] at h
  obtain ⟨s, hs, _, rfl, tl', h1, rfl⟩ := h
  exact ⟨hs, h1, ⟨rfl, rfl, rfl, rfl⟩⟩

theorem beginExecute_ok {d' : NounsDAOLogicV2} (h : d.beginExecute env id = .ok d') :
    d.state env id = .ok .queued ∧
      SetsProposal d d' id { d.proposals id with executed := true } := by
  simp only [beginExecute, bind_eq_ok, require_eq_ok, pure_eq_ok] at h
  obtain ⟨s, hs, _, rfl, rfl⟩ := h
  exact ⟨hs, ⟨rfl, rfl, rfl, rfl⟩⟩

theorem cancel_ok {sender : Address} {t : UNounsToken} (h : d.cancel env sender t tl id = .ok r) :
    (∃ s, d.state env id = .ok s ∧ s ≠ .executed) ∧
      forActions (fun tl tx => tl.cancelTransaction P.dao tx) (d.proposals id) (d.proposals id).eta tl
        = .ok r.1 ∧
      SetsProposal d r.2 id { d.proposals id with canceled := true } := by
  simp only [cancel, bind_eq_ok, require_eq_ok, revertUnless_eq_ok, pure_eq_ok] at h
  obtain ⟨s, hs, _, hne, _, _, _, _, tl', h1, rfl⟩ := h
  exact ⟨⟨s, hs, hne⟩, h1, ⟨rfl, rfl, rfl, rfl⟩⟩

theorem veto_ok {sender : Address} (h : d.veto env sender tl id = .ok r) :
    (∃ s, d.state env id = .ok s ∧ s ≠ .executed) ∧
      forActions (fun tl tx => tl.cancelTransaction P.dao tx) (d.proposals id) (d.proposals id).eta tl
        = .ok r.1 ∧
      SetsProposal d r.2 id { d.proposals id with vetoed := true } := by
  simp only [veto, bind_eq_ok, revertUnless_eq_ok, pure_eq_ok] at h
  obtain ⟨_, _, _, _, s, hs, _, hne, tl', h1, rfl⟩ := h
  exact ⟨⟨s, hs, hne⟩, h1, ⟨rfl, rfl, rfl, rfl⟩⟩

end

/-! ## everything else leaves the proposals alone -/

/-- the proposals and what their quorum depends on, but for one checkpoint of this block -/
structure SameProposals (env : Env) (d d' : NounsDAOLogicV2) : Prop where
  proposals : d'.proposals = d.proposals
  proposalCount : d'.proposalCount = d.proposalCount
  quorumVotesBPS : d'.quorumVotesBPS = d.quorumVotesBPS
  checkpoints : d'.quorumParamsCheckpoints = d.quorumParamsCheckpoints ∨
    ∃ params, d'.quorumParamsCheckpoints = write d.quorumParamsCheckpoints env.number params

theorem SameProposals.refl (env : Env) (d : NounsDAOLogicV2) : SameProposals env d d :=
  ⟨rfl, rfl, rfl, .inl rfl⟩

theorem writeQuorumParamsCheckpoint_ok {env : Env} {d d' : NounsDAOLogicV2}
    {params : DynamicQuorumParams} (h : d.writeQuorumParamsCheckpoint env params = .ok d') :
    d' = { d with quorumParamsCheckpoints := write d.quorumParamsCheckpoints env.number params } := by
  simp only [writeQuorumParamsCheckpoint, bind_eq_ok, pure_eq_ok] at h
  obtain ⟨b, hb, rfl⟩ := h
  rw [(safe32_ok hb).2]

theorem setDynamicQuorumParams_ok {env : Env} {sender : Address} {d d' : NounsDAOLogicV2}
    {a b : UInt16} {c : UInt32} (h : d.setDynamicQuorumParams env sender a b c = .ok d') :
    d' = { d with
      quorumParamsCheckpoints := write d.quorumParamsCheckpoints env.number ⟨a, b, c⟩
      logs := d'.logs } := by
  simp only [setDynamicQuorumParams, bind_eq_ok, pure_eq_ok] at h
  obtain ⟨_, _, _, _, _, _, _, _, _, _, d1, h1, rfl⟩ := h
  rw [writeQuorumParamsCheckpoint_ok h1]
  rfl

theorem initializeV2_ok {env : Env} {sender : Address} {d d' : NounsDAOLogicV2}
    {timelock nouns vetoer : Address} {votingPeriod votingDelay proposalThresholdBPS : Nat}
    {params : DynamicQuorumParams}
    (h : d.initializeV2 env sender timelock nouns vetoer votingPeriod votingDelay
      proposalThresholdBPS params = .ok d') : SameProposals env d d' := by
  simp only [initializeV2, bind_eq_ok] at h
  obtain ⟨_, _, _, _, _, _, _, _, _, _, _, _, _, _, h⟩ := h
  rw [setDynamicQuorumParams_ok h]
  exact ⟨rfl, rfl, rfl, .inr ⟨_, rfl⟩⟩

end NounsDAOLogicV2

open NounsDAOLogicV2

/-- who votes for what with this entry -/
def DaoOp.ballot (P : Platform) (env : Env) (msg : Msg) : DaoOp → Option (Address × Nat × Nat)
  | .castVote id support => some (msg.sender, id, support)
  | .castVoteWithReason id support _ => some (msg.sender, id, support)
  | .castVoteBySig id support sig =>
    some (P.ecrecover (.ballot NounsDAOLogicV2.name env.chainId id support) sig, id, support)
  | .castRefundableVote id support _ => some (msg.sender, id, support)
  | .castRefundableVoteWithReason id support _ _ => some (msg.sender, id, support)
  | _ => none

def GovOp.ballot (P : Platform) (env : Env) (msg : Msg) : GovOp → Option (Address × Nat × Nat)
  | .entry (.dao op) => op.ballot P env msg
  | _ => none

/-- the proposal that is canceled or vetoed -/
def GovOp.withdraws : GovOp → Option Nat
  | .entry (.cancel id) => some id
  | .entry (.veto id) => some id
  | _ => none

/-- a vote, with what comes after it -/
def Votes (env : Env) (t : UNounsToken) (d d' : NounsDAOLogicV2) (voter : Address)
    (id support : Nat) : Prop :=
  ∃ d1 votes balance logs, d.castVoteInternal env t voter id support = .ok (d1, votes) ∧
    d' = { d1 with balance := balance, logs := logs }

theorem Votes.sets {env : Env} {t : UNounsToken} {d d' : NounsDAOLogicV2} {voter : Address}
    {id support : Nat} (h : Votes env t d d' voter id support) :
    ∃ votes, d.state env id = .ok .active ∧ support ≤ 2 ∧
      ((d.proposals id).receipts voter).hasVoted = false ∧
      (∃ b, d.proposalCreationBlock (d.proposals id) = .ok b ∧
        t.getPriorVotes env voter b = .ok votes) ∧
      SetsProposal d d' id (Proposal.withVote (d.proposals id) voter support votes) := by
  obtain ⟨d1, votes, balance, logs, h, rfl⟩ := h
  obtain ⟨h1, h2, h3, h4, hs⟩ := castVoteInternal_ok h
  exact ⟨votes, h1, h2, h3, h4, ⟨hs.proposals, hs.proposalCount, hs.quorumVotesBPS, hs.checkpoints⟩⟩

theorem castVoteWithEvent_ok {env : Env} {t : UNounsToken} {d d' : NounsDAOLogicV2}
    {voter : Address} {id support votes : Nat} {reason : String}
    (h : d.castVoteWithEvent env t voter id support reason = .ok (d', votes)) :
    Votes env t d d' voter id support := by
  simp only [castVoteWithEvent, bind_eq_ok, pure_eq_ok, Prod.mk.injEq] at h
  obtain ⟨⟨d1, v⟩, h1, rfl, rfl⟩ := h
  exact ⟨d1, v, _, _, h1, rfl⟩

theorem castRefundableVoteInternal_ok {env : Env} {sender : Address} {t : UNounsToken}
    {d d' : NounsDAOLogicV2} {id support gasUsed : Nat} {reason : String} {x : Option Payment}
    (h : d.castRefundableVoteInternal env sender t id support reason gasUsed = .ok (d', x)) :
    Votes env t d d' sender id support := by
  simp only [castRefundableVoteInternal, bind_eq_ok, pure_eq_ok] at h
  obtain ⟨⟨d1, v⟩, h1, h2⟩ := h
  obtain ⟨d2, v2, balance, logs, h3, rfl⟩ := castVoteWithEvent_ok h1
  refine ⟨d2, v2, d'.balance, d'.logs, h3, ?_⟩
  simp only [beginRefund] at h2
  split_ifs at h2 <;> cases h2 <;> rfl

/-- the entries that concern neither a proposal nor a quorum parameter -/
def DaoOp.isSetting : DaoOp → Bool
  | .setVotingDelay _ | .setVotingPeriod _ | .setProposalThresholdBPS _ | .withdraw
  | .setPendingAdmin _ | .acceptAdmin | .setPendingVetoer _ | .acceptVetoer | .burnVetoPower
  | .receive => true
  | _ => false

def DaoEvent.isSetting : DaoEvent → Bool
  | .votingDelaySet .. | .votingPeriodSet .. | .proposalThresholdBPSSet .. | .newPendingAdmin ..
  | .newAdmin .. | .newVetoer .. | .newPendingVetoer .. => true
  | _ => false

/-- what such an entry leaves alone; `vs` are the events that it emits -/
structure Adjusted (d d' : NounsDAOLogicV2) (vs : List DaoEvent) : Prop where
  proposals : d'.proposals = d.proposals
  proposalCount : d'.proposalCount = d.proposalCount
  latestProposalIds : d'.latestProposalIds = d.latestProposalIds
  quorumVotesBPS : d'.quorumVotesBPS = d.quorumVotesBPS
  checkpoints : d'.quorumParamsCheckpoints = d.quorumParamsCheckpoints
  votingDelay : MIN_VOTING_DELAY ≤ d.votingDelay → MIN_VOTING_DELAY ≤ d'.votingDelay
  logs : d'.logs = d.logs ++ vs
  events : ∀ v ∈ vs, v.isSetting = true

theorem DaoOp.adjusted {P : Platform} {env : Env} {msg : Msg} {t : UNounsToken}
    {d d' : NounsDAOLogicV2} {op : DaoOp} {x : Option GovExternal} (hop : op.isSetting = true)
    (h : op.apply P env msg t d = .ok (d', x)) :
    (∃ vs, Adjusted d d' vs) ∧ ∀ c, x ≠ some (.target c) := by
  cases op with
  | setVotingDelay n =>
    obtain ⟨_, h1, h2⟩ := map_eq_ok.mp h
    cases h2
    simp only [NounsDAOLogicV2.setVotingDelay, bind_eq_ok, require_eq_ok, pure_eq_ok] at h1
    obtain ⟨_, _, _, ⟨hn, _⟩, rfl⟩ := h1
    exact ⟨⟨[_], rfl, rfl, rfl, rfl, rfl, fun _ => hn, rfl, by simp [DaoEvent.isSetting]⟩,
      fun _ h => by cases h⟩
  | setVotingPeriod _ | setProposalThresholdBPS _ | setPendingAdmin _ | setPendingVetoer _ =>
    obtain ⟨_, h1, h2⟩ := map_eq_ok.mp h
    cases h2
    simp only [NounsDAOLogicV2.setVotingPeriod, NounsDAOLogicV2.setProposalThresholdBPS,
      NounsDAOLogicV2.setPendingAdmin, NounsDAOLogicV2.setPendingVetoer, bind_eq_ok, pure_eq_ok] at h1
    obtain ⟨_, _, _, _, rfl⟩ := h1
    exact ⟨⟨[_], rfl, rfl, rfl, rfl, rfl, fun hd => hd, rfl, by simp [DaoEvent.isSetting]⟩,
      fun _ h => by cases h⟩
  | acceptAdmin | acceptVetoer | burnVetoPower =>
    obtain ⟨_, h1, h2⟩ := map_eq_ok.mp h
    cases h2
    simp only [NounsDAOLogicV2.acceptAdmin, NounsDAOLogicV2.acceptVetoer,
      NounsDAOLogicV2.burnVetoPower, bind_eq_ok, pure_eq_ok] at h1
    obtain ⟨_, _, rfl⟩ := h1
    exact ⟨⟨[_, _], rfl, rfl, rfl, rfl, rfl, fun hd => hd, List.append_assoc _ _ _,
      by simp [DaoEvent.isSetting]⟩, fun _ h => by cases h⟩
  | withdraw =>
    obtain ⟨⟨_, _⟩, h1, h2⟩ := map_eq_ok.mp h
    cases h2
    simp only [beginWithdraw, bind_eq_ok, pure_eq_ok, Prod.mk.injEq] at h1
    obtain ⟨_, _, rfl, _⟩ := h1
    exact ⟨⟨[], rfl, rfl, rfl, rfl, rfl, fun hd => hd, (List.append_nil _).symm, by simp⟩,
      fun _ h => by cases h⟩
  | receive =>
    cases h
    exact ⟨⟨[], rfl, rfl, rfl, rfl, rfl, fun hd => hd, (List.append_nil _).symm, by simp⟩,
      fun _ h => by cases h⟩
  | _ => cases hop

/-- **What an entry of the DAO alone can do**: propose, vote, or leave the proposals alone. -/
theorem DaoOp.apply_ok {P : Platform} {env : Env} {msg : Msg} {t : UNounsToken}
    {d d' : NounsDAOLogicV2} {op : DaoOp} {x : Option GovExternal}
    (h : op.apply P env msg t d = .ok (d', x)) :
    (op.ballot P env msg = none ∧ SameProposals env d d' ∨
      (∃ targets values signatures calldatas description,
        op = .propose targets values signatures calldatas description ∧
        d.propose env msg.sender t targets values signatures calldatas description = .ok d') ∨
      ∃ voter id support, op.ballot P env msg = some (voter, id, support) ∧
        Votes env t d d' voter id support) ∧
    ∀ c, x ≠ some (.target c) := by
  cases op with
  | initializeV2 timelock nouns vetoer period delay threshold params =>
    obtain ⟨_, h1, h2⟩ := map_eq_ok.mp h
    cases h2
    exact ⟨.inl ⟨rfl, initializeV2_ok h1⟩, fun _ h => by cases h⟩
  | propose targets values signatures calldatas description =>
    obtain ⟨_, h1, h2⟩ := map_eq_ok.mp h
    cases h2
    exact ⟨.inr (.inl ⟨_, _, _, _, _, rfl, h1⟩), fun _ h => by cases h⟩
  | castVote id support =>
    obtain ⟨⟨_, _⟩, h1, h2⟩ := map_eq_ok.mp h
    cases h2
    exact ⟨.inr (.inr ⟨_, _, _, rfl, castVoteWithEvent_ok h1⟩), fun _ h => by cases h⟩
  | castVoteWithReason id support reason =>
    obtain ⟨⟨_, _⟩, h1, h2⟩ := map_eq_ok.mp h
    cases h2
    exact ⟨.inr (.inr ⟨_, _, _, rfl, castVoteWithEvent_ok h1⟩), fun _ h => by cases h⟩
  | castVoteBySig id support sig =>
    obtain ⟨⟨_, _⟩, h1, h2⟩ := map_eq_ok.mp h
    cases h2
    simp only [NounsDAOLogicV2.castVoteBySig, bind_eq_ok] at h1
    obtain ⟨_, _, h1⟩ := h1
    exact ⟨.inr (.inr ⟨_, _, _, rfl, castVoteWithEvent_ok h1⟩), fun _ h => by cases h⟩
  | castRefundableVote id support gasUsed =>
    obtain ⟨⟨_, y⟩, h1, h2⟩ := map_eq_ok.mp h
    cases h2
    exact ⟨.inr (.inr ⟨_, _, _, rfl, castRefundableVoteInternal_ok h1⟩),
      fun _ h => by cases y <;> cases h⟩
  | castRefundableVoteWithReason id support reason gasUsed =>
    obtain ⟨⟨_, y⟩, h1, h2⟩ := map_eq_ok.mp h
    cases h2
    exact ⟨.inr (.inr ⟨_, _, _, rfl, castRefundableVoteInternal_ok h1⟩),
      fun _ h => by cases y <;> cases h⟩
  | setDynamicQuorumParams a b c =>
    obtain ⟨_, h1, h2⟩ := map_eq_ok.mp h
    cases h2
    rw [setDynamicQuorumParams_ok h1]
    exact ⟨.inl ⟨rfl, rfl, rfl, rfl, .inr ⟨_, rfl⟩⟩, fun _ h => by cases h⟩
  | setQuorumCoefficient c =>
    obtain ⟨_, h1, h2⟩ := map_eq_ok.mp h
    cases h2
    simp only [NounsDAOLogicV2.setQuorumCoefficient, bind_eq_ok, pure_eq_ok] at h1
    obtain ⟨_, _, _, _, d1, h1, rfl⟩ := h1
    rw [writeQuorumParamsCheckpoint_ok h1]
    exact ⟨.inl ⟨rfl, rfl, rfl, rfl, .inr ⟨_, rfl⟩⟩, fun _ h => by cases h⟩
  | setMinQuorumVotesBPS _ | setMaxQuorumVotesBPS _ =>
    obtain ⟨_, h1, h2⟩ := map_eq_ok.mp h
    cases h2
    simp only [NounsDAOLogicV2.setMinQuorumVotesBPS, NounsDAOLogicV2.setMaxQuorumVotesBPS,
      bind_eq_ok, pure_eq_ok] at h1
    obtain ⟨_, _, _, _, _, _, _, _, d1, h1, rfl⟩ := h1
    rw [writeQuorumParamsCheckpoint_ok h1]
    exact ⟨.inl ⟨rfl, rfl, rfl, rfl, .inr ⟨_, rfl⟩⟩, fun _ h => by cases h⟩
  | _ =>
    obtain ⟨⟨_, hs⟩, hx⟩ := DaoOp.adjusted rfl h
    exact ⟨.inl ⟨rfl, hs.proposals, hs.proposalCount, hs.quorumVotesBPS, .inl hs.checkpoints⟩, hx⟩

end UNouns
