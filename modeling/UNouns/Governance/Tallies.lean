import UNouns.Governance.Invariants
import UNouns.Lib.Sums

/-!
# Tallies and receipts

* `Tallied`               the three tallies of a proposal are sums over its receipts;
* `DaoChange.ballots`     only an accepted vote, while the proposal is active, changes them;
* `tallies_eq_receipts`   so in every state of every run, refunds that vote again included.
-/

set_option linter.unusedVariables false

namespace UNouns
open Function Relation Reentrant NounsDAOLogicV2 Finset

/-- the votes a receipt records for `support` -/
def Receipt.counted (r : Receipt) (support : Nat) : Nat :=
  if r.hasVoted = true ∧ r.support = support then r.votes else 0

/-- the votes cast for `support` according to the receipts -/
def Proposal.counted (p : Proposal) (support : Nat) : Nat :=
  ∑ v, (p.receipts v).counted support

structure Tallied (p : Proposal) : Prop where
  againstVotes : p.againstVotes = p.counted 0
  forVotes : p.forVotes = p.counted 1
  abstainVotes : p.abstainVotes = p.counted 2
  support_le : ∀ v, (p.receipts v).support ≤ 2

theorem empty_tallied : Tallied .empty := by
  have h : ∀ s, Proposal.empty.counted s = 0 := fun s =>
    sum_eq_zero fun v _ => if_neg fun h => absurd h.1 Bool.false_ne_true
  exact ⟨(h 0).symm, (h 1).symm, (h 2).symm, fun v => Nat.zero_le 2⟩

/-- the tallies and the receipts of a proposal -/
def Proposal.ballots (p : Proposal) : Nat × Nat × Nat × (Address → Receipt) :=
  (p.againstVotes, p.forVotes, p.abstainVotes, p.receipts)

theorem Tallied.of_ballots {p p' : Proposal} (h : Tallied p) (e : p'.ballots = p.ballots) :
    Tallied p' := by
  obtain ⟨h1, h2, h3, h4⟩ := h
  simp only [Proposal.ballots, Prod.mk.injEq] at e
  obtain ⟨e1, e2, e3, e4⟩ := e
  unfold Proposal.counted at h1 h2 h3
  refine ⟨?_, ?_, ?_, ?_⟩
  · rw [e1, Proposal.counted, e4]; exact h1
  · rw [e2, Proposal.counted, e4]; exact h2
  · rw [e3, Proposal.counted, e4]; exact h3
  · rw [e4]; exact h4

/-! ## one vote -/

/-- an accepted vote, tally by tally -/
theorem withVote_ballots (p : Proposal) (voter : Address) (support votes : Nat) :
    (Proposal.withVote p voter support votes).ballots
      = (p.againstVotes + (if support = 0 then votes else 0),
        p.forVotes + (if support = 1 then votes else 0),
        p.abstainVotes + (if support = 2 then votes else 0),
        update p.receipts voter ⟨true, support, votes⟩) := by
  unfold Proposal.withVote
  by_cases h0 : support = 0
  · simp [h0, Proposal.ballots]
  · by_cases h1 : support = 1
    · simp [h1, Proposal.ballots]
    · by_cases h2 : support = 2
      · simp [h2, Proposal.ballots]
      · simp [h0, h1, h2, Proposal.ballots]

/-- a first vote adds to the count of its side alone -/
theorem counted_vote {p p' : Proposal} {voter : Address} {support votes : Nat}
    (hnew : (p.receipts voter).hasVoted = false)
    (hp : p'.receipts = update p.receipts voter ⟨true, support, votes⟩) (s : Nat) :
    p'.counted s = p.counted s + (if support = s then votes else 0) := by
  have h := Sums.sum_change_one (mem_univ voter) (f := fun v => (p.receipts v).counted s)
    (g := fun v => (p'.receipts v).counted s) (fun v hv => by simp only [hp, update_of_ne hv])
  have h0 : (p.receipts voter).counted s = 0 :=
    if_neg fun h => absurd (hnew.symm.trans h.1) Bool.false_ne_true
  have h1 : (p'.receipts voter).counted s = if support = s then votes else 0 := by
    rw [hp, update_self]
    simp only [Receipt.counted, true_and]
  rw [h0, h1, Nat.add_zero] at h
  exact h

theorem Tallied.vote {p : Proposal} {voter : Address} {support votes : Nat} (h : Tallied p)
    (hnew : (p.receipts voter).hasVoted = false) (hs : support ≤ 2) :
    Tallied (Proposal.withVote p voter support votes) := by
  have hb := withVote_ballots p voter support votes
  simp only [Proposal.ballots, Prod.mk.injEq] at hb
  obtain ⟨e0, e1, e2, e3⟩ := hb
  refine ⟨?_, ?_, ?_, fun v => ?_⟩
  · rw [e0, counted_vote hnew e3, h.againstVotes]
  · rw [e1, counted_vote hnew e3, h.forVotes]
  · rw [e2, counted_vote hnew e3, h.abstainVotes]
  · rw [e3]
    by_cases e : v = voter
    · simpa [e] using hs
    · rw [update_of_ne e]
      exact h.support_le v

/-! ## one change -/

/-- **Only a vote changes tallies and receipts**, and only while the proposal is active. -/
theorem DaoChange.ballots {env : Env} {d d' : NounsDAOLogicV2} (hd : Blank d)
    (h : DaoChange env d d') (i : Nat) :
    (d'.proposals i).ballots = (d.proposals i).ballots ∨
      (∃ voter support votes, d.state env i = .ok .active ∧ support ≤ 2 ∧
        ((d.proposals i).receipts voter).hasVoted = false ∧
        d'.proposals i = Proposal.withVote (d.proposals i) voter support votes) := by
  have hsame : ∀ {id : Nat} {p : Proposal}, SetsProposal d d' id p →
      p.ballots = (d.proposals id).ballots → (d'.proposals i).ballots = (d.proposals i).ballots := by
    intro id p hs hp
    by_cases e : i = id
    · subst e; rw [hs.self, hp]
    · rw [hs.other e]
  cases h with
  | same h => exact .inl (by rw [h.proposals])
  | propose sender t targets values signatures calldatas description h =>
    refine .inl ?_
    by_cases ei : i = d.proposalCount + 1
    · -- the receipts of an id that was never proposed are empty
      have hf := hd i (by omega)
      obtain ⟨_, _, _, _, e⟩ := propose_ok h
      subst ei
      rw [e]
      show (update d.proposals _ _ (d.proposalCount + 1)).ballots = _
      rw [update_self, newProposal]
      simp only [Proposal.ballots, hf]
      rfl
    · rw [propose_other h ei]
  | vote voter id support votes hstate hsupport hvoted h =>
    by_cases e : i = id
    · subst e
      exact .inr ⟨voter, support, votes, hstate, hsupport, hvoted, h.self⟩
    · exact .inl (by rw [h.other e])
  | queue id delay hstate h => exact .inl (hsame h rfl)
  | execute id hstate h => exact .inl (hsame h rfl)
  | cancel id s hstate hs h => exact .inl (hsame h rfl)
  | veto id s hstate hs h => exact .inl (hsame h rfl)

theorem DaoChange.tallied {env : Env} {d d' : NounsDAOLogicV2} (hd : Blank d)
    (h : DaoChange env d d') {i : Nat} (ht : Tallied (d.proposals i)) : Tallied (d'.proposals i) := by
  rcases h.ballots hd i with e | ⟨voter, support, votes, _, hs, hnew, e⟩
  · exact ht.of_ballots e
  · rw [e]
    exact ht.vote hnew hs

/-- a receipt is there to stay -/
theorem DaoChange.receipt {env : Env} {d d' : NounsDAOLogicV2} (hd : Blank d)
    (h : DaoChange env d d') {i : Nat} {v : Address}
    (hv : ((d.proposals i).receipts v).hasVoted = true) :
    (d'.proposals i).receipts v = (d.proposals i).receipts v := by
  rcases h.ballots hd i with e | ⟨voter, support, votes, _, _, hnew, e⟩
  · have : (d'.proposals i).receipts = (d.proposals i).receipts := congrArg (·.2.2.2) e
    rw [this]
  · have hb : (d'.proposals i).receipts = update (d.proposals i).receipts voter ⟨true, support, votes⟩ :=
      (congrArg (·.2.2.2) (congrArg Proposal.ballots e)).trans
        (congrArg (·.2.2.2) (withVote_ballots _ _ _ _))
    have hne : v ≠ voter := fun e => by rw [e, hnew] at hv; cases hv
    rw [hb, update_of_ne hne]

/-! ## runs -/

section
variable {P : Platform}

/-- an entry that changes the ballots of a proposal is a vote on it, and finds it active -/
def VotesOnly (r : GovRecord P) (next : World P) : Prop :=
  ∀ id, (next.dao.proposals id).ballots ≠ (r.pre.dao.proposals id).ballots →
    r.pre.dao.state r.env id = .ok .active ∧
      ∃ voter support, r.op.op.ballot P r.env r.op.msg = some (voter, id, support)

theorem GovStep.votesOnly {env : Env} {c : GovCall P} {w w' : World P} (hd : Blank w.dao)
    (h : GovStep env c.msg w c.op w') : VotesOnly ⟨env, w, c⟩ w' := by
  intro id hne
  rcases h.change.ballots hd id with e | ⟨voter, support, votes, hstate, _, _, _⟩
  · exact absurd e hne
  · refine ⟨hstate, ?_⟩
    obtain ⟨msg, op, hout⟩ := c
    have hkeep : ∀ {d : NounsDAOLogicV2} {i : Nat} {p : Proposal}, SetsProposal w.dao d i p →
        p.ballots = (w.dao.proposals i).ballots →
        (d.proposals id).ballots = (w.dao.proposals id).ballots := by
      intro d i p hs hp
      by_cases e : id = i
      · subst e; rw [hs.self, hp]
      · rw [hs.other e]
    cases h with
    | token op t h => exact absurd rfl hne
    | timelock op tl h => exact absurd rfl hne
    | settings op d hop h => exact absurd (by rw [show _ = _ from h.proposals]) hne
    | propose targets values signatures calldatas description d h =>
      have hid : id ≤ w.dao.proposalCount := state_le hstate
      refine absurd ?_ hne
      show (d.proposals id).ballots = _
      rw [propose_other h (by omega)]
    | vote op voter' id' support' d hop h =>
      obtain ⟨votes', _, _, _, _, hs⟩ := h.sets
      by_cases e : id = id'
      · subst e
        exact ⟨voter', support', hop⟩
      · exact absurd (congrArg Proposal.ballots (hs.other e)) hne
    | queue i r h => exact absurd (hkeep (queue_ok h).2.2 rfl) hne
    | cancel i r h => exact absurd (hkeep (cancel_ok h).2.2 rfl) hne
    | veto i r h => exact absurd (hkeep (veto_ok h).2.2 rfl) hne
    | execute i d w' h hact =>
      refine absurd ?_ hne
      rw [show w'.dao = d from hact.dao.1]
      exact hkeep (beginExecute_ok h).2 rfl

structure BallotsKept (e : Env) (c : GovConfig P) : Prop where
  sane : Sane e c.now.dao
  tallied : ∀ id, Tallied (c.now.dao.proposals id)
  receipts : ∀ r ∈ c.past, ∀ id v, ((r.pre.dao.proposals id).receipts v).hasVoted = true →
    (c.now.dao.proposals id).receipts v = (r.pre.dao.proposals id).receipts v
  linked : Linked VotesOnly c

theorem BallotsKept.move {e : Env} {c c' : GovConfig P} (hc : BallotsKept e c)
    (hm : GovMove e c c') : BallotsKept e c' := by
  have hchange := GovMove.change hm
  refine ⟨hc.sane.change hchange, fun id => hchange.tallied hc.sane.fresh (hc.tallied id),
    fun r hr id v hv => ?_, ?_⟩
  · have hold : r ∈ c.past ∨ r.pre = c.now := by
      cases hm with
      | enter op w h =>
        rcases List.mem_append.mp hr with h | h
        · exact .inl h
        · exact .inr (by rw [List.mem_singleton.mp h])
      | resume w h => exact .inl hr
    rcases hold with hr | e
    · have h1 := hc.receipts r hr id v hv
      rw [← h1]
      exact hchange.receipt hc.sane.fresh (by rw [h1]; exact hv)
    · rw [e] at hv ⊢
      exact hchange.receipt hc.sane.fresh hv
  · refine hc.linked.move hm (fun op w h => GovStep.votesOnly hc.sane.fresh h) (fun r w w' hr h id hne => ?_)
    refine hr id (fun e => hne ?_)
    rw [← e, (GovRest.same h).proposals]

/-- **Tallies are the sums of the receipts**, wherever a run of the DAO is looked at; a receipt stays
as it is; only votes on an active proposal change its receipts and tallies; and a call that fails
leaves everything as it was. -/
theorem tallies_eq_receipts (g : GovSetup) (e : Env) (w : World P) (hw : g.deploy P e = .ok w)
    (ts : List (Tx Env (GovCall P))) (hch : (e :: ts.map Tx.env).IsChain (· ≤ ·)) :
    (∀ o ∈ observations GovCall.code e ts ⟨[], w⟩,
      (∀ id, Tallied (o.2.now.dao.proposals id)) ∧
      (∀ r ∈ o.2.past, ∀ id v, ((r.pre.dao.proposals id).receipts v).hasVoted = true →
        (o.2.now.dao.proposals id).receipts v = (r.pre.dao.proposals id).receipts v) ∧
      Linked VotesOnly o.2) ∧
    ∀ (t : Tx Env (GovCall P)) (r : Revert),
      (t.call.run GovCall.code t.env (runTxs GovCall.code ts ⟨[], w⟩).2).2 = .error r →
      (runTxs GovCall.code (ts ++ [t]) ⟨[], w⟩).2 = (runTxs GovCall.code ts ⟨[], w⟩).2 := by
  refine ⟨fun o ho => ?_, fun t r h => ?_⟩
  · have hr := observations_timed (fun env (op : GovCall P) (c : GovConfig P) => op.follows env c) hch ho
    have hf := GovSetup.deploy_fresh hw
    have h0 : BallotsKept e (⟨[], w⟩ : GovConfig P) :=
      ⟨hf.sane, fun id => by rw [hf.proposals]; exact empty_tallied,
        fun r hr => absurd hr List.not_mem_nil, Linked.nil w⟩
    have hI : BallotsKept o.1 o.2 := by
      refine Timed.invariant (I := BallotsKept) ?_ ?_ hr h0
      · exact fun e c c' hc hm => hc.move hm
      · exact fun e e' c hc he => ⟨hc.sane.mono he, hc.tallied, hc.receipts, hc.linked⟩
    exact ⟨hI.tallied, hI.receipts, hI.linked⟩
  · rw [runTxs_append]
    show commit _ _ = _
    rw [h]
    rfl

end

/-! ## a run -/

abbrev samplePlatform : Platform := .plain 10 11 4

/-- the timelock is the admin of the DAO, as in production -/
def sampleSetup : GovSetup where
  deployer := 1
  unoundersDAO := 2
  unouncilDAO := 3
  minter := 4
  descriptor := 5
  seeder := 6
  daoAdmin := 11
  vetoer := 8
  nouns := 12
  delay := 172800
  votingPeriod := 5760
  votingDelay := 1
  proposalThresholdBPS := 1
  dynamicQuorumParams := ⟨200, 2000, 0⟩

def sampleWorld : World samplePlatform :=
  (sampleSetup.deploy samplePlatform (.block 6 60)).toOption.get (by decide +kernel)

theorem sampleWorld_deployed : sampleSetup.deploy samplePlatform (.block 6 60) = .ok sampleWorld :=
  eq_ok_get _

def sampleCall (sender : Address) (value : Nat) (op : GovOp)
    (replies : Replies (GovCall samplePlatform) := .nil)
    (h : decide (sender ≠ 0 ∧ sender ≠ 10) = true := by exact Eq.refl true) :
    Call (GovCall samplePlatform) :=
  .mk ⟨⟨sender, value, (of_decide_eq_true h).1⟩, op, (of_decide_eq_true h).2⟩ replies

/-- a mint gives accounts `2` and `4` a vote each; `2` proposes to send 3 wei to `9` -/
def proposeTxs : List (Tx Env (GovCall samplePlatform)) :=
  [⟨.block 7 70, sampleCall 4 0 (.entry (.token (.mint fun _ => .ok ⟨0, 0, 0, 0, 0⟩)))⟩,
   ⟨.block 8 80, sampleCall 2 0 (.entry (.dao (.propose [9] [3] [""] [[]] "three wei")))⟩]

/-- `2` votes for it; from the refund of that vote `4` votes against it -/
def refundTxs : List (Tx Env (GovCall samplePlatform)) :=
  proposeTxs ++
  [⟨.block 8 80, sampleCall 7 1000 (.entry (.dao .receive))⟩,
   ⟨.block 10 100, sampleCall 2 0 (.entry (.dao (.castRefundableVote 1 1 50000)))
     (.cons true (.cons (sampleCall 4 0 (.entry (.dao (.castVote 1 0)))) .nil) .nil)⟩]

theorem tallies_eq_receipts_run :
    let last := (runTxs GovCall.code refundTxs ⟨[], sampleWorld⟩).2
    last.past.length = 5 ∧ (last.now.dao.proposals 1).forVotes = 1 ∧
      (last.now.dao.proposals 1).againstVotes = 1 ∧ Tallied (last.now.dao.proposals 1) ∧
      (runTxs GovCall.code (refundTxs ++
        [⟨.block 11 110, sampleCall 2 0 (.entry (.dao (.castVote 1 0)))⟩]) ⟨[], sampleWorld⟩).2
        = last := by
  intro last
  have h := tallies_eq_receipts sampleSetup (.block 6 60) sampleWorld sampleWorld_deployed refundTxs
    (by simp [refundTxs, proposeTxs, Env.le_def, Env.block])
  refine ⟨by decide +kernel, by decide +kernel, by decide +kernel,
    (h.1 _ (final_mem_observations _ _ _ _)).1 1, h.2 _
      (.error "NounsDAO::castVoteInternal: voter already voted")
      (eq_error_of_failure (by decide +kernel))⟩

end UNouns
