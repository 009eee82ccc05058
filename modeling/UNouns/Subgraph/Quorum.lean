import UNouns.Subgraph.Origin
import UNouns.Governance.Safety
import UNouns.Governance.Continuity

/-!
# Is the quorum of the subgraph that of the contract?

The mapping works out the quorum of a proposal at every vote, from the parameters and the supply that
it found when the proposal was created, unless the proposal is not younger than the first of these
parameters.  The contract works it out from the parameters at the end of the block of the proposal.

* `Steady`      a step after which the two still have the same numbers;
* `Reckoned`    then the quote of a proposal is right;
* `quorumVotes_indexed`   so in a run of steady steps they have the same quorum after every vote.
-/

set_option linter.unusedVariables false
set_option linter.unusedSectionVars false

namespace UNouns.Subgraph
open Function Relation Reentrant Checkpoints Journal NounsDAOLogicV2

/-! ## steady runs -/

section
variable {P : Platform}

/-- a step after which the two still have the same numbers: it does not set the quorum parameters in
the block of a proposal, a proposal that it makes is behind the gate, and the votes so far can be
counted -/
structure Steady (r : GovRecord P) : Prop where
  setsQuorum : r.op.op.setsQuorum = true → ∀ id ≤ r.pre.dao.proposalCount, ∀ k,
    r.pre.dao.quote id = some k → (r.pre.dao.proposals id).creationBlock ≠ r.env.number
  proposes : r.op.op.proposes = true → Gated r.pre.dao r.env.number
  votes : Countable r.pre.dao

def SteadyRun (c : GovConfig P) : Prop := (∀ r ∈ c.past, Steady r) ∧ Countable c.now.dao

theorem SteadyRun.countable {c : GovConfig P} (h : SteadyRun c) : CountableRun c :=
  ⟨fun r hr => (h.1 r hr).votes, h.2⟩

/-- the quotes of the proposals that came after the first `n₀` are right, and who votes is counted -/
structure Reckoned (n₀ : Nat) (d : NounsDAOLogicV2) : Prop where
  truthful : Truthful d
  quoted : ∀ id, n₀ < id → id ≤ d.proposalCount → ∃ k, QuotedAt d id k
  polled : ∀ voter id support votes reason, .voteCast voter id support votes reason ∈ d.logs →
    n₀ < id → Voted (d.proposals id)

/-- a vote stays -/
theorem DaoChange.voted {env : Env} {d d' : NounsDAOLogicV2} (h : DaoChange env d d') (hd : Blank d)
    {i : Nat} (hv : Voted (d.proposals i)) : Voted (d'.proposals i) := by
  rcases h.ballots hd i with hb | ⟨voter, support, votes, _, _, _, hi⟩
  · exact (voted_of_ballots hb).mpr hv
  · rw [hi]
    exact voted_withVote _ _ _ _

/-- the proposal of a vote has a vote -/
theorem Deed.voted {env : Env} {t : UNounsToken} {d d' : NounsDAOLogicV2} {x : Option Nat}
    {vs : List DaoEvent} (hd : Deed env t d x vs d') {voter : Address} {id support votes : Nat}
    {reason : String}
    (hv : .voteCast voter id support votes reason ∈ vs) : Voted (d'.proposals id) := by
  have habout : (DaoEvent.voteCast voter id support votes reason).about ≠ none := nofun
  cases hd with
  | settings vs d' _ _ _ hquiet => exact absurd (hquiet _ hv).about habout
  | params old vs d' _ _ _ _ _ hnone => exact absurd (hnone _ hv) habout
  | propose => simp [Proposal.created] at hv
  | vote voter' id' support' votes' balance reason' d1 hcast =>
    rw [List.mem_singleton] at hv
    injection hv with _ hid
    subst hid
    obtain ⟨_, _, _, _, hset⟩ := castVoteInternal_ok hcast
    show Voted (d1.proposals id)
    rw [hset.self]
    exact voted_withVote _ _ _ _
  | queue | cancel | veto | executed => simp at hv
  | execute => simp at hv

/-- **A steady deed keeps the quotes right.** -/
theorem Deed.reckoned {n₀ b₀ : Nat} {env : Env} {w w' : World P} (hg : Ground n₀ b₀ env w)
    (h : Reckoned n₀ w.dao) {x : Option Nat} {vs : List DaoEvent}
    (hd : Deed env w.token w.dao x vs w'.dao)
    (hsets : w'.dao.quorumParamsCheckpoints ≠ w.dao.quorumParamsCheckpoints →
      ∀ id ≤ w.dao.proposalCount, ∀ k, w.dao.quote id = some k →
        (w.dao.proposals id).creationBlock ≠ env.number)
    (hgated : w.dao.proposalCount < w'.dao.proposalCount → Gated w.dao env.number) :
    Reckoned n₀ w'.dao := by
  refine ⟨hd.truthful hg.sane h.truthful, fun id h1 h2 => ?_, fun voter id support votes reason hv h1 => ?_⟩
  · by_cases hid : id ≤ w.dao.proposalCount
    · obtain ⟨k, hk⟩ := h.quoted id h1 hid
      exact ⟨k, hd.quotedAt hg.sane h1 hid (fun hc => hsets hc id hid k hk.quote) hk⟩
    · rcases hd.count with hc | ⟨_, _, _, _, _, _, minQuorum, hp, hmin, hlogs⟩
      · exact absurd (hc ▸ h2) hid
      · have hcount := (propose_new hp).1
        obtain rfl : id = w.dao.proposalCount + 1 := by omega
        exact ⟨_, propose_quotedAt hg.sane hg.listed h.truthful (hgated (by omega)) hp hmin hlogs⟩
  · rw [hd.logs] at hv
    rcases List.mem_append.mp hv with hold | hnew
    · exact DaoChange.voted hd.change hg.sane.fresh (h.polled _ _ _ _ _ hold h1)
    · exact Deed.voted hd hnew

/-- an entry that makes a proposal says so -/
theorem GovBegin.proposes {env : Env} {c : GovCall P} {w w' : World P} (h : GovBegin env c w w')
    (hc : w.dao.proposalCount < w'.dao.proposalCount) : c.op.proposes = true := by
  obtain ⟨description, hcall⟩ := (GovStep.created h.step hc (Nat.le_refl _)).call
  exact congrArg GovOp.proposes hcall

theorem Opens.reckoned {e : Env} {w : World P} {js : List (Block × ChainEvent)} (h : Opens e w js) :
    Reckoned w.dao.proposalCount w.dao :=
  ⟨h.truthful, fun id h1 h2 => absurd h2 (Nat.not_le.mpr h1),
    fun voter id support votes reason hv _ => nomatch h.unvoiced _ hv⟩

theorem Reckoned.move {n₀ b₀ : Nat} {e : Env} {c c' : GovConfig P} (hg : Ground n₀ b₀ e c.now)
    (h : Reckoned n₀ c.now.dao) (hm : GovExact e c c') (hsteady : ∀ r ∈ c'.past, Steady r) :
    Reckoned n₀ c'.now.dao := by
  cases hm with
  | enter op w hb =>
    have hr := hsteady ⟨e, c.now, op⟩ (List.mem_append_right _ (List.mem_singleton_self _))
    obtain ⟨vs, hd⟩ := GovBegin.deed hb
    refine Deed.reckoned hg h hd (fun hc => hr.setsQuorum ?_) fun hc => hr.proposes (GovBegin.proposes hb hc)
    by_contra hn
    exact hc ((GovBegin.rules hb).checkpoints (by simpa using hn))
  | resume w hr =>
    obtain ⟨_, _, hc, hcps, _⟩ := GovRest.dao hr.rest
    obtain ⟨vs, hd⟩ := hr.deed
    exact Deed.reckoned hg h hd (fun hne => absurd hcps hne) fun hlt => absurd hc (Nat.ne_of_gt hlt)

/-- **In a steady run the quotes are right.** -/
theorem runs_reckoned {e : Env} {w : World P} {js : List (Block × ChainEvent)} (hw : Begins e w js)
    {y : Env × GovConfig P} (h : ReflTransGen (Timed GovExact) (e, ⟨[], w⟩) y)
    (hsteady : ∀ r ∈ y.2.past, Steady r) : Reckoned w.dao.proposalCount y.2.now.dao := by
  have ho := hw.opens
  refine (Timed.invariant_under (P := fun c : GovConfig P => ∀ r ∈ c.past, Steady r)
    (I := fun e' (c : GovConfig P) => Ground w.dao.proposalCount e.number e' c.now ∧
      Reckoned w.dao.proposalCount c.now.dao)
    (fun _ c c' hm hs r hr => hs r ((Move.past_prefix hm).subset hr))
    (fun e' c c' _ hP' hI hm => ⟨hI.1.move hm, Reckoned.move hI.1 hI.2 hm hP'⟩)
    (fun _ _ _ hI he => ⟨hI.1.tick he, hI.2⟩) h ⟨ho.ground, ho.reckoned⟩ hsteady).2

/-- what the contract and the entity make of the quorum of a proposal with a vote -/
theorem Followed.quorumVotes {n₀ n : Nat} {js : List (Block × ChainEvent)} {e₀ e : Env}
    {c : GovConfig P} (h : Followed n₀ js n e₀ e c) (hq : Reckoned n₀ c.now.dao)
    (hcount : Countable c.now.dao) {id : Nat} (h1 : n₀ < id) (h2 : id ≤ c.now.dao.proposalCount)
    (hv : Voted (c.now.dao.proposals id)) {s : Store} (hm : Noted n₀ e₀.number c.now s) :
    ∃ x k m, s.proposals id = some x ∧
      Figures k (c.now.dao.dynamic id) (display c.now.dao id) (c.now.dao.proposals id) x ∧
      c.now.dao.quorumVotes id = .ok m ∧ x.quorumVotes = (m : Int) := by
  obtain ⟨k, x, hk, hx, hfig⟩ := hm.entries id h1 h2
  obtain ⟨k', hquoted⟩ := hq.quoted id h1 h2
  obtain rfl : k = k' := Option.some.inj (hk.symm.trans hquoted.quote)
  have hquorum := hquoted.quorumVotes (h.ground.sane.wellFormed id h1 h2).quorumVotes
    fun hd => (hcount id h2 k hk hd hv).1
  refine ⟨x, k, _, hx, hfig, hquorum, ?_⟩
  cases hd : c.now.dao.dynamic id with
  | true => exact hfig.dynamic hd hv
  | false => exact hfig.fixed hd

end

/-! ## the formula -/

theorem dynamicQuorumVotes_none {x y : Int} {against supply minBPS maxBPS coefficient : Int}
    (h1 : divBigInt (against * 10000) supply = some x)
    (h2 : divBigInt (coefficient * x) 1000000 = some y) (h3 : toI32 (y + minBPS) = none) :
    dynamicQuorumVotes against supply minBPS maxBPS coefficient = none := by
  unfold dynamicQuorumVotes
  simp only [h1, h2, h3, Option.bind_eq_bind, Option.bind_some, Option.bind_none]

/-- where the two formulas agree -/
theorem dynamicQuorumVotes_eq_iff (p : UNouns.DynamicQuorumParams) {supply against n : Nat}
    (h : NounsDAOLogicV2.dynamicQuorumVotes against supply p = .ok n) :
    dynamicQuorumVotes against supply p.minQuorumVotesBPS.toNat p.maxQuorumVotesBPS.toNat
      p.quorumCoefficient.toNat = some (n : Int) ↔ Fits p supply against := by
  have hs : supply ≠ 0 := by
    simp only [NounsDAOLogicV2.dynamicQuorumVotes, bind_eq_ok, pure_eq_ok] at h
    obtain ⟨_, hs, _⟩ := h
    exact revertUnless_eq_ok.mp hs
  rw [UNouns.dynamicQuorumVotes_eq hs] at h
  obtain rfl := Except.ok.inj h
  refine ⟨fun h => ?_, fun hf => dynamicQuorumVotes_eq hs hf⟩
  by_contra hf
  have hnone := toI32_none hf
  rw [Nat.cast_add] at hnone
  obtain ⟨h1, h2⟩ := quorumAdjustmentBPS_eq p against hs
  rw [dynamicQuorumVotes_none h1 h2 hnone] at h
  cases h

section
variable {P : Platform}

/-- **The quorum of the subgraph is the quorum of the contract** after every vote for a proposal of the
second version, in a run whose steps are steady: none sets a quorum parameter in the block of a
proposal, or makes a proposal before the gate, and the votes can be counted.  The formulas agree on
what fits into an `i32`. -/
theorem quorumVotes_indexed :
    (∀ (e : Env) (w : World P) (js : List (Block × ChainEvent)), Begins e w js →
      ∀ ts : List (Tx Env (GovCall P)), (e :: ts.map Tx.env).IsChain (· ≤ ·) →
      ∀ o ∈ observations GovCall.code e ts ⟨[], w⟩,
      ∀ before r after, o.2.past = before ++ r :: after →
      let here := o.2.cut before r after
      SteadyRun here → ∀ voter id support votes reason, w.dao.proposalCount < id →
      .voteCast voter id support votes reason ∈ here.now.dao.logs →
      ∀ es : List (Event ChainEvent),
        es.map Event.entry = journalAfter js w.token.logs.length e here →
      ∃ s x n, read .empty es = some s ∧ s.proposals id = some x ∧
        here.now.dao.quorumVotes id = .ok n ∧ x.quorumVotes = n) ∧
    ∀ (p : UNouns.DynamicQuorumParams) (supply against n : Nat),
      NounsDAOLogicV2.dynamicQuorumVotes against supply p = .ok n →
      (dynamicQuorumVotes against supply p.minQuorumVotesBPS.toNat p.maxQuorumVotesBPS.toNat
        p.quorumCoefficient.toNat = some (n : Int) ↔ Fits p supply against) := by
  refine ⟨?_, fun p _ _ _ h => dynamicQuorumVotes_eq_iff p h⟩
  intro e w js hw ts hch o ho before r after hpast here hsteady voter id support votes reason h1 hv es hes
  have hr := observations_timed GovCall.follows_exact hch ho
  obtain ⟨⟨e', hf⟩, hq⟩ := Timed.cut (K := fun c => SteadyRun c →
      (∃ e', Followed w.dao.proposalCount js w.token.logs.length e e' c) ∧
        Reckoned w.dao.proposalCount c.now.dao) hr
    (fun y hy hs => ⟨⟨y.1, runs_followed hw hy hs.countable⟩, runs_reckoned hw hy hs.1⟩) rfl
    before r after hpast hsteady
  obtain ⟨s, hs, hm⟩ := hf.noted es hes
  obtain ⟨x, k, n, hx, _, hn, hxn⟩ := hf.quorumVotes hq hsteady.2 h1 (hf.ground.listed _ hv id rfl)
    (hq.polled _ _ _ _ _ hv h1) hm
  exact ⟨s, x, n, hs, hx, hn, hxn⟩

/-- a run whose votes can be counted, in which no step sets a parameter in the block of a proposal or
makes one before the gate -/
theorem steadyRun_of_plain {c : GovConfig P} (hc : CountableRun c)
    (h : ∀ r ∈ c.past, (r.op.op.setsQuorum = true → ∀ id ≤ r.pre.dao.proposalCount,
        (r.pre.dao.proposals id).creationBlock ≠ r.env.number) ∧
      (r.op.op.proposes = true → Gated r.pre.dao r.env.number)) : SteadyRun c :=
  ⟨fun r hr => ⟨fun hset id hid _ _ => (h r hr).1 hset id hid, (h r hr).2, hc.1 r hr⟩, hc.2⟩

end

/-! ## runs -/

deriving instance DecidableEq for DaoEvent

/-- the events of the first version until its DAO is upgraded -/
def firstEvents : List (Block × ChainEvent) :=
  older ⟨8, 80⟩ underway.token.logs underway.dao.events

theorem underway_begins : Begins (.block 9 90) underway.upgrade firstEvents :=
  .upgraded sampleSetupV1 sampleWorldV1 sampleWorldV1_deployed sampleWorldV1.token
    (GovSetupV1.deploy_aged sampleWorldV1_deployed).token (.block 6 60) proposeTxsV1
    (by simp [proposeTxsV1, Env.le_def, Env.block]) _ (final_mem_observations _ _ _ _)
    (by decide +kernel) _ (older_preceded (by decide) _ _)

/-- the quorum parameters are set, `4` proposes to send 5 wei to `9`, and `2` votes against it -/
def secondTxs : List (Tx Env (GovCall domainPlatform)) :=
  [⟨.block 10 100, newCall 11 (.entry (.dao (.setDynamicQuorumParams 2000 6000 1000000)))⟩,
   ⟨.block 11 110, newCall 4 (.entry (.dao (.propose [9] [5] [""] [[]] "five wei")))⟩,
   ⟨.block 13 130, newCall 2 (.entry (.dao (.castVote 2 0)))⟩]

theorem quorumVotes_indexed_run :
    let last := (runTxs GovCall.code secondTxs ⟨[], underway.upgrade⟩).2
    last.now.dao.quorumVotes 2 = .ok 1 ∧ (∃ s x, read .empty (unhashed (journalAfter firstEvents
        underway.token.logs.length (.block 9 90) last)) = some s ∧
      s.proposals 2 = some x ∧ x.quorumVotes = 1) ∧
      dynamicQuorumVotes 3 10 1000 4000 1000000 = some 4 := by
  intro last
  have hne : last.past ≠ [] := by decide +kernel
  have hlast : last.cut last.past.dropLast (last.past.getLast hne) [] = last :=
    congrArg (fun past => Config.mk past last.now) (List.dropLast_append_getLast hne)
  have h := quorumVotes_indexed.1 (.block 9 90) underway.upgrade firstEvents underway_begins
    secondTxs (by simp [secondTxs, Env.le_def, Env.block]) _
    (final_mem_observations _ _ _ _) last.past.dropLast (last.past.getLast hne) []
    (List.dropLast_append_getLast hne).symm
  rw [hlast] at h
  have hquorum : last.now.dao.quorumVotes 2 = .ok 1 := by decide +kernel
  obtain ⟨s, x, n, hs, hx, hn, hxn⟩ := h (steadyRun_of_plain
    (countableRun_of_plain (by decide +kernel) (by decide +kernel)) (by decide +kernel))
    2 2 0 1 "" (by decide +kernel) (by decide +kernel) _ (unhashed_entry _)
  refine ⟨hquorum, ⟨s, x, hs, hx, ?_⟩, ?_⟩
  · rw [hxn, Except.ok.inj (hn.symm.trans hquorum)]
    rfl
  · exact (quorumVotes_indexed (P := samplePlatform).2 ⟨1000, 4000, 1000000⟩ 10 3 4
      (by decide +kernel)).mpr (by decide)

/-- **A proposal whose parameters are set after it in its block**: a vote against it raises the quorum
of the contract, not that of the subgraph. -/
theorem not_quorumVotes_indexed :
    let last := (runTxs GovCall.code (tunedTxs ++ againstTxs) ⟨[], sampleWorld⟩).2
    .voteCast 4 1 0 1 "" ∈ last.now.dao.logs ∧ last.now.dao.quorumVotes 1 = .ok 1 ∧
      ((read .empty (sampleEvents last)).bind (·.proposals 1)).map (·.quorumVotes) = some 0 := by
  intro last
  exact ⟨by decide +kernel, by decide +kernel, by decide +kernel⟩

/-- the gate: after an upgrade the first parameters are set, and a proposal is made, in one block -/
def gateTxs : List (Tx Env (GovCall domainPlatform)) :=
  [⟨.block 11 110, newCall 11 (.entry (.dao (.setDynamicQuorumParams 2000 6000 1000000)))⟩,
   ⟨.block 11 110, newCall 4 (.entry (.dao (.propose [9] [5] [""] [[]] "five wei")))⟩,
   ⟨.block 13 130, newCall 2 (.entry (.dao (.castVote 2 0)))⟩]

example : let last := (runTxs GovCall.code gateTxs ⟨[], underway.upgrade⟩).2
    last.now.dao.quorumVotes 2 = .ok 1 ∧ ((read .empty (unhashed (journalAfter firstEvents
      underway.token.logs.length (.block 9 90) last))).bind (·.proposals 2)).map (·.quorumVotes)
        = some 0 := by decide +kernel

end UNouns.Subgraph
