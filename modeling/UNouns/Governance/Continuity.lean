import UNouns.Governance.Upgrade
import UNouns.Governance.Tallies
import UNouns.Lib.Simulation

/-!
# Proposals across the upgrade

* `Upgraded`             the two versions side by side, some time after the upgrade;
* `Upgraded.state`       they agree on the state of every proposal;
* `SameCall`             the same call of both versions; a ballot is signed for the version it goes to;
* `upgrade_simulation`   such a call does the same in both, and quorum parameters do not show;
* `upgrade_preserves`    so proposals under way at the upgrade go on as they would have;
* `not_upgrade_preserves`  but not with a ballot that was signed for the first version.
-/

set_option linter.unusedVariables false

namespace UNouns
open Function Relation Reentrant Checkpoints

/-! ## side by side -/

/-- the first version in `d₁` and the second in `d₂`, since the storage was `d₀` -/
structure Upgraded (d₀ d₁ : NounsDAOLogicV1) (d₂ : NounsDAOLogicV2) : Prop where
  admin : d₂.admin = d₁.admin
  vetoer : d₂.vetoer = d₁.vetoer
  votingDelay : d₂.votingDelay = d₁.votingDelay
  votingPeriod : d₂.votingPeriod = d₁.votingPeriod
  proposalCount : d₂.proposalCount = d₁.proposalCount
  proposals : ∀ i, d₂.proposals i = (d₁.proposals i).upgrade
  numbered : Numbered d₁
  proposer : ∀ i, (d₁.proposals i).proposer = (d₀.proposals i).proposer

theorem Numbered.upgraded {d : NounsDAOLogicV1} (h : Numbered d) : Upgraded d d d.upgrade :=
  ⟨rfl, rfl, rfl, rfl, rfl, fun _ => rfl, h, fun _ => rfl⟩

section
variable {d₀ d₁ : NounsDAOLogicV1} {d₂ : NounsDAOLogicV2} {env : Env}

/-- the quorum of an old proposal is the one it was made with -/
theorem Upgraded.defeated (h : Upgraded d₀ d₁ d₂) {i : Nat} (hi : i ≤ d₁.proposalCount) :
    d₂.defeated (d₂.proposals i)
      = .ok (decide ((d₁.proposals i).forVotes ≤ (d₁.proposals i).againstVotes ∨
          (d₁.proposals i).forVotes < (d₁.proposals i).quorumVotes)) := by
  have hid : (d₂.proposals i).id = i := by
    rw [h.proposals]
    exact h.numbered i hi
  have hquorum : d₂.quorumVotes i = .ok (d₁.proposals i).quorumVotes := by
    rw [NounsDAOLogicV2.quorumVotes, h.proposals]
    rfl
  rw [NounsDAOLogicV2.defeated, hid, hquorum, h.proposals]
  show (if (d₁.proposals i).forVotes ≤ (d₁.proposals i).againstVotes then _ else _) = _
  by_cases hle : (d₁.proposals i).forVotes ≤ (d₁.proposals i).againstVotes
  · rw [if_pos hle, decide_eq_true (.inl hle)]
    rfl
  · rw [if_neg hle]
    simp only [hle, false_or]
    rfl

theorem Upgraded.state (h : Upgraded d₀ d₁ d₂) (env : Env) (i : Nat) :
    d₂.state env i = d₁.state env i := by
  by_cases hi : i ≤ d₁.proposalCount
  · rw [NounsDAOLogicV2.state_eq (h.proposalCount ▸ hi) (h.defeated hi), h.proposals]
    simp only [NounsDAOLogicV1.state, require, if_pos hi, NounsDAOLogicV2.phase]
    simp only [ProposalV1.upgrade, decide_eq_true_eq]
    rfl
  · simp only [NounsDAOLogicV1.state, NounsDAOLogicV2.state, require, h.proposalCount, if_neg hi]
    rfl

theorem Upgraded.creationBlock (h : Upgraded d₀ d₁ d₂) (p : ProposalV1) :
    d₂.proposalCreationBlock p.upgrade = checkedSub p.startBlock d₁.votingDelay := by
  rw [NounsDAOLogicV2.proposalCreationBlock, if_pos (show p.upgrade.creationBlock = 0 from rfl),
    h.votingDelay]
  rfl

/-- both rewrite one proposal, whose id and proposer stay -/
theorem Upgraded.set (h : Upgraded d₀ d₁ d₂) {id : Nat} (p₁ : ProposalV1) {p₂ : Proposal}
    (hp : p₂ = p₁.upgrade) (hid : p₁.id = (d₁.proposals id).id)
    (hproposer : p₁.proposer = (d₁.proposals id).proposer) (logs₁ : List DaoEventV1)
    (logs₂ : List DaoEvent) :
    Upgraded d₀ { d₁ with proposals := update d₁.proposals id p₁, logs := logs₁ }
      { d₂ with proposals := update d₂.proposals id p₂, logs := logs₂ } := by
  refine ⟨h.admin, h.vetoer, h.votingDelay, h.votingPeriod, h.proposalCount, fun i => ?_,
    h.numbered.set rfl rfl hid, fun i => ?_⟩
  · show update d₂.proposals id p₂ i = (update d₁.proposals id p₁ i).upgrade
    by_cases e : i = id
    · rw [e, update_self, update_self, hp]
    · rw [update_of_ne e, update_of_ne e, h.proposals]
  · show (update d₁.proposals id p₁ i).proposer = _
    by_cases e : i = id
    · rw [e, update_self, hproposer, h.proposer]
    · rw [update_of_ne e, h.proposer]

/-! ## functions of both versions -/

theorem require_alike {p q : Prop} [Decidable p] [Decidable q] (h : p ↔ q) (e₁ : String)
    (e₂ : Revert) : Alike (fun _ _ => True) (require p e₁) (revertUnless q e₂) := by
  unfold require revertUnless
  by_cases hp : p
  · rw [if_pos hp, if_pos (h.mp hp)]
    exact .ok _ _ trivial
  · rw [if_neg hp, if_neg (mt h.mpr hp)]
    exact .error _ _

theorem Upgraded.castVoteInternal (h : Upgraded d₀ d₁ d₂) (t : UNounsToken) (voter : Address)
    (id support : Nat) :
    Alike (fun a b => a.2 = b.2 ∧ ∀ logs₁ logs₂, Upgraded d₀ { a.1 with logs := logs₁ }
        { b.1 with logs := logs₂ })
      (d₁.castVoteInternal env t voter id support) (d₂.castVoteInternal env t voter id support) := by
  unfold NounsDAOLogicV1.castVoteInternal NounsDAOLogicV2.castVoteInternal
  rw [h.state, h.proposals]
  refine .after _ fun s => .after _ fun _ => .after _ fun _ => .after _ fun _ => ?_
  show Alike _ _ (d₂.proposalCreationBlock (d₁.proposals id).upgrade >>= _)
  rw [h.creationBlock]
  refine .after _ fun b => .after _ fun votes => .ok _ _ ⟨rfl, fun logs₁ logs₂ => ?_⟩
  obtain ⟨hid, hproposer⟩ := ProposalV1.withVote_header (d₁.proposals id) voter support votes
  exact h.set _ (ProposalV1.upgrade_withVote _ _ _ _).symm hid hproposer logs₁ logs₂

theorem Upgraded.castVoteWithEvent (h : Upgraded d₀ d₁ d₂) (t : UNounsToken) (voter : Address)
    (id support : Nat) (reason : String) :
    Alike (fun a b => Upgraded d₀ a b.1) (d₁.castVoteWithEvent env t voter id support reason)
      (d₂.castVoteWithEvent env t voter id support reason) :=
  (h.castVoteInternal t voter id support).bind fun a b hab => .ok _ _ (hab.2 _ _)

theorem Upgraded.setVotingDelay (h : Upgraded d₀ d₁ d₂) (sender : Address) (n : Nat) :
    Alike (Upgraded d₀) (d₁.setVotingDelay sender n) (d₂.setVotingDelay sender n) := by
  unfold NounsDAOLogicV1.setVotingDelay NounsDAOLogicV2.setVotingDelay
  refine (require_alike (by rw [h.admin]) _ _).bind fun _ _ _ => .after _ fun _ => .ok _ _ ?_
  exact { h with votingDelay := rfl }

theorem Upgraded.setVotingPeriod (h : Upgraded d₀ d₁ d₂) (sender : Address) (n : Nat) :
    Alike (Upgraded d₀) (d₁.setVotingPeriod sender n) (d₂.setVotingPeriod sender n) := by
  unfold NounsDAOLogicV1.setVotingPeriod NounsDAOLogicV2.setVotingPeriod
  refine (require_alike (by rw [h.admin]) _ _).bind fun _ _ _ => .after _ fun _ => .ok _ _ ?_
  exact { h with votingPeriod := rfl }

variable {P : Platform}

/-- the same timelock, and the two versions side by side -/
def SamePair (d₀ : NounsDAOLogicV1) (a : NounsDAOExecutor P × NounsDAOLogicV1)
    (b : NounsDAOExecutor P × NounsDAOLogicV2) : Prop :=
  b.1 = a.1 ∧ Upgraded d₀ a.2 b.2

theorem Upgraded.queue (h : Upgraded d₀ d₁ d₂) (tl : NounsDAOExecutor P) (id : Nat) :
    Alike (SamePair d₀) (d₁.queue env tl id) (d₂.queue env tl id) := by
  unfold NounsDAOLogicV1.queue NounsDAOLogicV2.queue
  rw [h.state, h.proposals]
  refine .after _ fun s => .after _ fun _ => .after _ fun tl' => .ok _ _ ⟨rfl, ?_⟩
  exact h.set { d₁.proposals id with eta := env.timestamp + tl.delay } rfl rfl rfl _ _

theorem Upgraded.beginExecute (env : Env) (h : Upgraded d₀ d₁ d₂) (id : Nat) :
    Alike (Upgraded d₀) (d₁.beginExecute env id) (d₂.beginExecute env id) := by
  unfold NounsDAOLogicV1.beginExecute NounsDAOLogicV2.beginExecute
  rw [h.state, h.proposals]
  refine .after _ fun s => .after _ fun _ => .ok _ _ ?_
  exact h.set { d₁.proposals id with executed := true } rfl rfl rfl _ _

/-- a proposer may always cancel -/
theorem Upgraded.cancel (h : Upgraded d₀ d₁ d₂) (t : UNounsToken) (tl : NounsDAOExecutor P) {id : Nat}
    {sender : Address} (hs : sender = (d₀.proposals id).proposer) :
    Alike (SamePair d₀) (d₁.cancel env sender t tl id) (d₂.cancel env sender t tl id) := by
  have h1 : sender = (d₁.proposals id).proposer := hs.trans (h.proposer id).symm
  have h2 : sender = (d₁.proposals id).upgrade.proposer := h1
  unfold NounsDAOLogicV1.cancel NounsDAOLogicV2.cancel
  rw [h.state, h.proposals]
  refine .after _ fun s => (require_alike Iff.rfl _ _).bind fun _ _ _ => ?_
  simp only [if_pos h1, if_pos h2]
  refine .after _ fun _ => .after _ fun _ => .after _ fun tl' => .ok _ _ ⟨rfl, ?_⟩
  exact h.set { d₁.proposals id with canceled := true } rfl rfl rfl _ _

theorem Upgraded.veto (h : Upgraded d₀ d₁ d₂) (tl : NounsDAOExecutor P) (sender : Address) (id : Nat) :
    Alike (SamePair d₀) (d₁.veto env sender tl id) (d₂.veto env sender tl id) := by
  unfold NounsDAOLogicV1.veto NounsDAOLogicV2.veto
  rw [h.state, h.proposals]
  refine (require_alike (by rw [h.vetoer]) _ _).bind fun _ _ _ =>
    (require_alike (by rw [h.vetoer]) _ _).bind fun _ _ _ => .after _ fun s =>
    (require_alike Iff.rfl _ _).bind fun _ _ _ => .after _ fun tl' => .ok _ _ ⟨rfl, ?_⟩
  exact h.set { d₁.proposals id with vetoed := true } rfl rfl rfl _ _

end

/-! ## calls of both versions -/

/-- what both versions offer.  A proposal is canceled by its proposer; a ballot is signed for the
version it goes to, by the same signatory. -/
inductive SameOp (P : Platform) (d₀ : NounsDAOLogicV1) (env : Env) (sender : Address) :
    GovOpV1 → GovOp → Prop
  | token (op : TokenOp) : SameOp P d₀ env sender (.entry (.token op)) (.entry (.token op))
  | timelock (op : ExecutorOp) :
      SameOp P d₀ env sender (.entry (.timelock op)) (.entry (.timelock op))
  | castVote (id support : Nat) :
      SameOp P d₀ env sender (.entry (.dao (.castVote id support)))
        (.entry (.dao (.castVote id support)))
  | castVoteWithReason (id support : Nat) (reason : String) :
      SameOp P d₀ env sender (.entry (.dao (.castVoteWithReason id support reason)))
        (.entry (.dao (.castVoteWithReason id support reason)))
  | castVoteBySig (id support : Nat) (sig₁ sig₂ : Signature)
      (h : P.ecrecover (.ballot NounsDAOLogicV1.name env.chainId id support) sig₁
        = P.ecrecover (.ballot NounsDAOLogicV2.name env.chainId id support) sig₂) :
      SameOp P d₀ env sender (.entry (.dao (.castVoteBySig id support sig₁)))
        (.entry (.dao (.castVoteBySig id support sig₂)))
  | setVotingDelay (n : Nat) :
      SameOp P d₀ env sender (.entry (.dao (.setVotingDelay n))) (.entry (.dao (.setVotingDelay n)))
  | setVotingPeriod (n : Nat) :
      SameOp P d₀ env sender (.entry (.dao (.setVotingPeriod n)))
        (.entry (.dao (.setVotingPeriod n)))
  | queue (id : Nat) : SameOp P d₀ env sender (.entry (.queue id)) (.entry (.queue id))
  | cancel (id : Nat) (h : sender = (d₀.proposals id).proposer) :
      SameOp P d₀ env sender (.entry (.cancel id)) (.entry (.cancel id))
  | veto (id : Nat) : SameOp P d₀ env sender (.entry (.veto id)) (.entry (.veto id))
  | execute (id : Nat) : SameOp P d₀ env sender (.execute id) (.execute id)

structure SameCall {P : Platform} (d₀ : NounsDAOLogicV1) (env : Env) (c₁ : GovCallV1 P)
    (c₂ : GovCall P) : Prop where
  msg : c₁.msg = c₂.msg
  op : SameOp P d₀ env c₂.msg.sender c₁.op c₂.op

/-- a change of the quorum parameters, which the first version does not have -/
inductive SetsQuorum {P : Platform} (c : GovCall P) : Prop
  | min (n : UInt16) (h : c.op = .entry (.dao (.setMinQuorumVotesBPS n)))
  | max (n : UInt16) (h : c.op = .entry (.dao (.setMaxQuorumVotesBPS n)))
  | coefficient (n : UInt32) (h : c.op = .entry (.dao (.setQuorumCoefficient n)))
  | all (a b : UInt16) (n : UInt32) (h : c.op = .entry (.dao (.setDynamicQuorumParams a b n)))

section
variable {P : Platform} {d₀ : NounsDAOLogicV1} {env : Env}

/-- the two systems side by side -/
structure Beside (d₀ : NounsDAOLogicV1) (w₁ : WorldV1 P) (w₂ : World P) : Prop where
  token : w₂.token = w₁.token
  timelock : w₂.timelock = w₁.timelock
  dao : Upgraded d₀ w₁.dao w₂.dao

variable {w₁ : WorldV1 P} {w₂ : World P}

theorem Beside.withDao (h : Beside d₀ w₁ w₂) {a : NounsDAOExecutor P × NounsDAOLogicV1}
    {b : NounsDAOExecutor P × NounsDAOLogicV2} (hab : SamePair d₀ a b) :
    Beside d₀ (w₁.withDao a) (w₂.withDao b) :=
  ⟨h.token, hab.1, hab.2⟩

theorem Beside.enter (h : Beside d₀ w₁ w₂) {msg : Msg} {op₁ : GovEntryV1} {op₂ : GovEntry}
    (hop : SameOp P d₀ env msg.sender (.entry op₁) (.entry op₂)) :
    Alike (fun a b => Beside d₀ a.1 b.1 ∧ a.2 = b.2) (op₁.enter env msg w₁) (op₂.enter env msg w₂) := by
  have hvote : ∀ {r₁ : Result NounsDAOLogicV1} {r₂ : Result (NounsDAOLogicV2 × Nat)},
      Alike (fun a b => Upgraded d₀ a b.1) r₁ r₂ →
      Alike (fun (a : WorldV1 P × Option GovExternal) (b : World P × Option GovExternal) =>
        Beside d₀ a.1 b.1 ∧ a.2 = b.2) (r₁.map fun d => ({ w₁ with dao := d }, none))
        ((r₂.map fun r => (r.1, none)).map fun r => ({ w₂ with dao := r.1 }, r.2)) := by
    intro r₁ r₂ hr
    cases hr with
    | error => exact .error _ _
    | ok a b hab => exact .ok _ _ ⟨⟨h.token, h.timelock, hab⟩, rfl⟩
  have hset : ∀ {r₁ : Result NounsDAOLogicV1} {r₂ : Result NounsDAOLogicV2},
      Alike (Upgraded d₀) r₁ r₂ →
      Alike (fun (a : WorldV1 P × Option GovExternal) (b : World P × Option GovExternal) =>
        Beside d₀ a.1 b.1 ∧ a.2 = b.2) (r₁.map fun d => ({ w₁ with dao := d }, none))
        ((r₂.map fun d => (d, none)).map fun r => ({ w₂ with dao := r.1 }, r.2)) := by
    intro r₁ r₂ hr
    cases hr with
    | error => exact .error _ _
    | ok a b hab => exact .ok _ _ ⟨⟨h.token, h.timelock, hab⟩, rfl⟩
  cases hop with
  | token op =>
    unfold GovEntryV1.enter GovEntry.enter
    rw [h.token]
    exact (Alike.refl _).map fun a b e => e ▸ ⟨⟨rfl, h.timelock, h.dao⟩, rfl⟩
  | timelock op =>
    unfold GovEntryV1.enter GovEntry.enter
    rw [h.timelock]
    exact (Alike.refl _).map fun a b e => e ▸ ⟨⟨h.token, rfl, h.dao⟩, rfl⟩
  | castVote id support =>
    refine hvote ?_
    rw [h.token]
    exact h.dao.castVoteWithEvent _ _ _ _ _
  | castVoteWithReason id support reason =>
    refine hvote ?_
    rw [h.token]
    exact h.dao.castVoteWithEvent _ _ _ _ _
  | castVoteBySig id support sig₁ sig₂ hsig =>
    refine hvote ?_
    rw [h.token]
    show Alike _ (w₁.dao.castVoteBySig P env w₁.token id support sig₁)
      (w₂.dao.castVoteBySig P env w₁.token id support sig₂)
    unfold NounsDAOLogicV1.castVoteBySig NounsDAOLogicV2.castVoteBySig
    simp only [hsig]
    exact .after _ fun _ => h.dao.castVoteWithEvent _ _ _ _ _
  | setVotingDelay n => exact hset (h.dao.setVotingDelay _ _)
  | setVotingPeriod n => exact hset (h.dao.setVotingPeriod _ _)
  | queue id =>
    unfold GovEntryV1.enter GovEntry.enter
    rw [h.timelock]
    exact (h.dao.queue _ id).map fun a b hab => ⟨h.withDao hab, rfl⟩
  | cancel id hs =>
    unfold GovEntryV1.enter GovEntry.enter
    rw [h.timelock, h.token]
    exact (h.dao.cancel _ _ hs).map fun a b hab => ⟨h.withDao hab, rfl⟩
  | veto id =>
    unfold GovEntryV1.enter GovEntry.enter
    rw [h.timelock]
    exact (h.dao.veto _ _ id).map fun a b hab => ⟨h.withDao hab, rfl⟩

theorem Beside.after (h : Beside d₀ w₁ w₂) (x : GovExternal) (ok : Bool) :
    Alike (Beside d₀) (x.afterV1 ok w₁) (x.after ok w₂) := by
  cases x with
  | receiver x =>
    unfold GovExternal.afterV1 GovExternal.after
    simp only
    rw [h.token]
    exact (Alike.refl _).map fun a b e => e ▸ ⟨rfl, h.timelock, h.dao⟩
  | target x =>
    unfold GovExternal.afterV1 GovExternal.after
    simp only
    rw [h.timelock]
    exact (Alike.refl _).map fun a b e => e ▸ ⟨h.token, rfl, h.dao⟩
  | refund p => exact .ok _ _ ⟨h.token, h.timelock, { h.dao with }⟩
  | withdraw p => exact .ok _ _ ⟨h.token, h.timelock, { h.dao with }⟩

theorem Beside.beginAction (env : Env) (h : Beside d₀ w₁ w₂) (id i : Nat) :
    Alike (fun a b => Beside d₀ a.1 b.1 ∧ a.2 = b.2) (beginActionV1 env w₁ id i)
      (beginAction env w₂ id i) := by
  unfold beginActionV1 UNouns.beginAction
  rw [h.timelock, h.dao.proposals]
  exact .after _ fun tx => .after _ fun tl => .ok _ _ ⟨⟨h.token, rfl, h.dao⟩, rfl⟩

/-- the loop of `execute`; the induction is on the actions left -/
theorem executeActions_sim {id : Nat} (is : List Nat) : ∀ (w₁ : WorldV1 P) (w₂ : World P),
    Beside d₀ w₁ w₂ →
    Code.Sim (Beside d₀) (executeActionsV1 env id is w₁) (executeActions env id is w₂) := by
  induction is with
  | nil => exact fun w₁ w₂ h => ⟨h.token, h.timelock, { h.dao with }⟩
  | cons i is ih =>
    intro w₁ w₂ h
    have hb := h.beginAction env id i
    unfold executeActionsV1 executeActions
    generalize beginActionV1 env w₁ id i = r₁ at hb
    generalize UNouns.beginAction env w₂ id i = r₂ at hb
    cases hb with
    | error => trivial
    | ok a b hab =>
      obtain ⟨v₁, tx⟩ := a
      obtain ⟨v₂, _⟩ := b
      obtain ⟨hv, rfl⟩ := hab
      refine ⟨rfl, hv, fun u₁ u₂ hu => ?_, ?_⟩
      · simp only
        rw [hu.timelock]
        cases u₁.timelock.endExecute tx true with
        | error e => trivial
        | ok tl => exact ih _ _ ⟨hu.token, rfl, hu.dao⟩
      · trivial

theorem executeProposal_sim (h : Beside d₀ w₁ w₂) (id : Nat) :
    Code.Sim (Beside d₀) (executeProposalV1 env w₁ id) (executeProposal env w₂ id) := by
  have hb := h.dao.beginExecute env id
  have hindices : (w₂.dao.proposals id).indices = (w₁.dao.proposals id).indices := by
    rw [h.dao.proposals]
    rfl
  unfold executeProposalV1 executeProposal
  rw [hindices]
  generalize w₁.dao.beginExecute env id = r₁ at hb
  generalize w₂.dao.beginExecute env id = r₂ at hb
  cases hb with
  | error => trivial
  | ok a b hab => exact executeActions_sim _ _ _ ⟨h.token, h.timelock, hab⟩

/-- new quorum parameters do not concern the old proposals -/
theorem Beside.silent (h : Beside d₀ w₁ w₂) {c : GovCall P} (hc : SetsQuorum c) :
    Code.Silent (Beside d₀) w₁ (c.code env w₂) := by
  have hset : ∀ {r : Result NounsDAOLogicV2}, (∀ d, r = .ok d → ∃ checkpoints logs,
      d = { w₂.dao with quorumParamsCheckpoints := checkpoints, logs := logs }) →
      Code.Silent (Beside d₀) w₁ (Code.once GovExternal.after
        ((r.map fun d => (d, none)).map fun r => ({ w₂ with dao := r.1 }, r.2))) := by
    intro r hr
    cases r with
    | error e => trivial
    | ok d =>
      obtain ⟨checkpoints, logs, rfl⟩ := hr d rfl
      exact ⟨h.token, h.timelock, { h.dao with }⟩
  obtain ⟨msg, op, hout⟩ := c
  cases hc with
  | min n h =>
    cases h
    refine hset fun d hd => ?_
    simp only [NounsDAOLogicV2.setMinQuorumVotesBPS, NounsDAOLogicV2.writeQuorumParamsCheckpoint,
      bind_eq_ok, pure_eq_ok] at hd
    obtain ⟨_, _, _, _, _, _, _, _, _, ⟨_, _, rfl⟩, rfl⟩ := hd
    exact ⟨_, _, rfl⟩
  | max n h =>
    cases h
    refine hset fun d hd => ?_
    simp only [NounsDAOLogicV2.setMaxQuorumVotesBPS, NounsDAOLogicV2.writeQuorumParamsCheckpoint,
      bind_eq_ok, pure_eq_ok] at hd
    obtain ⟨_, _, _, _, _, _, _, _, _, ⟨_, _, rfl⟩, rfl⟩ := hd
    exact ⟨_, _, rfl⟩
  | coefficient n h =>
    cases h
    refine hset fun d hd => ?_
    simp only [NounsDAOLogicV2.setQuorumCoefficient, NounsDAOLogicV2.writeQuorumParamsCheckpoint,
      bind_eq_ok, pure_eq_ok] at hd
    obtain ⟨_, _, _, _, _, ⟨_, _, rfl⟩, rfl⟩ := hd
    exact ⟨_, _, rfl⟩
  | all a b n h =>
    cases h
    refine hset fun d hd => ?_
    simp only [NounsDAOLogicV2.setDynamicQuorumParams, NounsDAOLogicV2.writeQuorumParamsCheckpoint,
      bind_eq_ok, pure_eq_ok] at hd
    obtain ⟨_, _, _, _, _, _, _, _, _, _, _, ⟨_, _, rfl⟩, rfl⟩ := hd
    exact ⟨_, _, rfl⟩

theorem upgrade_simulation (d₀ : NounsDAOLogicV1) :
    Simulation (Beside (P := P) d₀) GovCallV1.code GovCall.code (SameCall d₀) SetsQuorum where
  step env c₁ c₂ w₁ w₂ hc h := by
    obtain ⟨msg, op₁, hout₁⟩ := c₁
    obtain ⟨msg₂, op₂, hout₂⟩ := c₂
    obtain ⟨rfl, hop⟩ := hc
    have hop' : SameOp P d₀ env msg.sender op₁ op₂ := hop
    cases op₁ with
    | entry op₁ =>
      cases op₂ with
      | entry op₂ => exact Code.once_sim _ (h.enter hop') fun x ok _ _ ht => ht.after x ok
      | execute id => cases hop'
    | execute id =>
      cases hop'
      exact executeProposal_sim h id
  silent env c₂ w₁ w₂ hc h := h.silent hc

/-- **Across the upgrade.**  The storage of the first version, wherever a run of it can be looked at, is
taken over by the second.  Both give every proposal the same state, at any time.  Then both get the same
calls, the second with changes of its quorum parameters in between: call by call they succeed or fail
alike, and the proposals are the same after it. -/
theorem upgrade_preserves (g : GovSetupV1) (w : WorldV1 P) (hw : g.deploy P = .ok w) (e : Env)
    (ts : List (Tx Env (GovCallV1 P))) (hch : (e :: ts.map Tx.env).IsChain (· ≤ ·))
    (o : Env × GovConfigV1 P) (ho : o ∈ observations GovCallV1.code e ts ⟨[], w⟩) :
    let start := o.2.now
    (∀ id e', start.dao.upgrade.state e' id = start.dao.state e' id) ∧
    ∀ (us₁ : List (Tx Env (GovCallV1 P))) (us₂ : List (Tx Env (GovCall P))),
      Fit (SameCall start.dao) SetsQuorum us₁ us₂ →
      let r₁ := (runTxs GovCallV1.code us₁ ⟨[], start⟩).2.now.dao
      let r₂ := (runTxs GovCall.code us₂ ⟨[], start.upgrade⟩).2.now.dao
      Interleaved (SameReport (Beside start.dao) (SameCall start.dao)) (fun r => SetsQuorum r.op)
        (runReports GovCallV1.code us₁ ⟨[], start⟩)
        (runReports GovCall.code us₂ ⟨[], start.upgrade⟩) ∧
      (∀ id, r₂.proposals id = (r₁.proposals id).upgrade) ∧
      ∀ id e', r₂.state e' id = r₁.state e' id := by
  intro start
  have hup := (observations_agedV1 (GovSetupV1.deploy_aged hw) hch ho).dao.numbered.upgraded
  refine ⟨fun id e' => hup.state e' id, fun us₁ us₂ hfit => ?_⟩
  obtain ⟨h1, h2⟩ := runTxs_sim (upgrade_simulation start.dao) hfit ⟨[], start⟩
    ⟨[], start.upgrade⟩ ⟨rfl, rfl, hup⟩
  exact ⟨h2, h1.dao.proposals, fun id e' => h1.dao.state e' id⟩

end
/-- the timelock is the admin of the DAO -/
def sampleSetupV1 : GovSetupV1 where
  deployer := 1
  unoundersDAO := 2
  unouncilDAO := 3
  minter := 4
  descriptor := 5
  seeder := 6
  daoAdmin := 11
  vetoer := 8
  nouns := 12
  delay := 172800
  votingPeriod := 5760
  votingDelay := 1
  proposalThresholdBPS := 1
  quorumVotesBPS := 200

/-- a signature names its signer, one for the first version and one for all else -/
def domainPlatform : Platform :=
  { samplePlatform with ecrecover := fun digest sig => match digest with
      | .ballot name _ _ _ => Fin.ofNat _ (if name = NounsDAOLogicV1.name then sig.r else sig.s)
      | .delegation _ _ _ _ => Fin.ofNat _ sig.s }

def sampleWorldV1 : WorldV1 domainPlatform :=
  (sampleSetupV1.deploy domainPlatform).toOption.get (by decide +kernel)

theorem sampleWorldV1_deployed : sampleSetupV1.deploy domainPlatform = .ok sampleWorldV1 :=
  eq_ok_get _

def oldCall (sender : Address) (op : GovOpV1)
    (h : decide (sender ≠ 10 ∧ sender ≠ 0) = true := by exact Eq.refl true) :
    Call (GovCallV1 domainPlatform) :=
  .mk ⟨⟨sender, 0, (of_decide_eq_true h).2⟩, op, (of_decide_eq_true h).1⟩ .nil

def newCall (sender : Address) (op : GovOp)
    (h : decide (sender ≠ 10 ∧ sender ≠ 0) = true := by exact Eq.refl true) :
    Call (GovCall domainPlatform) :=
  .mk ⟨⟨sender, 0, (of_decide_eq_true h).2⟩, op, (of_decide_eq_true h).1⟩ .nil

/-- a mint gives accounts `2` and `4` a vote each; `2` proposes to send 3 wei to `9` -/
def proposeTxsV1 : List (Tx Env (GovCallV1 domainPlatform)) :=
  [⟨.block 7 70, oldCall 4 (.entry (.token (.mint fun _ => .ok ⟨0, 0, 0, 0, 0⟩)))⟩,
   ⟨.block 8 80, oldCall 2 (.entry (.dao (.propose [9] [3] [""] [[]] "three wei")))⟩]

/-- the storage of the first version with a proposal under way -/
def underway : WorldV1 domainPlatform := (runTxs GovCallV1.code proposeTxsV1 ⟨[], sampleWorldV1⟩).2.now

/-- account `4` signs a ballot, and the proposal is queued -/
def oldTxs : List (Tx Env (GovCallV1 domainPlatform)) :=
  [⟨.block 10 100, oldCall 7 (.entry (.dao (.castVoteBySig 1 1 ⟨27, 4, 99⟩)))⟩,
   ⟨.block 5770 1000, oldCall 7 (.entry (.queue 1))⟩]

/-- it signs one for the second version; there the quorum goes up -/
def newTxs : List (Tx Env (GovCall domainPlatform)) :=
  [⟨.block 10 100, newCall 11 (.entry (.dao (.setDynamicQuorumParams 2000 6000 1000000)))⟩,
   ⟨.block 10 100, newCall 7 (.entry (.dao (.castVoteBySig 1 1 ⟨27, 99, 4⟩)))⟩,
   ⟨.block 5770 1000, newCall 7 (.entry (.queue 1))⟩]

theorem newTxs_fit : Fit (SameCall underway.dao) SetsQuorum oldTxs newTxs :=
  .skip (.all 2000 6000 1000000 rfl) <|
    .cons ⟨rfl, .mk ⟨rfl, .castVoteBySig 1 1 ⟨27, 4, 99⟩ ⟨27, 99, 4⟩ rfl⟩ .nil⟩ <|
      .cons ⟨rfl, .mk ⟨rfl, .queue 1⟩ .nil⟩ .nil

theorem upgrade_preserves_run :
    let r₁ := (runTxs GovCallV1.code oldTxs ⟨[], underway⟩).2.now.dao
    let r₂ := (runTxs GovCall.code newTxs ⟨[], underway.upgrade⟩).2.now.dao
    (r₁.proposals 1).forVotes = 1 ∧ (r₁.proposals 1).eta ≠ 0 ∧
      r₂.quorumParamsCheckpoints.length = 1 ∧ r₂.proposals 1 = (r₁.proposals 1).upgrade := by
  intro r₁ r₂
  have h := upgrade_preserves sampleSetupV1 sampleWorldV1 sampleWorldV1_deployed (.block 6 60)
    proposeTxsV1 (by simp [proposeTxsV1, Env.le_def, Env.block]) _ (final_mem_observations _ _ _ _)
  exact ⟨by decide +kernel, by decide +kernel, by decide +kernel,
    (h.2 oldTxs newTxs newTxs_fit).2.1 1⟩

/-- the same ballot, with the same signature, for either version -/
def ballotV1 : List (Tx Env (GovCallV1 domainPlatform)) :=
  [⟨.block 10 100, oldCall 7 (.entry (.dao (.castVoteBySig 1 1 ⟨27, 4, 99⟩)))⟩]

def ballotV2 : List (Tx Env (GovCall domainPlatform)) :=
  [⟨.block 10 100, newCall 7 (.entry (.dao (.castVoteBySig 1 1 ⟨27, 4, 99⟩)))⟩]

/-- **A ballot signed for the first version** is another's under the second, whose name is not the same:
it is one vote there, and none here. -/
theorem not_upgrade_preserves :
    let r₁ := (runTxs GovCallV1.code ballotV1 ⟨[], underway⟩).2.now.dao
    let r₂ := (runTxs GovCall.code ballotV2 ⟨[], underway.upgrade⟩).2.now.dao
    (r₁.proposals 1).forVotes = 1 ∧ ((r₁.proposals 1).receipts 4).hasVoted = true ∧
      (r₂.proposals 1).forVotes = 0 ∧ ((r₂.proposals 1).receipts 4).hasVoted = false := by
  decide +kernel

end UNouns
