import UNouns.Governance.Invariants

/-!
# What the DAO does, event by event

`DaoChange` says how the proposals change.  A `Deed` says it of one stretch of code with everything
the DAO keeps about proposals, and with the events it emits.

* `DaoEvent.about`, `DaoEvent.sets`, `DynamicQuorumParams.set`   what an event says, of which proposal;
* `Deed`                the proposals, their number, the latest of each proposer, the checkpoints of
                        the quorum parameters, and the events;
* `GovExact.deed`       every exact move is a deed;
* `SilentDeed`          the beginning of an entry announces no execution, and no vote of the zero address
                        (`GovBegin.silent_deed`);
* `Deed.change`         and a deed is a change of the proposals.
-/

set_option linter.unusedVariables false

namespace UNouns
open Function Relation Reentrant Checkpoints NounsDAOLogicV2

/-! ## events -/

/-- the proposal an event is about -/
def DaoEvent.about : DaoEvent → Option Nat
  | .proposalCreated id _ _ _ _ _ _ _ _ => some id
  | .proposalCreatedWithRequirements id _ _ _ _ _ _ _ _ _ _ => some id
  | .voteCast _ id _ _ _ => some id
  | .proposalCanceled id => some id
  | .proposalQueued id _ => some id
  | .proposalExecuted id => some id
  | .proposalVetoed id => some id
  | _ => none

/-- the quorum parameters after an event -/
def DynamicQuorumParams.set (p : DynamicQuorumParams) : DaoEvent → DynamicQuorumParams
  | .minQuorumVotesBPSSet _ n => { p with minQuorumVotesBPS := n }
  | .maxQuorumVotesBPSSet _ n => { p with maxQuorumVotesBPS := n }
  | .quorumCoefficientSet _ n => { p with quorumCoefficient := n }
  | _ => p

def DaoEvent.setsMin : DaoEvent → Bool
  | .minQuorumVotesBPSSet .. => true
  | _ => false

def DaoEvent.setsMax : DaoEvent → Bool
  | .maxQuorumVotesBPSSet .. => true
  | _ => false

/-- the event sets a quorum parameter -/
def DaoEvent.sets : DaoEvent → Bool
  | .minQuorumVotesBPSSet .. => true
  | .maxQuorumVotesBPSSet .. => true
  | .quorumCoefficientSet .. => true
  | _ => false

theorem DynamicQuorumParams.set_of_sets {v : DaoEvent} (h : v.sets = false) (p : DynamicQuorumParams) :
    p.set v = p := by
  cases v <;> first | rfl | cases h

/-- about no proposal, and about no quorum parameter -/
structure DaoEvent.Quiet (v : DaoEvent) : Prop where
  about : v.about = none
  sets : v.sets = false

theorem quiet_of_isSetting {v : DaoEvent} (h : v.isSetting = true) : v.Quiet := by
  cases v <;> first | exact ⟨rfl, rfl⟩ | cases h

theorem quiet_of_all {vs : List DaoEvent} (h : vs.all DaoEvent.isSetting = true) : ∀ v ∈ vs, v.Quiet :=
  fun v hv => quiet_of_isSetting (List.all_eq_true.mp h v hv)

/-- the events of a new proposal -/
def Proposal.created (p : Proposal) (minQuorum : Nat) (description : String) : List DaoEvent :=
  [.proposalCreated p.id p.proposer p.targets p.values p.signatures p.calldatas p.startBlock
      p.endBlock description,
    .proposalCreatedWithRequirements p.id p.proposer p.targets p.values p.signatures p.calldatas
      p.startBlock p.endBlock p.proposalThreshold minQuorum description]

/-! ## bounds of the quorum parameters -/

/-- what the setters check, together -/
structure DynamicQuorumParams.InBounds (p : DynamicQuorumParams) : Prop where
  min_ge : MIN_QUORUM_VOTES_BPS_LOWER_BOUND ≤ p.minQuorumVotesBPS.toNat
  min_le : p.minQuorumVotesBPS.toNat ≤ MIN_QUORUM_VOTES_BPS_UPPER_BOUND
  min_le_max : p.minQuorumVotesBPS ≤ p.maxQuorumVotesBPS
  max_le : p.maxQuorumVotesBPS.toNat ≤ MAX_QUORUM_VOTES_BPS_UPPER_BOUND

/-! ## deeds -/

/-- what the DAO keeps about proposals, but for the checkpoints -/
structure SameBooks (d d' : NounsDAOLogicV2) : Prop where
  proposals : d'.proposals = d.proposals
  proposalCount : d'.proposalCount = d.proposalCount
  latestProposalIds : d'.latestProposalIds = d.latestProposalIds
  quorumVotesBPS : d'.quorumVotesBPS = d.quorumVotesBPS

/-- what one stretch of code does to the DAO: the proposal that it cancels or vetoes, the events that
it emits, and the state it leaves -/
inductive Deed (env : Env) (t : UNounsToken) (d : NounsDAOLogicV2) :
    Option Nat → List DaoEvent → NounsDAOLogicV2 → Prop
  | settings (vs : List DaoEvent) (d' : NounsDAOLogicV2) (h : SameBooks d d')
      (hcps : d'.quorumParamsCheckpoints = d.quorumParamsCheckpoints)
      (hlogs : d'.logs = d.logs ++ vs) (hquiet : ∀ v ∈ vs, v.Quiet) : Deed env t d none vs d'
  | params (old : DynamicQuorumParams) (vs : List DaoEvent) (d' : NounsDAOLogicV2)
      (h : SameBooks d d') (hold : d.getDynamicQuorumParamsAt env.number = .ok old)
      (hcps : d'.quorumParamsCheckpoints
        = write d.quorumParamsCheckpoints env.number (vs.foldl .set old))
      (hbounds : old.InBounds → (vs.foldl DynamicQuorumParams.set old).InBounds)
      (hlogs : d'.logs = d.logs ++ vs) (habout : ∀ v ∈ vs, v.about = none)
      (hsets : ∃ v ∈ vs, v.sets = true) : Deed env t d none vs d'
  | propose (sender : Address) (targets : List Address) (values : List Nat)
      (signatures : List String) (calldatas : List Bytes) (description : String)
      (minQuorum : Nat) (d' : NounsDAOLogicV2)
      (h : d.propose env sender t targets values signatures calldatas description = .ok d')
      (hmin : d.minQuorumVotes env t = .ok minQuorum)
      (hlogs : d'.logs = d.logs ++ (d.newProposal env sender t targets values signatures
        calldatas).created minQuorum description) :
      Deed env t d none ((d.newProposal env sender t targets values signatures calldatas).created
        minQuorum description) d'
  | vote (voter : Address) (id support votes balance : Nat) (reason : String)
      (d1 : NounsDAOLogicV2) (h : d.castVoteInternal env t voter id support = .ok (d1, votes)) :
      Deed env t d none [.voteCast voter id support votes reason]
        { d1 with balance := balance, logs := d.logs ++ [.voteCast voter id support votes reason] }
  | queue (id delay : Nat) (hstate : d.state env id = .ok .succeeded) :
      Deed env t d none [.proposalQueued id (env.timestamp + delay)]
        { d with
          proposals := update d.proposals id { d.proposals id with eta := env.timestamp + delay }
          logs := d.logs ++ [.proposalQueued id (env.timestamp + delay)] }
  | cancel (id : Nat) (s : ProposalState) (hstate : d.state env id = .ok s) (hs : s ≠ .executed) :
      Deed env t d (some id) [.proposalCanceled id]
        { d with
          proposals := update d.proposals id { d.proposals id with canceled := true }
          logs := d.logs ++ [.proposalCanceled id] }
  | veto (id : Nat) (s : ProposalState) (hstate : d.state env id = .ok s) (hs : s ≠ .executed) :
      Deed env t d (some id) [.proposalVetoed id]
        { d with
          proposals := update d.proposals id { d.proposals id with vetoed := true }
          logs := d.logs ++ [.proposalVetoed id] }
  | execute (id : Nat) (hstate : d.state env id = .ok .queued) :
      Deed env t d none []
        { d with proposals := update d.proposals id { d.proposals id with executed := true } }
  | executed (id : Nat) (hid : id ≤ d.proposalCount) (hex : (d.proposals id).executed = true) :
      Deed env t d none [.proposalExecuted id] (d.emit (.proposalExecuted id))

theorem Deed.nothing (env : Env) (t : UNounsToken) (d : NounsDAOLogicV2) : Deed env t d none [] d :=
  .settings [] d ⟨rfl, rfl, rfl, rfl⟩ rfl (by simp) (by simp)

theorem Deed.logs {env : Env} {t : UNounsToken} {d d' : NounsDAOLogicV2} {x : Option Nat}
    {vs : List DaoEvent} (h : Deed env t d x vs d') : d'.logs = d.logs ++ vs := by
  cases h with
  | settings vs d' h hcps hlogs hquiet => exact hlogs
  | params old vs d' h hold hcps hbounds hlogs habout => exact hlogs
  | propose sender targets values signatures calldatas description minQuorum d' h hmin hlogs =>
    exact hlogs
  | execute id hstate => exact (List.append_nil _).symm
  | vote | queue | cancel | veto | executed => rfl

theorem Deed.change {env : Env} {t : UNounsToken} {d d' : NounsDAOLogicV2} {x : Option Nat}
    {vs : List DaoEvent} (h : Deed env t d x vs d') : DaoChange env d d' := by
  cases h with
  | settings vs d' h hcps hlogs hquiet =>
    exact .same _ ⟨h.proposals, h.proposalCount, h.quorumVotesBPS, .inl hcps⟩
  | params old vs d' h hold hcps hbounds hlogs habout =>
    exact .same _ ⟨h.proposals, h.proposalCount, h.quorumVotesBPS, .inr ⟨_, hcps⟩⟩
  | propose sender targets values signatures calldatas description minQuorum d' h hmin hlogs =>
    exact .propose _ sender t targets values signatures calldatas description h
  | vote voter id support votes balance reason d1 h =>
    obtain ⟨h1, h2, h3, _, hs⟩ := castVoteInternal_ok h
    exact .vote _ voter id support votes h1 h2 h3
      ⟨hs.proposals, hs.proposalCount, hs.quorumVotesBPS, hs.checkpoints⟩
  | queue id delay hstate => exact .queue _ id delay hstate ⟨rfl, rfl, rfl, rfl⟩
  | cancel id s hstate hs => exact .cancel _ id s hstate hs ⟨rfl, rfl, rfl, rfl⟩
  | veto id s hstate hs => exact .veto _ id s hstate hs ⟨rfl, rfl, rfl, rfl⟩
  | execute id hstate => exact .execute _ id hstate ⟨rfl, rfl, rfl, rfl⟩
  | executed id hid hex => exact .same _ ⟨rfl, rfl, rfl, .inl rfl⟩

/-- only `propose` adds a proposal -/
theorem Deed.count {env : Env} {t : UNounsToken} {d d' : NounsDAOLogicV2} {x : Option Nat}
    {vs : List DaoEvent} (h : Deed env t d x vs d') :
    d'.proposalCount = d.proposalCount ∨
      ∃ sender targets values signatures calldatas description minQuorum,
        d.propose env sender t targets values signatures calldatas description = .ok d' ∧
        d.minQuorumVotes env t = .ok minQuorum ∧
        d'.logs = d.logs ++ (d.newProposal env sender t targets values signatures calldatas).created
          minQuorum description := by
  cases h with
  | settings vs d' h => exact .inl h.proposalCount
  | params old vs d' h => exact .inl h.proposalCount
  | propose sender targets values signatures calldatas description minQuorum d' h hmin hlogs =>
    exact .inr ⟨sender, targets, values, signatures, calldatas, description, minQuorum, h, hmin, hlogs⟩
  | vote voter id support votes balance reason d1 h =>
    exact .inl (castVoteInternal_ok h).2.2.2.2.proposalCount
  | queue | cancel | veto | execute | executed => exact .inl rfl

/-- the proposal that `propose` adds -/
theorem propose_new {env : Env} {sender : Address} {t : UNounsToken} {d d' : NounsDAOLogicV2}
    {targets : List Address} {values : List Nat} {signatures : List String}
    {calldatas : List Bytes} {description : String}
    (h : d.propose env sender t targets values signatures calldatas description = .ok d') :
    d'.proposalCount = d.proposalCount + 1 ∧ d'.proposals (d.proposalCount + 1)
      = d.newProposal env sender t targets values signatures calldatas := by
  obtain ⟨_, _, _, _, e⟩ := propose_ok h
  rw [e]
  exact ⟨rfl, update_self _ _ _⟩

/-- neither the announcement of an execution nor a vote of the zero address -/
def DaoEvent.Silent : DaoEvent → Prop
  | .proposalExecuted _ => False
  | .voteCast voter _ _ _ _ => voter ≠ 0
  | _ => True

/-- a deed that announces no execution -/
def SilentDeed (env : Env) (t : UNounsToken) (d : NounsDAOLogicV2) (x : Option Nat)
    (d' : NounsDAOLogicV2) : Prop :=
  ∃ vs, Deed env t d x vs d' ∧ ∀ v ∈ vs, v.Silent

theorem silent_of_about {vs : List DaoEvent} (h : ∀ v ∈ vs, v.about = none) : ∀ v ∈ vs, v.Silent := by
  intro v hv
  have habout := h v hv
  cases v with
  | proposalExecuted | voteCast => cases habout
  | _ => trivial

/-! ## the entries of the DAO -/

section
variable {env : Env} {t : UNounsToken} {d d' : NounsDAOLogicV2} {sender : Address}

theorem propose_deed {targets : List Address} {values : List Nat} {signatures : List String}
    {calldatas : List Bytes} {description : String}
    (h : d.propose env sender t targets values signatures calldatas description = .ok d') :
    SilentDeed env t d none d' := by
  have h' := h
  simp only [propose, bind_eq_ok, pure_eq_ok] at h'
  obtain ⟨_, _, _, _, _, _, _, _, _, _, _, _, q, hq, rfl⟩ := h'
  refine ⟨_, .propose sender targets values signatures calldatas description q _ h hq ?_,
    by simp [Proposal.created, DaoEvent.Silent]⟩
  simp [emit, Proposal.created, newProposal]

theorem castVoteInternal_logs {voter : Address} {id support votes : Nat}
    (h : d.castVoteInternal env t voter id support = .ok (d', votes)) :
    d'.logs = d.logs ∧ d'.latestProposalIds = d.latestProposalIds := by
  simp only [castVoteInternal, bind_eq_ok, pure_eq_ok, Prod.mk.injEq] at h
  obtain ⟨_, _, _, _, _, _, _, _, _, _, _, _, rfl, _⟩ := h
  exact ⟨rfl, rfl⟩

theorem castVoteWithEvent_exact {voter : Address} {id support votes : Nat} {reason : String}
    (h : d.castVoteWithEvent env t voter id support reason = .ok (d', votes)) :
    ∃ d1, d.castVoteInternal env t voter id support = .ok (d1, votes) ∧
      d' = { d1 with logs := d.logs ++ [.voteCast voter id support votes reason] } := by
  simp only [castVoteWithEvent, bind_eq_ok, pure_eq_ok, Prod.mk.injEq] at h
  obtain ⟨⟨d1, v⟩, h1, rfl, rfl⟩ := h
  refine ⟨d1, h1, ?_⟩
  rw [← (castVoteInternal_logs h1).1]
  rfl

theorem castVoteWithEvent_deed {voter : Address} {id support votes : Nat} {reason : String}
    (hvoter : voter ≠ 0) (h : d.castVoteWithEvent env t voter id support reason = .ok (d', votes)) :
    SilentDeed env t d none d' := by
  obtain ⟨d1, h1, rfl⟩ := castVoteWithEvent_exact h
  exact ⟨_, .vote voter id support votes d1.balance reason d1 h1, by simpa [DaoEvent.Silent] using hvoter⟩

theorem castRefundableVoteInternal_deed {id support gasUsed : Nat} {reason : String}
    {x : Option Payment} (hsender : sender ≠ 0)
    (h : d.castRefundableVoteInternal env sender t id support reason gasUsed = .ok (d', x)) :
    SilentDeed env t d none d' := by
  simp only [castRefundableVoteInternal, bind_eq_ok, pure_eq_ok] at h
  obtain ⟨⟨d2, v⟩, h1, h2⟩ := h
  obtain ⟨d1, hv, rfl⟩ := castVoteWithEvent_exact h1
  have hd : ∃ b, d' = { d1 with
      balance := b, logs := d.logs ++ [.voteCast sender id support v reason] } := by
    simp only [beginRefund] at h2
    split_ifs at h2 <;> cases h2 <;> exact ⟨_, rfl⟩
  obtain ⟨b, rfl⟩ := hd
  exact ⟨_, .vote sender id support v b reason d1 hv, by simpa [DaoEvent.Silent] using hsender⟩

theorem setDynamicQuorumParams_exact {a b : UInt16} {c : UInt32}
    (h : d.setDynamicQuorumParams env sender a b c = .ok d') :
    ∃ old : DynamicQuorumParams, d.getDynamicQuorumParamsAt env.number = .ok old ∧
      (⟨a, b, c⟩ : DynamicQuorumParams).InBounds ∧ d' = { d with
        quorumParamsCheckpoints := write d.quorumParamsCheckpoints env.number ⟨a, b, c⟩
        logs := d.logs ++ [.minQuorumVotesBPSSet old.minQuorumVotesBPS a,
          .maxQuorumVotesBPSSet old.maxQuorumVotesBPS b,
          .quorumCoefficientSet old.quorumCoefficient c] } := by
  simp only [setDynamicQuorumParams, bind_eq_ok, revertUnless_eq_ok, pure_eq_ok] at h
  obtain ⟨_, _, _, hmin, _, hmax, _, hle, old, hold, d1, h1, rfl⟩ := h
  refine ⟨old, hold, ⟨Nat.le_of_not_lt fun h => hmin (.inl h), Nat.le_of_not_lt fun h => hmin (.inr h),
    UInt16.not_lt.mp hle, Nat.le_of_not_lt hmax⟩, ?_⟩
  rw [writeQuorumParamsCheckpoint_ok h1]
  simp [emit]

theorem params_deed {v : DaoEvent} {old : DynamicQuorumParams} (hv : v.about = none)
    (hsets : v.sets = true)
    (hold : d.getDynamicQuorumParamsAt env.number = .ok old) {d1 : NounsDAOLogicV2}
    (h : d.writeQuorumParamsCheckpoint env (old.set v) = .ok d1)
    (hbounds : old.InBounds → (old.set v).InBounds) : SilentDeed env t d none (d1.emit v) := by
  have habout : ∀ u ∈ [v], u.about = none := by simpa using hv
  rw [writeQuorumParamsCheckpoint_ok h]
  exact ⟨[v], .params old [v] _ ⟨rfl, rfl, rfl, rfl⟩ hold rfl hbounds rfl habout
      ⟨v, List.mem_singleton_self v, hsets⟩,
    silent_of_about habout⟩

theorem setMinQuorumVotesBPS_deed {n : UInt16} (h : d.setMinQuorumVotesBPS env sender n = .ok d') :
    SilentDeed env t d none d' := by
  simp only [setMinQuorumVotesBPS, bind_eq_ok, require_eq_ok, pure_eq_ok] at h
  obtain ⟨_, _, old, hold, _, ⟨h1, h2⟩, _, h3, d1, hd, rfl⟩ := h
  exact params_deed rfl rfl hold hd fun ho => ⟨h1, h2, h3, ho.max_le⟩

theorem setMaxQuorumVotesBPS_deed {n : UInt16} (h : d.setMaxQuorumVotesBPS env sender n = .ok d') :
    SilentDeed env t d none d' := by
  simp only [setMaxQuorumVotesBPS, bind_eq_ok, require_eq_ok, pure_eq_ok] at h
  obtain ⟨_, _, old, hold, _, h1, _, h2, d1, hd, rfl⟩ := h
  exact params_deed rfl rfl hold hd fun ho => ⟨ho.min_ge, ho.min_le, h2, h1⟩

theorem setQuorumCoefficient_deed {n : UInt32} (h : d.setQuorumCoefficient env sender n = .ok d') :
    SilentDeed env t d none d' := by
  simp only [setQuorumCoefficient, bind_eq_ok, pure_eq_ok] at h
  obtain ⟨_, _, old, hold, d1, hd, rfl⟩ := h
  exact params_deed rfl rfl hold hd fun ho => ⟨ho.min_ge, ho.min_le, ho.min_le_max, ho.max_le⟩

theorem setDynamicQuorumParams_deed {a b : UInt16} {c : UInt32}
    (h : d.setDynamicQuorumParams env sender a b c = .ok d') : SilentDeed env t d none d' := by
  obtain ⟨old, hold, hb, rfl⟩ := setDynamicQuorumParams_exact h
  refine ⟨_, .params old _ _ ⟨rfl, rfl, rfl, rfl⟩ hold ?_ (fun _ => ?_) rfl (by simp [DaoEvent.about])
      (by simp [DaoEvent.sets]),
    by simp [DaoEvent.Silent]⟩
  · rfl
  · exact hb

theorem initializeV2_exact {timelock nouns vetoer : Address}
    {votingPeriod votingDelay proposalThresholdBPS : Nat} {params : DynamicQuorumParams}
    (h : d.initializeV2 env sender timelock nouns vetoer votingPeriod votingDelay
      proposalThresholdBPS params = .ok d') :
    ∃ old : DynamicQuorumParams, d.getDynamicQuorumParamsAt env.number = .ok old ∧ params.InBounds ∧
      d' = { d with
        timelock := timelock
        nouns := nouns
        vetoer := vetoer
        votingPeriod := votingPeriod
        votingDelay := votingDelay
        proposalThresholdBPS := proposalThresholdBPS
        quorumParamsCheckpoints := write d.quorumParamsCheckpoints env.number params
        logs := d.logs ++ [.votingPeriodSet d.votingPeriod votingPeriod,
          .votingDelaySet d.votingDelay votingDelay,
          .proposalThresholdBPSSet d.proposalThresholdBPS proposalThresholdBPS,
          .minQuorumVotesBPSSet old.minQuorumVotesBPS params.minQuorumVotesBPS,
          .maxQuorumVotesBPSSet old.maxQuorumVotesBPS params.maxQuorumVotesBPS,
          .quorumCoefficientSet old.quorumCoefficient params.quorumCoefficient] } := by
  simp only [initializeV2, bind_eq_ok] at h
  obtain ⟨_, _, _, _, _, _, _, _, _, _, _, _, _, _, h⟩ := h
  obtain ⟨old, hold, hb, rfl⟩ := setDynamicQuorumParams_exact h
  exact ⟨old, hold, hb, by simp [emit]⟩

theorem initializeV2_deed {timelock nouns vetoer : Address}
    {votingPeriod votingDelay proposalThresholdBPS : Nat} {params : DynamicQuorumParams}
    (h : d.initializeV2 env sender timelock nouns vetoer votingPeriod votingDelay
      proposalThresholdBPS params = .ok d') : SilentDeed env t d none d' := by
  obtain ⟨old, hold, hb, rfl⟩ := initializeV2_exact h
  refine ⟨_, .params old _ _ ⟨rfl, rfl, rfl, rfl⟩ hold ?_ (fun _ => ?_) rfl (by simp [DaoEvent.about])
      (by simp [DaoEvent.sets]),
    by simp [DaoEvent.Silent]⟩
  · rfl
  · exact hb

/-- the DAO after its deployment -/
theorem deploy_exact {deployer admin timelock nouns vetoer : Address}
    {votingPeriod votingDelay proposalThresholdBPS : Nat} {params : DynamicQuorumParams}
    (h : deploy env deployer admin timelock nouns vetoer votingPeriod votingDelay
      proposalThresholdBPS params = .ok d) :
    env.number < 2^32 ∧ params.InBounds ∧
      d.quorumParamsCheckpoints = write [] env.number params ∧
      d.logs = [.votingPeriodSet 0 votingPeriod, .votingDelaySet 0 votingDelay,
          .proposalThresholdBPSSet 0 proposalThresholdBPS,
          .minQuorumVotesBPSSet 0 params.minQuorumVotesBPS,
          .maxQuorumVotesBPSSet 0 params.maxQuorumVotesBPS,
          .quorumCoefficientSet 0 params.quorumCoefficient] := by
  simp only [deploy, bind_eq_ok, pure_eq_ok] at h
  obtain ⟨d1, h1, rfl⟩ := h
  obtain ⟨old, hold, hb, rfl⟩ := initializeV2_exact h1
  have hn := getDynamicQuorumParamsAt_ok hold
  have h0 : old = ⟨0, 0, 0⟩ := by
    simp only [getDynamicQuorumParamsAt, bind_eq_ok] at hold
    obtain ⟨_, _, hold⟩ := hold
    exact (Except.ok.inj hold).symm
  exact ⟨hn, hb, rfl, by rw [h0]; rfl⟩

theorem DaoOp.deed {P : Platform} {msg : Msg} {op : DaoOp} {x : Option GovExternal}
    (h : op.apply P env msg t d = .ok (d', x)) : SilentDeed env t d none d' := by
  cases op with
  | initializeV2 timelock nouns vetoer period delay threshold params =>
    obtain ⟨_, h1, h2⟩ := map_eq_ok.mp h
    cases h2
    exact initializeV2_deed h1
  | propose targets values signatures calldatas description =>
    obtain ⟨_, h1, h2⟩ := map_eq_ok.mp h
    cases h2
    exact propose_deed h1
  | castVote | castVoteWithReason =>
    obtain ⟨⟨_, _⟩, h1, h2⟩ := map_eq_ok.mp h
    cases h2
    exact castVoteWithEvent_deed msg.sender_ne h1
  | castVoteBySig id support sig =>
    obtain ⟨⟨_, _⟩, h1, h2⟩ := map_eq_ok.mp h
    cases h2
    simp only [NounsDAOLogicV2.castVoteBySig, bind_eq_ok, require_eq_ok] at h1
    obtain ⟨_, hsigner, h1⟩ := h1
    exact castVoteWithEvent_deed hsigner h1
  | castRefundableVote | castRefundableVoteWithReason =>
    obtain ⟨⟨_, _⟩, h1, h2⟩ := map_eq_ok.mp h
    cases h2
    exact castRefundableVoteInternal_deed msg.sender_ne h1
  | setMinQuorumVotesBPS n =>
    obtain ⟨_, h1, h2⟩ := map_eq_ok.mp h
    cases h2
    exact setMinQuorumVotesBPS_deed h1
  | setMaxQuorumVotesBPS n =>
    obtain ⟨_, h1, h2⟩ := map_eq_ok.mp h
    cases h2
    exact setMaxQuorumVotesBPS_deed h1
  | setQuorumCoefficient n =>
    obtain ⟨_, h1, h2⟩ := map_eq_ok.mp h
    cases h2
    exact setQuorumCoefficient_deed h1
  | setDynamicQuorumParams a b c =>
    obtain ⟨_, h1, h2⟩ := map_eq_ok.mp h
    cases h2
    exact setDynamicQuorumParams_deed h1
  | _ =>
    obtain ⟨⟨vs, hs⟩, _⟩ := DaoOp.adjusted rfl h
    have hquiet : ∀ v ∈ vs, v.Quiet := fun v hv => quiet_of_isSetting (hs.events v hv)
    exact ⟨vs, .settings vs _ ⟨hs.proposals, hs.proposalCount, hs.latestProposalIds, hs.quorumVotesBPS⟩
      hs.checkpoints hs.logs hquiet, silent_of_about fun v hv => (hquiet v hv).about⟩

end

/-! ## the moves -/

section
variable {P : Platform} {env : Env} {w w' : World P}

theorem GovBegin.silent_deed {c : GovCall P} (h : GovBegin env c w w') :
    SilentDeed env w.token w.dao c.op.withdraws w'.dao := by
  cases h with
  | execute id d w' hop h hact =>
    rw [hact.dao.1, hop]
    simp only [beginExecute, bind_eq_ok, require_eq_ok, pure_eq_ok] at h
    obtain ⟨s, hs, _, rfl, rfl⟩ := h
    exact ⟨[], .execute id hs, by simp⟩
  | entry op w' x hop h =>
    rw [hop]
    cases op with
    | token op =>
      obtain ⟨_, _, h2⟩ := map_eq_ok.mp h
      cases h2
      exact ⟨[], .nothing _ _ _, by simp⟩
    | timelock op =>
      obtain ⟨_, _, h2⟩ := map_eq_ok.mp h
      cases h2
      exact ⟨[], .nothing _ _ _, by simp⟩
    | dao op =>
      obtain ⟨⟨_, _⟩, h1, h2⟩ := map_eq_ok.mp h
      cases h2
      exact DaoOp.deed h1
    | queue id =>
      obtain ⟨_, h1, h2⟩ := map_eq_ok.mp h
      cases h2
      simp only [NounsDAOLogicV2.queue, bind_eq_ok, require_eq_ok, pure_eq_ok] at h1
      obtain ⟨s, hs, _, rfl, tl', _, rfl⟩ := h1
      exact ⟨_, .queue id w.timelock.delay hs, by simp [DaoEvent.Silent]⟩
    | cancel id =>
      obtain ⟨_, h1, h2⟩ := map_eq_ok.mp h
      cases h2
      simp only [NounsDAOLogicV2.cancel, bind_eq_ok, revertUnless_eq_ok, pure_eq_ok] at h1
      obtain ⟨s, hs, _, hne, _, _, _, _, tl', _, rfl⟩ := h1
      exact ⟨_, .cancel id s hs hne, by simp [DaoEvent.Silent]⟩
    | veto id =>
      obtain ⟨_, h1, h2⟩ := map_eq_ok.mp h
      cases h2
      simp only [NounsDAOLogicV2.veto, bind_eq_ok, revertUnless_eq_ok, pure_eq_ok] at h1
      obtain ⟨_, _, _, _, s, hs, _, hne, tl', _, rfl⟩ := h1
      exact ⟨_, .veto id s hs hne, by simp [DaoEvent.Silent]⟩

theorem GovBegin.deed {c : GovCall P} (h : GovBegin env c w w') :
    ∃ vs, Deed env w.token w.dao c.op.withdraws vs w'.dao := by
  obtain ⟨vs, hd, _⟩ := GovBegin.silent_deed h
  exact ⟨vs, hd⟩

/-- nobody votes when an entry goes on, and no quorum parameter is set -/
theorem GovResume.quiet_deed (h : GovResume env w w') : ∃ vs, Deed env w.token w.dao none vs w'.dao ∧
    (∀ voter id support votes reason, .voteCast voter id support votes reason ∉ vs) ∧
    ∀ v ∈ vs, v.sets = false := by
  cases h with
  | executed id hid hex => exact ⟨_, .executed id hid hex, by simp, by simp [DaoEvent.sets]⟩
  | act w' id i tx hid hex h =>
    rw [(beginAction_ok h).2.2]
    exact ⟨[], .nothing _ _ _, by simp, by simp⟩
  | after x ok w' h =>
    cases x with
    | receiver x =>
      obtain ⟨_, _, rfl⟩ := map_eq_ok.mp h
      exact ⟨[], .nothing _ _ _, by simp, by simp⟩
    | target x =>
      obtain ⟨_, _, rfl⟩ := map_eq_ok.mp h
      exact ⟨[], .nothing _ _ _, by simp, by simp⟩
    | refund p | withdraw p =>
      cases h
      exact ⟨[_], .settings _ _ ⟨rfl, rfl, rfl, rfl⟩ rfl rfl (by simpa using ⟨rfl, rfl⟩),
        by simp, by simp [DaoEvent.sets]⟩

theorem GovResume.deed (h : GovResume env w w') :
    ∃ vs, Deed env w.token w.dao none vs w'.dao := by
  obtain ⟨vs, hd, _⟩ := h.quiet_deed
  exact ⟨vs, hd⟩

theorem GovExact.deed {c c' : GovConfig P} (h : GovExact env c c') :
    ∃ x vs, Deed env c.now.token c.now.dao x vs c'.now.dao := by
  cases h with
  | enter op w h => exact ⟨_, GovBegin.deed h⟩
  | resume w h => exact ⟨_, GovResume.deed h⟩

/-- nobody has voted in a new DAO -/
theorem GovSetup.deploy_voteless {g : GovSetup} {e : Env} {w : World P} (hw : g.deploy P e = .ok w)
    (voter : Address) (id support votes : Nat) (reason : String) :
    .voteCast voter id support votes reason ∉ w.dao.logs := by
  intro hv
  simp only [GovSetup.deploy, bind_eq_ok, pure_eq_ok] at hw
  obtain ⟨_, _, d, hd, rfl⟩ := hw
  have hv' : DaoEvent.voteCast voter id support votes reason ∈ d.logs := hv
  rw [(deploy_exact hd).2.2.2] at hv'
  simp at hv'

/-- the zero address does not vote -/
theorem GovExact.voters {c c' : GovConfig P} (h : GovExact env c c') :
    ∃ x vs, Deed env c.now.token c.now.dao x vs c'.now.dao ∧
      ∀ voter id support votes reason, .voteCast voter id support votes reason ∈ vs → voter ≠ 0 := by
  cases h with
  | enter op w h =>
    obtain ⟨vs, hd, hs⟩ := GovBegin.silent_deed h
    exact ⟨_, vs, hd, fun voter id support votes reason hv => hs _ hv⟩
  | resume w h =>
    obtain ⟨vs, hd, hs, _⟩ := GovResume.quiet_deed h
    exact ⟨_, vs, hd, fun voter id support votes reason hv => absurd hv (hs _ _ _ _ _)⟩

end
end UNouns
