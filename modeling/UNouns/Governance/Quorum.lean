import UNouns.Governance.Deeds
import UNouns.Governance.Lifecycle
import UNouns.Governance.Upgrade

/-!
# The quorum of a proposal

* `quorumOf`            the quorum as a function of the votes against: monotone, and between the
                        minimum and the maximum of its parameters;
* `QuorumSound`         every checkpoint of the parameters is within the bounds, and there are
                        parameters for every block since the start, also before the first checkpoint
                        of a DAO that has been upgraded;
* `Since`               what stays of a proposal and of its block once the block is over;
* `quorum_bounded`      so its quorum is bounded and never decreases.
-/

set_option linter.unusedVariables false

namespace UNouns
open Function Relation Reentrant Checkpoints NounsDAOLogicV2

/-! ## arithmetic -/

theorem bps2Uint_mono {a b : Nat} (h : a ≤ b) (n : Nat) : bps2Uint a n ≤ bps2Uint b n :=
  Nat.div_le_div_right (Nat.mul_le_mul_left n h)

/-- the quorum with `against` of `supply` votes against -/
def quorumOf (params : DynamicQuorumParams) (supply against : Nat) : Nat :=
  bps2Uint (min params.maxQuorumVotesBPS.toNat (params.minQuorumVotesBPS.toNat
    + params.quorumCoefficient.toNat * (10000 * against / supply) / 1000000)) supply

theorem dynamicQuorumVotes_eq {supply : Nat} (h : supply ≠ 0) (against : Nat)
    (params : DynamicQuorumParams) :
    dynamicQuorumVotes against supply params = .ok (quorumOf params supply against) := by
  simp only [dynamicQuorumVotes, revertUnless, if_pos h]
  rfl

section
variable (params : DynamicQuorumParams) (supply : Nat)

theorem quorumOf_mono {a b : Nat} (h : a ≤ b) :
    quorumOf params supply a ≤ quorumOf params supply b := by
  have h1 : 10000 * a / supply ≤ 10000 * b / supply :=
    Nat.div_le_div_right (Nat.mul_le_mul_left _ h)
  have h2 : params.quorumCoefficient.toNat * (10000 * a / supply) / 1000000
      ≤ params.quorumCoefficient.toNat * (10000 * b / supply) / 1000000 :=
    Nat.div_le_div_right (Nat.mul_le_mul_left _ h1)
  apply bps2Uint_mono
  omega

theorem quorumOf_le (against : Nat) :
    quorumOf params supply against ≤ bps2Uint params.maxQuorumVotesBPS.toNat supply :=
  bps2Uint_mono (Nat.min_le_left _ _) _

theorem DynamicQuorumParams.InBounds.le_quorumOf {params : DynamicQuorumParams} (h : params.InBounds)
    (supply against : Nat) :
    bps2Uint params.minQuorumVotesBPS.toNat supply ≤ quorumOf params supply against := by
  have h1 : params.minQuorumVotesBPS.toNat ≤ params.maxQuorumVotesBPS.toNat :=
    UInt16.le_iff_toNat_le.mp h.min_le_max
  apply bps2Uint_mono
  omega

end

/-! ## the parameters -/

/-- a fixed quorum of the first version stands for parameters within the bounds -/
theorem inBounds_fixed {q : Nat} (h1 : MIN_QUORUM_VOTES_BPS_LOWER_BOUND ≤ q)
    (h2 : q ≤ MIN_QUORUM_VOTES_BPS_UPPER_BOUND) :
    (⟨.ofNat q, .ofNat q, 0⟩ : DynamicQuorumParams).InBounds := by
  have h1' : 200 ≤ q := h1
  have h2' : q ≤ 2000 := h2
  have hq : (UInt16.ofNat q).toNat = q := UInt16.toNat_ofNat_of_lt' (show q < 65536 by omega)
  refine ⟨?_, ?_, UInt16.le_refl _, ?_⟩
  · show 200 ≤ (UInt16.ofNat q).toNat
    omega
  · show (UInt16.ofNat q).toNat ≤ 2000
    omega
  · show (UInt16.ofNat q).toNat ≤ 6000
    omega

/-- where parameters come from: the checkpoints, back to block `b₀`; before the first one the fixed
quorum of the first version -/
inductive Anchored (b₀ : Nat) (d : NounsDAOLogicV2) : Prop
  | fixed (h1 : MIN_QUORUM_VOTES_BPS_LOWER_BOUND ≤ d.quorumVotesBPS)
      (h2 : d.quorumVotesBPS ≤ MIN_QUORUM_VOTES_BPS_UPPER_BOUND)
  | dynamic (h : d.quorumVotesBPS = 0)
      (hsome : ∀ b, b₀ ≤ b → ∃ params, valueAt d.quorumParamsCheckpoints b = some params)

/-- the quorum parameters of a DAO that started in block `b₀` with `n₀` proposals -/
structure QuorumSound (b₀ n₀ : Nat) (e : Env) (d : NounsDAOLogicV2) : Prop where
  started : b₀ ≤ e.number
  upTo : UpTo d.quorumParamsCheckpoints e.number
  bounded : ∀ cp ∈ d.quorumParamsCheckpoints, cp.val.InBounds
  anchored : Anchored b₀ d
  created : ∀ i, n₀ < i → i ≤ d.proposalCount →
    b₀ ≤ (d.proposals i).creationBlock ∧ (d.proposals i).creationBlock < 2^32

section
variable {b₀ n₀ : Nat} {e : Env} {d : NounsDAOLogicV2}

theorem QuorumSound.mono {e' : Env} (h : QuorumSound b₀ n₀ e d) (he : e ≤ e') :
    QuorumSound b₀ n₀ e' d :=
  { h with
    started := Nat.le_trans h.started (Env.le_def.mp he).1
    upTo := h.upTo.mono (Env.le_def.mp he).1 }

theorem Anchored.quorumVotesBPS_lt (h : Anchored b₀ d) : d.quorumVotesBPS < 2^16 := by
  cases h with
  | fixed h1 h2 =>
    have h2' : d.quorumVotesBPS ≤ 2000 := h2
    omega
  | dynamic h hsome => omega

theorem QuorumSound.params_eq (h : QuorumSound b₀ n₀ e d) {b : Nat} (hb : b < 2^32) :
    d.getDynamicQuorumParamsAt b = .ok ((valueAt d.quorumParamsCheckpoints b).getD
      ⟨.ofNat d.quorumVotesBPS, .ofNat d.quorumVotesBPS, 0⟩) :=
  getDynamicQuorumParamsAt_eq h.upTo h.anchored.quorumVotesBPS_lt hb

/-- there are parameters for every block since the start, within the bounds -/
theorem QuorumSound.params (h : QuorumSound b₀ n₀ e d) {b : Nat} (h0 : b₀ ≤ b) (hb : b < 2^32) :
    ∃ params : DynamicQuorumParams, d.getDynamicQuorumParamsAt b = .ok params ∧ params.InBounds := by
  refine ⟨_, h.params_eq hb, ?_⟩
  cases hv : valueAt d.quorumParamsCheckpoints b with
  | some params =>
    obtain ⟨cp, hcp, rfl⟩ := valueAt_mem hv
    exact h.bounded cp hcp
  | none =>
    cases h.anchored with
    | fixed h1 h2 => exact inBounds_fixed h1 h2
    | dynamic h0' hsome =>
      obtain ⟨params, hs⟩ := hsome b h0
      rw [hv] at hs
      cases hs

/-- a checkpoint more -/
theorem Anchored.write {d' : NounsDAOLogicV2} {n : Nat} {params : DynamicQuorumParams}
    (h : Anchored b₀ d) (hup : UpTo d.quorumParamsCheckpoints n)
    (hq : d'.quorumVotesBPS = d.quorumVotesBPS)
    (hcps : d'.quorumParamsCheckpoints = Checkpoints.write d.quorumParamsCheckpoints n params) :
    Anchored b₀ d' := by
  cases h with
  | fixed h1 h2 => exact .fixed (hq ▸ h1) (hq ▸ h2)
  | dynamic h hsome =>
    refine .dynamic (hq.trans h) fun b hb => ?_
    rw [hcps]
    by_cases hlt : b < n
    · rw [valueAt_write _ _ hlt]
      exact hsome b hb
    · exact ⟨params, valueAt_write_of_le hup params (Nat.le_of_not_lt hlt)⟩

theorem Anchored.same {d' : NounsDAOLogicV2} (h : Anchored b₀ d)
    (hq : d'.quorumVotesBPS = d.quorumVotesBPS)
    (hcps : d'.quorumParamsCheckpoints = d.quorumParamsCheckpoints) : Anchored b₀ d' := by
  cases h with
  | fixed h1 h2 => exact .fixed (hq ▸ h1) (hq ▸ h2)
  | dynamic h hsome => exact .dynamic (hq.trans h) (by rwa [hcps])

/-- what a stretch of code does to the checkpoints -/
theorem Deed.checkpoints {t : UNounsToken} {d' : NounsDAOLogicV2} {x : Option Nat}
    {vs : List DaoEvent} (h : Deed e t d x vs d') :
    d'.quorumParamsCheckpoints = d.quorumParamsCheckpoints ∨
      ∃ old params : DynamicQuorumParams, d.getDynamicQuorumParamsAt e.number = .ok old ∧
        (old.InBounds → params.InBounds) ∧
        d'.quorumParamsCheckpoints = write d.quorumParamsCheckpoints e.number params := by
  cases h with
  | settings vs d' h hcps hlogs hquiet => exact .inl hcps
  | params old vs d' h hold hcps hbounds hlogs habout => exact .inr ⟨old, _, hold, hbounds, hcps⟩
  | propose sender targets values signatures calldatas description minQuorum d' h hmin hlogs =>
    obtain ⟨_, _, _, _, e⟩ := propose_ok h
    exact .inl (by rw [e])
  | vote voter id support votes balance reason d1 h =>
    simp only [castVoteInternal, bind_eq_ok, pure_eq_ok, Prod.mk.injEq] at h
    obtain ⟨_, _, _, _, _, _, _, _, _, _, _, _, rfl, _⟩ := h
    exact .inl rfl
  | queue | cancel | veto | execute | executed => exact .inl rfl

theorem QuorumSound.deed {t : UNounsToken} {d' : NounsDAOLogicV2} {x : Option Nat}
    {vs : List DaoEvent} (h : QuorumSound b₀ n₀ e d) (hd : Deed e t d x vs d') :
    QuorumSound b₀ n₀ e d' := by
  have hq := hd.change.quorum.1
  have hcreated : ∀ i, n₀ < i → i ≤ d'.proposalCount →
      b₀ ≤ (d'.proposals i).creationBlock ∧ (d'.proposals i).creationBlock < 2^32 := by
    intro i h1 h2
    rcases hd.change.kept with ⟨sender, t, targets, values, signatures, calldatas, hc, hp, _, _, hn⟩ |
      ⟨hc, hk⟩
    · by_cases hi : i = d.proposalCount + 1
      · rw [hp, hi, update_self]
        exact ⟨h.started, hn⟩
      · rw [hp, update_of_ne hi]
        exact h.created i h1 (by omega)
    · rw [(hk i).congr (·.creationBlock) fun _ => rfl]
      exact h.created i h1 (by omega)
  rcases hd.checkpoints with hcps | ⟨old, params, hold, hb, hcps⟩
  · exact ⟨h.started, hcps ▸ h.upTo, hcps ▸ h.bounded, h.anchored.same hq hcps, hcreated⟩
  · refine ⟨h.started, ?_, fun cp hcp => ?_, h.anchored.write h.upTo hq hcps, hcreated⟩
    · rw [hcps]
      exact h.upTo.write params
    · rw [hcps] at hcp
      rcases mem_write hcp with hcp | rfl
      · exact h.bounded cp hcp
      · obtain ⟨old', hold', hin⟩ := h.params h.started (getDynamicQuorumParamsAt_ok hold)
        obtain rfl : old = old' := Except.ok.inj (hold.symm.trans hold')
        exact hb hin

end

/-! ## the votes against -/

theorem NounsDAOLogicV2.SetsProposal.againstVotes_le {d d' : NounsDAOLogicV2} {id : Nat} {p : Proposal}
    (h : SetsProposal d d' id p) (hp : (d.proposals id).againstVotes ≤ p.againstVotes) (i : Nat) :
    (d.proposals i).againstVotes ≤ (d'.proposals i).againstVotes := by
  by_cases e : i = id
  · rw [e, h.self]
    exact hp
  · rw [h.other e]

theorem withVote_againstVotes_le (p : Proposal) (voter : Address) (support votes : Nat) :
    p.againstVotes ≤ (Proposal.withVote p voter support votes).againstVotes := by
  have h : (Proposal.withVote p voter support votes).againstVotes
      = p.againstVotes + (if support = 0 then votes else 0) :=
    congrArg (·.1) (withVote_ballots p voter support votes)
  omega

theorem DaoChange.againstVotes_le {env : Env} {d d' : NounsDAOLogicV2} (h : DaoChange env d d')
    {i : Nat} (hi : i ≤ d.proposalCount) :
    (d.proposals i).againstVotes ≤ (d'.proposals i).againstVotes := by
  cases h with
  | same h => rw [h.proposals]
  | propose sender t targets values signatures calldatas description h =>
    rw [propose_other h (by omega)]
  | vote voter id support votes hstate hsupport hvoted h =>
    exact h.againstVotes_le (withVote_againstVotes_le _ _ _ _) i
  | queue id delay hstate h => exact h.againstVotes_le (Nat.le_refl _) i
  | execute id hstate h => exact h.againstVotes_le (Nat.le_refl _) i
  | cancel id s hstate hs h => exact h.againstVotes_le (Nat.le_refl _) i
  | veto id s hstate hs h => exact h.againstVotes_le (Nat.le_refl _) i

/-! ## once the block is over -/

/-- from `d` to `d'`, both after block `b`: the parameters of the block and the header of proposal
`id` are the same, votes against it may have been added -/
structure Since (b id : Nat) (d d' : NounsDAOLogicV2) : Prop where
  params : d'.getDynamicQuorumParamsAt b = d.getDynamicQuorumParamsAt b
  id_le : id ≤ d'.proposalCount
  header : Kept (d.proposals id) (d'.proposals id)
  againstVotes_le : (d.proposals id).againstVotes ≤ (d'.proposals id).againstVotes

theorem Since.refl {b id : Nat} {d : NounsDAOLogicV2} (hid : id ≤ d.proposalCount) : Since b id d d :=
  ⟨rfl, hid, rfl, Nat.le_refl _⟩

theorem Since.trans {b id : Nat} {d d' d'' : NounsDAOLogicV2} (h1 : Since b id d d')
    (h2 : Since b id d' d'') : Since b id d d'' :=
  ⟨h2.params.trans h1.params, h2.id_le, h2.header.trans h1.header,
    Nat.le_trans h1.againstVotes_le h2.againstVotes_le⟩

section
variable {b₀ n₀ b id : Nat} {e : Env} {d d' : NounsDAOLogicV2}

/-- the parameters of a block that is over are settled -/
theorem QuorumSound.since {t : UNounsToken} {x : Option Nat} {vs : List DaoEvent}
    (h : QuorumSound b₀ n₀ e d) (hd : Deed e t d x vs d') (hb : b < e.number) (hb' : b < 2^32)
    (hid : id ≤ d.proposalCount) : Since b id d d' := by
  have hcps : valueAt d'.quorumParamsCheckpoints b = valueAt d.quorumParamsCheckpoints b := by
    rcases hd.checkpoints with hcps | ⟨_, _, _, _, hcps⟩
    · rw [hcps]
    · rw [hcps, valueAt_write _ _ hb]
  refine ⟨?_, Nat.le_trans hid hd.change.count_le, hd.change.header hid,
    hd.change.againstVotes_le hid⟩
  rw [(h.deed hd).params_eq hb', h.params_eq hb', hcps, hd.change.quorum.1]

/-- the quorum of a proposal that records its supply -/
theorem quorumVotes_eq {params : DynamicQuorumParams} (hs : (d.proposals id).totalSupply ≠ 0)
    (hp : d.getDynamicQuorumParamsAt (d.proposals id).creationBlock = .ok params) :
    d.quorumVotes id
      = .ok (quorumOf params (d.proposals id).totalSupply (d.proposals id).againstVotes) := by
  unfold quorumVotes
  rw [if_neg hs, hp, ← dynamicQuorumVotes_eq hs]
  rfl

theorem Since.quorumVotes_eq (h : Since b id d d') {params : DynamicQuorumParams}
    (hb : (d.proposals id).creationBlock = b) (hs : (d.proposals id).totalSupply ≠ 0)
    (hp : d.getDynamicQuorumParamsAt b = .ok params) :
    d'.quorumVotes id
      = .ok (quorumOf params (d.proposals id).totalSupply (d'.proposals id).againstVotes) := by
  have hs' : (d'.proposals id).totalSupply = (d.proposals id).totalSupply :=
    h.header.congr (·.totalSupply) fun _ => rfl
  have hb' : (d'.proposals id).creationBlock = (d.proposals id).creationBlock :=
    h.header.congr (·.creationBlock) fun _ => rfl
  rw [← hs']
  refine UNouns.quorumVotes_eq (by rwa [hs']) ?_
  rw [hb', hb, h.params, hp]

end

/-! ## runs -/

section
variable {P : Platform}

/-- a DAO begins with its deployment, or with the upgrade of a DAO of the first version -/
inductive Start (e : Env) : World P → Prop
  | fresh (g : GovSetup) (w : World P) (h : g.deploy P e = .ok w) : Start e w
  | upgraded (w : WorldV1 P) (h1 : MIN_QUORUM_VOTES_BPS_LOWER_BOUND ≤ w.dao.quorumVotesBPS)
      (h2 : w.dao.quorumVotesBPS ≤ MIN_QUORUM_VOTES_BPS_UPPER_BOUND) : Start e w.upgrade

theorem Start.quorumSound {e : Env} {w : World P} (h : Start e w) :
    QuorumSound e.number w.dao.proposalCount e w.dao := by
  have hcreated : ∀ i, w.dao.proposalCount < i → i ≤ w.dao.proposalCount →
      e.number ≤ (w.dao.proposals i).creationBlock ∧ (w.dao.proposals i).creationBlock < 2^32 :=
    fun i h1 h2 => absurd h2 (Nat.not_le_of_lt h1)
  cases h with
  | fresh g w h =>
    have hsane := (GovSetup.deploy_fresh h).sane
    obtain ⟨params, hin, hcps⟩ : ∃ params : DynamicQuorumParams, params.InBounds ∧
        w.dao.quorumParamsCheckpoints = write [] e.number params := by
      simp only [GovSetup.deploy, bind_eq_ok, pure_eq_ok] at h
      obtain ⟨_, _, d, hd, rfl⟩ := h
      obtain ⟨_, hin, hcps, _⟩ := deploy_exact hd
      exact ⟨_, hin, hcps⟩
    refine ⟨Nat.le_refl _, hsane.upTo, fun cp hcp => ?_,
      .dynamic hsane.quorumVotesBPS fun b hb => ⟨params, ?_⟩, hcreated⟩
    · rw [hcps] at hcp
      rcases mem_write hcp with hcp | rfl
      · exact absurd hcp List.not_mem_nil
      · exact hin
    · rw [hcps]
      exact valueAt_write_of_le (UpTo.nil _) params hb
  | upgraded w h1 h2 =>
    exact ⟨Nat.le_refl _, UpTo.nil _, fun cp hcp => absurd hcp List.not_mem_nil, .fixed h1 h2, hcreated⟩

theorem runs_quorumSound {b₀ n₀ : Nat} {x y : Env × GovConfig P}
    (h : ReflTransGen (Timed GovExact) x y) (hx : QuorumSound b₀ n₀ x.1 x.2.now.dao) :
    QuorumSound b₀ n₀ y.1 y.2.now.dao := by
  refine Timed.invariant (I := fun e c => QuorumSound b₀ n₀ e c.now.dao) ?_ ?_ h hx
  · intro e c c' hc hm
    obtain ⟨x, vs, hd⟩ := GovExact.deed hm
    exact hc.deed hd
  · exact fun e e' c hc he => hc.mono he

theorem runs_since {b₀ n₀ b id : Nat} {x y : Env × GovConfig P}
    (h : ReflTransGen (Timed GovExact) x y) (hx : QuorumSound b₀ n₀ x.1 x.2.now.dao)
    (hb : b < x.1.number) (hb' : b < 2^32) (hid : id ≤ x.2.now.dao.proposalCount) :
    Since b id x.2.now.dao y.2.now.dao := by
  have hI : (QuorumSound b₀ n₀ y.1 y.2.now.dao ∧ b < y.1.number) ∧
      Since b id x.2.now.dao y.2.now.dao := by
    refine Timed.invariant (I := fun e c => (QuorumSound b₀ n₀ e c.now.dao ∧ b < e.number) ∧
      Since b id x.2.now.dao c.now.dao) ?_ ?_ h ⟨⟨hx, hb⟩, .refl hid⟩
    · intro e c c' hc hm
      obtain ⟨x, vs, hd⟩ := GovExact.deed hm
      exact ⟨⟨hc.1.1.deed hd, hc.1.2⟩, hc.2.trans (hc.1.1.since hd hc.1.2 hb' hc.2.id_le)⟩
    · exact fun e e' c hc he =>
        ⟨⟨hc.1.1.mono he, Nat.lt_of_lt_of_le hc.1.2 (Env.le_def.mp he).1⟩, hc.2⟩
  exact hI.2

/-- the same for the configurations of a run after block `b` -/
theorem observations_since {b₀ n₀ b id : Nat} {e : Env} {c : GovConfig P}
    {ts : List (Tx Env (GovCall P))} (hch : (e :: ts.map Tx.env).IsChain (· ≤ ·))
    (hts : ∀ t ∈ ts, b < t.env.number) (hc : QuorumSound b₀ n₀ e c.now.dao) (hb : b < 2^32)
    (hid : id ≤ c.now.dao.proposalCount) {o : Env × GovConfig P}
    (ho : o ∈ observations GovCall.code e ts c) : Since b id c.now.dao o.2.now.dao := by
  rcases observations_after Env.le_refl
    (fun env (op : GovCall P) (c : GovConfig P) => op.follows_exact env c) hch
    (Q := fun env => b < env.number) hts ho with rfl | ⟨e', hle, hlt, hr⟩
  · exact .refl hid
  · exact runs_since hr (hc.mono hle) hlt hb hid

/-- **The quorum is bounded and monotone.**  Every checkpoint of the parameters is within the bounds,
throughout.  A run is cut at the end of the block `b` in which a proposal was made, `params` are the
parameters of that moment: at any later time there is a quorum for it, between those of the minimum
and of the maximum, and it is no less than at any time in between. -/
theorem quorum_bounded (e : Env) (w : World P) (hw : Start e w)
    (ts us vs : List (Tx Env (GovCall P)))
    (hch : (e :: (ts ++ us ++ vs).map Tx.env).IsChain (· ≤ ·)) :
    (∀ o ∈ observations GovCall.code e (ts ++ us ++ vs) ⟨[], w⟩,
      ∀ cp ∈ o.2.now.dao.quorumParamsCheckpoints, cp.val.InBounds) ∧
    ∀ b id, (∀ t ∈ ts, t.env.number ≤ b) → (∀ t ∈ us ++ vs, b < t.env.number) →
      let cut := (runTxs GovCall.code ts ⟨[], w⟩).2
      let mid := (runTxs GovCall.code us cut).2
      let supply := (cut.now.dao.proposals id).totalSupply
      w.dao.proposalCount < id → id ≤ cut.now.dao.proposalCount →
      (cut.now.dao.proposals id).creationBlock = b → 0 < supply →
      ∃ params : DynamicQuorumParams, cut.now.dao.getDynamicQuorumParamsAt b = .ok params ∧
        ∀ o ∈ observations GovCall.code (lastEnv e (ts ++ us)) vs mid, ∃ q q',
          mid.now.dao.quorumVotes id = .ok q ∧ o.2.now.dao.quorumVotes id = .ok q' ∧
          bps2Uint params.minQuorumVotesBPS.toNat supply ≤ q ∧ q ≤ q' ∧
          q' ≤ bps2Uint params.maxQuorumVotesBPS.toNat supply := by
  have hfollow := fun env (op : GovCall P) (c : GovConfig P) => op.follows_exact env c
  refine ⟨fun o ho => ?_, ?_⟩
  · exact (runs_quorumSound (observations_timed hfollow hch ho) hw.quorumSound).bounded
  intro b id hts hus cut mid supply hnew hid hb hs
  obtain ⟨hch12, hch3⟩ := isChain_cut hch
  obtain ⟨hch1, hch2⟩ := isChain_cut hch12
  have hcut := runs_quorumSound (runTxs_timed hfollow ts e ⟨[], w⟩ hch1).2 hw.quorumSound
  obtain ⟨hb0, hb32⟩ := hcut.created id hnew hid
  obtain ⟨params, hp, hin⟩ := hcut.params hb0 hb32
  rw [hb] at hb0 hb32 hp
  refine ⟨params, hp, fun o ho => ?_⟩
  have hus1 : ∀ t ∈ us, b < t.env.number := fun t ht => hus t (List.mem_append_left _ ht)
  have hus2 : ∀ t ∈ vs, b < t.env.number := fun t ht => hus t (List.mem_append_right _ ht)
  have hmid : Since b id cut.now.dao mid.now.dao :=
    observations_since hch2 hus1 hcut hb32 hid (final_mem_observations _ _ _ _)
  have hsound : QuorumSound e.number w.dao.proposalCount (lastEnv e (ts ++ us)) mid.now.dao := by
    rw [lastEnv_append]
    exact runs_quorumSound (runTxs_timed hfollow us _ cut hch2).2 hcut
  have hlast : Since b id mid.now.dao o.2.now.dao :=
    observations_since hch3 hus2 hsound hb32 hmid.id_le ho
  exact ⟨_, _, hmid.quorumVotes_eq hb (Nat.ne_of_gt hs) hp,
    (hmid.trans hlast).quorumVotes_eq hb (Nat.ne_of_gt hs) hp, hin.le_quorumOf _ _,
    quorumOf_mono _ _ hlast.againstVotes_le, quorumOf_le _ _ _⟩

end

/-- two setters in the block of the proposal, after it -/
def tunedTxs : List (Tx Env (GovCall samplePlatform)) :=
  proposeTxs ++
  [⟨.block 8 80, sampleCall 11 0 (.entry (.dao (.setMaxQuorumVotesBPS 6000)))⟩,
   ⟨.block 8 80, sampleCall 11 0 (.entry (.dao (.setQuorumCoefficient 1000000)))⟩]

/-- a vote for it, and the minimum is raised -/
def raisedTxs : List (Tx Env (GovCall samplePlatform)) :=
  [⟨.block 10 100, sampleCall 2 0 (.entry (.dao (.castVote 1 1)))⟩,
   ⟨.block 10 100, sampleCall 11 0 (.entry (.dao (.setMinQuorumVotesBPS 2000)))⟩]

/-- a vote against it -/
def againstTxs : List (Tx Env (GovCall samplePlatform)) :=
  [⟨.block 11 110, sampleCall 4 0 (.entry (.dao (.castVote 1 0)))⟩]

theorem quorum_bounded_run :
    let cut := (runTxs GovCall.code tunedTxs ⟨[], sampleWorld⟩).2
    let mid := (runTxs GovCall.code raisedTxs cut).2
    let last := (runTxs GovCall.code againstTxs mid).2
    mid.now.dao.quorumParamsCheckpoints.length = 3 ∧ mid.now.dao.quorumVotes 1 = .ok 0 ∧
      last.now.dao.quorumVotes 1 = .ok 1 ∧
      ∃ params : DynamicQuorumParams, ∃ q q', cut.now.dao.getDynamicQuorumParamsAt 8 = .ok params ∧
        mid.now.dao.quorumVotes 1 = .ok q ∧ last.now.dao.quorumVotes 1 = .ok q' ∧ q ≤ q' ∧
        q' ≤ bps2Uint params.maxQuorumVotesBPS.toNat 2 := by
  intro cut mid last
  obtain ⟨params, hp, h⟩ := (quorum_bounded (.block 6 60) sampleWorld
    (.fresh sampleSetup _ sampleWorld_deployed) tunedTxs raisedTxs againstTxs
    (by simp [tunedTxs, proposeTxs, raisedTxs, againstTxs, Env.le_def, Env.block])).2 8 1
    (by simp [tunedTxs, proposeTxs, Env.block]) (by simp [raisedTxs, againstTxs, Env.block])
    (by decide +kernel) (by decide +kernel) (by decide +kernel) (by decide +kernel)
  obtain ⟨q, q', h1, h2, _, h3, h4⟩ := h _ (final_mem_observations _ _ _ _)
  have hs : (cut.now.dao.proposals 1).totalSupply = 2 := by decide +kernel
  exact ⟨by decide +kernel, by decide +kernel, by decide +kernel, params, q, q', hp, h1, h2, h3,
    hs ▸ h4⟩

end UNouns
