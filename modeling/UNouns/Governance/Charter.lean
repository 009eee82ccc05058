import UNouns.Governance.Deeds
import UNouns.Governance.Lifecycle

/-!
# Who holds which office, and on what terms

Admin and vetoer hand their office on in two steps, and the vetoer may also lay it down.  The voting
delay, the voting period, the proposal threshold and the quorum parameters are the admin's to set.

* `Charter`            the offices and the terms, of the storage of the DAO;
* `Amends`             what an entry does to them, and who may make it;
* `GovBegin.amends`    nothing else changes them;
* `offices_kept`       so an admin stays until it names another, and a veto power laid down is gone.
-/

set_option linter.unusedVariables false

namespace UNouns
open Function Relation Reentrant Checkpoints NounsDAOLogicV2

structure Charter where
  admin : Address
  pendingAdmin : Address
  vetoer : Address
  pendingVetoer : Address
  votingDelay : Nat
  votingPeriod : Nat
  proposalThresholdBPS : Nat
  quorumParams : List (Checkpoint DynamicQuorumParams)
  timelock : Address

def NounsDAOLogicV2.charter (d : NounsDAOLogicV2) : Charter :=
  ⟨d.admin, d.pendingAdmin, d.vetoer, d.pendingVetoer, d.votingDelay, d.votingPeriod,
    d.proposalThresholdBPS, d.quorumParamsCheckpoints, d.timelock⟩

/-- what an entry of `sender` does to a charter, if anything -/
inductive Amends (sender : Address) (c : Charter) : DaoOp → Charter → Prop
  | none (op : DaoOp) : Amends sender c op c
  | votingDelay (n : Nat) (hs : sender = c.admin) (hge : MIN_VOTING_DELAY ≤ n)
      (hle : n ≤ MAX_VOTING_DELAY) : Amends sender c (.setVotingDelay n) { c with votingDelay := n }
  | votingPeriod (n : Nat) (hs : sender = c.admin) (hge : MIN_VOTING_PERIOD ≤ n)
      (hle : n ≤ MAX_VOTING_PERIOD) : Amends sender c (.setVotingPeriod n) { c with votingPeriod := n }
  | proposalThreshold (n : Nat) (hs : sender = c.admin) (hge : MIN_PROPOSAL_THRESHOLD_BPS ≤ n)
      (hle : n ≤ MAX_PROPOSAL_THRESHOLD_BPS) :
      Amends sender c (.setProposalThresholdBPS n) { c with proposalThresholdBPS := n }
  | quorumParams (op : DaoOp) (cps : List (Checkpoint DynamicQuorumParams)) (hs : sender = c.admin) :
      Amends sender c op { c with quorumParams := cps }
  | pendingAdmin (a : Address) (hs : sender = c.admin) :
      Amends sender c (.setPendingAdmin a) { c with pendingAdmin := a }
  | acceptAdmin (hs : sender = c.pendingAdmin) :
      Amends sender c .acceptAdmin { c with admin := c.pendingAdmin, pendingAdmin := 0 }
  | pendingVetoer (a : Address) (hs : sender = c.vetoer) :
      Amends sender c (.setPendingVetoer a) { c with pendingVetoer := a }
  | acceptVetoer (hs : sender = c.pendingVetoer) :
      Amends sender c .acceptVetoer { c with vetoer := c.pendingVetoer, pendingVetoer := 0 }
  | burnVetoPower (hs : sender = c.vetoer) :
      Amends sender c .burnVetoPower { c with vetoer := 0, pendingVetoer := 0 }

/-! ## entries -/

section
variable {P : Platform} {env : Env} {t : UNounsToken} {d d' : NounsDAOLogicV2}

theorem castVoteInternal_charter {voter : Address} {id support votes : Nat}
    (h : d.castVoteInternal env t voter id support = .ok (d', votes)) : d'.charter = d.charter := by
  simp only [castVoteInternal, bind_eq_ok, pure_eq_ok, Prod.mk.injEq] at h
  obtain ⟨_, _, _, _, _, _, _, _, _, _, _, _, rfl, _⟩ := h
  rfl

theorem Votes.charter {voter : Address} {id support : Nat} (h : Votes env t d d' voter id support) :
    d'.charter = d.charter := by
  obtain ⟨d1, votes, balance, logs, h, rfl⟩ := h
  have hd1 := castVoteInternal_charter h
  exact hd1

theorem propose_charter {sender : Address} {targets : List Address} {values : List Nat}
    {signatures : List String} {calldatas : List Bytes} {description : String}
    (h : d.propose env sender t targets values signatures calldatas description = .ok d') :
    d'.charter = d.charter := by
  obtain ⟨_, _, _, _, e⟩ := propose_ok h
  rw [e]
  rfl

theorem writes_charter {params : DynamicQuorumParams} {d1 : NounsDAOLogicV2} {v : DaoEvent}
    (h : d.writeQuorumParamsCheckpoint env params = .ok d1) :
    ∃ cps, (d1.emit v).charter = { d.charter with quorumParams := cps } := by
  rw [writeQuorumParamsCheckpoint_ok h]
  exact ⟨_, rfl⟩

/-- once there is a timelock, an entry amends the charter as it says, or not at all -/
theorem DaoOp.amends {msg : Msg} {op : DaoOp} {x : Option GovExternal} (htl : d.timelock ≠ 0)
    (h : op.apply P env msg t d = .ok (d', x)) : Amends msg.sender d.charter op d'.charter := by
  have same : d'.charter = d.charter → Amends msg.sender d.charter op d'.charter := fun e => by
    rw [e]
    exact .none op
  cases op with
  | initializeV2 timelock nouns vetoer period delay threshold params =>
    obtain ⟨_, h1, _⟩ := map_eq_ok.mp h
    simp only [NounsDAOLogicV2.initializeV2, bind_eq_ok, require_eq_ok] at h1
    obtain ⟨_, h0, _⟩ := h1
    exact absurd h0 htl
  | setVotingDelay n =>
    obtain ⟨_, h1, h2⟩ := map_eq_ok.mp h
    cases h2
    simp only [NounsDAOLogicV2.setVotingDelay, onlyAdmin, bind_eq_ok, revertUnless_eq_ok, require_eq_ok,
      pure_eq_ok] at h1
    obtain ⟨_, hs, _, ⟨hge, hle⟩, rfl⟩ := h1
    exact .votingDelay n hs hge hle
  | setVotingPeriod n =>
    obtain ⟨_, h1, h2⟩ := map_eq_ok.mp h
    cases h2
    simp only [NounsDAOLogicV2.setVotingPeriod, onlyAdmin, bind_eq_ok, revertUnless_eq_ok, require_eq_ok,
      pure_eq_ok] at h1
    obtain ⟨_, hs, _, ⟨hge, hle⟩, rfl⟩ := h1
    exact .votingPeriod n hs hge hle
  | setProposalThresholdBPS n =>
    obtain ⟨_, h1, h2⟩ := map_eq_ok.mp h
    cases h2
    simp only [NounsDAOLogicV2.setProposalThresholdBPS, onlyAdmin, bind_eq_ok, revertUnless_eq_ok,
      require_eq_ok, pure_eq_ok] at h1
    obtain ⟨_, hs, _, ⟨hge, hle⟩, rfl⟩ := h1
    exact .proposalThreshold n hs hge hle
  | setPendingAdmin a =>
    obtain ⟨_, h1, h2⟩ := map_eq_ok.mp h
    cases h2
    simp only [NounsDAOLogicV2.setPendingAdmin, bind_eq_ok, require_eq_ok, pure_eq_ok] at h1
    obtain ⟨_, hs, rfl⟩ := h1
    exact .pendingAdmin a hs
  | acceptAdmin =>
    obtain ⟨_, h1, h2⟩ := map_eq_ok.mp h
    cases h2
    simp only [NounsDAOLogicV2.acceptAdmin, bind_eq_ok, require_eq_ok, pure_eq_ok] at h1
    obtain ⟨_, ⟨hs, _⟩, rfl⟩ := h1
    exact .acceptAdmin hs
  | setPendingVetoer a =>
    obtain ⟨_, h1, h2⟩ := map_eq_ok.mp h
    cases h2
    simp only [NounsDAOLogicV2.setPendingVetoer, bind_eq_ok, revertUnless_eq_ok, pure_eq_ok] at h1
    obtain ⟨_, hs, rfl⟩ := h1
    exact .pendingVetoer a hs
  | acceptVetoer =>
    obtain ⟨_, h1, h2⟩ := map_eq_ok.mp h
    cases h2
    simp only [NounsDAOLogicV2.acceptVetoer, bind_eq_ok, revertUnless_eq_ok, pure_eq_ok] at h1
    obtain ⟨_, hs, rfl⟩ := h1
    exact .acceptVetoer hs
  | burnVetoPower =>
    obtain ⟨_, h1, h2⟩ := map_eq_ok.mp h
    cases h2
    simp only [NounsDAOLogicV2.burnVetoPower, bind_eq_ok, require_eq_ok, pure_eq_ok] at h1
    obtain ⟨_, hs, rfl⟩ := h1
    exact .burnVetoPower hs
  | withdraw =>
    obtain ⟨⟨_, _⟩, h1, h2⟩ := map_eq_ok.mp h
    cases h2
    simp only [beginWithdraw, bind_eq_ok, pure_eq_ok, Prod.mk.injEq] at h1
    obtain ⟨_, _, rfl, _⟩ := h1
    exact same rfl
  | receive =>
    cases h
    exact same rfl
  | setMinQuorumVotesBPS _ | setMaxQuorumVotesBPS _ =>
    obtain ⟨_, h1, h2⟩ := map_eq_ok.mp h
    cases h2
    simp only [NounsDAOLogicV2.setMinQuorumVotesBPS, NounsDAOLogicV2.setMaxQuorumVotesBPS, onlyAdmin,
      bind_eq_ok, revertUnless_eq_ok, pure_eq_ok] at h1
    obtain ⟨_, hs, _, _, _, _, _, _, _, h1, rfl⟩ := h1
    obtain ⟨cps, e⟩ := writes_charter h1
    rw [e]
    exact .quorumParams _ cps hs
  | setQuorumCoefficient n =>
    obtain ⟨_, h1, h2⟩ := map_eq_ok.mp h
    cases h2
    simp only [NounsDAOLogicV2.setQuorumCoefficient, onlyAdmin, bind_eq_ok, revertUnless_eq_ok,
      pure_eq_ok] at h1
    obtain ⟨_, hs, _, _, _, h1, rfl⟩ := h1
    obtain ⟨cps, e⟩ := writes_charter h1
    rw [e]
    exact .quorumParams _ cps hs
  | setDynamicQuorumParams a b c =>
    obtain ⟨_, h1, h2⟩ := map_eq_ok.mp h
    cases h2
    have hs : msg.sender = d.admin := by
      simp only [NounsDAOLogicV2.setDynamicQuorumParams, onlyAdmin, bind_eq_ok, revertUnless_eq_ok] at h1
      exact h1.choose_spec.1
    obtain ⟨_, _, _, rfl⟩ := setDynamicQuorumParams_exact h1
    exact .quorumParams _ _ hs
  | propose targets values signatures calldatas description =>
    obtain ⟨_, h1, h2⟩ := map_eq_ok.mp h
    cases h2
    exact same (propose_charter h1)
  | castVote | castVoteWithReason =>
    obtain ⟨⟨_, _⟩, h1, h2⟩ := map_eq_ok.mp h
    cases h2
    exact same (castVoteWithEvent_ok h1).charter
  | castVoteBySig id support sig =>
    obtain ⟨⟨_, _⟩, h1, h2⟩ := map_eq_ok.mp h
    cases h2
    simp only [NounsDAOLogicV2.castVoteBySig, bind_eq_ok] at h1
    obtain ⟨_, _, h1⟩ := h1
    exact same (castVoteWithEvent_ok h1).charter
  | castRefundableVote | castRefundableVoteWithReason =>
    obtain ⟨⟨_, _⟩, h1, h2⟩ := map_eq_ok.mp h
    cases h2
    exact same (castRefundableVoteInternal_ok h1).charter

end

section
variable {P : Platform} {env : Env} {w w' : World P}

/-- **Nothing else changes the charter.** -/
theorem GovBegin.amends {c : GovCall P} (htl : w.dao.timelock ≠ 0) (h : GovBegin env c w w') :
    w'.dao.charter = w.dao.charter ∨ ∃ op, c.op = .entry (.dao op) ∧
      Amends c.msg.sender w.dao.charter op w'.dao.charter := by
  cases h with
  | execute id d w' hop h hact =>
    rw [hact.dao.1]
    simp only [beginExecute, bind_eq_ok, pure_eq_ok] at h
    obtain ⟨_, _, _, _, rfl⟩ := h
    exact .inl rfl
  | entry op w' x hop h =>
    cases op with
    | token | timelock =>
      obtain ⟨_, _, h2⟩ := map_eq_ok.mp h
      cases h2
      exact .inl rfl
    | dao op =>
      obtain ⟨⟨_, _⟩, h1, h2⟩ := map_eq_ok.mp h
      cases h2
      exact .inr ⟨op, hop, DaoOp.amends htl h1⟩
    | queue id =>
      obtain ⟨_, h1, h2⟩ := map_eq_ok.mp h
      cases h2
      simp only [NounsDAOLogicV2.queue, bind_eq_ok, pure_eq_ok] at h1
      obtain ⟨_, _, _, _, _, _, rfl⟩ := h1
      exact .inl rfl
    | cancel id =>
      obtain ⟨_, h1, h2⟩ := map_eq_ok.mp h
      cases h2
      simp only [NounsDAOLogicV2.cancel, bind_eq_ok, pure_eq_ok] at h1
      obtain ⟨_, _, _, _, _, _, _, _, _, _, rfl⟩ := h1
      exact .inl rfl
    | veto id =>
      obtain ⟨_, h1, h2⟩ := map_eq_ok.mp h
      cases h2
      simp only [NounsDAOLogicV2.veto, bind_eq_ok, pure_eq_ok] at h1
      obtain ⟨_, _, _, _, _, _, _, _, _, _, rfl⟩ := h1
      exact .inl rfl

theorem GovResume.charter (h : GovResume env w w') : w'.dao.charter = w.dao.charter := by
  cases h with
  | executed id hid hex => rfl
  | act w' id i tx hid hex h =>
    rw [(beginAction_ok h).2.2]
  | after x ok w' h =>
    cases x with
    | receiver | target =>
      obtain ⟨_, _, rfl⟩ := map_eq_ok.mp h
      rfl
    | refund | withdraw =>
      cases h
      rfl

/-- there is no veto without a vetoer -/
theorem GovBegin.vetoer_ne {c : GovCall P} {id : Nat} (h : GovBegin env c w w')
    (hop : c.op = .entry (.veto id)) : w.dao.vetoer ≠ 0 := by
  cases h with
  | execute id' d w' hop' h hact => exact absurd (hop'.symm.trans hop) (by simp)
  | entry op w' x hop' h =>
    have e : op = .veto id := by simpa using hop'.symm.trans hop
    subst e
    obtain ⟨_, h1, _⟩ := map_eq_ok.mp h
    simp only [NounsDAOLogicV2.veto, bind_eq_ok, revertUnless_eq_ok] at h1
    obtain ⟨_, h0, _⟩ := h1
    exact h0

/-! ## what lasts -/

/-- what the admin alone may change -/
def Charter.terms (c : Charter) : Nat × Nat × Nat × List (Checkpoint DynamicQuorumParams) :=
  (c.votingDelay, c.votingPeriod, c.proposalThresholdBPS, c.quorumParams)

/-- `r` is not the call of the admin `a` that names another -/
def NamesNone (a : Address) (r : GovRecord P) : Prop :=
  r.op.msg.sender = a → ∀ b, r.op.op ≠ .entry (.dao (.setPendingAdmin b))

/-- what lasts from a charter to a later one, by the calls `since` -/
structure Lasts (c : Charter) (since : List (GovRecord P)) (c' : Charter) : Prop where
  admin : c.pendingAdmin = 0 → (∀ r ∈ since, NamesNone c.admin r) → c'.admin = c.admin ∧ c'.pendingAdmin = 0
  terms : c.pendingAdmin = 0 → (∀ r ∈ since, r.op.msg.sender ≠ c.admin) → c'.terms = c.terms
  veto : c.vetoer = 0 → c.pendingVetoer = 0 → c'.vetoer = 0 ∧ c'.pendingVetoer = 0 ∧
    ∀ r ∈ since, ∀ id, r.op.op ≠ .entry (.veto id)

theorem Lasts.refl (c : Charter) : Lasts c ([] : List (GovRecord P)) c :=
  ⟨fun h _ => ⟨rfl, h⟩, fun _ _ => rfl, fun h h' => ⟨h, h', fun r hr => absurd hr List.not_mem_nil⟩⟩

/-- one more call -/
theorem Lasts.snoc {c₀ : Charter} {since : List (GovRecord P)} {c : GovCall P}
    (hc : Lasts c₀ since w.dao.charter) (htl : w.dao.timelock ≠ 0) (h : GovBegin env c w w') :
    Lasts c₀ (since ++ [⟨env, w, c⟩]) w'.dao.charter := by
  have hold : ∀ {r}, r ∈ since → r ∈ since ++ [(⟨env, w, c⟩ : GovRecord P)] := List.mem_append_left _
  have hnew : (⟨env, w, c⟩ : GovRecord P) ∈ since ++ [⟨env, w, c⟩] :=
    List.mem_append_right _ (List.mem_singleton_self _)
  have h0 := c.msg.sender_ne
  refine ⟨fun hp hstays => ?_, fun hp hidle => ?_, fun hv hpv => ?_⟩
  · obtain ⟨ha, hpa⟩ := hc.admin hp fun r hr => hstays r (hold hr)
    have hstay : c.msg.sender = c₀.admin → ∀ b, c.op ≠ .entry (.dao (.setPendingAdmin b)) := hstays _ hnew
    rcases GovBegin.amends htl h with e | ⟨op, hop, hamend⟩
    · rw [e]
      exact ⟨ha, hpa⟩
    · generalize w'.dao.charter = c' at hamend
      cases hamend with
      | pendingAdmin a hs => exact absurd hop (hstay (hs.trans ha) a)
      | acceptAdmin hs => exact absurd (hs.trans hpa) h0
      | _ => exact ⟨ha, hpa⟩
  · have hterms := hc.terms hp fun r hr => hidle r (hold hr)
    obtain ⟨ha, _⟩ := hc.admin hp fun r hr hsender => absurd hsender (hidle r (hold hr))
    have hother : c.msg.sender ≠ c₀.admin := hidle _ hnew
    rcases GovBegin.amends htl h with e | ⟨op, hop, hamend⟩
    · rw [e]
      exact hterms
    · generalize w'.dao.charter = c' at hamend
      cases hamend with
      | votingDelay _ hs | votingPeriod _ hs | proposalThreshold _ hs | quorumParams _ _ hs =>
        exact absurd (hs.trans ha) hother
      | _ => exact hterms
  · obtain ⟨h1, h2, h3⟩ := hc.veto hv hpv
    refine ⟨?_, ?_, fun r hr id hop => ?_⟩
    · rcases GovBegin.amends htl h with e | ⟨op, hop, hamend⟩
      · rw [e]
        exact h1
      · generalize w'.dao.charter = c' at hamend
        cases hamend with
        | acceptVetoer hs => exact absurd (hs.trans h2) h0
        | burnVetoPower hs => rfl
        | _ => exact h1
    · rcases GovBegin.amends htl h with e | ⟨op, hop, hamend⟩
      · rw [e]
        exact h2
      · generalize w'.dao.charter = c' at hamend
        cases hamend with
        | pendingVetoer a hs => exact absurd (hs.trans h1) h0
        | acceptVetoer hs | burnVetoPower hs => rfl
        | _ => exact h2
    · rcases List.mem_append.mp hr with hr | hr
      · exact h3 r hr id hop
      · rw [List.mem_singleton.mp hr] at hop
        exact GovBegin.vetoer_ne h hop h1

/-! ## runs -/

/-- from the charter of each entry on -/
structure Chartered (c : GovConfig P) : Prop where
  timelock : c.now.dao.timelock ≠ 0
  lasts : ∀ before r after, c.past = before ++ r :: after →
    Lasts r.pre.dao.charter (r :: after) c.now.dao.charter

theorem Amends.timelock {sender : Address} {c c' : Charter} {op : DaoOp} (h : Amends sender c op c') :
    c'.timelock = c.timelock := by
  cases h <;> rfl

theorem GovExact.chartered {c c' : GovConfig P} (hc : Chartered c) (h : GovExact env c c') :
    Chartered c' := by
  cases h with
  | enter op w h =>
    refine ⟨?_, forall_cuts_concat.mpr ⟨fun before r after hpast => ?_, ?_⟩⟩
    · have htl : w.dao.charter.timelock = c.now.dao.charter.timelock := by
        rcases GovBegin.amends hc.timelock h with e | ⟨op, _, hamend⟩
        · rw [e]
        · exact hamend.timelock
      exact fun h0 => hc.timelock (htl.symm.trans h0)
    · exact (hc.lasts before r after hpast).snoc hc.timelock h
    · exact (Lasts.refl c.now.dao.charter).snoc hc.timelock h
  | resume w h =>
    have e := GovResume.charter h
    refine ⟨fun h0 => hc.timelock ?_, fun before r after hpast => ?_⟩
    · exact (congrArg Charter.timelock e).symm.trans h0
    · rw [e]
      exact hc.lasts before r after hpast

theorem GovSetup.deploy_timelock {g : GovSetup} {e : Env} {w : World P} (hw : g.deploy P e = .ok w) :
    w.dao.timelock ≠ 0 := by
  simp only [GovSetup.deploy, NounsDAOLogicV2.deploy, bind_eq_ok, pure_eq_ok] at hw
  obtain ⟨_, _, d, ⟨d1, h1, rfl⟩, rfl⟩ := hw
  obtain ⟨_, _, _, e⟩ := initializeV2_exact h1
  simp only [NounsDAOLogicV2.initializeV2, bind_eq_ok, require_eq_ok] at h1
  obtain ⟨_, _, _, _, _, htl, _⟩ := h1
  show d1.timelock ≠ 0
  rw [e]
  exact htl

/-- **Offices change hands by their holders only.**  Wherever a run is looked at, from each entry on: an
admin with no successor named is still the admin, if it has named none since; the voting delay, the
voting period, the proposal threshold and the quorum parameters are what they were, if it has not
called since; and a veto power that was laid down is still gone, and nothing was vetoed since. -/
theorem offices_kept (g : GovSetup) (e : Env) (w : World P) (hw : g.deploy P e = .ok w)
    (ts : List (Tx Env (GovCall P))) (hch : (e :: ts.map Tx.env).IsChain (· ≤ ·)) :
    ∀ o ∈ observations GovCall.code e ts ⟨[], w⟩,
      ∀ before r after, o.2.past = before ++ r :: after →
        let d := r.pre.dao
        let now := o.2.now.dao
        (d.pendingAdmin = 0 → (∀ x ∈ r :: after, NamesNone d.admin x) → now.admin = d.admin) ∧
        (d.pendingAdmin = 0 → (∀ x ∈ r :: after, x.op.msg.sender ≠ d.admin) →
          now.votingDelay = d.votingDelay ∧ now.votingPeriod = d.votingPeriod ∧
          now.proposalThresholdBPS = d.proposalThresholdBPS ∧
          now.quorumParamsCheckpoints = d.quorumParamsCheckpoints) ∧
        (d.vetoer = 0 → d.pendingVetoer = 0 → now.vetoer = 0 ∧
          ∀ x ∈ r :: after, ∀ id, x.op.op ≠ .entry (.veto id)) := by
  intro o ho before r after hpast d now
  have hstart : Chartered (⟨[], w⟩ : GovConfig P) :=
    ⟨GovSetup.deploy_timelock hw, fun before r after hpast =>
      absurd (congrArg List.length hpast) (by simp)⟩
  have hr : ReflTransGen (Timed GovExact) (e, ⟨[], w⟩) o :=
    observations_timed (fun env (op : GovCall P) (c : GovConfig P) => op.follows_exact env c) hch ho
  have h : Chartered o.2 := Timed.invariant (I := fun _ c => Chartered c)
    (fun _ _ _ hc hm => hm.chartered hc) (fun _ _ _ hc _ => hc) hr hstart
  obtain ⟨h1, h2, h3⟩ := h.lasts before r after hpast
  refine ⟨fun hp hs => (h1 hp hs).1, fun hp hi => ?_, fun hv hpv => ?_⟩
  · simpa [Charter.terms, NounsDAOLogicV2.charter] using h2 hp hi
  · obtain ⟨h4, _, h5⟩ := h3 hv hpv
    exact ⟨h4, h5⟩

end

/-- the veto power is laid down, and others try to use it and to change the terms -/
def officeTxs : List (Tx Env (GovCall samplePlatform)) :=
  proposeTxs ++
  [⟨.block 9 90, sampleCall 8 0 (.entry (.dao .burnVetoPower))⟩,
   ⟨.block 9 90, sampleCall 4 0 (.entry (.token (.delegate 2)))⟩,
   ⟨.block 9 90, sampleCall 8 0 (.entry (.veto 1))⟩,
   ⟨.block 9 90, sampleCall 4 0 (.entry (.dao (.setVotingDelay 7)))⟩,
   ⟨.block 10 100, sampleCall 2 0 (.entry (.dao (.castVote 1 1)))⟩]

theorem offices_kept_run :
    let last := (runTxs GovCall.code officeTxs ⟨[], sampleWorld⟩).2
    last.past.length = 5 ∧ last.now.dao.admin = 11 ∧ last.now.dao.votingDelay = 1 ∧
      last.now.dao.vetoer = 0 := by
  intro last
  have hlen : last.past.length = 5 := by decide +kernel
  have h3 : last.past[3]?.map (fun r => (r.pre.dao.charter.admin, r.pre.dao.pendingAdmin, r.pre.dao.vetoer,
      r.pre.dao.pendingVetoer, r.pre.dao.votingDelay)) = some (11, 0, 0, 0, 1) := by decide +kernel
  have hidle : ∀ x ∈ last.past, x.op.msg.sender ≠ 11 := by decide +kernel
  obtain ⟨r, hr, e⟩ := Option.map_eq_some_iff.mp h3
  obtain ⟨hi, rfl⟩ := List.getElem?_eq_some_iff.mp hr
  simp only [Prod.mk.injEq] at e
  obtain ⟨ha, hpa, hv, hpv, hdelay⟩ := e
  have hpast : last.past = last.past.take 3 ++ last.past[3] :: last.past.drop 4 := by
    rw [List.getElem_cons_drop, List.take_append_drop]
  have hsince : ∀ x ∈ last.past[3] :: last.past.drop 4, x.op.msg.sender ≠ last.past[3].pre.dao.admin := by
    intro x hx
    rw [show last.past[3].pre.dao.admin = 11 from ha]
    refine hidle x ?_
    rw [hpast]
    exact List.mem_append_right _ hx
  obtain ⟨h1, h2, h4⟩ := offices_kept sampleSetup (.block 6 60) sampleWorld sampleWorld_deployed officeTxs
    (by decide +kernel) _ (final_mem_observations _ _ _ _) _ _ _ hpast
  have hadmin : last.now.dao.admin = 11 := (h1 hpa fun x hx hs => absurd hs (hsince x hx)).trans ha
  have hterms : last.now.dao.votingDelay = 1 := (h2 hpa hsince).1.trans hdelay
  exact ⟨hlen, hadmin, hterms, (h4 hv hpv).1⟩

end UNouns
