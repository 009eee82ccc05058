import UNouns.Governance.Tallies

/-!
# The lifecycle of a proposal

`state` is derived from stored fields, the block, the clock and the quorum at the creation block.

* `Edge`                    the graph its values move along;
* `SaneSince.defeated_ok`   it is always defined;
* `phase_tick`              time moves it along the graph;
* `DaoChange.later`         so does every change to the DAO: setters do not reach the quorum of
                            an older block, votes come while the proposal is active;
* `state_lifecycle`         so does every run.
-/

set_option linter.unusedVariables false

namespace UNouns
open Function Relation Reentrant Checkpoints NounsDAOLogicV2

/-! ## the graph -/

inductive Edge : ProposalState → ProposalState → Prop
  | pending_active : Edge .pending .active
  | pending_defeated : Edge .pending .defeated
  | pending_canceled : Edge .pending .canceled
  | pending_vetoed : Edge .pending .vetoed
  | active_defeated : Edge .active .defeated
  | active_succeeded : Edge .active .succeeded
  | active_canceled : Edge .active .canceled
  | active_vetoed : Edge .active .vetoed
  | succeeded_queued : Edge .succeeded .queued
  | succeeded_canceled : Edge .succeeded .canceled
  | succeeded_vetoed : Edge .succeeded .vetoed
  | queued_executed : Edge .queued .executed
  | queued_expired : Edge .queued .expired
  | queued_canceled : Edge .queued .canceled
  | queued_vetoed : Edge .queued .vetoed
  | defeated_canceled : Edge .defeated .canceled
  | defeated_vetoed : Edge .defeated .vetoed
  | expired_canceled : Edge .expired .canceled
  | expired_vetoed : Edge .expired .vetoed
  | canceled_vetoed : Edge .canceled .vetoed

/-- what one value may turn into -/
abbrev Leads : ProposalState → ProposalState → Prop := ReflTransGen Edge

/-- vetoed and executed are final -/
theorem Leads.final {s s' : ProposalState} (h : Leads s s')
    (hs : s = .vetoed ∨ s = .executed) : s' = s := by
  rcases ReflTransGen.cases_head h with e | ⟨t, ht, _⟩
  · exact e.symm
  · rcases hs with rfl | rfl <;> cases ht

theorem Leads.of_canceled {s : ProposalState} (h : Leads .canceled s) :
    s = .canceled ∨ s = .vetoed := by
  rcases ReflTransGen.cases_head h with e | ⟨t, ht, h⟩
  · exact .inl e.symm
  · cases ht
    exact .inr (Leads.final h (.inl rfl))

theorem Leads.of_defeated {s : ProposalState} (h : Leads .defeated s) :
    s = .defeated ∨ s = .canceled ∨ s = .vetoed := by
  rcases ReflTransGen.cases_head h with e | ⟨t, ht, h⟩
  · exact .inl e.symm
  · cases ht with
    | defeated_canceled => exact .inr (Leads.of_canceled h)
    | defeated_vetoed => exact .inr (.inr (Leads.final h (.inl rfl)))

theorem Leads.of_succeeded {s : ProposalState} (h : Leads .succeeded s) : s ≠ .defeated := by
  -- nothing on the way leads to `defeated` any more
  have h1 : s ∈ [ProposalState.succeeded, .queued, .executed, .expired, .canceled, .vetoed] := by
    induction h with
    | refl => exact List.mem_cons_self
    | tail _ he ih => cases he <;> simp at ih ⊢
  rintro rfl
  simp at h1

theorem leads_canceled {s : ProposalState} (hs : s ≠ .executed) (hv : s ≠ .vetoed) :
    Leads s .canceled := by
  cases s with
  | executed => exact absurd rfl hs
  | vetoed => exact absurd rfl hv
  | canceled => exact ReflTransGen.refl
  | pending => exact .single .pending_canceled
  | active => exact .single .active_canceled
  | defeated => exact .single .defeated_canceled
  | succeeded => exact .single .succeeded_canceled
  | queued => exact .single .queued_canceled
  | expired => exact .single .expired_canceled

theorem leads_vetoed {s : ProposalState} (hs : s ≠ .executed) : Leads s .vetoed := by
  by_cases hv : s = .vetoed
  · rw [hv]
  · exact (leads_canceled hs hv).tail .canceled_vetoed

/-! ## time -/

theorem leads_from_active {s : ProposalState}
    (h : s = .active ∨ s = .defeated ∨ s = .succeeded ∨ s = .executed ∨ s = .expired ∨ s = .queued) :
    Leads .active s := by
  have h1 : Leads .active .queued := (ReflTransGen.single .active_succeeded).tail .succeeded_queued
  rcases h with rfl | rfl | rfl | rfl | rfl | rfl
  · exact .refl
  · exact .single .active_defeated
  · exact .single .active_succeeded
  · exact h1.tail .queued_executed
  · exact h1.tail .queued_expired
  · exact h1

/-- the part of `phase` after the voting has begun -/
theorem phase_started {e : Env} {p : Proposal} {b : Bool} (hv : ¬ p.vetoed = true)
    (hc : ¬ p.canceled = true) (hs : ¬ e.number ≤ p.startBlock) :
    phase e p b = .active ∨ phase e p b = .defeated ∨ phase e p b = .succeeded ∨
      phase e p b = .executed ∨ phase e p b = .expired ∨ phase e p b = .queued := by
  unfold phase
  rw [if_neg hv, if_neg hc, if_neg hs]
  split_ifs <;> simp

theorem phase_tick {e e' : Env} (he : e ≤ e') (p : Proposal) (b : Bool) :
    Leads (phase e p b) (phase e' p b) := by
  obtain ⟨hn, ht⟩ := Env.le_def.mp he
  by_cases hv : p.vetoed = true
  · rw [show phase e p b = .vetoed by simp [phase, hv], show phase e' p b = .vetoed by simp [phase, hv]]
  by_cases hc : p.canceled = true
  · rw [show phase e p b = .canceled by simp [phase, hv, hc],
      show phase e' p b = .canceled by simp [phase, hv, hc]]
  by_cases hs' : e'.number ≤ p.startBlock
  · have hs : e.number ≤ p.startBlock := by omega
    rw [show phase e p b = .pending by simp [phase, hv, hc, hs],
      show phase e' p b = .pending by simp [phase, hv, hc, hs']]
  have h' := phase_started (b := b) hv hc hs'
  by_cases hs : e.number ≤ p.startBlock
  · rw [show phase e p b = .pending by simp [phase, hv, hc, hs]]
    exact (leads_from_active h').head .pending_active
  by_cases hn : e.number ≤ p.endBlock
  · rw [show phase e p b = .active by simp [phase, hv, hc, hs, hn]]
    exact leads_from_active h'
  -- the voting is over: only the grace period can still run out
  have hn' : ¬ e'.number ≤ p.endBlock := by omega
  simp only [phase, if_neg hv, if_neg hc, if_neg hs, if_neg hs', if_neg hn, if_neg hn']
  by_cases hg : p.eta + NounsDAOExecutor.GRACE_PERIOD ≤ e.timestamp
  · have hg' : p.eta + NounsDAOExecutor.GRACE_PERIOD ≤ e'.timestamp := by omega
    rw [if_pos hg, if_pos hg']
  · rw [if_neg hg]
    split_ifs
    all_goals first
      | exact .refl
      | exact .single .queued_expired

/-! ## the quorum -/

/-- the parameters of a block, or the old fixed quorum before the first checkpoint -/
theorem getDynamicQuorumParamsAt_eq {d : NounsDAOLogicV2} {n b : Nat}
    (hup : UpTo d.quorumParamsCheckpoints n) (hq : d.quorumVotesBPS < 2^16) (hb : b < 2^32) :
    d.getDynamicQuorumParamsAt b = .ok ((valueAt d.quorumParamsCheckpoints b).getD
      ⟨.ofNat d.quorumVotesBPS, .ofNat d.quorumVotesBPS, 0⟩) := by
  have h32 : b ≤ 2^32 - 1 := by omega
  have h16 : d.quorumVotesBPS ≤ 2^16 - 1 := by omega
  have hwithout : d.quorumParamsWithoutCheckpoint
      = .ok ⟨.ofNat d.quorumVotesBPS, .ofNat d.quorumVotesBPS, 0⟩ := by
    simp only [quorumParamsWithoutCheckpoint, safe16, revertUnless, if_pos h16]
    rfl
  have hread := prior_eq d.quorumParamsCheckpoints b hup.sorted
  simp only [getDynamicQuorumParamsAt, safe32, require, if_pos h32, hwithout, bind, Except.bind, pure,
    Except.pure, hread]
  cases valueAt d.quorumParamsCheckpoints b with
  | none => rfl
  | some params => rfl

theorem SaneSince.params_ok {n₀ : Nat} {e : Env} {d : NounsDAOLogicV2} (h : SaneSince n₀ e d) {b : Nat}
    (hb : b < 2^32) : d.getDynamicQuorumParamsAt b = .ok ((valueAt d.quorumParamsCheckpoints b).getD
      ⟨.ofNat d.quorumVotesBPS, .ofNat d.quorumVotesBPS, 0⟩) :=
  getDynamicQuorumParamsAt_eq h.upTo h.quorumVotesBPS_lt hb

/-- **`state` does not revert.** -/
theorem SaneSince.defeated_ok {n₀ : Nat} {e : Env} {d : NounsDAOLogicV2} (h : SaneSince n₀ e d) {i : Nat}
    (h1 : n₀ < i) (h2 : i ≤ d.proposalCount) : ∃ b, d.defeated (d.proposals i) = .ok b := by
  have hw := h.wellFormed i h1 h2
  unfold defeated
  split_ifs with hm
  · exact ⟨true, rfl⟩
  · have hq : ∃ q, d.quorumVotes (d.proposals i).id = .ok q := by
      rw [hw.id_eq]
      unfold quorumVotes
      by_cases hs : (d.proposals i).totalSupply = 0
      · exact ⟨_, by rw [if_pos hs]; rfl⟩
      · rw [if_neg hs, h.params_ok hw.creation_lt]
        exact ⟨_, by simp only [dynamicQuorumVotes, revertUnless, if_pos hs]; rfl⟩
    obtain ⟨q, hq⟩ := hq
    exact ⟨_, by rw [hq]; rfl⟩

theorem Sane.state_ok {e e' : Env} {d : NounsDAOLogicV2} (h : Sane e d) {i : Nat} (h1 : 1 ≤ i)
    (h2 : i ≤ d.proposalCount) : ∃ s, d.state e' i = .ok s := by
  obtain ⟨b, hb⟩ := h.defeated_ok h1 h2
  exact ⟨_, state_eq h2 hb⟩

/-- the outcome of a vote that is over does not change -/
theorem DaoChange.defeated {n₀ : Nat} {env : Env} {d d' : NounsDAOLogicV2} (hd : SaneSince n₀ env d)
    (h : DaoChange env d d') {i : Nat} (h1 : n₀ < i) (h2 : i ≤ d.proposalCount)
    (hend : (d.proposals i).endBlock < env.number) :
    d'.defeated (d'.proposals i) = d.defeated (d.proposals i) := by
  have hw := hd.wellFormed i h1 h2
  have hk := h.header h2
  have hb : (d'.proposals i).ballots = (d.proposals i).ballots := by
    rcases h.ballots hd.fresh i with hb | ⟨_, _, _, hact, _⟩
    · exact hb
    · exact absurd (state_active hact).2.2.2 (by omega)
  have hcreated : (d.proposals i).creationBlock < env.number := by
    have := hw.start_ge
    have := hw.end_ge
    omega
  have hparams : d'.getDynamicQuorumParamsAt (d.proposals i).creationBlock
      = d.getDynamicQuorumParamsAt (d.proposals i).creationBlock := by
    rw [hd.params_ok hw.creation_lt, (hd.change h).params_ok hw.creation_lt, h.quorum.1]
    rcases h.quorum.2 with hc | ⟨params, hc⟩
    · rw [hc]
    · rw [hc, valueAt_write _ _ hcreated]
  have hfor : (d'.proposals i).forVotes = (d.proposals i).forVotes := congrArg (·.2.1) hb
  have hagainst : (d'.proposals i).againstVotes = (d.proposals i).againstVotes := congrArg (·.1) hb
  have hid : (d'.proposals i).id = (d.proposals i).id := hk.congr (·.id) (fun _ => rfl)
  have hquorum : d'.quorumVotes i = d.quorumVotes i := by
    simp only [quorumVotes, hk.congr (·.totalSupply) (fun _ => rfl),
      hk.congr (·.quorumVotes) (fun _ => rfl), hk.congr (·.creationBlock) (fun _ => rfl), hagainst,
      hparams]
  unfold NounsDAOLogicV2.defeated
  rw [hfor, hagainst, hid, hw.id_eq, hquorum]

/-! ## proposals that were queued -/

theorem carried_defeated {env : Env} {d : NounsDAOLogicV2} {p : Proposal} (h : Carried env d p) :
    d.defeated p = .ok false := by
  obtain ⟨q, hq, hle⟩ := h.quorum
  unfold NounsDAOLogicV2.defeated
  rw [if_neg (Nat.not_le.mpr h.majority), hq]
  exact congrArg Except.ok (decide_eq_false (Nat.not_lt.mpr hle))

/-- an `eta` is set once, when the proposal has succeeded -/
theorem DaoChange.eta {env : Env} {d d' : NounsDAOLogicV2} (hd : Blank d)
    (h : DaoChange env d d') (i : Nat) :
    (d'.proposals i).eta = (d.proposals i).eta ∨
      (d.state env i = .ok .succeeded ∧
        ∃ delay, d'.proposals i = { d.proposals i with eta := env.timestamp + delay }) := by
  have hsame : ∀ {id : Nat} {p : Proposal}, SetsProposal d d' id p → p.eta = (d.proposals id).eta →
      (d'.proposals i).eta = (d.proposals i).eta := by
    intro id p hs hp
    by_cases e : i = id
    · subst e; rw [hs.self, hp]
    · rw [hs.other e]
  cases h with
  | same h => exact .inl (by rw [h.proposals])
  | propose sender t targets values signatures calldatas description h =>
    refine .inl ?_
    by_cases ei : i = d.proposalCount + 1
    · obtain ⟨_, _, _, _, e⟩ := propose_ok h
      rw [e, ei]
      show (update d.proposals _ _ (d.proposalCount + 1)).eta = _
      rw [update_self, hd _ (Nat.lt_succ_self _)]
      rfl
    · rw [propose_other h ei]
  | vote voter id support votes hstate hsupport hvoted h =>
    exact .inl (hsame h (withVote_flags _ _ _ _).2.2.2)
  | queue id delay hstate h =>
    by_cases e : i = id
    · subst e
      exact .inr ⟨hstate, delay, h.self⟩
    · exact .inl (by rw [h.other e])
  | execute id hstate h => exact .inl (hsame h rfl)
  | cancel id s hstate hs h => exact .inl (hsame h rfl)
  | veto id s hstate hs h => exact .inl (hsame h rfl)

/-- a proposal that was queued had been carried, and its outcome stands -/
def CarriedAt (e : Env) (d : NounsDAOLogicV2) (i : Nat) : Prop :=
  (d.proposals i).eta ≠ 0 →
    (d.proposals i).endBlock < e.number ∧ d.defeated (d.proposals i) = .ok false

/-- whatever was queued had been carried, and its outcome stands -/
def Carries (e : Env) (d : NounsDAOLogicV2) : Prop := ∀ i, CarriedAt e d i

theorem CarriedAt.mono {e e' : Env} {d : NounsDAOLogicV2} {i : Nat} (h : CarriedAt e d i) (he : e ≤ e') :
    CarriedAt e' d i := fun hi =>
  ⟨Nat.lt_of_lt_of_le (h hi).1 (Env.le_def.mp he).1, (h hi).2⟩

theorem Carries.mono {e e' : Env} {d : NounsDAOLogicV2} (h : Carries e d) (he : e ≤ e') :
    Carries e' d := fun i => (h i).mono he

section
variable {n₀ : Nat} {env : Env} {d d' : NounsDAOLogicV2} {i : Nat}

theorem SaneSince.le_of_eta (h : SaneSince n₀ env d) (hi : (d.proposals i).eta ≠ 0) :
    i ≤ d.proposalCount := by
  by_contra hlt
  exact hi (by rw [h.fresh i (Nat.lt_of_not_le hlt)]; rfl)

theorem CarriedAt.change (hc : CarriedAt env d i) (hd : SaneSince n₀ env d)
    (hnew : (d'.proposals i).eta ≠ 0 → n₀ < i) (h : DaoChange env d d') : CarriedAt env d' i := by
  intro hi
  have hbefore : i ≤ d.proposalCount ∧ (d.proposals i).endBlock < env.number ∧
      d.defeated (d.proposals i) = .ok false := by
    rcases h.eta hd.fresh i with e | ⟨hs, _⟩
    · have hi' := hi
      rw [e] at hi'
      exact ⟨hd.le_of_eta hi', hc hi'⟩
    · exact ⟨state_le hs, (state_succeeded hs).1.ended, carried_defeated (state_succeeded hs).1⟩
  obtain ⟨h2, hend, hdef⟩ := hbefore
  refine ⟨?_, (h.defeated hd (hnew hi) h2 hend).trans hdef⟩
  rwa [(h.header h2).congr (·.endBlock) (fun _ => rfl)]

theorem Carries.change (hc : Carries env d) (hd : Sane env d) (h : DaoChange env d d') :
    Carries env d' := fun i =>
  (hc i).change hd.toSaneSince (fun hi => ((hd.change h).id_of_eta hi).1) h

/-- what `state` says of a queued proposal depends on its flags and the clock only -/
theorem CarriedAt.state_eq (hc : CarriedAt env d i) (hd : SaneSince n₀ env d) (hnew : n₀ < i)
    (hi : (d.proposals i).eta ≠ 0) (hv : (d.proposals i).vetoed = false)
    (hcan : (d.proposals i).canceled = false) :
    d.state env i = .ok (if (d.proposals i).executed then .executed
      else if (d.proposals i).eta + NounsDAOExecutor.GRACE_PERIOD ≤ env.timestamp then .expired
      else .queued) := by
  have h2 := hd.le_of_eta hi
  obtain ⟨hend, hdef⟩ := hc hi
  have hstart := (hd.wellFormed i hnew h2).end_ge
  rw [NounsDAOLogicV2.state_eq h2 hdef]
  simp only [phase, hv, hcan, if_neg (show ¬ env.number ≤ (d.proposals i).startBlock by omega),
    if_neg (show ¬ env.number ≤ (d.proposals i).endBlock by omega), if_neg hi, Bool.false_eq_true,
    if_false]

theorem Carries.state_eq (hc : Carries env d) (hd : Sane env d)
    (hi : (d.proposals i).eta ≠ 0) (hv : (d.proposals i).vetoed = false)
    (hcan : (d.proposals i).canceled = false) :
    d.state env i = .ok (if (d.proposals i).executed then .executed
      else if (d.proposals i).eta + NounsDAOExecutor.GRACE_PERIOD ≤ env.timestamp then .expired
      else .queued) :=
  (hc i).state_eq hd.toSaneSince (hd.id_of_eta hi).1 hi hv hcan

end

/-- queued at some time, and not taken back -/
structure Held (p : Proposal) : Prop where
  eta_ne : p.eta ≠ 0
  canceled : p.canceled = false
  vetoed : p.vetoed = false

/-- a proposal that was executed had been queued, and cannot be taken back -/
def HeldAt (d : NounsDAOLogicV2) (i : Nat) : Prop :=
  (d.proposals i).executed = true → Held (d.proposals i)

/-- whatever was executed had been queued, and cannot be taken back -/
def ExecutedHeld (d : NounsDAOLogicV2) : Prop := ∀ i, HeldAt d i

section
variable {n₀ : Nat} {env : Env} {d d' : NounsDAOLogicV2} {i : Nat}

theorem HeldAt.state (h : HeldAt d i) (hd : SaneSince n₀ env d) (hc : CarriedAt env d i)
    (hnew : (d.proposals i).eta ≠ 0 → n₀ < i) (hi : (d.proposals i).executed = true) :
    d.state env i = .ok .executed := by
  have hh := h hi
  rw [hc.state_eq hd (hnew hh.eta_ne) hh.eta_ne hh.vetoed hh.canceled, if_pos hi]

theorem ExecutedHeld.state (h : ExecutedHeld d) (hd : Sane env d) (hc : Carries env d)
    (hi : (d.proposals i).executed = true) : d.state env i = .ok .executed :=
  (h i).state hd.toSaneSince (hc i) (fun hi => (hd.id_of_eta hi).1) hi

theorem HeldAt.change (hx : HeldAt d i) (hd : SaneSince n₀ env d) (hc : CarriedAt env d i)
    (hnew : (d.proposals i).eta ≠ 0 → n₀ < i) (h : DaoChange env d d') : HeldAt d' i := by
  have hset : ∀ {id : Nat} {p : Proposal}, SetsProposal d d' id p →
      (id = i → p.executed = true → Held p) → HeldAt d' i := by
    intro id p hs hp hi
    by_cases e : i = id
    · subst e
      rw [hs.self] at hi ⊢
      exact hp rfl hi
    · rw [hs.other e] at hi ⊢
      exact hx hi
  -- `cancel` and `veto` refuse an executed proposal
  have hrefused : ∀ {s : ProposalState}, d.state env i = .ok s → s ≠ .executed →
      (d.proposals i).executed ≠ true := fun hs hne hex =>
    hne (Except.ok.inj (hs.symm.trans (hx.state hd hc hnew hex)))
  cases h with
  | same h =>
    intro hi
    rw [h.proposals] at hi ⊢
    exact hx hi
  | propose sender t targets values signatures calldatas description h =>
    intro hi
    by_cases e : i = d.proposalCount + 1
    · obtain ⟨_, _, _, _, ed⟩ := propose_ok h
      rw [ed, e] at hi
      simp [newProposal] at hi
    · rw [propose_other h e] at hi ⊢
      exact hx hi
  | vote voter id support votes hstate hsupport hvoted h =>
    obtain ⟨h1, h2, h3, h4⟩ := withVote_flags (d.proposals id) voter support votes
    refine hset h (fun e hex => ?_)
    subst e
    have hh := hx (h3 ▸ hex)
    exact ⟨h4 ▸ hh.1, h2 ▸ hh.2, h1 ▸ hh.3⟩
  | queue id delay hstate h =>
    refine hset h (fun e hex => ?_)
    subst e
    exact absurd (state_succeeded hstate).2 (hx hex).eta_ne
  | execute id hstate h =>
    obtain ⟨hcar, heta, _⟩ := state_queued hstate
    exact hset h (fun _ _ => ⟨heta, hcar.canceled, hcar.vetoed⟩)
  | cancel id s hstate hs h =>
    refine hset h (fun e hex => ?_)
    subst e
    exact absurd hex (hrefused hstate hs)
  | veto id s hstate hs h =>
    refine hset h (fun e hex => ?_)
    subst e
    exact absurd hex (hrefused hstate hs)

theorem ExecutedHeld.change (hx : ExecutedHeld d) (hd : Sane env d) (hc : Carries env d)
    (h : DaoChange env d d') : ExecutedHeld d' := fun i =>
  (hx i).change hd.toSaneSince (hc i) (fun hi => (hd.id_of_eta hi).1) h

end

/-! ## one change -/

/-- `phase` reads the outcome only when the voting is over -/
theorem phase_congr {e : Env} {p p' : Proposal} {b b' : Bool} (hk : Kept p p')
    (hv : p'.vetoed = p.vetoed) (hc : p'.canceled = p.canceled) (hx : p'.executed = p.executed)
    (he : p'.eta = p.eta) (hb : p.endBlock < e.number → b' = b) : phase e p' b' = phase e p b := by
  unfold phase
  rw [hv, hc, hx, he, hk.congr (·.startBlock) (fun _ => rfl), hk.congr (·.endBlock) (fun _ => rfl)]
  by_cases hend : e.number ≤ p.endBlock
  · simp only [if_pos hend]
  · rw [hb (by omega)]

theorem DaoChange.later {env : Env} {d d' : NounsDAOLogicV2} (hd : Sane env d)
    (h : DaoChange env d d') {i : Nat} (h1 : 1 ≤ i) {s : ProposalState}
    (hs : d.state env i = .ok s) : ∃ s', d'.state env i = .ok s' ∧ Leads s s' := by
  have h2 := state_le hs
  have h2' := Nat.le_trans h2 h.count_le
  obtain ⟨b, hb⟩ := hd.defeated_ok h1 h2
  obtain ⟨b', hb'⟩ := (hd.change h).defeated_ok h1 h2'
  have hbb : (d.proposals i).endBlock < env.number → b' = b := fun hend =>
    Except.ok.inj ((hb'.symm.trans (h.defeated hd.toSaneSince h1 h2 hend)).trans hb)
  have hs0 : s = phase env (d.proposals i) b := Except.ok.inj (hs.symm.trans (state_eq h2 hb))
  refine ⟨_, state_eq h2' hb', ?_⟩
  -- a proposal that is not rewritten stays as it is
  have hsame : d'.proposals i = d.proposals i → Leads s (phase env (d'.proposals i) b') := by
    intro e
    rw [hs0, e, phase_congr rfl rfl rfl rfl rfl hbb]
  cases h with
  | same h => exact hsame (by rw [h.proposals])
  | propose sender t targets values signatures calldatas description h =>
    exact hsame (propose_other h (by omega))
  | vote voter id support votes hstate hsupport hvoted h =>
    by_cases e : i = id
    · subst e
      obtain ⟨hv, hc, hx, he⟩ := withVote_flags (d.proposals i) voter support votes
      rw [hs0, h.self, phase_congr (withVote_kept _ _ _ _) hv hc hx he hbb]
    · exact hsame (h.other e)
  | queue id delay hstate h =>
    by_cases e : i = id
    · subst e
      obtain rfl : s = .succeeded := Except.ok.inj (hs.symm.trans hstate)
      have heta : env.timestamp + delay ≠ 0 := by have := env.timestamp_pos; omega
      obtain ⟨hc, _⟩ := state_succeeded hstate
      have hb0 : b' = false := by
        rw [hbb hc.ended]
        cases b with
        | false => rfl
        | true =>
          simp [phase, hc.vetoed, hc.canceled, Nat.not_le.mpr hc.started,
            Nat.not_le.mpr hc.ended] at hs0
      rw [h.self, hb0]
      simp only [phase, hc.vetoed, hc.canceled, Nat.not_le.mpr hc.started, Nat.not_le.mpr hc.ended,
        if_false, Bool.false_eq_true, if_neg heta]
      have h0 : Leads .succeeded .queued := .single .succeeded_queued
      split_ifs
      · exact h0.tail .queued_executed
      · exact h0.tail .queued_expired
      · exact h0
    · exact hsame (h.other e)
  | execute id hstate h =>
    by_cases e : i = id
    · subst e
      obtain rfl : s = .queued := Except.ok.inj (hs.symm.trans hstate)
      obtain ⟨hc, heta, _, _⟩ := state_queued hstate
      have hb0 : b' = false := by
        rw [hbb hc.ended]
        cases b with
        | false => rfl
        | true =>
          simp [phase, hc.vetoed, hc.canceled, Nat.not_le.mpr hc.started,
            Nat.not_le.mpr hc.ended] at hs0
      rw [h.self, hb0]
      simp only [phase, hc.vetoed, hc.canceled, Nat.not_le.mpr hc.started, Nat.not_le.mpr hc.ended,
        if_false, Bool.false_eq_true, if_neg heta, if_true]
      exact .single .queued_executed
    · exact hsame (h.other e)
  | cancel id s' hstate hne h =>
    by_cases e : i = id
    · subst e
      obtain rfl : s = s' := Except.ok.inj (hs.symm.trans hstate)
      rw [h.self]
      by_cases hv : (d.proposals i).vetoed = true
      · rw [hs0]
        simp only [phase, if_pos hv]
        exact .refl
      · have hsv : s ≠ .vetoed := by
          rw [hs0]
          unfold phase
          rw [if_neg hv]
          split_ifs <;> simp
        simp only [phase, if_neg hv, if_true]
        exact leads_canceled hne hsv
    · exact hsame (h.other e)
  | veto id s' hstate hne h =>
    by_cases e : i = id
    · subst e
      obtain rfl : s = s' := Except.ok.inj (hs.symm.trans hstate)
      rw [h.self]
      simp only [phase, if_true]
      exact leads_vetoed hne
    · exact hsame (h.other e)

/-! ## runs -/

section
variable {P : Platform}

theorem runs_later {a b : Env × GovConfig P} (h : ReflTransGen (Timed GovMove) a b)
    (ha : Sane a.1 a.2.now.dao) {id : Nat} (h1 : 1 ≤ id) {s : ProposalState}
    (hs : a.2.now.dao.state a.1 id = .ok s) :
    ∃ s', b.2.now.dao.state b.1 id = .ok s' ∧ Leads s s' := by
  induction h with
  | refl => exact ⟨s, hs, .refl⟩
  | tail hab hm ih =>
    obtain ⟨t, ht, hst⟩ := ih
    have hsane := runs_sane hab ha
    cases hm with
    | move hm =>
      obtain ⟨s', hs', hts⟩ := (GovMove.change hm).later hsane h1 ht
      exact ⟨s', hs', hst.trans hts⟩
    | @tick e e' c he =>
      have h2 := state_le ht
      obtain ⟨b, hb⟩ := hsane.defeated_ok h1 h2
      refine ⟨_, state_eq h2 hb, hst.trans ?_⟩
      rw [Except.ok.inj (ht.symm.trans (state_eq h2 hb))]
      exact phase_tick he _ b

/-- **The lifecycle of a proposal.**  `state` never reverts; looked at between two transactions and
again after more of them, it has moved along the graph.  In particular it is not one of `defeated`
and `succeeded` first and the other later. -/
theorem state_lifecycle (g : GovSetup) (e : Env) (w : World P) (hw : g.deploy P e = .ok w)
    (ts : List (Tx Env (GovCall P))) (hts : (e :: ts.map Tx.env).IsChain (· ≤ ·)) :
    (∀ o ∈ observations GovCall.code e ts ⟨[], w⟩, ∀ (e' : Env) (id : Nat), 1 ≤ id →
      id ≤ o.2.now.dao.proposalCount → ∃ s, o.2.now.dao.state e' id = .ok s) ∧
    ∀ (e1 e2 : Env) (us : List (Tx Env (GovCall P))) (id : Nat), lastEnv e ts ≤ e1 →
      (e1 :: us.map Tx.env).IsChain (· ≤ ·) → lastEnv e1 us ≤ e2 → 1 ≤ id →
      id ≤ (runTxs GovCall.code ts ⟨[], w⟩).2.now.dao.proposalCount →
      ∃ s s', (runTxs GovCall.code ts ⟨[], w⟩).2.now.dao.state e1 id = .ok s ∧
        (runTxs GovCall.code (ts ++ us) ⟨[], w⟩).2.now.dao.state e2 id = .ok s' ∧ Leads s s' ∧
        (s = .vetoed ∨ s = .executed → s' = s) ∧ (s = .defeated → s' ≠ .succeeded) ∧
        (s = .succeeded → s' ≠ .defeated) := by
  have hfollow := fun env (op : GovCall P) (c : GovConfig P) => op.follows env c
  have h0 := (GovSetup.deploy_fresh hw).sane
  refine ⟨fun o ho e' id h1 h2 => ?_, fun e1 e2 us id he1 hus he2 h1 hid => ?_⟩
  · exact (runs_sane (observations_timed hfollow hts ho) h0).state_ok h1 h2
  · have hfirst := ((runTxs_timed hfollow ts e ⟨[], w⟩ hts).2).tail (.tick he1)
    have hsecond := ((runTxs_timed hfollow us e1 (runTxs GovCall.code ts ⟨[], w⟩).2 hus).2).tail
      (.tick he2)
    have hsane := runs_sane hfirst h0
    have hok : ∃ s, (runTxs GovCall.code ts ⟨[], w⟩).2.now.dao.state e1 id = .ok s :=
      hsane.state_ok h1 hid
    obtain ⟨s, hs⟩ := hok
    obtain ⟨s', hs', hl⟩ := runs_later hsecond hsane h1 hs
    rw [runTxs_append]
    refine ⟨s, s', hs, hs', hl, hl.final, fun h => ?_, fun h => ?_⟩
    · subst h
      rcases hl.of_defeated with rfl | rfl | rfl <;> simp
    · subst h
      exact hl.of_succeeded

end

/-- account `2` votes for its proposal, then it is queued and executed -/
def carryTxs : List (Tx Env (GovCall samplePlatform)) :=
  [⟨.block 10 100, sampleCall 2 0 (.entry (.dao (.castVote 1 1)))⟩,
   ⟨.block 5770 1000, sampleCall 7 0 (.entry (.queue 1))⟩,
   ⟨.block 9000 173800, sampleCall 7 0 (.execute 1)⟩]

theorem state_lifecycle_run :
    let first := (runTxs GovCall.code proposeTxs ⟨[], sampleWorld⟩).2
    let last := (runTxs GovCall.code (proposeTxs ++ carryTxs) ⟨[], sampleWorld⟩).2
    last.past.length = 5 ∧ (last.now.dao.proposals 1).executed = true ∧
      ∃ s s', first.now.dao.state (.block 9 90) 1 = .ok s ∧
        last.now.dao.state (.block 9001 173900) 1 = .ok s' ∧ Leads s s' := by
  intro first last
  obtain ⟨s, s', h1, h2, h3, _⟩ := (state_lifecycle sampleSetup (.block 6 60) sampleWorld
    sampleWorld_deployed proposeTxs (by simp [proposeTxs, Env.le_def, Env.block])).2
    (.block 9 90) (.block 9001 173900) carryTxs 1 (by decide +kernel)
    (by simp [carryTxs, Env.le_def, Env.block]) (by decide +kernel) (Nat.le_refl 1)
    (by decide +kernel)
  exact ⟨by decide +kernel, by decide +kernel, s, s', h1, h2, h3⟩

end UNouns
