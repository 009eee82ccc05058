import UNouns.Governance.Deeds
import UNouns.Governance.Safety

/-!
# Records and events of proposals

`state` refuses the ids beyond `proposalCount`, and lets `0` pass.

* `OnlyCreated`      nothing is recorded, and nothing is said, of a proposal that nobody made;
* `Untouched`        what one deed keeps of it, unless it cancels or vetoes id `0`;
* `only_created`     so in every run it holds exactly as long as nobody does that;
* `not_only_created` and anybody can.
-/

set_option linter.unusedVariables false

namespace UNouns
open Function Relation Reentrant NounsDAOLogicV2

section
variable {P : Platform}

/-- `r` is a call of `propose` that made proposal `id` -/
structure Made (id : Nat) (r : GovRecord P) : Prop where
  call : ∃ targets values signatures calldatas description, r.op.op = .entry (.dao
    (.propose targets values signatures calldatas description))
  id_eq : id = r.pre.dao.proposalCount + 1

structure OnlyCreated (c : GovConfig P) : Prop where
  records : ∀ id, id = 0 ∨ c.now.dao.proposalCount < id → c.now.dao.proposals id = .empty
  events : ∀ v ∈ c.now.dao.logs, ∀ id, v.about = some id → ∃ r ∈ c.past, Made id r

/-- the step from one deed to the next -/
structure Untouched (d : NounsDAOLogicV2) : Prop where
  zero : d.proposals 0 = .empty
  events : ∀ v ∈ d.logs, ∀ id, v.about = some id → 1 ≤ id ∧ id ≤ d.proposalCount

/-- an id that is rewritten, and not `0` -/
theorem Untouched.sets {d d' : NounsDAOLogicV2} (h : Untouched d) {id : Nat} {p : Proposal}
    {vs : List DaoEvent} (hs : SetsProposal d d' id p) (hlogs : d'.logs = d.logs ++ vs) (h0 : id ≠ 0)
    (hid : id ≤ d.proposalCount) (hvs : ∀ v ∈ vs, v.about = some id) : Untouched d' := by
  refine ⟨by rw [hs.other h0.symm, h.zero], fun v hv i hi => ?_⟩
  rw [hs.proposalCount]
  rw [hlogs] at hv
  rcases List.mem_append.mp hv with hv | hv
  · exact h.events v hv i hi
  · obtain rfl := Option.some.inj ((hvs v hv).symm.trans hi)
    exact ⟨Nat.pos_of_ne_zero h0, hid⟩

theorem Untouched.same {d d' : NounsDAOLogicV2} (h : Untouched d) {vs : List DaoEvent}
    (hp : d'.proposals = d.proposals) (hc : d'.proposalCount = d.proposalCount)
    (hlogs : d'.logs = d.logs ++ vs) (hvs : ∀ v ∈ vs, v.about = none) : Untouched d' := by
  refine ⟨by rw [hp, h.zero], fun v hv i hi => ?_⟩
  rw [hlogs] at hv
  rw [hc]
  rcases List.mem_append.mp hv with hv | hv
  · exact h.events v hv i hi
  · rw [hvs v hv] at hi
    cases hi

/-- `Nobodys` for an empty record: no phase but those of `cancel` and `veto` -/
theorem Untouched.state_zero {d : NounsDAOLogicV2} (h : Untouched d) {env : Env} {s : ProposalState}
    (hs : d.state env 0 = .ok s) : s = .pending ∨ s = .defeated := by
  obtain ⟨_, b, rfl, hb⟩ := state_inv hs
  rw [h.zero] at hb ⊢
  unfold phase
  rw [if_neg (show ¬ Proposal.empty.vetoed = true from Bool.false_ne_true),
    if_neg (show ¬ Proposal.empty.canceled = true from Bool.false_ne_true)]
  by_cases h1 : env.number ≤ Proposal.empty.startBlock
  · exact .inl (if_pos h1)
  · -- no votes for it are no more than no votes against it
    have hdef : d.defeated .empty = .ok b := hb rfl rfl (Nat.lt_of_not_le h1) (Nat.lt_of_not_le h1)
    have hb' : true = b := Except.ok.inj hdef
    rw [if_neg h1, if_neg (show ¬ env.number ≤ Proposal.empty.endBlock from h1), ← hb']
    exact .inr rfl

theorem Untouched.deed {env : Env} {t : UNounsToken} {d d' : NounsDAOLogicV2} {x : Option Nat}
    {vs : List DaoEvent} (h : Untouched d) (hd : Deed env t d x vs d') (hx : x ≠ some 0) :
    Untouched d' := by
  have hlogs := hd.logs
  have hne : ∀ {id : Nat} {s : ProposalState}, d.state env id = .ok s → s ≠ .pending →
      s ≠ .defeated → id ≠ 0 := by
    rintro _ s hs h1 h2 rfl
    rcases h.state_zero hs with e | e
    · exact h1 e
    · exact h2 e
  cases hd with
  | settings vs d' hs hcps hl hquiet =>
    exact h.same hs.proposals hs.proposalCount hlogs fun v hv => (hquiet v hv).about
  | params old vs d' hs hold hcps hbounds hl habout =>
    exact h.same hs.proposals hs.proposalCount hlogs habout
  | vote voter id support votes balance reason d1 hv =>
    obtain ⟨hstate, _, _, _, hs⟩ := castVoteInternal_ok hv
    exact h.sets (p := _) ⟨hs.proposals, hs.proposalCount, hs.quorumVotesBPS, hs.checkpoints⟩ hlogs
      (hne hstate (by simp) (by simp)) (state_le hstate) (by simp [DaoEvent.about])
  | queue id delay hstate =>
    exact h.sets ⟨rfl, rfl, rfl, rfl⟩ hlogs (hne hstate (by simp) (by simp)) (state_le hstate)
      (by simp [DaoEvent.about])
  | execute id hstate =>
    exact h.sets ⟨rfl, rfl, rfl, rfl⟩ hlogs (hne hstate (by simp) (by simp)) (state_le hstate)
      (by simp)
  | cancel id s hstate hs =>
    exact h.sets ⟨rfl, rfl, rfl, rfl⟩ hlogs (fun e => hx (by rw [e])) (state_le hstate)
      (by simp [DaoEvent.about])
  | veto id s hstate hs =>
    exact h.sets ⟨rfl, rfl, rfl, rfl⟩ hlogs (fun e => hx (by rw [e])) (state_le hstate)
      (by simp [DaoEvent.about])
  | executed id hid hex =>
    refine h.sets (p := d.proposals id) ⟨(update_eq_self id d.proposals).symm, rfl, rfl, rfl⟩ hlogs
      (fun e => ?_) hid (by simp [DaoEvent.about])
    rw [e, h.zero] at hex
    cases hex
  | propose sender targets values signatures calldatas description minQuorum d' hp =>
    obtain ⟨_, _, _, _, e⟩ := propose_ok hp
    have hcount : d'.proposalCount = d.proposalCount + 1 := by rw [e]
    refine ⟨by rw [propose_other hp (Nat.succ_ne_zero _).symm, h.zero], fun v hv i hi => ?_⟩
    rw [hlogs] at hv
    rcases List.mem_append.mp hv with hv | hv
    · have := h.events v hv i hi
      omega
    · have hi' : d.proposalCount + 1 = i := by
        simp only [Proposal.created, List.mem_cons, List.not_mem_nil, or_false] at hv
        rcases hv with rfl | rfl <;> exact Option.some.inj hi
      omega

theorem GovSetup.deploy_untouched {g : GovSetup} {e : Env} {w : World P} (hw : g.deploy P e = .ok w) :
    Untouched w.dao := by
  refine ⟨by rw [(GovSetup.deploy_fresh hw).proposals], fun v hv i hi => ?_⟩
  simp only [GovSetup.deploy, bind_eq_ok, pure_eq_ok] at hw
  obtain ⟨_, _, d, hd, rfl⟩ := hw
  rw [show d.logs = _ from (deploy_exact hd).2.2.2] at hv
  simp only [List.mem_cons, List.not_mem_nil, or_false] at hv
  rcases hv with rfl | rfl | rfl | rfl | rfl | rfl <;> cases hi

theorem runs_untouched {x y : Env × GovConfig P} (h : ReflTransGen (Timed GovExact) x y)
    (hx : Untouched x.2.now.dao) (hy : ∀ r ∈ y.2.past, r.op.op.withdraws ≠ some 0) :
    Untouched y.2.now.dao := by
  refine Timed.invariant_under (I := fun _ c => Untouched c.now.dao)
    (P := fun c => ∀ r ∈ c.past, r.op.op.withdraws ≠ some 0) ?_ ?_ ?_ h hx hy
  · exact fun e c c' hm hc' r hr => hc' r ((Move.past_prefix hm).subset hr)
  · intro e c c' _ hc' hI hm
    cases hm with
    | resume w hr =>
      obtain ⟨vs, hd⟩ := GovResume.deed hr
      exact hI.deed hd (by simp)
    | enter op w hb =>
      obtain ⟨vs, hd⟩ := GovBegin.deed hb
      exact hI.deed hd (hc' _ (List.mem_append_right _ List.mem_cons_self))
  · exact fun e e' c hc _ => hc

/-- **Only created proposals have records and events, exactly as long as nobody cancels or vetoes
proposal `0`.** -/
theorem only_created (g : GovSetup) (e : Env) (w : World P) (hw : g.deploy P e = .ok w)
    (ts : List (Tx Env (GovCall P))) (hch : (e :: ts.map Tx.env).IsChain (· ≤ ·)) :
    ∀ o ∈ observations GovCall.code e ts ⟨[], w⟩,
      OnlyCreated o.2 ↔ ∀ r ∈ o.2.past, r.op.op.withdraws ≠ some 0 := by
  intro o ho
  have hr := observations_timed (fun env (op : GovCall P) (c : GovConfig P) => op.follows_exact env c)
    hch ho
  have hf := runs_founded (GovExact.timed hr) (GovSetup.deploy_founded hw)
  refine ⟨fun h r hr hwd => ?_, fun h => ?_⟩
  · rcases (hf.withdrawn r hr 0 hwd).2 with hc | hc
    · rw [h.records 0 (.inl rfl)] at hc
      cases hc
    · rw [h.records 0 (.inl rfl)] at hc
      cases hc
  · have hu := runs_untouched hr (GovSetup.deploy_untouched hw) h
    refine ⟨fun id hid => ?_, fun v hv id hid => ?_⟩
    · rcases hid with rfl | hid
      · exact hu.zero
      · exact hf.sane.fresh id hid
    · obtain ⟨h1, h2⟩ := hu.events v hv id hid
      obtain ⟨r, hr, hp⟩ := hf.proposed id h1 h2
      obtain ⟨description, hcall⟩ := hp.call
      refine ⟨r, hr, ⟨_, _, _, _, description, hcall⟩, ?_⟩
      rw [← hp.id_eq, (hf.sane.wellFormed id h1 h2).id_eq]

end

theorem only_created_run :
    let last := (runTxs GovCall.code (proposeTxs ++ carryTxs) ⟨[], sampleWorld⟩).2
    last.now.dao.proposalCount = 1 ∧ last.past.length = 5 ∧ OnlyCreated last := by
  intro last
  refine ⟨by decide +kernel, by decide +kernel, ?_⟩
  exact (only_created sampleSetup (.block 6 60) sampleWorld sampleWorld_deployed
    (proposeTxs ++ carryTxs) (by simp [proposeTxs, carryTxs, Env.le_def, Env.block]) _
    (final_mem_observations _ _ _ _)).mpr (by decide +kernel)

/-- **Anyone can cancel proposal `0`**, which marks the record of a proposal that was never made, and
says so in an event. -/
theorem not_only_created :
    let last := (runTxs GovCall.code [⟨.block 7 70, sampleCall 7 0 (.entry (.cancel 0))⟩]
      ⟨[], sampleWorld⟩).2
    last.now.dao.proposalCount = 0 ∧ (last.now.dao.proposals 0).canceled = true ∧
      (∃ v ∈ last.now.dao.logs, v.about = some 0) ∧ ¬ OnlyCreated last := by
  intro last
  have hcanceled : (last.now.dao.proposals 0).canceled = true := by decide +kernel
  have hlogs : (last.now.dao.logs.any fun v => v.about == some 0) = true := by decide +kernel
  obtain ⟨v, hv, h0⟩ := List.any_eq_true.mp hlogs
  refine ⟨by decide +kernel, hcanceled, ⟨v, hv, by simpa using h0⟩, fun h => ?_⟩
  rw [h.records 0 (.inl rfl)] at hcanceled
  cases hcanceled

end UNouns
