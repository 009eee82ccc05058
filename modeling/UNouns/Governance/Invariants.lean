import UNouns.Governance.Moves

/-!
# What always holds of the DAO

* `DaoChange`      what a move does to the DAO: rewrite one proposal, add one, or leave them alone;
* `Kept`           no change to a proposal touches its header;
* `SaneSince`      the headers of the proposals made since some time, and nothing beyond them;
* `Sane`           the same since the deployment;
* `runs_sane`      so in every state of every run.
-/

set_option linter.unusedVariables false

namespace UNouns
open Function Relation Reentrant Checkpoints NounsDAOLogicV2

/-! ## changes -/

/-- what a move does to the DAO, with the phase it does it in -/
inductive DaoChange (env : Env) (d : NounsDAOLogicV2) : NounsDAOLogicV2 → Prop
  | same (d' : NounsDAOLogicV2) (h : SameProposals env d d') : DaoChange env d d'
  | propose (d' : NounsDAOLogicV2) (sender : Address) (t : UNounsToken) (targets : List Address)
      (values : List Nat) (signatures : List String) (calldatas : List Bytes) (description : String)
      (h : d.propose env sender t targets values signatures calldatas description = .ok d') :
      DaoChange env d d'
  | vote (d' : NounsDAOLogicV2) (voter : Address) (id support votes : Nat)
      (hstate : d.state env id = .ok .active) (hsupport : support ≤ 2)
      (hvoted : ((d.proposals id).receipts voter).hasVoted = false)
      (h : SetsProposal d d' id (Proposal.withVote (d.proposals id) voter support votes)) :
      DaoChange env d d'
  | queue (d' : NounsDAOLogicV2) (id delay : Nat) (hstate : d.state env id = .ok .succeeded)
      (h : SetsProposal d d' id { d.proposals id with eta := env.timestamp + delay }) :
      DaoChange env d d'
  | execute (d' : NounsDAOLogicV2) (id : Nat) (hstate : d.state env id = .ok .queued)
      (h : SetsProposal d d' id { d.proposals id with executed := true }) : DaoChange env d d'
  | cancel (d' : NounsDAOLogicV2) (id : Nat) (s : ProposalState) (hstate : d.state env id = .ok s)
      (hs : s ≠ .executed) (h : SetsProposal d d' id { d.proposals id with canceled := true }) :
      DaoChange env d d'
  | veto (d' : NounsDAOLogicV2) (id : Nat) (s : ProposalState) (hstate : d.state env id = .ok s)
      (hs : s ≠ .executed) (h : SetsProposal d d' id { d.proposals id with vetoed := true }) :
      DaoChange env d d'

section
variable {P : Platform}

theorem GovStep.change {env : Env} {msg : Msg} {op : GovOp} {w w' : World P}
    (h : GovStep env msg w op w') : DaoChange env w.dao w'.dao := by
  cases h with
  | token op t h => exact .same _ (.refl env _)
  | timelock op tl h => exact .same _ (.refl env _)
  | settings op d hop h => exact .same _ h
  | propose targets values signatures calldatas description d h => exact .propose _ _ _ _ _ _ _ _ h
  | vote op voter id support d hop h =>
    obtain ⟨votes, h1, h2, h3, _, hs⟩ := h.sets
    exact .vote _ voter id support votes h1 h2 h3 hs
  | queue id r h =>
    obtain ⟨h1, _, hs⟩ := queue_ok h
    exact .queue _ id _ h1 hs
  | cancel id r h =>
    obtain ⟨⟨s, h1, h2⟩, _, hs⟩ := cancel_ok h
    exact .cancel _ id s h1 h2 hs
  | veto id r h =>
    obtain ⟨⟨s, h1, h2⟩, _, hs⟩ := veto_ok h
    exact .veto _ id s h1 h2 hs
  | execute id d w' h hact =>
    obtain ⟨h1, hs⟩ := beginExecute_ok h
    rw [hact.dao.1]
    exact .execute _ id h1 hs

theorem GovRest.same {env : Env} {w w' : World P} (h : GovRest env w w') :
    SameProposals env w.dao w'.dao := by
  obtain ⟨_, h1, h2, h3, h4⟩ := h.dao
  exact ⟨h1, h2, h4, .inl h3⟩

theorem GovMove.change {env : Env} {c c' : GovConfig P} (h : GovMove env c c') :
    DaoChange env c.now.dao c'.now.dao := by
  cases h with
  | enter op w h => exact GovStep.change h
  | resume w h => exact .same _ (GovRest.same h)

end

/-! ## headers -/

/-- what is fixed once a proposal is made; the rest is blanked out -/
def Proposal.header (p : Proposal) : Proposal :=
  { p with
    eta := 0
    forVotes := 0
    againstVotes := 0
    abstainVotes := 0
    canceled := false
    vetoed := false
    executed := false
    receipts := fun _ => .none }

def Kept (p p' : Proposal) : Prop := p'.header = p.header

theorem withVote_kept (p : Proposal) (voter : Address) (support votes : Nat) :
    Kept p (Proposal.withVote p voter support votes) := by
  unfold Proposal.withVote
  split_ifs <;> rfl

/-- what can be read off the header -/
theorem Kept.congr {α : Type} {p p' : Proposal} (h : Kept p p') (f : Proposal → α)
    (hf : ∀ p : Proposal, f p.header = f p) : f p' = f p := by
  rw [← hf p', ← hf p]
  exact congrArg f h

theorem Kept.action {p p' : Proposal} (h : Kept p p') (eta i : Nat) :
    p'.action eta i = p.action eta i := h.congr (·.action eta i) (fun _ => rfl)

theorem Kept.transactions {p p' : Proposal} (h : Kept p p') (eta : Nat) :
    p'.transactions eta = p.transactions eta := h.congr (·.transactions eta) (fun _ => rfl)

theorem Kept.of_sets {d d' : NounsDAOLogicV2} {id : Nat} {p : Proposal} (h : SetsProposal d d' id p)
    (hp : Kept (d.proposals id) p) (i : Nat) : Kept (d.proposals i) (d'.proposals i) := by
  by_cases e : i = id
  · subst e
    rwa [h.self]
  · rw [h.other e]
    rfl

/-- a change adds a proposal, or keeps their number and all headers -/
theorem DaoChange.kept {env : Env} {d d' : NounsDAOLogicV2} (h : DaoChange env d d') :
    (∃ sender t targets values signatures calldatas,
      d'.proposalCount = d.proposalCount + 1 ∧
      d'.proposals = update d.proposals (d.proposalCount + 1)
        (d.newProposal env sender t targets values signatures calldatas) ∧
      (targets.length = values.length ∧ targets.length = signatures.length ∧
        targets.length = calldatas.length ∧ targets.length ≠ 0) ∧
      1 ≤ env.number ∧ env.number < 2^32) ∨
    (d'.proposalCount = d.proposalCount ∧ ∀ i, Kept (d.proposals i) (d'.proposals i)) := by
  cases h with
  | same h => exact .inr ⟨h.proposalCount, fun i => by rw [h.proposals]; rfl⟩
  | propose sender t targets values signatures calldatas description h =>
    obtain ⟨_, hlen, h1, h2, e⟩ := propose_ok h
    exact .inl ⟨sender, t, targets, values, signatures, calldatas, by rw [e], by rw [e], hlen, h1, h2⟩
  | vote voter id support votes hstate hsupport hvoted h =>
    exact .inr ⟨h.proposalCount, Kept.of_sets h (withVote_kept _ _ _ _)⟩
  | queue id delay hstate h => exact .inr ⟨h.proposalCount, Kept.of_sets h rfl⟩
  | execute id hstate h => exact .inr ⟨h.proposalCount, Kept.of_sets h rfl⟩
  | cancel id s hstate hs h => exact .inr ⟨h.proposalCount, Kept.of_sets h rfl⟩
  | veto id s hstate hs h => exact .inr ⟨h.proposalCount, Kept.of_sets h rfl⟩

theorem DaoChange.count_le {env : Env} {d d' : NounsDAOLogicV2} (h : DaoChange env d d') :
    d.proposalCount ≤ d'.proposalCount := by
  rcases h.kept with ⟨_, _, _, _, _, _, hc, _⟩ | ⟨hc, _⟩ <;> omega

/-- the header of a proposal that is there stays -/
theorem DaoChange.header {env : Env} {d d' : NounsDAOLogicV2} (h : DaoChange env d d') {i : Nat}
    (hi : i ≤ d.proposalCount) : Kept (d.proposals i) (d'.proposals i) := by
  rcases h.kept with ⟨_, _, _, _, _, _, _, hp, _⟩ | ⟨_, hk⟩
  · rw [hp, update_of_ne (by omega)]
    rfl
  · exact hk i

/-! ## the invariant -/

/-- the header that `propose` writes, some time later -/
structure Proposal.WellFormed (e : Env) (i : Nat) (p : Proposal) : Prop where
  id_eq : p.id = i
  creation_pos : 1 ≤ p.creationBlock
  creation_le : p.creationBlock ≤ e.number
  creation_lt : p.creationBlock < 2^32
  start_ge : p.creationBlock ≤ p.startBlock
  end_ge : p.startBlock ≤ p.endBlock
  values_length : p.targets.length = p.values.length
  signatures_length : p.targets.length = p.signatures.length
  calldatas_length : p.targets.length = p.calldatas.length
  targets_ne : p.targets.length ≠ 0
  quorumVotes : p.quorumVotes = 0

theorem Proposal.WellFormed.mono {e e' : Env} {i : Nat} {p : Proposal} (h : p.WellFormed e i)
    (he : e ≤ e') : p.WellFormed e' i :=
  { h with creation_le := Nat.le_trans h.creation_le (Env.le_def.mp he).1 }

theorem Proposal.wellFormed_header {e : Env} {i : Nat} {p : Proposal} :
    p.header.WellFormed e i ↔ p.WellFormed e i :=
  ⟨fun ⟨h1, h2, h3, h4, h5, h6, h7, h8, h9, h10, h11⟩ => ⟨h1, h2, h3, h4, h5, h6, h7, h8, h9, h10, h11⟩,
    fun ⟨h1, h2, h3, h4, h5, h6, h7, h8, h9, h10, h11⟩ => ⟨h1, h2, h3, h4, h5, h6, h7, h8, h9, h10, h11⟩⟩

theorem Proposal.WellFormed.of_kept {e : Env} {i : Nat} {p p' : Proposal} (h : p.WellFormed e i)
    (hk : Kept p p') : p'.WellFormed e i := by
  rw [← Proposal.wellFormed_header, hk, Proposal.wellFormed_header]
  exact h

/-- each action of a well-formed proposal is there -/
theorem Proposal.WellFormed.action {e : Env} {j : Nat} {p : Proposal} (h : p.WellFormed e j)
    {i : Nat} (hi : i < p.targets.length) (eta : Nat) : ∃ tx, p.action eta i = .ok tx := by
  have h1 : i < p.values.length := h.values_length ▸ hi
  have h2 : i < p.signatures.length := h.signatures_length ▸ hi
  have h3 : i < p.calldatas.length := h.calldatas_length ▸ hi
  exact ⟨⟨p.targets[i], p.values[i], p.signatures[i], p.calldatas[i], eta⟩, by
    simp only [Proposal.action, List.getElem?_eq_getElem hi, List.getElem?_eq_getElem h1,
      List.getElem?_eq_getElem h2, List.getElem?_eq_getElem h3]⟩

/-- id `0` passes the check of `state` but is nobody's: it can be canceled and vetoed, no more -/
structure Nobodys (p : Proposal) : Prop where
  endBlock : p.endBlock = 0
  forVotes : p.forVotes = 0
  eta : p.eta = 0

/-- no id beyond the last proposal has been written -/
def Blank (d : NounsDAOLogicV2) : Prop := ∀ id, d.proposalCount < id → d.proposals id = .empty

/-- a DAO that had `n₀` proposals once, of which nothing is said here -/
structure SaneSince (n₀ : Nat) (e : Env) (d : NounsDAOLogicV2) : Prop where
  count : n₀ ≤ d.proposalCount
  fresh : Blank d
  wellFormed : ∀ id, n₀ < id → id ≤ d.proposalCount → (d.proposals id).WellFormed e id
  upTo : UpTo d.quorumParamsCheckpoints e.number
  quorumVotesBPS_lt : d.quorumVotesBPS < 2^16

structure Sane (e : Env) (d : NounsDAOLogicV2) : Prop extends SaneSince 0 e d where
  zero : Nobodys (d.proposals 0)
  quorumVotesBPS : d.quorumVotesBPS = 0

theorem SaneSince.mono {n₀ : Nat} {e e' : Env} {d : NounsDAOLogicV2} (h : SaneSince n₀ e d)
    (he : e ≤ e') : SaneSince n₀ e' d :=
  { h with
    wellFormed := fun id h1 h2 => (h.wellFormed id h1 h2).mono he
    upTo := h.upTo.mono (Env.le_def.mp he).1 }

theorem Sane.mono {e e' : Env} {d : NounsDAOLogicV2} (h : Sane e d) (he : e ≤ e') : Sane e' d :=
  ⟨h.toSaneSince.mono he, h.zero, h.quorumVotesBPS⟩

/-- only a proposal that is there has been queued -/
theorem Sane.id_of_eta {e : Env} {d : NounsDAOLogicV2} (h : Sane e d) {i : Nat}
    (hi : (d.proposals i).eta ≠ 0) : 1 ≤ i ∧ i ≤ d.proposalCount := by
  refine ⟨Nat.pos_of_ne_zero fun e => ?_, Nat.le_of_not_lt fun hlt => ?_⟩
  · exact hi (e ▸ h.zero.eta)
  · exact hi (by rw [h.fresh i hlt]; rfl)

theorem newProposal_wellFormed {env : Env} {sender : Address} {t : UNounsToken}
    {d : NounsDAOLogicV2} {targets : List Address} {values : List Nat} {signatures : List String}
    {calldatas : List Bytes} (hblank : Blank d)
    (hlen : targets.length = values.length ∧ targets.length = signatures.length ∧
      targets.length = calldatas.length ∧ targets.length ≠ 0)
    (h1 : 1 ≤ env.number) (h2 : env.number < 2^32) :
    (d.newProposal env sender t targets values signatures calldatas).WellFormed env
      (d.proposalCount + 1) where
  id_eq := rfl
  creation_pos := h1
  creation_le := Nat.le_refl _
  creation_lt := h2
  start_ge := Nat.le_add_right _ _
  end_ge := Nat.le_add_right _ _
  values_length := hlen.1
  signatures_length := hlen.2.1
  calldatas_length := hlen.2.2.1
  targets_ne := hlen.2.2.2
  quorumVotes := by
    show (d.proposals (d.proposalCount + 1)).quorumVotes = 0
    rw [hblank _ (Nat.lt_succ_self _)]
    rfl

/-- the checkpoints of the quorum parameters, and the value before the first -/
theorem DaoChange.quorum {env : Env} {d d' : NounsDAOLogicV2} (h : DaoChange env d d') :
    d'.quorumVotesBPS = d.quorumVotesBPS ∧
      (d'.quorumParamsCheckpoints = d.quorumParamsCheckpoints ∨
        ∃ params, d'.quorumParamsCheckpoints = write d.quorumParamsCheckpoints env.number params) := by
  cases h with
  | same h => exact ⟨h.quorumVotesBPS, h.checkpoints⟩
  | propose sender t targets values signatures calldatas description h =>
    obtain ⟨_, _, _, _, e⟩ := propose_ok h
    exact ⟨by rw [e], .inl (by rw [e])⟩
  | vote voter id support votes hstate hsupport hvoted h => exact ⟨h.quorumVotesBPS, .inl h.checkpoints⟩
  | queue id delay hstate h => exact ⟨h.quorumVotesBPS, .inl h.checkpoints⟩
  | execute id hstate h => exact ⟨h.quorumVotesBPS, .inl h.checkpoints⟩
  | cancel id s hstate hs h => exact ⟨h.quorumVotesBPS, .inl h.checkpoints⟩
  | veto id s hstate hs h => exact ⟨h.quorumVotesBPS, .inl h.checkpoints⟩

/-- nothing rewrites an id that was never proposed -/
theorem DaoChange.fresh {env : Env} {d d' : NounsDAOLogicV2} (h : DaoChange env d d') {i : Nat}
    (hi : d'.proposalCount < i) : d'.proposals i = d.proposals i := by
  have hne : ∀ {id : Nat} {s : ProposalState}, d'.proposalCount = d.proposalCount →
      d.state env id = .ok s → i ≠ id := by
    intro id s hc hs e
    have := state_le hs
    omega
  cases h with
  | same h => rw [h.proposals]
  | propose sender t targets values signatures calldatas description h =>
    obtain ⟨_, _, _, _, e⟩ := propose_ok h
    have hi' : d.proposalCount + 1 < i := by rw [e] at hi; exact hi
    exact propose_other h (by omega)
  | vote voter id support votes hstate hsupport hvoted h => exact h.other (hne h.proposalCount hstate)
  | queue id delay hstate h => exact h.other (hne h.proposalCount hstate)
  | execute id hstate h => exact h.other (hne h.proposalCount hstate)
  | cancel id s hstate hs h => exact h.other (hne h.proposalCount hstate)
  | veto id s hstate hs h => exact h.other (hne h.proposalCount hstate)

theorem DaoChange.zero {env : Env} {d d' : NounsDAOLogicV2} (h : DaoChange env d d')
    (h0 : Nobodys (d.proposals 0)) : Nobodys (d'.proposals 0) := by
  have hset : ∀ {id : Nat} {p : Proposal}, SetsProposal d d' id p → (id = 0 → Nobodys p) →
      Nobodys (d'.proposals 0) := by
    intro id p hs hp
    by_cases e : 0 = id
    · subst e
      rw [hs.self]
      exact hp rfl
    · rwa [hs.other e]
  cases h with
  | same h => rwa [h.proposals]
  | propose sender t targets values signatures calldatas description h =>
    rwa [propose_other h (Nat.succ_ne_zero _).symm]
  | vote voter id support votes hstate hsupport hvoted h =>
    refine hset h (fun e => ?_)
    subst e
    have := (state_active hstate).2.2
    have := h0.endBlock
    omega
  | queue id delay hstate h =>
    refine hset h (fun e => ?_)
    subst e
    have := (state_succeeded hstate).1.majority
    have := h0.forVotes
    omega
  | execute id hstate h => exact hset h (fun e => by subst e; exact ⟨h0.1, h0.2, h0.3⟩)
  | cancel id s hstate hs h => exact hset h (fun e => by subst e; exact ⟨h0.1, h0.2, h0.3⟩)
  | veto id s hstate hs h => exact hset h (fun e => by subst e; exact ⟨h0.1, h0.2, h0.3⟩)

theorem SaneSince.change {n₀ : Nat} {env : Env} {d d' : NounsDAOLogicV2} (hd : SaneSince n₀ env d)
    (h : DaoChange env d d') : SaneSince n₀ env d' := by
  obtain ⟨hq, hcps⟩ := h.quorum
  have hle := h.count_le
  refine ⟨hd.count.trans hle, fun i hi => ?_, fun i h1 h2 => ?_, ?_, hq.symm ▸ hd.quorumVotesBPS_lt⟩
  · rw [h.fresh hi]
    exact hd.fresh i (by omega)
  · rcases h.kept with ⟨sender, t, targets, values, signatures, calldatas, hc, hp, hlen, hn, hn'⟩ |
      ⟨hc, hk⟩
    · by_cases e : i = d.proposalCount + 1
      · rw [hp, e, update_self]
        exact newProposal_wellFormed hd.fresh hlen hn hn'
      · rw [hp, update_of_ne e]
        exact hd.wellFormed i h1 (by omega)
    · exact (hd.wellFormed i h1 (by omega)).of_kept (hk i)
  · rcases hcps with hcps | ⟨params, hcps⟩
    · rw [hcps]; exact hd.upTo
    · rw [hcps]; exact hd.upTo.write params

theorem Sane.change {env : Env} {d d' : NounsDAOLogicV2} (hd : Sane env d)
    (h : DaoChange env d d') : Sane env d' :=
  ⟨hd.toSaneSince.change h, h.zero hd.zero, h.quorum.1.trans hd.quorumVotesBPS⟩

/-! ## deployment -/

theorem NounsDAOLogicV2.deploy_ok {env : Env} {deployer admin timelock nouns vetoer : Address}
    {votingPeriod votingDelay proposalThresholdBPS : Nat} {params : DynamicQuorumParams}
    {d : NounsDAOLogicV2}
    (h : NounsDAOLogicV2.deploy env deployer admin timelock nouns vetoer votingPeriod votingDelay
      proposalThresholdBPS params = .ok d) :
    d.proposals = (fun _ => .empty) ∧ d.proposalCount = 0 ∧ d.quorumVotesBPS = 0 ∧
      UpTo d.quorumParamsCheckpoints env.number := by
  simp only [NounsDAOLogicV2.deploy, bind_eq_ok, pure_eq_ok] at h
  obtain ⟨d1, h1, rfl⟩ := h
  have hs := initializeV2_ok h1
  refine ⟨hs.proposals, hs.proposalCount, hs.quorumVotesBPS, ?_⟩
  rcases hs.checkpoints with hc | ⟨params, hc⟩
  · show UpTo d1.quorumParamsCheckpoints env.number
    rw [hc]
    exact UpTo.nil _
  · show UpTo d1.quorumParamsCheckpoints env.number
    rw [hc]
    exact (UpTo.nil _).write params

section
variable {P : Platform} {g : GovSetup} {e : Env} {w : World P}

/-- a fresh world: no proposals, an empty queue, the DAO as admin -/
structure Fresh (e : Env) (g : GovSetup) (w : World P) : Prop where
  token : w.token = UNounsToken.deploy g.deployer g.unoundersDAO g.unouncilDAO g.minter g.descriptor
    g.seeder
  admin : w.timelock.admin = P.dao
  queue : ∀ h, w.timelock.queuedTransactions h = false
  delay_ge : NounsDAOExecutor.MINIMUM_DELAY ≤ w.timelock.delay
  delay_le : w.timelock.delay ≤ NounsDAOExecutor.MAXIMUM_DELAY
  proposals : w.dao.proposals = fun _ => .empty
  proposalCount : w.dao.proposalCount = 0
  sane : Sane e w.dao

theorem GovSetup.deploy_fresh (h : g.deploy P e = .ok w) : Fresh e g w := by
  simp only [GovSetup.deploy, NounsDAOExecutor.deploy, bind_eq_ok, require_eq_ok, pure_eq_ok] at h
  obtain ⟨_, ⟨_, h1, _, h2, rfl⟩, d, hd, rfl⟩ := h
  obtain ⟨hp, hc, hq, hu⟩ := NounsDAOLogicV2.deploy_ok hd
  refine ⟨rfl, rfl, fun _ => rfl, h1, h2, hp, hc, ⟨Nat.zero_le _, fun i _ => by rw [hp],
    fun i h1 h2 => ?_, hu, ?_⟩, by rw [hp]; exact ⟨rfl, rfl, rfl⟩, hq⟩
  · exact absurd (hc ▸ h2) (by omega)
  · show d.quorumVotesBPS < 2^16
    rw [hq]
    decide

theorem runs_sane {a b : Env × GovConfig P} (h : ReflTransGen (Timed GovMove) a b)
    (ha : Sane a.1 a.2.now.dao) : Sane b.1 b.2.now.dao := by
  refine Timed.invariant (I := fun e c => Sane e c.now.dao) ?_ ?_ h ha
  · exact fun e c c' hc hm => hc.change hm.change
  · exact fun e e' c hc he => hc.mono he

/-- a proposal keeps its header for good -/
theorem runs_header {a b : Env × GovConfig P} (h : ReflTransGen (Timed GovMove) a b) {i : Nat}
    (hi : i ≤ a.2.now.dao.proposalCount) :
    i ≤ b.2.now.dao.proposalCount ∧ Kept (a.2.now.dao.proposals i) (b.2.now.dao.proposals i) := by
  let I : Env → GovConfig P → Prop := fun _ c =>
    i ≤ c.now.dao.proposalCount ∧ Kept (a.2.now.dao.proposals i) (c.now.dao.proposals i)
  have h0 : I a.1 a.2 := ⟨hi, rfl⟩
  refine Timed.invariant (I := I) ?_ (fun _ _ _ hc _ => hc) h h0
  exact fun e c c' hc hm => ⟨Nat.le_trans hc.1 hm.change.count_le,
    (hm.change.header hc.1).trans hc.2⟩

end
end UNouns
