import UNouns.Governance.Queue

/-!
# Governance safety

What the timelock calls has gone the whole way: proposed by somebody with votes, voted for, queued,
waited for, and never taken back.  The history of a run says so, record by record:

* `Proposed`, `QueuedBy`      the records of a proposal's `propose` and `queue`;
* `Founded`                   each proposal has the records it should have, and no other;
* `governance_safety`         so each call of a target goes back to them.
-/

set_option linter.unusedVariables false

namespace UNouns
open Function Relation Reentrant NounsDAOLogicV2

section
variable {P : Platform}

/-! ## records -/

/-- `r` is the call that made `p`, by an account with more votes than the threshold of the time -/
structure Proposed (p : Proposal) (r : GovRecord P) : Prop where
  call : ∃ description, r.op.op = .entry (.dao
    (.propose p.targets p.values p.signatures p.calldatas description))
  id_eq : p.id = r.pre.dao.proposalCount + 1
  proposer : p.proposer = r.op.msg.sender
  threshold : ∃ votes, r.pre.token.getPriorVotes r.env p.proposer (r.env.number - 1) = .ok votes ∧
    r.pre.dao.proposalThreshold r.pre.token < votes

/-- `r` is the call that queued proposal `i` for `eta`, after a delay that was in force and in bounds -/
structure QueuedBy (i eta : Nat) (r : GovRecord P) : Prop where
  call : r.op.op = .entry (.queue i)
  eta_eq : eta = r.env.timestamp + r.pre.timelock.delay
  delay_ge : NounsDAOExecutor.MINIMUM_DELAY ≤ r.pre.timelock.delay

theorem Proposed.of_kept {p p' : Proposal} {r : GovRecord P} (h : Proposed p r) (hk : Kept p p') :
    Proposed p' r := by
  obtain ⟨h1, h2, h3, h4⟩ := h
  refine ⟨?_, (hk.congr (·.id) fun _ => rfl).trans h2, (hk.congr (·.proposer) fun _ => rfl).trans h3, ?_⟩
  · rwa [hk.congr (·.targets) fun _ => rfl, hk.congr (·.values) fun _ => rfl,
      hk.congr (·.signatures) fun _ => rfl, hk.congr (·.calldatas) fun _ => rfl]
  · rwa [hk.congr (·.proposer) fun _ => rfl]

/-! ## steps -/

variable {env : Env} {w w' : World P}

/-- only `propose` makes a proposal -/
theorem GovStep.created {c : GovCall P} (h : GovStep env c.msg w c.op w') {i : Nat}
    (hi : w.dao.proposalCount < i) (hi' : i ≤ w'.dao.proposalCount) :
    Proposed (w'.dao.proposals i) (⟨env, w, c⟩ : GovRecord P) := by
  have hcount : ∀ {d : NounsDAOLogicV2}, w'.dao = d → d.proposalCount = w.dao.proposalCount → False := by
    intro d e hd
    rw [e, hd] at hi'
    omega
  obtain ⟨msg, op, hout⟩ := c
  cases h with
  | token op t h => exact (hcount rfl rfl).elim
  | timelock op tl h => exact (hcount rfl rfl).elim
  | settings op d hop h => exact (hcount rfl h.proposalCount).elim
  | vote op voter id support d hop h =>
    obtain ⟨votes, _, _, _, _, hs⟩ := h.sets
    exact (hcount rfl hs.proposalCount).elim
  | queue id r h => exact (hcount rfl (queue_ok h).2.2.proposalCount).elim
  | cancel id r h => exact (hcount rfl (cancel_ok h).2.2.proposalCount).elim
  | veto id r h => exact (hcount rfl (veto_ok h).2.2.proposalCount).elim
  | execute id d w' h hact =>
    exact (hcount hact.dao.1 (NounsDAOLogicV2.beginExecute_ok h).2.proposalCount).elim
  | propose targets values signatures calldatas description d h =>
    obtain ⟨⟨votes, hv, ht⟩, _, _, _, e⟩ := propose_ok h
    have hc : d.proposalCount = w.dao.proposalCount + 1 := by rw [e]
    have hid : i = w.dao.proposalCount + 1 := by
      have h2 : i ≤ d.proposalCount := hi'
      omega
    have hp : d.proposals i
        = w.dao.newProposal env msg.sender w.token targets values signatures calldatas := by
      rw [e, hid]
      exact update_self _ _ _
    show Proposed (d.proposals i) _
    rw [hp]
    exact ⟨⟨description, rfl⟩, rfl, rfl, votes, hv, ht⟩

/-- only `queue` sets an `eta` -/
theorem GovStep.queued {c : GovCall P} (h : GovStep env c.msg w c.op w') (hd : Sane env w.dao)
    (hdelay : NounsDAOExecutor.MINIMUM_DELAY ≤ w.timelock.delay) {i : Nat}
    (hi : (w'.dao.proposals i).eta ≠ (w.dao.proposals i).eta) :
    QueuedBy i (w'.dao.proposals i).eta (⟨env, w, c⟩ : GovRecord P) := by
  have hset : ∀ {d : NounsDAOLogicV2} {id : Nat} {p : Proposal}, w'.dao = d →
      SetsProposal w.dao d id p → p.eta = (w.dao.proposals id).eta → False := by
    intro d id p e hs hp
    rw [e] at hi
    by_cases ei : i = id
    · exact hi (by rw [ei, hs.self, hp])
    · exact hi (by rw [hs.other ei])
  obtain ⟨msg, op, hout⟩ := c
  cases h with
  | token op t h => exact absurd rfl hi
  | timelock op tl h => exact absurd rfl hi
  | settings op d hop h => exact absurd (by rw [show d.proposals = _ from h.proposals]) hi
  | vote op voter id support d hop h =>
    obtain ⟨votes, _, _, _, _, hs⟩ := h.sets
    exact (hset rfl hs (withVote_flags _ _ _ _).2.2.2).elim
  | cancel id r h => exact (hset rfl (cancel_ok h).2.2 rfl).elim
  | veto id r h => exact (hset rfl (veto_ok h).2.2 rfl).elim
  | execute id d w' h hact =>
    exact (hset hact.dao.1 (NounsDAOLogicV2.beginExecute_ok h).2 rfl).elim
  | propose targets values signatures calldatas description d h =>
    rcases (DaoChange.propose d _ _ _ _ _ _ _ h).eta hd.fresh i with e | ⟨hs, _⟩
    · exact absurd e hi
    · refine absurd ?_ hi
      show (d.proposals i).eta = _
      rw [propose_other h (by have := state_le hs; omega)]
  | queue id r h =>
    obtain ⟨_, _, hs⟩ := queue_ok h
    by_cases ei : i = id
    · subst ei
      refine ⟨rfl, ?_, hdelay⟩
      show (r.2.proposals i).eta = _
      rw [hs.self]
    · exact absurd (by show (r.2.proposals i).eta = _; rw [hs.other ei]) hi

/-- the flags are there to stay -/
theorem DaoChange.withdrawn {d d' : NounsDAOLogicV2} (h : DaoChange env d d') {i : Nat}
    (hi : i ≤ d.proposalCount)
    (hf : (d.proposals i).canceled = true ∨ (d.proposals i).vetoed = true) :
    (d'.proposals i).canceled = true ∨ (d'.proposals i).vetoed = true := by
  have hset : ∀ {id : Nat} {p : Proposal}, SetsProposal d d' id p →
      ((d.proposals id).canceled = true → p.canceled = true) →
      ((d.proposals id).vetoed = true → p.vetoed = true) →
      (d'.proposals i).canceled = true ∨ (d'.proposals i).vetoed = true := by
    intro id p hs hc hv
    by_cases e : i = id
    · subst e
      rw [hs.self]
      exact hf.imp hc hv
    · rwa [hs.other e]
  cases h with
  | same h => rwa [h.proposals]
  | propose sender t targets values signatures calldatas description h =>
    rwa [propose_other h (by omega)]
  | vote voter id support votes hstate hsupport hvoted h =>
    obtain ⟨h1, h2, _⟩ := withVote_flags (d.proposals id) voter support votes
    exact hset h (fun hc => h2.trans hc) (fun hv => h1.trans hv)
  | queue id delay hstate h => exact hset h (fun hc => hc) (fun hv => hv)
  | execute id hstate h => exact hset h (fun hc => hc) (fun hv => hv)
  | cancel id s hstate hs h => exact hset h (fun _ => rfl) (fun hv => hv)
  | veto id s hstate hs h => exact hset h (fun hc => hc) (fun _ => rfl)

/-- what is canceled or vetoed says so -/
theorem GovStep.withdraws {c : GovCall P} (h : GovStep env c.msg w c.op w') {i : Nat}
    (hi : c.op.withdraws = some i) : i ≤ w'.dao.proposalCount ∧
      ((w'.dao.proposals i).canceled = true ∨ (w'.dao.proposals i).vetoed = true) := by
  obtain ⟨msg, op, hout⟩ := c
  cases h with
  | cancel id r h =>
    obtain rfl := Option.some.inj hi
    obtain ⟨⟨s, hstate, _⟩, _, hs⟩ := cancel_ok h
    refine ⟨by show id ≤ r.2.proposalCount; rw [hs.proposalCount]; exact state_le hstate, .inl ?_⟩
    show (r.2.proposals id).canceled = true
    rw [hs.self]
  | veto id r h =>
    obtain rfl := Option.some.inj hi
    obtain ⟨⟨s, hstate, _⟩, _, hs⟩ := veto_ok h
    refine ⟨by show id ≤ r.2.proposalCount; rw [hs.proposalCount]; exact state_le hstate, .inr ?_⟩
    show (r.2.proposals id).vetoed = true
    rw [hs.self]
  | token op t h => cases hi
  | timelock op tl h => cases hi
  | settings op d hop h => cases hi
  | propose targets values signatures calldatas description d h => cases hi
  | vote op voter id support d hop h => cases hi
  | queue id r h => cases hi
  | execute id d w' h hact => cases hi

theorem GovStep.delay {c : GovCall P} (h : GovStep env c.msg w c.op w')
    (hd : NounsDAOExecutor.MINIMUM_DELAY ≤ w.timelock.delay) :
    NounsDAOExecutor.MINIMUM_DELAY ≤ w'.timelock.delay := by
  obtain ⟨msg, op, hout⟩ := c
  cases h with
  | token op t h => exact hd
  | settings op d hop h => exact hd
  | propose targets values signatures calldatas description d h => exact hd
  | vote op voter id support d hop h => exact hd
  | queue id r h => exact (forActions_queue (queue_ok h).2.1).1.delay ▸ hd
  | cancel id r h => exact (forActions_cancel (cancel_ok h).2.1).1.delay ▸ hd
  | veto id r h => exact (forActions_cancel (veto_ok h).2.1).1.delay ▸ hd
  | timelock op tl h =>
    rcases ExecutorOp.apply_ok h with ⟨_, _, e | e⟩ | ⟨_, _, _, e, _⟩ | ⟨_, _, e, _⟩ |
      ⟨_, _, _, _, _, e, _⟩
    · exact e ▸ hd
    · exact e.1
    · exact e ▸ hd
    · exact e ▸ hd
    · exact e ▸ hd
  | execute id d w' h hact =>
    rcases hact with ⟨_, rfl⟩ | ⟨tx, hb⟩
    · exact hd
    · rw [(NounsDAOExecutor.beginExecute_window (beginAction_ok hb).2.1).2.2.2]
      exact hd

/-! ## the history -/

structure Founded (e : Env) (c : GovConfig P) : Prop where
  sane : Sane e c.now.dao
  carries : Carries e c.now.dao
  executed : ExecutedHeld c.now.dao
  delay_ge : NounsDAOExecutor.MINIMUM_DELAY ≤ c.now.timelock.delay
  proposed : ∀ i, 1 ≤ i → i ≤ c.now.dao.proposalCount →
    ∃ r ∈ c.past, Proposed (c.now.dao.proposals i) r
  queued : ∀ i, (c.now.dao.proposals i).eta ≠ 0 →
    ∃ r ∈ c.past, QueuedBy i (c.now.dao.proposals i).eta r
  withdrawn : ∀ r ∈ c.past, ∀ i, r.op.op.withdraws = some i → i ≤ c.now.dao.proposalCount ∧
    ((c.now.dao.proposals i).canceled = true ∨ (c.now.dao.proposals i).vetoed = true)

theorem Founded.enter {c : GovConfig P} (hc : Founded env c) {op : GovCall P}
    (h : GovStep env op.msg c.now op.op w') : Founded env ⟨c.enter env op, w'⟩ := by
  have hchange := GovStep.change h
  have hold : ∀ {r}, r ∈ c.past → r ∈ c.enter env op := fun hr => List.mem_append_left _ hr
  have hnew : (⟨env, c.now, op⟩ : GovRecord P) ∈ c.enter env op :=
    List.mem_append_right _ (List.mem_singleton_self _)
  refine ⟨hc.sane.change hchange, hc.carries.change hc.sane hchange,
    hc.executed.change hc.sane hc.carries hchange, GovStep.delay h hc.delay_ge, fun i h1 h2 => ?_,
    fun i hi => ?_, fun r hr i hi => ?_⟩
  · by_cases hle : i ≤ c.now.dao.proposalCount
    · obtain ⟨r, hr, hp⟩ := hc.proposed i h1 hle
      exact ⟨r, hold hr, hp.of_kept (hchange.header hle)⟩
    · exact ⟨_, hnew, GovStep.created h (Nat.lt_of_not_le hle) h2⟩
  · by_cases e : (w'.dao.proposals i).eta = (c.now.dao.proposals i).eta
    · have hi' : (w'.dao.proposals i).eta ≠ 0 := hi
      rw [e] at hi'
      obtain ⟨r, hr, hq⟩ := hc.queued i hi'
      exact ⟨r, hold hr, e ▸ hq⟩
    · exact ⟨_, hnew, GovStep.queued h hc.sane hc.delay_ge e⟩
  · rcases List.mem_append.mp hr with hr | hr
    · obtain ⟨h1, h2⟩ := hc.withdrawn r hr i hi
      exact ⟨Nat.le_trans h1 hchange.count_le, hchange.withdrawn h1 h2⟩
    · rw [List.mem_singleton.mp hr] at hi
      exact GovStep.withdraws h hi

theorem Founded.resume {c : GovConfig P} (hc : Founded env c) (h : GovRest env c.now w') :
    Founded env ⟨c.past, w'⟩ := by
  have hsame := GovRest.same h
  have hchange := DaoChange.same _ hsame
  have hdelay : w'.timelock.delay = c.now.timelock.delay := by
    cases h with
    | settle tlLogs balance logs => rfl
    | act w' id i tx hid hex hb =>
      rw [(NounsDAOExecutor.beginExecute_window (beginAction_ok hb).2.1).2.2.2]
  refine ⟨hc.sane.change hchange, hc.carries.change hc.sane hchange,
    hc.executed.change hc.sane hc.carries hchange, hdelay ▸ hc.delay_ge, ?_, ?_, ?_⟩
  · show ∀ i, 1 ≤ i → i ≤ w'.dao.proposalCount → _
    rw [hsame.proposalCount, hsame.proposals]
    exact hc.proposed
  · show ∀ i, (w'.dao.proposals i).eta ≠ 0 → _
    rw [hsame.proposals]
    exact hc.queued
  · show ∀ r ∈ c.past, ∀ i, _ → i ≤ w'.dao.proposalCount ∧ _
    rw [hsame.proposalCount, hsame.proposals]
    exact hc.withdrawn

theorem Founded.tick {e e' : Env} {c : GovConfig P} (hc : Founded e c) (he : e ≤ e') :
    Founded e' c :=
  { hc with sane := hc.sane.mono he, carries := hc.carries.mono he }

theorem runs_founded {x y : Env × GovConfig P} (h : ReflTransGen (Timed GovMove) x y)
    (hx : Founded x.1 x.2) : Founded y.1 y.2 := by
  refine Timed.invariant (I := Founded) ?_ (fun e e' c hc he => hc.tick he) h hx
  intro e c c' hc hm
  cases hm with
  | enter op w h => exact hc.enter h
  | resume w h => exact hc.resume h

theorem GovSetup.deploy_founded {g : GovSetup} {e : Env} {w : World P} (hw : g.deploy P e = .ok w) :
    Founded e (⟨[], w⟩ : GovConfig P) := by
  have h := GovSetup.deploy_fresh hw
  have hs := GovSetup.deploy_queueSound hw
  refine ⟨h.sane, hs.carries, hs.executed, h.delay_ge, fun i h1 h2 => ?_, fun i hi => ?_,
    fun r hr => absurd hr List.not_mem_nil⟩
  · have h2' : i ≤ w.dao.proposalCount := h2
    rw [h.proposalCount] at h2'
    omega
  · have hi' : (w.dao.proposals i).eta ≠ 0 := hi
    rw [h.proposals] at hi'
    exact absurd rfl hi'

/-- where the DAO is the admin of the timelock, it always was -/
theorem runs_admin {x y : Env × GovConfig P} (h : ReflTransGen (Timed GovMove) x y)
    (hx : x.2.past = []) (hadmin : y.2.now.timelock.admin = P.dao) :
    ∀ r ∈ y.2.past, r.pre.timelock.admin = P.dao := by
  refine Timed.invariant_under (I := fun _ c => ∀ r ∈ c.past, r.pre.timelock.admin = P.dao)
    (P := fun c => c.now.timelock.admin = P.dao) (fun e c c' hm => GovMove.admin hm) ?_ ?_ h
    (fun r hr => by rw [hx] at hr; cases hr) hadmin
  · intro e c c' hc _ hI hm r hr
    cases hm with
    | resume w h => exact hI r hr
    | enter op w h =>
      rcases List.mem_append.mp hr with hr | hr
      · exact hI r hr
      · rw [List.mem_singleton.mp hr]
        exact hc
  · exact fun e e' c hc _ => hc

/-! ## the calls of the timelock -/

/-- `t` is an action of proposal `id`, which has been through everything -/
structure Lawful (e : Env) (c : GovConfig P) (t : TargetCall) (id : Nat) : Prop where
  action : ∃ i, (c.now.dao.proposals id).action (c.now.dao.proposals id).eta i = .ok t.tx
  callData : t = NounsDAOExecutor.targetCall P t.tx
  id_eq : (c.now.dao.proposals id).id = id
  proposed : ∃ r ∈ c.past, Proposed (c.now.dao.proposals id) r
  ended : (c.now.dao.proposals id).endBlock < e.number
  majority : (c.now.dao.proposals id).againstVotes < (c.now.dao.proposals id).forVotes
  quorum : ∃ n, c.now.dao.quorumVotes id = .ok n ∧ n ≤ (c.now.dao.proposals id).forVotes
  queued : ∃ r ∈ c.past, QueuedBy id (c.now.dao.proposals id).eta r
  due : (c.now.dao.proposals id).eta ≤ e.timestamp
  notCanceled : (c.now.dao.proposals id).canceled = false
  notVetoed : (c.now.dao.proposals id).vetoed = false
  notWithdrawn : ∀ r ∈ c.past, r.op.op.withdraws ≠ some id

theorem Founded.lawful {e : Env} {c : GovConfig P} (h : Founded e c) {t : TargetCall} {id i : Nat}
    (hex : (c.now.dao.proposals id).executed = true)
    (htx : (c.now.dao.proposals id).action (c.now.dao.proposals id).eta i = .ok t.tx)
    (ht : t = NounsDAOExecutor.targetCall P t.tx)
    (hdue : (c.now.dao.proposals id).eta ≤ e.timestamp) : Lawful e c t id := by
  have hheld := h.executed id hex
  obtain ⟨h1, h2⟩ := h.sane.id_of_eta hheld.eta_ne
  have hid := (h.sane.wellFormed id h1 h2).id_eq
  obtain ⟨hend, hdef⟩ := h.carries id hheld.eta_ne
  obtain ⟨hmaj, hq⟩ := defeated_ok_false hdef
  rw [hid] at hq
  refine ⟨⟨i, htx⟩, ht, hid, h.proposed id h1 h2, hend, hmaj, hq, h.queued id hheld.eta_ne, hdue,
    hheld.canceled, hheld.vetoed, fun r hr hw => ?_⟩
  rcases (h.withdrawn r hr id hw).2 with hf | hf
  · rw [hheld.canceled] at hf
    cases hf
  · rw [hheld.vetoed] at hf
    cases hf

/-- **Governance safety.**  Whatever the timelock calls, as long as the DAO is its admin, is an action
of a proposal that was made by an account above the threshold, has its majority and its quorum, was
queued the delay of that time ago, and was never canceled or vetoed. -/
theorem governance_safety (g : GovSetup) (e : Env) (w : World P) (hw : g.deploy P e = .ok w)
    (ts : List (Tx Env (GovCall P))) (hch : (e :: ts.map Tx.env).IsChain (· ≤ ·)) :
    ∀ q ∈ (runTxs GovCall.code ts ⟨[], w⟩).1, ∀ t, q.ext = .target t →
      q.cfg.now.timelock.admin = P.dao → ∃ id, Lawful q.env q.cfg t id := by
  intro q hq t ht hadmin
  obtain ⟨hr, hat⟩ := (runTxs_timed (fun env (op : GovCall P) (c : GovConfig P) => op.follows env c) ts
    e ⟨[], w⟩ hch).1 q hq
  have h := runs_founded hr (GovSetup.deploy_founded hw)
  rcases hat t ht with ⟨before, r, hpast, _, hsender⟩ | ⟨id, i, _, hex, htx, hcall, hdue⟩
  · -- nobody but the DAO can use the timelock directly
    have hr' := runs_admin hr rfl hadmin r (by rw [hpast]; simp)
    exact absurd (hsender.trans hr') r.op.outside
  · exact ⟨id, h.lawful hex htx hcall hdue⟩

end

theorem governance_safety_run :
    let r := runTxs GovCall.code (proposeTxs ++ carryTxs) ⟨[], sampleWorld⟩
    r.2.past.length = 5 ∧ ∃ q ∈ r.1, ∃ t id, q.ext = .target t ∧ Lawful q.env q.cfg t id := by
  intro r
  refine ⟨by decide +kernel, ?_⟩
  let q := r.1.get ⟨0, by decide +kernel⟩
  have hext : (match q.ext with | .target _ => true | _ => false) = true := by decide +kernel
  cases ht : q.ext with
  | target t =>
    obtain ⟨id, h⟩ := governance_safety sampleSetup (.block 6 60) sampleWorld sampleWorld_deployed
      (proposeTxs ++ carryTxs) (by simp [proposeTxs, carryTxs, Env.le_def, Env.block]) q
      (List.get_mem _ _) t ht (by decide +kernel)
    exact ⟨q, List.get_mem _ _, t, id, ht, h⟩
  | receiver x => rw [ht] at hext; cases hext
  | refund p => rw [ht] at hext; cases hext
  | withdraw p => rw [ht] at hext; cases hext

end UNouns
