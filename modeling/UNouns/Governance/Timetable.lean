import UNouns.Governance.Charter
import UNouns.Governance.Safety

/-!
# A proposal takes its time

Whatever the admin does to the voting delay and the voting period, and whoever the parties are: between
the block in which a proposal was made and the one in which it was queued lie the shortest delay and the
shortest period that there can be, and between the queueing and the first of its actions the shortest
delay of the timelock.

* `Charter.InBounds`         the terms of every state;
* `Scheduled`                so every proposal waits, and its records are that far apart;
* `execution_takes_time`     whatever the timelock calls.
-/

set_option linter.unusedVariables false

namespace UNouns
open Function Relation Reentrant Checkpoints NounsDAOLogicV2

/-! ## terms -/

structure Charter.InBounds (c : Charter) : Prop where
  timelock : c.timelock ≠ 0
  votingDelay : MIN_VOTING_DELAY ≤ c.votingDelay
  votingPeriod : MIN_VOTING_PERIOD ≤ c.votingPeriod

theorem Amends.inBounds {sender : Address} {c c' : Charter} {op : DaoOp} (h : Amends sender c op c')
    (hc : c.InBounds) : c'.InBounds := by
  cases h with
  | votingDelay n hs hge => exact ⟨hc.timelock, hge, hc.votingPeriod⟩
  | votingPeriod n hs hge => exact ⟨hc.timelock, hc.votingDelay, hge⟩
  | _ => exact ⟨hc.timelock, hc.votingDelay, hc.votingPeriod⟩

section
variable {P : Platform} {env : Env} {w w' : World P}

theorem GovBegin.inBounds {c : GovCall P} (hw : w.dao.charter.InBounds) (h : GovBegin env c w w') :
    w'.dao.charter.InBounds := by
  rcases GovBegin.amends hw.timelock h with e | ⟨op, _, hamend⟩
  · rw [e]
    exact hw
  · exact hamend.inBounds hw

theorem GovSetup.deploy_inBounds {g : GovSetup} {e : Env} {w : World P} (hw : g.deploy P e = .ok w) :
    w.dao.charter.InBounds := by
  simp only [GovSetup.deploy, NounsDAOLogicV2.deploy, bind_eq_ok, pure_eq_ok] at hw
  obtain ⟨_, _, d, ⟨d1, h1, rfl⟩, rfl⟩ := hw
  obtain ⟨_, _, _, e⟩ := initializeV2_exact h1
  simp only [NounsDAOLogicV2.initializeV2, bind_eq_ok, require_eq_ok] at h1
  obtain ⟨_, _, _, _, _, htl, _, _, _, ⟨hperiod, _⟩, _, ⟨hdelay, _⟩, _⟩ := h1
  have hd1 : d1.charter.InBounds := by
    rw [e]
    exact ⟨htl, hdelay, hperiod⟩
  exact ⟨hd1.timelock, hd1.votingDelay, hd1.votingPeriod⟩

/-! ## proposals -/

/-- `r` made `p`, in its creation block -/
structure MadeIn (p : Proposal) (r : GovRecord P) : Prop where
  proposed : Proposed p r
  creation : r.env.number = p.creationBlock

/-- `r` queued proposal `i`, which is now `p`, after its last block -/
structure QueuedAfter (i : Nat) (p : Proposal) (r : GovRecord P) : Prop where
  queued : QueuedBy i p.eta r
  ended : p.endBlock < r.env.number

structure Scheduled (c : GovConfig P) : Prop where
  inBounds : c.now.dao.charter.InBounds
  waits : ∀ i, 1 ≤ i → i ≤ c.now.dao.proposalCount →
    (c.now.dao.proposals i).creationBlock + MIN_VOTING_DELAY + MIN_VOTING_PERIOD
      ≤ (c.now.dao.proposals i).endBlock
  made : ∀ i, 1 ≤ i → i ≤ c.now.dao.proposalCount → ∃ r ∈ c.past, MadeIn (c.now.dao.proposals i) r
  queued : ∀ i, (c.now.dao.proposals i).eta ≠ 0 → ∃ r ∈ c.past, QueuedAfter i (c.now.dao.proposals i) r

theorem MadeIn.of_kept {p p' : Proposal} {r : GovRecord P} (h : MadeIn p r) (hk : Kept p p') :
    MadeIn p' r :=
  ⟨h.proposed.of_kept hk, h.creation.trans (hk.congr (·.creationBlock) fun _ => rfl).symm⟩

theorem DaoChange.waits {d d' : NounsDAOLogicV2} (h : DaoChange env d d') (hd : d.charter.InBounds)
    (hw : ∀ i, 1 ≤ i → i ≤ d.proposalCount →
      (d.proposals i).creationBlock + MIN_VOTING_DELAY + MIN_VOTING_PERIOD ≤ (d.proposals i).endBlock)
    {i : Nat} (h1 : 1 ≤ i) (hi : i ≤ d'.proposalCount) :
    (d'.proposals i).creationBlock + MIN_VOTING_DELAY + MIN_VOTING_PERIOD
      ≤ (d'.proposals i).endBlock := by
  have hkept : ∀ {p : Proposal}, Kept (d.proposals i) p → i ≤ d.proposalCount →
      p.creationBlock + MIN_VOTING_DELAY + MIN_VOTING_PERIOD ≤ p.endBlock := by
    intro p hk hle
    rw [hk.congr (·.creationBlock) fun _ => rfl, hk.congr (·.endBlock) fun _ => rfl]
    exact hw i h1 hle
  rcases h.kept with ⟨_, _, _, _, _, _, hc, hp, _⟩ | ⟨hc, hk⟩
  · by_cases hle : i ≤ d.proposalCount
    · exact hkept (h.header hle) hle
    · have e : i = d.proposalCount + 1 := by omega
      have hdelay : MIN_VOTING_DELAY ≤ d.votingDelay := hd.votingDelay
      have hperiod : MIN_VOTING_PERIOD ≤ d.votingPeriod := hd.votingPeriod
      rw [hp, e, update_self]
      show env.number + _ + _ ≤ env.number + d.votingDelay + d.votingPeriod
      omega
  · exact hkept (hk i) (by omega)

/-- a new proposal is of this block -/
theorem DaoChange.creation {d d' : NounsDAOLogicV2} (h : DaoChange env d d') {i : Nat}
    (hold : d.proposalCount < i) (hi : i ≤ d'.proposalCount) :
    (d'.proposals i).creationBlock = env.number := by
  rcases h.kept with ⟨_, _, _, _, _, _, hc, hp, _⟩ | ⟨hc, _⟩
  · have e : i = d.proposalCount + 1 := by omega
    rw [hp, e, update_self]
    rfl
  · omega

/-- what is queued has ended -/
theorem GovStep.queued_ended {c : GovCall P} {id : Nat} (h : GovStep env c.msg w c.op w')
    (hop : c.op = .entry (.queue id)) : (w'.dao.proposals id).endBlock < env.number := by
  obtain ⟨msg, op, hout⟩ := c
  subst hop
  cases h with
  | queue id r h =>
    obtain ⟨hs, _, hset⟩ := queue_ok h
    show (r.2.proposals id).endBlock < env.number
    rw [hset.self]
    exact (state_succeeded hs).1.ended

theorem Scheduled.enter {c : GovConfig P} (hc : Scheduled c) (hf : Founded env c) {op : GovCall P}
    (h : GovBegin env op c.now w') : Scheduled ⟨c.enter env op, w'⟩ := by
  have hstep := h.step
  have hchange := GovStep.change hstep
  have hold : ∀ {r}, r ∈ c.past → r ∈ c.enter env op := fun hr => List.mem_append_left _ hr
  have hnew : (⟨env, c.now, op⟩ : GovRecord P) ∈ c.enter env op :=
    List.mem_append_right _ (List.mem_singleton_self _)
  refine ⟨h.inBounds hc.inBounds, fun i h1 hi => hchange.waits hc.inBounds hc.waits h1 hi,
    fun i h1 h2 => ?_, fun i hi => ?_⟩
  · by_cases hle : i ≤ c.now.dao.proposalCount
    · obtain ⟨r, hr, hm⟩ := hc.made i h1 hle
      exact ⟨r, hold hr, hm.of_kept (hchange.header hle)⟩
    · have hlt := Nat.lt_of_not_le hle
      exact ⟨_, hnew, GovStep.created hstep hlt h2, (hchange.creation hlt h2).symm⟩
  · by_cases e : (w'.dao.proposals i).eta = (c.now.dao.proposals i).eta
    · have hi' : (c.now.dao.proposals i).eta ≠ 0 := by
        rw [← e]
        exact hi
      obtain ⟨r, hr, hq, hended⟩ := hc.queued i hi'
      have hk := hchange.header (hf.sane.id_of_eta hi').2
      refine ⟨r, hold hr, e ▸ hq, ?_⟩
      rw [hk.congr (·.endBlock) fun _ => rfl]
      exact hended
    · have hq := GovStep.queued hstep hf.sane hf.delay_ge e
      exact ⟨_, hnew, hq, GovStep.queued_ended hstep hq.call⟩

theorem Scheduled.resume {c : GovConfig P} (hc : Scheduled c) (h : GovResume env c.now w') :
    Scheduled ⟨c.past, w'⟩ := by
  have hsame := GovRest.same h.rest
  refine ⟨?_, ?_, ?_, ?_⟩
  · show w'.dao.charter.InBounds
    rw [h.charter]
    exact hc.inBounds
  · show ∀ i, 1 ≤ i → i ≤ w'.dao.proposalCount → _
    rw [hsame.proposalCount, hsame.proposals]
    exact hc.waits
  · show ∀ i, 1 ≤ i → i ≤ w'.dao.proposalCount → _
    rw [hsame.proposalCount, hsame.proposals]
    exact hc.made
  · show ∀ i, (w'.dao.proposals i).eta ≠ 0 → _
    rw [hsame.proposals]
    exact hc.queued

/-! ## runs -/

theorem GovExact.scheduled {c c' : GovConfig P} (hc : Founded env c ∧ Scheduled c)
    (h : GovExact env c c') : Founded env c' ∧ Scheduled c' := by
  cases h with
  | enter op w h => exact ⟨hc.1.enter h.step, hc.2.enter hc.1 h⟩
  | resume w h => exact ⟨hc.1.resume h.rest, hc.2.resume h⟩

theorem GovSetup.deploy_scheduled {g : GovSetup} {e : Env} {w : World P} (hw : g.deploy P e = .ok w) :
    Scheduled (⟨[], w⟩ : GovConfig P) := by
  have hf := GovSetup.deploy_fresh hw
  have hnone : ∀ i, 1 ≤ i → ¬ i ≤ w.dao.proposalCount := by
    intro i h1 hi
    rw [hf.proposalCount] at hi
    omega
  refine ⟨GovSetup.deploy_inBounds hw, fun i h1 hi => absurd hi (hnone i h1),
    fun i h1 hi => absurd hi (hnone i h1), fun i hi => ?_⟩
  have hi' : (w.dao.proposals i).eta ≠ 0 := hi
  rw [hf.proposals] at hi'
  exact absurd rfl hi'

theorem runs_scheduled {x y : Env × GovConfig P} (h : ReflTransGen (Timed GovExact) x y)
    (hx : Founded x.1 x.2 ∧ Scheduled x.2) : Founded y.1 y.2 ∧ Scheduled y.2 :=
  Timed.invariant (I := fun e c => Founded e c ∧ Scheduled c) (fun _ _ _ hc hm => hm.scheduled hc)
    (fun _ _ _ hc he => ⟨hc.1.tick he, hc.2⟩) h hx

/-- **Nothing is executed in a hurry.**  Whatever the timelock calls, as long as the DAO is its admin, is
an action of a proposal that was made more than the shortest voting delay and the shortest voting period
before the block in which it was queued, and queued the shortest delay of the timelock ago at least,
whatever the delays and the period were set to meanwhile. -/
theorem execution_takes_time (g : GovSetup) (e : Env) (w : World P) (hw : g.deploy P e = .ok w)
    (ts : List (Tx Env (GovCall P))) (hch : (e :: ts.map Tx.env).IsChain (· ≤ ·)) :
    ∀ q ∈ (runTxs GovCall.code ts ⟨[], w⟩).1, ∀ t, q.ext = .target t →
      q.cfg.now.timelock.admin = P.dao →
        ∃ id, ∃ made ∈ q.cfg.past, ∃ queued ∈ q.cfg.past,
          let p := q.cfg.now.dao.proposals id
          (∃ i, p.action p.eta i = .ok t.tx) ∧ Proposed p made ∧ QueuedBy id p.eta queued ∧
          made.env.number + MIN_VOTING_DELAY + MIN_VOTING_PERIOD < queued.env.number ∧
          queued.env.timestamp + NounsDAOExecutor.MINIMUM_DELAY ≤ q.env.timestamp := by
  intro q hq t ht hadmin
  obtain ⟨hr, hat⟩ := (runTxs_timed (fun env (op : GovCall P) (c : GovConfig P) => op.follows_exact env c)
    ts e ⟨[], w⟩ hch).1 q hq
  obtain ⟨hf, hs⟩ := runs_scheduled hr ⟨GovSetup.deploy_founded hw, GovSetup.deploy_scheduled hw⟩
  rcases hat t ht with ⟨before, r, hpast, _, hsender⟩ | ⟨id, i, _, hex, htx, _, hdue⟩
  · -- nobody but the DAO can use the timelock directly
    have hr' := runs_admin (GovExact.timed hr) rfl hadmin r (by rw [hpast]; simp)
    exact absurd (hsender.trans hr') r.op.outside
  · have heta := (hf.executed id hex).eta_ne
    obtain ⟨h1, h2⟩ := hf.sane.id_of_eta heta
    obtain ⟨made, hmade, hproposed, hcreation⟩ := hs.made id h1 h2
    obtain ⟨queued, hqueued, hby, hended⟩ := hs.queued id heta
    have hwaits := hs.waits id h1 h2
    have hqueuedFor : queued.env.timestamp + NounsDAOExecutor.MINIMUM_DELAY
        ≤ (q.cfg.now.dao.proposals id).eta := by
      rw [hby.eta_eq]
      exact Nat.add_le_add_left hby.delay_ge _
    exact ⟨id, made, hmade, queued, hqueued, ⟨i, htx⟩, hproposed, hby, by omega,
      Nat.le_trans hqueuedFor hdue⟩

end

def GovExternal.isTarget : GovExternal → Bool
  | .target _ => true
  | _ => false

theorem execution_takes_time_run :
    let r := runTxs GovCall.code (proposeTxs ++ carryTxs) ⟨[], sampleWorld⟩
    r.2.past.length = 5 ∧ ∃ q ∈ r.1, ∃ made ∈ q.cfg.past, ∃ queued ∈ q.cfg.past,
      made.env.number + MIN_VOTING_DELAY + MIN_VOTING_PERIOD < queued.env.number ∧
      queued.env.timestamp + NounsDAOExecutor.MINIMUM_DELAY ≤ q.env.timestamp := by
  intro r
  refine ⟨by decide +kernel, ?_⟩
  let q := r.1.get ⟨0, by decide +kernel⟩
  have hext : q.ext.isTarget = true := by decide +kernel
  cases ht : q.ext with
  | target t =>
    obtain ⟨id, made, hm, queued, hq, _, _, _, h1, h2⟩ := execution_takes_time sampleSetup (.block 6 60)
      sampleWorld sampleWorld_deployed (proposeTxs ++ carryTxs) (by decide +kernel) q
      (List.get_mem _ _) t ht (by decide +kernel)
    exact ⟨q, List.get_mem _ _, made, hm, queued, hq, h1, h2⟩
  | _ =>
    rw [ht] at hext
    cases hext

end UNouns
