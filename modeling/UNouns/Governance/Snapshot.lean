import UNouns.Governance.Tallies
import UNouns.Token.Votes

/-!
# Snapshots

A run is cut at the end of the block `b` in which a proposal was made.  However it goes on, a vote on
the proposal counts what the voter had at the end of `b`.

* `VotedAfter`       up to the cut nobody has voted on it;
* `AfterSnapshot`    beyond the cut the checkpoints of block `b` are settled, and so is the block the
                     proposal asks for;
* `votes_snapshot`   two runs that agree up to the cut record the same votes.
-/

set_option linter.unusedVariables false

namespace UNouns
open Function Relation Reentrant Checkpoints NounsDAOLogicV2

section
variable {P : Platform}

/-! ## the token -/

theorem GovMove.ledger {env : Env} {c c' : GovConfig P} (h : GovMove env c c') :
    ReflTransGen (LedgerStep (fun _ _ _ => True) env.number) c.now.token.ledger
      c'.now.token.ledger := by
  cases h with
  | resume w h => rw [(GovRest.dao h).1]
  | enter op w h =>
    obtain ⟨msg, op, hout⟩ := op
    cases h with
    | token op t h => exact TokenOp.apply_steps (fun _ _ _ => trivial) h
    | timelock op tl h => exact .refl
    | settings op d hop h => exact .refl
    | propose targets values signatures calldatas description d h => exact .refl
    | vote op voter id support d hop h => exact .refl
    | queue id r h => exact .refl
    | cancel id r h => exact .refl
    | veto id r h => exact .refl
    | execute id d w' h hact => rw [hact.dao.2]

theorem runs_ledger_sound {x y : Env × GovConfig P} (h : ReflTransGen (Timed GovMove) x y)
    (hx : x.2.now.token.ledger.Sound x.1.number) : y.2.now.token.ledger.Sound y.1.number := by
  refine Timed.invariant (I := fun e c => c.now.token.ledger.Sound e.number) ?_ ?_ h hx
  · exact fun e c c' hc hm => Ledger.steps_sound (GovMove.ledger hm) hc
  · exact fun e e' c hc he => hc.mono (Env.le_def.mp he).1

/-! ## up to the cut -/

/-- a proposal that is voted on was made in an earlier block -/
theorem Sane.created_before {e : Env} {d : NounsDAOLogicV2} (h : Sane e d) {i : Nat} (h1 : 1 ≤ i)
    (hs : d.state e i = .ok .active) : (d.proposals i).creationBlock < e.number := by
  have hstart := (h.wellFormed i h1 (state_le hs)).start_ge
  have := (state_active hs).2.2.1
  omega

structure VotedAfter (e : Env) (c : GovConfig P) : Prop where
  sane : Sane e c.now.dao
  receipts : ∀ i v, 1 ≤ i → ((c.now.dao.proposals i).receipts v).hasVoted = true →
    i ≤ c.now.dao.proposalCount ∧ (c.now.dao.proposals i).creationBlock < e.number
  records : ∀ r ∈ c.past, ∀ voter i support, 1 ≤ i →
    r.op.op.ballot P r.env r.op.msg = some (voter, i, support) →
    i ≤ c.now.dao.proposalCount ∧ (c.now.dao.proposals i).creationBlock < e.number

theorem VotedAfter.move {e : Env} {c c' : GovConfig P} (hc : VotedAfter e c) (hm : GovMove e c c') :
    VotedAfter e c' := by
  have hchange := GovMove.change hm
  have hcount := hchange.count_le
  -- a proposal that was made before keeps its block
  have hkeep : ∀ {i}, i ≤ c.now.dao.proposalCount ∧ (c.now.dao.proposals i).creationBlock < e.number →
      i ≤ c'.now.dao.proposalCount ∧ (c'.now.dao.proposals i).creationBlock < e.number := by
    rintro i ⟨h1, h2⟩
    exact ⟨by omega, by rwa [(hchange.header h1).congr (·.creationBlock) (fun _ => rfl)]⟩
  refine ⟨hc.sane.change hchange, fun i v h1 hv => hkeep ?_, fun r hr voter i support h1 hb => hkeep ?_⟩
  · rcases hchange.ballots hc.sane.fresh i with hb | ⟨voter, support, votes, hact, _⟩
    · have hr : (c'.now.dao.proposals i).receipts = (c.now.dao.proposals i).receipts :=
        congrArg (·.2.2.2) hb
      exact hc.receipts i v h1 (by rwa [hr] at hv)
    · exact ⟨state_le hact, hc.sane.created_before h1 hact⟩
  · cases hm with
    | resume w h => exact hc.records r hr voter i support h1 hb
    | enter op w h =>
      rcases List.mem_append.mp hr with hr | hr
      · exact hc.records r hr voter i support h1 hb
      · rw [List.mem_singleton.mp hr] at hb
        obtain ⟨_, hact, _⟩ := (GovStep.votes h hb).sets
        exact ⟨state_le hact, hc.sane.created_before h1 hact⟩

theorem runs_votedAfter {x y : Env × GovConfig P} (h : ReflTransGen (Timed GovMove) x y)
    (hx : VotedAfter x.1 x.2) : VotedAfter y.1 y.2 := by
  refine Timed.invariant (I := VotedAfter) ?_ ?_ h hx
  · exact fun e c c' hc hm => hc.move hm
  · refine fun e e' c hc he => ⟨hc.sane.mono he, fun i v h1 hv => ?_, fun r hr voter i s h1 hb => ?_⟩
    · obtain ⟨h2, h3⟩ := hc.receipts i v h1 hv
      exact ⟨h2, Nat.lt_of_lt_of_le h3 (Env.le_def.mp he).1⟩
    · obtain ⟨h2, h3⟩ := hc.records r hr voter i s h1 hb
      exact ⟨h2, Nat.lt_of_lt_of_le h3 (Env.le_def.mp he).1⟩

/-! ## beyond the cut -/

/-- an accepted vote on `id` adds `votes` of the voter to its side and nothing to the others -/
def Counts (id : Nat) (votes : Address → Nat) (r : GovRecord P) (next : World P) : Prop :=
  ∀ voter support, r.op.op.ballot P r.env r.op.msg = some (voter, id, support) →
    (next.dao.proposals id).ballots
      = ((r.pre.dao.proposals id).againstVotes + (if support = 0 then votes voter else 0),
        (r.pre.dao.proposals id).forVotes + (if support = 1 then votes voter else 0),
        (r.pre.dao.proposals id).abstainVotes + (if support = 2 then votes voter else 0),
        update (r.pre.dao.proposals id).receipts voter ⟨true, support, votes voter⟩)

/-- the votes on `id` are `votes`, which is what the token says of block `b` -/
structure Recorded (b id : Nat) (votes : Address → Nat) (c : GovConfig P) : Prop where
  prior : ∀ (env : Env) (v : Address), b < env.number →
    c.now.token.getPriorVotes env v b = .ok (votes v)
  receipts : ∀ v, ((c.now.dao.proposals id).receipts v).hasVoted = true →
    ((c.now.dao.proposals id).receipts v).votes = votes v
  tallies : Linked (Counts id votes) c

structure AfterSnapshot (b id : Nat) (votes : Address → Nat) (e : Env) (c : GovConfig P) : Prop where
  sane : Sane e c.now.dao
  sound : c.now.token.ledger.Sound e.number
  settled : ∀ v, c.now.token.ledger.votesAt v b = votes v
  id_pos : 1 ≤ id
  id_le : id ≤ c.now.dao.proposalCount
  creationBlock : (c.now.dao.proposals id).creationBlock = b
  receipts : ∀ v, ((c.now.dao.proposals id).receipts v).hasVoted = true →
    ((c.now.dao.proposals id).receipts v).votes = votes v
  tallies : Linked (Counts id votes) c

variable {b id : Nat} {votes : Address → Nat}

theorem AfterSnapshot.recorded {e : Env} {c : GovConfig P} (h : AfterSnapshot b id votes e c) :
    Recorded b id votes c :=
  ⟨fun env v hb => by rw [getPriorVotes_eq h.sound hb, h.settled], h.receipts, h.tallies⟩

/-- the vote that counts is the one at `b` -/
theorem AfterSnapshot.counts {e : Env} {c : GovConfig P} (hc : AfterSnapshot b id votes e c)
    (hb : b < e.number) {op : GovCall P} {w : World P} (h : GovStep e op.msg c.now op.op w) :
    Counts id votes ⟨e, c.now, op⟩ w := by
  intro voter support hballot
  obtain ⟨n, _, _, _, ⟨b', hb', hn⟩, hs⟩ := (GovStep.votes h hballot).sets
  have hpos : (c.now.dao.proposals id).creationBlock ≠ 0 := by
    have := (hc.sane.wellFormed id hc.id_pos hc.id_le).creation_pos
    omega
  rw [proposalCreationBlock, if_neg hpos, pure_eq_ok, hc.creationBlock] at hb'
  subst hb'
  rw [getPriorVotes_eq hc.sound hb, Except.ok.injEq, hc.settled] at hn
  rw [hs.self, withVote_ballots, hn]

theorem AfterSnapshot.move {e : Env} {c c' : GovConfig P} (hc : AfterSnapshot b id votes e c)
    (hb : b < e.number) (hm : GovMove e c c') : AfterSnapshot b id votes e c' := by
  have hchange := GovMove.change hm
  have hsteps := GovMove.ledger hm
  have hreceipts : (c'.now.dao.proposals id).receipts = (c.now.dao.proposals id).receipts →
      ∀ v, ((c'.now.dao.proposals id).receipts v).hasVoted = true →
        ((c'.now.dao.proposals id).receipts v).votes = votes v := by
    intro heq v hv
    rw [heq] at hv ⊢
    exact hc.receipts v hv
  refine ⟨hc.sane.change hchange, Ledger.steps_sound hsteps hc.sound,
    fun v => (Ledger.steps_votesAt hsteps hb v).trans (hc.settled v), hc.id_pos,
    Nat.le_trans hc.id_le hchange.count_le, ?_, ?_, ?_⟩
  · rw [(hchange.header hc.id_le).congr (·.creationBlock) (fun _ => rfl), hc.creationBlock]
  · cases hm with
    | resume w h => exact hreceipts (by rw [(GovRest.same h).proposals])
    | enter op w h =>
      by_cases heq : (w.dao.proposals id).ballots = (c.now.dao.proposals id).ballots
      · exact hreceipts (congrArg (·.2.2.2) heq)
      · obtain ⟨_, voter, support, hballot⟩ := GovStep.votesOnly hc.sane.fresh h id heq
        have hcount := congrArg (·.2.2.2) (hc.counts hb h voter support hballot)
        intro v hv
        have hr : (w.dao.proposals id).receipts
          = update (c.now.dao.proposals id).receipts voter ⟨true, support, votes voter⟩ := hcount
        show ((w.dao.proposals id).receipts v).votes = votes v
        have hv' : ((w.dao.proposals id).receipts v).hasVoted = true := hv
        rw [hr] at hv' ⊢
        by_cases e : v = voter
        · rw [e, update_self]
        · rw [update_of_ne e] at hv' ⊢
          exact hc.receipts v hv'
  · exact hc.tallies.move hm (fun op w h => hc.counts hb h) (fun r w w' hr h voter support hballot => by
      rw [(GovRest.same h).proposals]
      exact hr voter support hballot)

theorem AfterSnapshot.tick {e e' : Env} {c : GovConfig P} (h : AfterSnapshot b id votes e c)
    (he : e ≤ e') : AfterSnapshot b id votes e' c :=
  { h with sane := h.sane.mono he, sound := h.sound.mono (Env.le_def.mp he).1 }

theorem AfterSnapshot.runs {x y : Env × GovConfig P} (hx : AfterSnapshot b id votes x.1 x.2)
    (hb : b < x.1.number) (h : ReflTransGen (Timed GovMove) x y) :
    AfterSnapshot b id votes y.1 y.2 := by
  have hI : b < y.1.number ∧ AfterSnapshot b id votes y.1 y.2 := by
    refine Timed.invariant (I := fun e c => b < e.number ∧ AfterSnapshot b id votes e c) ?_ ?_ h
      ⟨hb, hx⟩
    · exact fun e c c' hc hm => ⟨hc.1, hc.2.move hc.1 hm⟩
    · exact fun e e' c hc he => ⟨Nat.lt_of_lt_of_le hc.1 (Env.le_def.mp he).1, hc.2.tick he⟩
  exact hI.2

/-! ## two runs -/

/-- a run in which something was proposed has taken a transaction, and ended with the last of them -/
theorem lastEnv_le_of_proposed {g : GovSetup} {e : Env} {w : World P} (hw : g.deploy P e = .ok w)
    {ts : List (Tx Env (GovCall P))} (hts : ∀ t ∈ ts, t.env.number ≤ b) (h1 : 1 ≤ id)
    (hid : id ≤ (runTxs GovCall.code ts ⟨[], w⟩).2.now.dao.proposalCount) :
    (lastEnv e ts).number ≤ b := by
  rcases lastEnv_cases e ts with ⟨rfl, _⟩ | ⟨t, ht, hlast⟩
  · have h0 : id ≤ w.dao.proposalCount := hid
    rw [(GovSetup.deploy_fresh hw).proposalCount] at h0
    omega
  · rw [hlast]
    exact hts t ht

/-- the cut itself, at the end of the block in which `id` was made -/
theorem afterSnapshot_cut {g : GovSetup} {e : Env} {w : World P} (hw : g.deploy P e = .ok w)
    {ts : List (Tx Env (GovCall P))} (hch : (e :: ts.map Tx.env).IsChain (· ≤ ·))
    (hts : ∀ t ∈ ts, t.env.number ≤ b) (h1 : 1 ≤ id)
    (hid : id ≤ (runTxs GovCall.code ts ⟨[], w⟩).2.now.dao.proposalCount)
    (hb : ((runTxs GovCall.code ts ⟨[], w⟩).2.now.dao.proposals id).creationBlock = b) :
    AfterSnapshot b id (fun v => (runTxs GovCall.code ts ⟨[], w⟩).2.now.token.ledger.votesAt v b)
      (lastEnv e ts) (runTxs GovCall.code ts ⟨[], w⟩).2 := by
  have hfresh := GovSetup.deploy_fresh hw
  have hrun := (runTxs_timed (fun env (op : GovCall P) (c : GovConfig P) => op.follows env c) ts e
    ⟨[], w⟩ hch).2
  have hlast := lastEnv_le_of_proposed hw hts h1 hid
  have hvoted : VotedAfter (lastEnv e ts) (runTxs GovCall.code ts ⟨[], w⟩).2 := by
    refine runs_votedAfter hrun ⟨hfresh.sane, fun i v _ hv => ?_, fun r hr => absurd hr List.not_mem_nil⟩
    have hv' : ((w.dao.proposals i).receipts v).hasVoted = true := hv
    rw [hfresh.proposals] at hv'
    cases hv'
  have hsound := runs_ledger_sound hrun (by
    show w.token.ledger.Sound e.number
    rw [hfresh.token]
    exact Ledger.deploy_sound _ _ _ _ _ _ _)
  refine ⟨hvoted.sane, hsound, fun v => rfl, h1, hid, hb, fun v hv => ?_, fun before r after hp => ?_⟩
  · have := (hvoted.receipts id v h1 hv).2
    omega
  · intro voter support hballot
    have := (hvoted.records r (by rw [hp]; simp) voter id support h1 hballot).2
    omega

theorem recorded_after {g : GovSetup} {e : Env} {w : World P} (hw : g.deploy P e = .ok w)
    {ts us : List (Tx Env (GovCall P))} (hch : (e :: (ts ++ us).map Tx.env).IsChain (· ≤ ·))
    (hts : ∀ t ∈ ts, t.env.number ≤ b) (hus : ∀ t ∈ us, b < t.env.number) (h1 : 1 ≤ id)
    (hid : id ≤ (runTxs GovCall.code ts ⟨[], w⟩).2.now.dao.proposalCount)
    (hb : ((runTxs GovCall.code ts ⟨[], w⟩).2.now.dao.proposals id).creationBlock = b) :
    ∀ o ∈ observations GovCall.code (lastEnv e ts) us (runTxs GovCall.code ts ⟨[], w⟩).2,
      Recorded b id (fun v => (runTxs GovCall.code ts ⟨[], w⟩).2.now.token.ledger.votesAt v b) o.2 := by
  intro o ho
  obtain ⟨hch1, hch2⟩ := isChain_cut hch
  have hcut := afterSnapshot_cut hw hch1 hts h1 hid hb
  rcases observations_after Env.le_refl
    (fun env (op : GovCall P) (c : GovConfig P) => op.follows env c) hch2
    (Q := fun env => b < env.number) hus ho with rfl | ⟨e', hle, hlt, hr⟩
  · exact hcut.recorded
  · exact ((hcut.tick hle).runs hlt hr).recorded

/-- **Snapshot independence.**  Two runs agree up to the end of the block `b` in which proposal `id`
was made.  Whoever has voted on it in both has the same votes on record; these are the prior votes
at `b`, which the token answers in both from then on; and each accepted vote changes the tally of its
side by them and no other. -/
theorem votes_snapshot (g : GovSetup) (e : Env) (w : World P) (hw : g.deploy P e = .ok w)
    (ts us us' : List (Tx Env (GovCall P))) (b id : Nat)
    (hch : (e :: (ts ++ us).map Tx.env).IsChain (· ≤ ·))
    (hch' : (e :: (ts ++ us').map Tx.env).IsChain (· ≤ ·))
    (hts : ∀ t ∈ ts, t.env.number ≤ b) (hus : ∀ t ∈ us, b < t.env.number)
    (hus' : ∀ t ∈ us', b < t.env.number) (h1 : 1 ≤ id) :
    let cut := (runTxs GovCall.code ts ⟨[], w⟩).2
    id ≤ cut.now.dao.proposalCount → (cut.now.dao.proposals id).creationBlock = b →
    ∀ o ∈ observations GovCall.code (lastEnv e ts) us cut,
    ∀ o' ∈ observations GovCall.code (lastEnv e ts) us' cut,
      (∀ v, ((o.2.now.dao.proposals id).receipts v).hasVoted = true →
        ((o'.2.now.dao.proposals id).receipts v).hasVoted = true →
        ((o.2.now.dao.proposals id).receipts v).votes
          = ((o'.2.now.dao.proposals id).receipts v).votes) ∧
      ∃ votes : Address → Nat, Recorded b id votes o.2 ∧ Recorded b id votes o'.2 := by
  intro cut hid hb o ho o' ho'
  have hr := recorded_after hw hch hts hus h1 hid hb o ho
  have hr' := recorded_after hw hch' hts hus' h1 hid hb o' ho'
  exact ⟨fun v hv hv' => (hr.receipts v hv).trans (hr'.receipts v hv').symm, _, hr, hr'⟩

end

/-- account `2` votes at once -/
def voteTxs : List (Tx Env (GovCall samplePlatform)) :=
  [⟨.block 10 100, sampleCall 2 0 (.entry (.dao (.castVote 1 1)))⟩]

/-- account `2` first gives its token away, and the voting delay is changed -/
def sellTxs : List (Tx Env (GovCall samplePlatform)) :=
  [⟨.block 9 90, sampleCall 2 0 (.entry (.token (.transferFrom 2 9 0)))⟩,
   ⟨.block 9 90, sampleCall 11 0 (.entry (.dao (.setVotingDelay 7)))⟩,
   ⟨.block 20 200, sampleCall 2 0 (.entry (.dao (.castVote 1 0)))⟩]

theorem votes_snapshot_run :
    let cut := (runTxs GovCall.code proposeTxs ⟨[], sampleWorld⟩).2
    let last := (runTxs GovCall.code voteTxs cut).2
    let last' := (runTxs GovCall.code sellTxs cut).2
    last.past.length = 3 ∧ last'.past.length = 5 ∧
      (last.now.dao.proposals 1).forVotes = 1 ∧ (last'.now.dao.proposals 1).againstVotes = 1 ∧
      ((last.now.dao.proposals 1).receipts 2).votes
        = ((last'.now.dao.proposals 1).receipts 2).votes := by
  intro cut last last'
  have h := votes_snapshot sampleSetup (.block 6 60) sampleWorld sampleWorld_deployed proposeTxs voteTxs
    sellTxs 8 1 (by simp [proposeTxs, voteTxs, Env.le_def, Env.block])
    (by simp [proposeTxs, sellTxs, Env.le_def, Env.block]) (by simp [proposeTxs, Env.block])
    (by simp [voteTxs, Env.block]) (by simp [sellTxs, Env.block]) (Nat.le_refl 1)
    (by decide +kernel) (by decide +kernel) _ (final_mem_observations _ _ _ _) _
    (final_mem_observations _ _ _ _)
  refine ⟨by decide +kernel, by decide +kernel, by decide +kernel, by decide +kernel, ?_⟩
  subst last last' cut
  exact h.1 2 (by decide +kernel) (by decide +kernel)

end UNouns
