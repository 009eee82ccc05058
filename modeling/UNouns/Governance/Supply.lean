import UNouns.Governance.Records
import UNouns.Governance.Snapshot

/-!
# Votes and the supply

`propose` records the supply of that moment, the votes count what there is at the end of the block.

* `votesCast_le`      the votes on a proposal are no more than the votes of its block;
* `SupplyRecorded`    since a proposal was made the supply has grown by what was minted, at most;
* `votes_le_supply`   so the votes exceed the recorded supply by what was minted after it in the
                      same block, at most;
* `not_votes_le_supply`  which they can.
-/

set_option linter.unusedVariables false

namespace UNouns
open Function Relation Reentrant Checkpoints NounsDAOLogicV2 Finset

/-- all votes on a proposal -/
def Proposal.votesCast (p : Proposal) : Nat := p.forVotes + p.againstVotes + p.abstainVotes

/-! ## one proposal -/

/-- the three counts are of different receipts -/
theorem Receipt.counted_le {r : Receipt} {n : Nat} (h : r.hasVoted = true → r.votes = n) :
    r.counted 1 + r.counted 0 + r.counted 2 ≤ n := by
  unfold Receipt.counted
  by_cases hv : r.hasVoted = true
  · rw [← h hv]
    simp only [hv, true_and]
    split_ifs <;> omega
  · simp [hv]

theorem Tallied.votesCast_le {p : Proposal} (h : Tallied p) {n : Address → Nat}
    (hv : ∀ v, (p.receipts v).hasVoted = true → (p.receipts v).votes = n v) :
    p.votesCast ≤ ∑ v, n v := by
  rw [Proposal.votesCast, h.forVotes, h.againstVotes, h.abstainVotes]
  simp only [Proposal.counted, ← sum_add_distrib]
  exact sum_le_sum fun v _ => Receipt.counted_le (hv v)

theorem Tallied.votesCast_eq_zero {p : Proposal} (h : Tallied p)
    (hv : ∀ v, (p.receipts v).hasVoted = false) : p.votesCast = 0 := by
  have hle := h.votesCast_le (n := fun _ => 0) fun v hvoted => by
    rw [hv v] at hvoted
    cases hvoted
  simpa using hle

/-- the zero address has no votes -/
theorem Ledger.Sound.sum_votes_le {l : Ledger} {b : Nat} (h : l.Sound b) :
    ∑ a, l.votesAt a b ≤ l.supply := by
  have h0 : l.votesAt 0 b = 0 := by
    rw [Ledger.votesAt, h.checkpoints_zero]
    rfl
  have h1 : ∑ a ∈ univ.erase (0 : Address), l.votesAt a b = ∑ a, l.votesAt a b := sum_erase _ h0
  rw [← h1]
  exact h.sum_votesAt_le

theorem LedgerStep.supply_le {D : Address → Address → Ledger → Prop} {b : Nat} {l l' : Ledger}
    (h : LedgerStep D b l l') : l'.supply + l.nextId ≤ l.supply + l'.nextId := by
  cases h with
  | mint dst hdst ho => exact Nat.le_of_eq (by show _ + 1 + _ = _ + (_ + 1); omega)
  | burn id src ho hsrc hbal hvotes => exact Nat.add_le_add_right (Nat.sub_le _ _) _
  | transfer | delegate => exact Nat.le_refl _

theorem Ledger.steps_supply_le {D : Address → Address → Ledger → Prop} {b : Nat} {l l' : Ledger}
    (h : ReflTransGen (LedgerStep D b) l l') : l'.supply + l.nextId ≤ l.supply + l'.nextId := by
  induction h with
  | refl => exact Nat.le_refl _
  | tail _ hs ih =>
    have := hs.supply_le
    omega

section
variable {P : Platform}

theorem runs_tallied {x y : Env × GovConfig P} (h : ReflTransGen (Timed GovMove) x y)
    (hs : Sane x.1 x.2.now.dao) (hx : ∀ i, Tallied (x.2.now.dao.proposals i)) :
    ∀ i, Tallied (y.2.now.dao.proposals i) := by
  have hI : Sane y.1 y.2.now.dao ∧ ∀ i, Tallied (y.2.now.dao.proposals i) := by
    refine Timed.invariant (I := fun e c => Sane e c.now.dao ∧ ∀ i, Tallied (c.now.dao.proposals i))
      ?_ ?_ h ⟨hs, hx⟩
    · exact fun e c c' hc hm => ⟨hc.1.change hm.change, fun i => hm.change.tallied hc.1.fresh (hc.2 i)⟩
    · exact fun e e' c hc he => ⟨hc.1.mono he, hc.2⟩
  exact hI.2

/-! ## the supply since a proposal -/

/-- `r` made proposal `i`, with the supply it found; and how that has grown -/
structure SupplyFrom (c : GovConfig P) (i : Nat) (r : GovRecord P) : Prop where
  made : Made i r
  totalSupply : (c.now.dao.proposals i).totalSupply = r.pre.token.totalSupply
  creationBlock : (c.now.dao.proposals i).creationBlock = r.env.number
  grown : c.now.token.totalSupply + r.pre.token.currentUNounId
    ≤ r.pre.token.totalSupply + c.now.token.currentUNounId

/-- an entry is of the token, or leaves it alone -/
theorem GovBegin.token_or_dao {env : Env} {c : GovCall P} {w w' : World P} (h : GovBegin env c w w') :
    w'.token = w.token ∨ w'.dao = w.dao := by
  cases h with
  | execute id d w' hop h hact => exact .inl hact.dao.2
  | entry op w' x hop h =>
    cases op with
    | token op =>
      obtain ⟨_, _, h2⟩ := map_eq_ok.mp h
      cases h2
      exact .inr rfl
    | timelock | dao | queue | cancel | veto =>
      obtain ⟨_, _, h2⟩ := map_eq_ok.mp h
      cases h2
      exact .inl rfl

def SupplyRecorded (c : GovConfig P) : Prop :=
  ∀ i, 1 ≤ i → i ≤ c.now.dao.proposalCount → ∃ r ∈ c.past, SupplyFrom c i r

theorem SupplyFrom.keep {e : Env} {c c' : GovConfig P} {i : Nat} {r : GovRecord P}
    (h : SupplyFrom c i r) (hm : GovMove e c c') (hi : i ≤ c.now.dao.proposalCount) :
    SupplyFrom c' i r := by
  have hk := (GovMove.change hm).header hi
  have hg : c'.now.token.totalSupply + c.now.token.currentUNounId
      ≤ c.now.token.totalSupply + c'.now.token.currentUNounId :=
    Ledger.steps_supply_le (GovMove.ledger hm)
  have := h.grown
  exact ⟨h.made, (hk.congr (·.totalSupply) fun _ => rfl).trans h.totalSupply,
    (hk.congr (·.creationBlock) fun _ => rfl).trans h.creationBlock, by omega⟩

theorem SupplyRecorded.move {e : Env} {c c' : GovConfig P} (h : SupplyRecorded c)
    (hm : GovExact e c c') : SupplyRecorded c' := by
  intro i h1 h2
  by_cases hi : i ≤ c.now.dao.proposalCount
  · obtain ⟨r, hr, hs⟩ := h i h1 hi
    exact ⟨r, (Move.past_prefix hm).subset hr, hs.keep hm.move hi⟩
  · cases hm with
    | resume w hr =>
      refine absurd h2 (show ¬ i ≤ w.dao.proposalCount from ?_)
      rwa [(GovRest.same hr.rest).proposalCount]
    | enter op w hb =>
      have h2' : i ≤ w.dao.proposalCount := h2
      obtain ⟨vs, hd⟩ := hb.deed
      rcases hd.count with hc |
        ⟨sender, targets, values, signatures, calldatas, description, _, hp, _⟩
      · omega
      · obtain ⟨hc, hnew⟩ := propose_new hp
        obtain rfl : i = c.now.dao.proposalCount + 1 := by omega
        obtain ⟨description', hcall⟩ := (GovStep.created hb.step (Nat.lt_succ_self _) h2).call
        refine ⟨_, List.mem_append_right _ List.mem_cons_self,
          ⟨⟨_, _, _, _, description', hcall⟩, rfl⟩, ?_, ?_, ?_⟩
        · exact congrArg (·.totalSupply) hnew
        · exact congrArg (·.creationBlock) hnew
        · rcases hb.token_or_dao with e | e
          · exact Nat.le_of_eq (by rw [e])
          · rw [e] at hc
            omega

theorem GovExact.supplyRecorded {x y : Env × GovConfig P} (h : ReflTransGen (Timed GovExact) x y)
    (hx : SupplyRecorded x.2) : SupplyRecorded y.2 :=
  Timed.invariant (I := fun _ c => SupplyRecorded c) (fun _ _ _ hc hm => hc.move hm)
    (fun _ _ _ hc _ => hc) h hx

/-! ## runs -/

theorem GovSetup.deploy_tallied {g : GovSetup} {e : Env} {w : World P} (hw : g.deploy P e = .ok w) :
    ∀ i, Tallied (w.dao.proposals i) := fun i => by
  rw [(GovSetup.deploy_fresh hw).proposals]
  exact empty_tallied

/-- nobody votes in the block of the proposal -/
theorem votesCast_created {g : GovSetup} {e : Env} {w : World P} (hw : g.deploy P e = .ok w)
    {o : Env × GovConfig P} (hr : ReflTransGen (Timed GovMove) (e, ⟨[], w⟩) o) {id : Nat} (h1 : 1 ≤ id)
    (hn : o.1.number ≤ (o.2.now.dao.proposals id).creationBlock) :
    (o.2.now.dao.proposals id).votesCast = 0 := by
  have hf := GovSetup.deploy_fresh hw
  have hvoted : VotedAfter o.1 o.2 := by
    refine runs_votedAfter hr ⟨hf.sane, fun i v _ hv => ?_, fun r hr => absurd hr List.not_mem_nil⟩
    have hv' : ((w.dao.proposals i).receipts v).hasVoted = true := hv
    rw [hf.proposals] at hv'
    cases hv'
  refine (runs_tallied hr hf.sane (GovSetup.deploy_tallied hw) id).votesCast_eq_zero fun v => ?_
  by_contra hv
  have := (hvoted.receipts id v h1 (by simpa using hv)).2
  omega

/-- the votes of the block of a proposal, at its end -/
theorem sum_votes_cut {g : GovSetup} {e : Env} {w : World P} (hw : g.deploy P e = .ok w)
    {ts : List (Tx Env (GovCall P))} {b id : Nat} (hch : (e :: ts.map Tx.env).IsChain (· ≤ ·))
    (hts : ∀ t ∈ ts, t.env.number ≤ b) (h1 : 1 ≤ id)
    (hid : id ≤ (runTxs GovCall.code ts ⟨[], w⟩).2.now.dao.proposalCount)
    (hb : ((runTxs GovCall.code ts ⟨[], w⟩).2.now.dao.proposals id).creationBlock = b) :
    ∑ v, (runTxs GovCall.code ts ⟨[], w⟩).2.now.token.ledger.votesAt v b
      ≤ (runTxs GovCall.code ts ⟨[], w⟩).2.now.token.totalSupply := by
  have hsound := (afterSnapshot_cut hw hch hts h1 hid hb).sound
  exact (hsound.mono (lastEnv_le_of_proposed hw hts h1 hid)).sum_votes_le

/-- **Votes and the supply.**  Nobody has voted on a proposal before its block is over.  A run is cut
at the end of that block: from then on the votes on it are no more than the supply at the cut, and so
no more than the recorded supply and what was minted between `propose` and the cut. -/
theorem votes_le_supply (g : GovSetup) (e : Env) (w : World P) (hw : g.deploy P e = .ok w)
    (ts us : List (Tx Env (GovCall P))) (b id : Nat)
    (hch : (e :: (ts ++ us).map Tx.env).IsChain (· ≤ ·))
    (hts : ∀ t ∈ ts, t.env.number ≤ b) (hus : ∀ t ∈ us, b < t.env.number) (h1 : 1 ≤ id) :
    (∀ o ∈ observations GovCall.code e (ts ++ us) ⟨[], w⟩,
      o.1.number ≤ (o.2.now.dao.proposals id).creationBlock →
      (o.2.now.dao.proposals id).votesCast = 0) ∧
    let cut := (runTxs GovCall.code ts ⟨[], w⟩).2
    id ≤ cut.now.dao.proposalCount → (cut.now.dao.proposals id).creationBlock = b →
    ∃ r ∈ cut.past, SupplyFrom cut id r ∧
      ∀ o ∈ observations GovCall.code (lastEnv e ts) us cut,
        (o.2.now.dao.proposals id).votesCast ≤ cut.now.token.totalSupply ∧
        (o.2.now.dao.proposals id).votesCast ≤ (o.2.now.dao.proposals id).totalSupply
          + (cut.now.token.currentUNounId - r.pre.token.currentUNounId) := by
  have hfollow := fun env (op : GovCall P) (c : GovConfig P) => op.follows_exact env c
  have hf := GovSetup.deploy_fresh hw
  refine ⟨fun o ho hn => ?_, fun hid hb => ?_⟩
  · exact votesCast_created hw (GovExact.timed (observations_timed hfollow hch ho)) h1 hn
  obtain ⟨hch1, hch2⟩ := isChain_cut hch
  have hcut := (runTxs_timed hfollow ts e ⟨[], w⟩ hch1).2
  have hsupply : SupplyRecorded (runTxs GovCall.code ts ⟨[], w⟩).2 := by
    refine GovExact.supplyRecorded hcut fun i h1 h2 => ?_
    have h2' : i ≤ w.dao.proposalCount := h2
    rw [hf.proposalCount] at h2'
    omega
  obtain ⟨r, hr, hfrom⟩ := hsupply id h1 hid
  refine ⟨r, hr, hfrom, fun o ho => ?_⟩
  -- beyond the cut the tallies are still sums, and the header is still there
  have hrest := GovExact.timed (observations_timed hfollow hch2 ho)
  have htallied := runs_tallied hrest (runs_sane (GovExact.timed hcut) hf.sane)
    (runs_tallied (GovExact.timed hcut) hf.sane (GovSetup.deploy_tallied hw)) id
  have hle : (o.2.now.dao.proposals id).votesCast
      ≤ (runTxs GovCall.code ts ⟨[], w⟩).2.now.token.totalSupply :=
    Nat.le_trans (htallied.votesCast_le (recorded_after hw hch hts hus h1 hid hb o ho).receipts)
      (sum_votes_cut hw hch1 hts h1 hid hb)
  have hsame : (o.2.now.dao.proposals id).totalSupply = r.pre.token.totalSupply :=
    ((runs_header hrest hid).2.congr (·.totalSupply) fun _ => rfl).trans hfrom.totalSupply
  have := hfrom.grown
  exact ⟨hle, by omega⟩

end

/-- three accounts vote -/
def threeTxs : List (Tx Env (GovCall samplePlatform)) :=
  [⟨.block 10 100, sampleCall 2 0 (.entry (.dao (.castVote 1 1)))⟩,
   ⟨.block 10 100, sampleCall 4 0 (.entry (.dao (.castVote 1 0)))⟩,
   ⟨.block 10 100, sampleCall 3 0 (.entry (.dao (.castVote 1 2)))⟩]

/-- in the block of the proposal, after it, two more tokens are minted -/
def lateMintTxs : List (Tx Env (GovCall samplePlatform)) :=
  proposeTxs ++ [⟨.block 8 80, sampleCall 4 0 (.entry (.token (.mint fun _ => .ok ⟨0, 0, 0, 0, 0⟩)))⟩]

theorem votes_le_supply_run :
    let cut := (runTxs GovCall.code lateMintTxs ⟨[], sampleWorld⟩).2
    let last := (runTxs GovCall.code threeTxs cut).2
    last.past.length = 6 ∧ cut.now.token.totalSupply = 4 ∧
      (last.now.dao.proposals 1).votesCast ≤ cut.now.token.totalSupply := by
  intro cut last
  refine ⟨by decide +kernel, by decide +kernel, ?_⟩
  obtain ⟨r, _, _, h⟩ := (votes_le_supply sampleSetup (.block 6 60) sampleWorld sampleWorld_deployed
    lateMintTxs threeTxs 8 1 (by simp [lateMintTxs, proposeTxs, threeTxs, Env.le_def, Env.block])
    (by simp [lateMintTxs, proposeTxs, Env.block]) (by simp [threeTxs, Env.block]) (Nat.le_refl 1)).2
    (by decide +kernel) (by decide +kernel)
  exact (h _ (final_mem_observations _ _ _ _)).1

/-- **Four votes on a proposal that records a supply of two.** -/
theorem not_votes_le_supply :
    let last := (runTxs GovCall.code (lateMintTxs ++ threeTxs) ⟨[], sampleWorld⟩).2
    (last.now.dao.proposals 1).totalSupply = 2 ∧ (last.now.dao.proposals 1).votesCast = 4 ∧
      ¬ (last.now.dao.proposals 1).votesCast ≤ (last.now.dao.proposals 1).totalSupply := by
  decide +kernel

end UNouns
