import UNouns.Governance.Deeds
import UNouns.Governance.Safety

/-!
# One live proposal per proposer

`propose` looks at the latest proposal of its caller only.

* `Retired`             voted down, taken back, or past its voting: no way back to the voters;
* `OneLive`             all proposals but the latest of each proposer are retired;
* `one_live_proposal`   so nobody has two proposals before the voters.
-/

set_option linter.unusedVariables false

namespace UNouns
open Function Relation Reentrant NounsDAOLogicV2

/-- not before the voters any more -/
def Retired (e : Env) (p : Proposal) : Prop :=
  (p.canceled = true ∨ p.vetoed = true) ∨ p.startBlock < e.number ∧ p.endBlock < e.number

/-- a proposal of `a` that is pending or active -/
structure LiveFor (e : Env) (d : NounsDAOLogicV2) (a : Address) (i : Nat) : Prop where
  pos : 1 ≤ i
  proposer : (d.proposals i).proposer = a
  state : d.state e i = .ok .pending ∨ d.state e i = .ok .active

theorem retired_iff {e : Env} {d : NounsDAOLogicV2} {i : Nat} {s : ProposalState}
    (h : d.state e i = .ok s) : Retired e (d.proposals i) ↔ s ≠ .active ∧ s ≠ .pending := by
  obtain ⟨_, b, rfl, _⟩ := state_inv h
  unfold phase Retired
  split_ifs <;> simp_all

theorem Retired.mono {e e' : Env} {p : Proposal} (h : Retired e p) (he : e ≤ e') : Retired e' p :=
  h.imp_right fun ⟨h1, h2⟩ =>
    ⟨Nat.lt_of_lt_of_le h1 (Env.le_def.mp he).1, Nat.lt_of_lt_of_le h2 (Env.le_def.mp he).1⟩

theorem Retired.change {env : Env} {d d' : NounsDAOLogicV2} {i : Nat}
    (h : Retired env (d.proposals i)) (hc : DaoChange env d d') (hi : i ≤ d.proposalCount) :
    Retired env (d'.proposals i) := by
  have hk := hc.header hi
  refine h.imp (hc.withdrawn hi) fun hb => ?_
  rwa [hk.congr (·.startBlock) fun _ => rfl, hk.congr (·.endBlock) fun _ => rfl]

/-- the latest proposal of whoever proposes is retired -/
theorem propose_retired {env : Env} {sender : Address} {t : UNounsToken} {d d' : NounsDAOLogicV2}
    {targets : List Address} {values : List Nat} {signatures : List String}
    {calldatas : List Bytes} {description : String}
    (h : d.propose env sender t targets values signatures calldatas description = .ok d')
    (h0 : d.latestProposalIds sender ≠ 0) :
    Retired env (d.proposals (d.latestProposalIds sender)) := by
  simp only [propose, bind_eq_ok] at h
  obtain ⟨_, _, _, _, _, _, _, _, _, _, _, hlive, _⟩ := h
  simp only [requireNoLiveProposal, if_pos h0, bind_eq_ok, require_eq_ok] at hlive
  obtain ⟨s, hs, _, h1, h2⟩ := hlive
  exact (retired_iff hs).mpr ⟨h1, h2⟩

/-- all but the latest proposal of each proposer are retired -/
def OneLive (e : Env) (d : NounsDAOLogicV2) : Prop :=
  ∀ i, 1 ≤ i → i ≤ d.proposalCount → i ≠ d.latestProposalIds (d.proposals i).proposer →
    Retired e (d.proposals i)

theorem OneLive.mono {e e' : Env} {d : NounsDAOLogicV2} (h : OneLive e d) (he : e ≤ e') :
    OneLive e' d := fun i h1 h2 h3 => (h i h1 h2 h3).mono he

theorem OneLive.keep {env : Env} {d d' : NounsDAOLogicV2} (h : OneLive env d)
    (hc : DaoChange env d d') (hcount : d'.proposalCount = d.proposalCount)
    (hlatest : d'.latestProposalIds = d.latestProposalIds) : OneLive env d' := by
  intro i h1 h2 h3
  have h2' : i ≤ d.proposalCount := hcount ▸ h2
  rw [hlatest, (hc.header h2').congr (·.proposer) fun _ => rfl] at h3
  exact (h i h1 h2' h3).change hc h2'

theorem OneLive.deed {env : Env} {t : UNounsToken} {d d' : NounsDAOLogicV2} {x : Option Nat}
    {vs : List DaoEvent} (h : OneLive env d) (hd : Deed env t d x vs d') : OneLive env d' := by
  have hc := hd.change
  cases hd with
  | settings vs d' hs => exact h.keep hc hs.proposalCount hs.latestProposalIds
  | params old vs d' hs => exact h.keep hc hs.proposalCount hs.latestProposalIds
  | vote voter id support votes balance reason d1 hv =>
    exact h.keep hc (castVoteInternal_ok hv).2.2.2.2.proposalCount (castVoteInternal_logs hv).2
  | queue | cancel | veto | execute | executed => exact h.keep hc rfl rfl
  | propose sender targets values signatures calldatas description minQuorum d' hp =>
    obtain ⟨_, _, _, _, e⟩ := propose_ok hp
    intro i h1 h2 h3
    have hlatest : d'.latestProposalIds = update d.latestProposalIds sender (d.proposalCount + 1) := by
      rw [e]
    obtain ⟨hcount, hnew⟩ := propose_new hp
    by_cases hi : i = d.proposalCount + 1
    · -- the new one is the latest of its proposer
      have hp' : (d'.proposals i).proposer = sender := by
        rw [hi, hnew]
        rfl
      exact absurd (by rw [hp', hlatest, update_self, hi]) h3
    · have h2' : i ≤ d.proposalCount := by omega
      rw [propose_other hp hi] at h3
      refine Retired.change ?_ hc h2'
      by_cases hs : i = d.latestProposalIds (d.proposals i).proposer
      · have hsender : (d.proposals i).proposer = sender := by
          by_contra hne
          exact h3 (by rw [hlatest, update_of_ne hne]; exact hs)
        rw [hsender] at hs
        rw [hs]
        exact propose_retired hp (by omega)
      · exact h i h1 h2' hs

section
variable {P : Platform}

theorem runs_oneLive {a b : Env × GovConfig P} (h : ReflTransGen (Timed GovExact) a b)
    (ha : OneLive a.1 a.2.now.dao) : OneLive b.1 b.2.now.dao := by
  refine Timed.invariant (I := fun e c => OneLive e c.now.dao) ?_ ?_ h ha
  · intro e c c' hc hm
    obtain ⟨x, vs, hd⟩ := hm.deed
    exact hc.deed hd
  · exact fun e e' c hc he => hc.mono he

theorem OneLive.eq_latest {e e' : Env} {d : NounsDAOLogicV2} (h : OneLive e d) (he : e ≤ e')
    {a : Address} {i : Nat} (hl : LiveFor e' d a i) : i = d.latestProposalIds a := by
  obtain ⟨h1, rfl, hs⟩ := hl
  by_contra hne
  rcases hs with hs | hs
  · exact ((retired_iff hs).mp ((h i h1 (state_le hs) hne).mono he)).2 rfl
  · exact ((retired_iff hs).mp ((h i h1 (state_le hs) hne).mono he)).1 rfl

/-- **One live proposal per proposer.**  Wherever a run is looked at, and from then on for as long as
nothing else happens, an account has at most one proposal that is pending or active, and it is its
latest. -/
theorem one_live_proposal (g : GovSetup) (e : Env) (w : World P) (hw : g.deploy P e = .ok w)
    (ts : List (Tx Env (GovCall P))) (hch : (e :: ts.map Tx.env).IsChain (· ≤ ·)) :
    ∀ o ∈ observations GovCall.code e ts ⟨[], w⟩, ∀ e', o.1 ≤ e' → ∀ a,
      (∀ i j, LiveFor e' o.2.now.dao a i → LiveFor e' o.2.now.dao a j → i = j) ∧
        ∀ i, LiveFor e' o.2.now.dao a i → i = o.2.now.dao.latestProposalIds a := by
  intro o ho e' he' a
  have hr := observations_timed (fun env (op : GovCall P) (c : GovConfig P) => op.follows_exact env c)
    hch ho
  have h : OneLive o.1 o.2.now.dao := by
    refine runs_oneLive hr fun i h1 h2 => ?_
    have h2' : i ≤ w.dao.proposalCount := h2
    rw [(GovSetup.deploy_fresh hw).proposalCount] at h2'
    omega
  have heq := fun i (hi : LiveFor e' o.2.now.dao a i) => h.eq_latest he' hi
  exact ⟨fun i j hi hj => (heq i hi).trans (heq j hj).symm, heq⟩

end

/-- account `2` takes its proposal back and makes another -/
def againTxs : List (Tx Env (GovCall samplePlatform)) :=
  proposeTxs ++
  [⟨.block 9 90, sampleCall 2 0 (.entry (.cancel 1))⟩,
   ⟨.block 9 90, sampleCall 2 0 (.entry (.dao (.propose [9] [4] [""] [[]] "four wei")))⟩]

theorem one_live_proposal_run :
    let last := (runTxs GovCall.code againTxs ⟨[], sampleWorld⟩).2
    last.now.dao.proposalCount = 2 ∧ last.now.dao.state (.block 10 100) 2 = .ok .pending ∧
      ∀ i, LiveFor (.block 10 100) last.now.dao 2 i → i = last.now.dao.latestProposalIds 2 := by
  intro last
  refine ⟨by decide +kernel, by decide +kernel, ?_⟩
  exact (one_live_proposal sampleSetup (.block 6 60) sampleWorld sampleWorld_deployed againTxs
    (by simp [againTxs, proposeTxs, Env.le_def, Env.block]) _ (final_mem_observations _ _ _ _)
    (.block 10 100) (by decide +kernel) 2).2

end UNouns
