import UNouns.Subgraph.Quorum
import UNouns.Webapp.NounsDao
import UNouns.Governance.Snapshot
import UNouns.Governance.Execution

/-!
# Is the state that is shown the state on chain?

The three layers together: a run of the contracts, the subgraph that reads its events, and the web
application that derives a state from the entity of a proposal.

* `Shown`            what the log may show of a proposal;
* `Clean`            a step after which it does, and the two quorums are the same;
* `runs_shown`       so it does in a run of clean steps;
* `Ground.shown_iff`   and the application shows the state of a proposal, unless nobody has voted and
                     the voting is over.
-/

set_option linter.unusedVariables false
set_option linter.unusedSectionVars false

namespace UNouns.Subgraph
open Function Relation Reentrant Checkpoints Journal NounsDAOLogicV2

/-! ## what the log shows -/

/-- the status of a proposal and the time it may be executed from; `told` if its execution has been
announced -/
inductive Shown (told : Prop) (p : Proposal) : ProposalStatus × Option Nat → Prop
  | vetoed (eta : Option Nat) (h : p.vetoed = true) : Shown told p (.VETOED, eta)
  | canceled (eta : Option Nat) (hv : p.vetoed = false) (h : p.canceled = true) :
      Shown told p (.CANCELLED, eta)
  | executed (hp : Held p) (h : told) : Shown told p (.EXECUTED, none)
  | queued (hp : Held p) (h : ¬ told) : Shown told p (.QUEUED, some p.eta)
  | active (hv : p.vetoed = false) (hc : p.canceled = false) (h0 : p.eta = 0) (h : Voted p) :
      Shown told p (.ACTIVE, none)
  | pending (hv : p.vetoed = false) (hc : p.canceled = false) (h0 : p.eta = 0) (h : ¬ Voted p) :
      Shown told p (.PENDING, none)

section
variable {told told' : Prop} {p : Proposal} {st : ProposalStatus × Option Nat}

theorem Shown.congr (h : Shown told p st) (ht : told' ↔ told) : Shown told' p st := by
  rwa [propext ht]

/-- that `execute` has begun is not announced -/
theorem Shown.executes (h : Shown told p st) : Shown told { p with executed := true } st := by
  cases h with
  | vetoed eta h => exact .vetoed _ h
  | canceled eta hv h => exact .canceled _ hv h
  | executed hp h => exact .executed ⟨hp.1, hp.2, hp.3⟩ h
  | queued hp h => exact .queued (p := { p with executed := true }) ⟨hp.1, hp.2, hp.3⟩ h
  | active hv hc h0 h => exact .active hv hc h0 h
  | pending hv hc h0 h => exact .pending hv hc h0 h

/-- a vote for a proposal that is voted on -/
theorem Shown.vote (h : Shown told p st) (hv : p.vetoed = false) (hc : p.canceled = false)
    (h0 : p.eta = 0) (voter : Address) (support votes : Nat) :
    Shown told (Proposal.withVote p voter support votes)
      (if st.1 = .PENDING then .ACTIVE else st.1, st.2) := by
  obtain ⟨hv', hc', _, h0'⟩ := withVote_flags p voter support votes
  have hactive : Shown told (Proposal.withVote p voter support votes) (.ACTIVE, none) :=
    .active (hv'.trans hv) (hc'.trans hc) (h0'.trans h0) (voted_withVote _ _ _ _)
  cases h with
  | vetoed eta h => rw [hv] at h; cases h
  | canceled eta _ h => rw [hc] at h; cases h
  | executed hp h => exact absurd h0 hp.1
  | queued hp h => exact absurd h0 hp.1
  | active => exact hactive
  | pending => exact hactive

end

section
variable {P : Platform}

/-- the log shows the proposals that came after the first `n₀` -/
def Displayed (n₀ : Nat) (d : NounsDAOLogicV2) : Prop :=
  ∀ id, n₀ < id → id ≤ d.proposalCount →
    Shown (.proposalExecuted id ∈ d.logs) (d.proposals id) (display d id)

/-- an event about one proposal -/
theorem Displayed.save {n₀ : Nat} {d d' : NounsDAOLogicV2} (h : Displayed n₀ d) {id : Nat}
    {p : Proposal} {v : DaoEvent} (hset : SetsProposal d d' id p) (hlogs : d'.logs = d.logs ++ [v])
    (hv : v.about = some id)
    (hself : n₀ < id → id ≤ d.proposalCount →
      Shown (.proposalExecuted id ∈ d.logs) (d.proposals id) (display d id) →
      Shown (.proposalExecuted id ∈ d'.logs) p (DaoEvent.display id (display d id) v)) :
    Displayed n₀ d' := by
  intro i h1 h2
  rw [hset.proposalCount] at h2
  rw [display_append hlogs, List.foldl_cons, List.foldl_nil]
  by_cases e : i = id
  · subst e
    rw [hset.self]
    exact hself h1 h2 (h i h1 h2)
  · have hother : v.about ≠ some i := fun hi => e (Option.some.inj (hi.symm.trans hv))
    rw [hset.other e, display_other hother]
    exact (h i h1 h2).congr (announced_other hlogs hv e)

/-- events about no proposal -/
theorem Displayed.idle {n₀ : Nat} {d d' : NounsDAOLogicV2} (h : Displayed n₀ d)
    (hbooks : SameBooks d d') {vs : List DaoEvent} (hlogs : d'.logs = d.logs ++ vs)
    (habout : ∀ v ∈ vs, v.about = none) : Displayed n₀ d' := by
  intro i h1 h2
  have hnone : ∀ v ∈ vs, v.about ≠ some i := fun v hv e => nomatch (habout v hv).symm.trans e
  rw [display_append hlogs, foldl_display_other hnone, hbooks.proposals]
  exact (h i h1 (hbooks.proposalCount ▸ h2)).congr
    (announced_same hlogs fun hv => nomatch habout _ hv)

/-- a new proposal is pending -/
theorem Displayed.propose {n₀ : Nat} {d d' : NounsDAOLogicV2} (h : Displayed n₀ d) (hl : Listed d)
    (hblank : Blank d) {env : Env} {t : UNounsToken} {sender : Address} {targets : List Address}
    {values : List Nat} {signatures : List String} {calldatas : List Bytes} {description : String}
    {minQuorum : Nat}
    (hp : d.propose env sender t targets values signatures calldatas description = .ok d')
    (hlogs : d'.logs = d.logs ++ (d.newProposal env sender t targets values signatures
      calldatas).created minQuorum description) : Displayed n₀ d' := by
  intro i h1 h2
  obtain ⟨hcount, hnew⟩ := propose_new hp
  have hsame : .proposalExecuted i ∈ d'.logs ↔ .proposalExecuted i ∈ d.logs :=
    announced_same hlogs (by simp [Proposal.created])
  have hshow : display d' i = display d i := display_append hlogs i
  rw [hshow]
  by_cases e : i = d.proposalCount + 1
  · subst e
    have hpending : display d (d.proposalCount + 1) = (.PENDING, none) :=
      foldl_display_other (fun v hv e => absurd (hl v hv _ e) (Nat.not_succ_le_self _)) _
    have hvoted : ¬ Voted (d.newProposal env sender t targets values signatures calldatas) := by
      rintro ⟨v, hv⟩
      have hv' : ((d.proposals (d.proposalCount + 1)).receipts v).hasVoted = true := hv
      rw [hblank _ (Nat.lt_succ_self _)] at hv'
      cases hv'
    rw [hnew, hpending]
    exact .pending rfl rfl rfl hvoted
  · rw [propose_other hp e]
    exact (h i h1 (by omega)).congr hsame

/-- **The log shows the proposals after a deed**, unless it cancels one that was vetoed. -/
theorem Deed.displayed {n₀ b₀ : Nat} {env : Env} {w w' : World P} (hg : Ground n₀ b₀ env w)
    (h : Displayed n₀ w.dao) {x : Option Nat} {vs : List DaoEvent}
    (hd : Deed env w.token w.dao x vs w'.dao)
    (hcancel : ∀ id, x = some id → w'.dao.logs = w.dao.logs ++ [.proposalCanceled id] → n₀ < id →
      (w.dao.proposals id).vetoed = false) : Displayed n₀ w'.dao := by
  obtain ⟨t', tl', d'⟩ := w'
  have hlogs := hd.logs
  cases hd with
  | settings vs d' hb _ _ hquiet => exact h.idle hb hlogs fun v hv => (hquiet v hv).about
  | params old vs d' hb _ _ _ _ habout => exact h.idle hb hlogs habout
  | propose sender targets values signatures calldatas description minQuorum d' hp =>
    exact h.propose hg.listed hg.sane.fresh hp hlogs
  | vote voter id support votes balance reason d1 hcast =>
    obtain ⟨hstate, _, _, _, hs⟩ := castVoteInternal_ok hcast
    obtain ⟨hv, hc, _, hend⟩ := state_active hstate
    have hset : SetsProposal w.dao { d1 with balance := balance, logs := w.dao.logs ++
        [.voteCast voter id support votes reason] } id
        (Proposal.withVote (w.dao.proposals id) voter support votes) :=
      ⟨hs.proposals, hs.proposalCount, hs.quorumVotesBPS, hs.checkpoints⟩
    refine h.save hset hlogs rfl fun h1 _ hshown => ?_
    have h0 : (w.dao.proposals id).eta = 0 := by
      by_contra hne
      have := (hg.carried id h1 hne).1
      omega
    have hshow : DaoEvent.display id (display w.dao id) (.voteCast voter id support votes reason)
        = (if (display w.dao id).1 = .PENDING then .ACTIVE else (display w.dao id).1,
          (display w.dao id).2) := if_pos rfl
    rw [hshow]
    exact (hshown.vote hv hc h0 voter support votes).congr (announced_same hlogs (by simp))
  | queue id delay hstate =>
    obtain ⟨hc, h0⟩ := state_succeeded hstate
    have heta : env.timestamp + delay ≠ 0 := by
      have := env.timestamp_pos
      omega
    refine h.save ⟨rfl, rfl, rfl, rfl⟩ hlogs rfl fun h1 h2 _ => ?_
    have htold : .proposalExecuted id ∉ w.dao.logs := fun hm =>
      (hg.held id h1 (hg.told id h1 hm)).eta_ne h0
    have hshow : DaoEvent.display id (display w.dao id) (.proposalQueued id (env.timestamp + delay))
        = (.QUEUED, some (env.timestamp + delay)) := if_pos rfl
    rw [hshow]
    refine Shown.queued (p := { w.dao.proposals id with eta := env.timestamp + delay })
      ⟨heta, hc.canceled, hc.vetoed⟩ ?_
    rwa [announced_same hlogs (by simp)]
  | cancel id st hstate hs =>
    refine h.save ⟨rfl, rfl, rfl, rfl⟩ hlogs rfl fun h1 _ _ => ?_
    have hshow : DaoEvent.display id (display w.dao id) (.proposalCanceled id)
        = (.CANCELLED, (display w.dao id).2) := if_pos rfl
    rw [hshow]
    exact .canceled _ (hcancel id rfl hlogs h1) rfl
  | veto id st hstate hs =>
    refine h.save ⟨rfl, rfl, rfl, rfl⟩ hlogs rfl fun h1 _ _ => ?_
    have hshow : DaoEvent.display id (display w.dao id) (.proposalVetoed id)
        = (.VETOED, (display w.dao id).2) := if_pos rfl
    rw [hshow]
    exact .vetoed _ rfl
  | execute id hstate =>
    intro i h1 h2
    show Shown (.proposalExecuted i ∈ w.dao.logs) (update w.dao.proposals id _ i) (display w.dao i)
    by_cases e : i = id
    · subst e
      rw [update_self]
      exact (h i h1 h2).executes
    · rw [update_of_ne e]
      exact h i h1 h2
  | executed id hid hex =>
    refine h.save ⟨(update_eq_self id w.dao.proposals).symm, rfl, rfl, rfl⟩ hlogs rfl
      fun h1 _ _ => ?_
    have hshow : DaoEvent.display id (display w.dao id) (.proposalExecuted id) = (.EXECUTED, none) :=
      if_pos rfl
    rw [hshow]
    refine .executed (hg.held id h1 hex) ?_
    rw [hlogs]
    exact List.mem_append_right _ (List.mem_singleton_self _)

/-! ## clean runs -/

/-- a steady step that does not cancel a proposal that was vetoed -/
structure Clean (r : GovRecord P) : Prop extends Steady r where
  cancels : ∀ id, r.op.op.cancels = some id → 1 ≤ id → (r.pre.dao.proposals id).vetoed = false

def CleanRun (c : GovConfig P) : Prop := (∀ r ∈ c.past, Clean r) ∧ Countable c.now.dao

theorem CleanRun.steady {c : GovConfig P} (h : CleanRun c) : SteadyRun c :=
  ⟨fun r hr => (h.1 r hr).toSteady, h.2⟩

theorem Displayed.move {n₀ b₀ : Nat} {e : Env} {c c' : GovConfig P} (hg : Ground n₀ b₀ e c.now)
    (h : Displayed n₀ c.now.dao) (hm : GovExact e c c') (hclean : ∀ r ∈ c'.past, Clean r) :
    Displayed n₀ c'.now.dao := by
  cases hm with
  | enter op w hb =>
    have hr := hclean ⟨e, c.now, op⟩ (List.mem_append_right _ (List.mem_singleton_self _))
    obtain ⟨vs, hd⟩ := GovBegin.deed hb
    exact Deed.displayed hg h hd fun id hid hl h1 =>
      hr.cancels id (GovBegin.cancels hb hid hl) (Nat.one_le_of_lt h1)
  | resume w hr =>
    obtain ⟨vs, hd⟩ := hr.deed
    exact Deed.displayed hg h hd fun id hid => nomatch hid

/-- **In a clean run the log shows the proposals.** -/
theorem runs_shown {e : Env} {w : World P} {js : List (Block × ChainEvent)} (hw : Begins e w js)
    {y : Env × GovConfig P} (h : ReflTransGen (Timed GovExact) (e, ⟨[], w⟩) y)
    (hclean : ∀ r ∈ y.2.past, Clean r) : Displayed w.dao.proposalCount y.2.now.dao := by
  refine (Timed.invariant_under (P := fun c : GovConfig P => ∀ r ∈ c.past, Clean r)
    (I := fun e' (c : GovConfig P) => Ground w.dao.proposalCount e.number e' c.now ∧
      Displayed w.dao.proposalCount c.now.dao)
    (fun _ c c' hm hs r hr => hs r ((Move.past_prefix hm).subset hr))
    (fun e' c c' _ hP' hI hm => ⟨hI.1.move hm, Displayed.move hI.1 hI.2 hm hP'⟩)
    (fun _ _ _ hI he => ⟨hI.1.tick he, hI.2⟩) h
    ⟨hw.opens.ground, fun id h1 h2 => absurd h2 (Nat.not_le.mpr h1)⟩ hclean).2

end

/-! ## what is shown -/

open Webapp (shownState getProposalState)

/-- the state of the contract, under the name that the application has for it -/
def ofContract : ProposalState → Webapp.ProposalState
  | .pending => .PENDING
  | .active => .ACTIVE
  | .canceled => .CANCELLED
  | .defeated => .DEFEATED
  | .succeeded => .SUCCEEDED
  | .queued => .QUEUED
  | .expired => .EXPIRED
  | .executed => .EXECUTED
  | .vetoed => .VETOED

/-- the status is decisive: the voting is not over, or somebody has voted, or it has been stopped -/
def Settled (e : Env) (p : Proposal) : Prop :=
  e.number ≤ p.endBlock ∨ Voted p ∨ p.canceled = true ∨ p.vetoed = true

section
variable {P : Platform} {n₀ b₀ : Nat} {e : Env} {w : World P}

/-- what was queued had votes -/
theorem Ground.voted_of_eta (hg : Ground n₀ b₀ e w) {i : Nat} (h1 : n₀ < i)
    (hi : (w.dao.proposals i).eta ≠ 0) : Voted (w.dao.proposals i) := by
  obtain ⟨_, hd⟩ := hg.carried i h1 hi
  have := (defeated_ok_false hd).1
  exact hg.voted h1 (by omega)

/-- how a queued proposal is shown -/
theorem shown_queued {x : ProposalEntity} {eta : Nat} (hs : x.status = .QUEUED)
    (hx : x.executionETA = some eta) (number : Option Nat) (date : Webapp.Date) :
    getProposalState number (some date) x
      = if date.atLeast (eta + Webapp.GRACE_PERIOD) then .EXPIRED else .QUEUED := by
  unfold getProposalState
  rw [hs, hx]
  rfl

/-- how a proposal with votes is shown, at any time -/
theorem shown_active {x : ProposalEntity} (hs : x.status = .ACTIVE) (hx : x.executionETA = none)
    {number : Nat} (hn : number ≠ 0) (date : Option Webapp.Date) :
    getProposalState (some number) date x
      = if x.endBlock < number then
          if x.forVotes ≤ x.againstVotes ∨ x.forVotes < x.quorumVotes then .DEFEATED else .SUCCEEDED
        else .ACTIVE := by
  simp [getProposalState, hs, hx, Webapp.ProposalState.ofStatus, Webapp.missing, hn]

theorem shown_pending {x : ProposalEntity} (hs : x.status = .PENDING) {number : Nat}
    (hn : number ≠ 0) (date : Option Webapp.Date) :
    getProposalState (some number) date x
      = if number ≤ x.startBlock then .PENDING else .ACTIVE := by
  simp [getProposalState, hs, Webapp.ProposalState.ofStatus, Webapp.missing, hn]

theorem atLeast_ofTimestamp {time : Nat} (ht : time ≤ 8640000000000) (seconds : Nat) :
    (Webapp.Date.ofTimestamp time).atLeast seconds = decide (seconds ≤ time) := by
  unfold Webapp.Date.ofTimestamp
  rw [if_pos ht]
  rfl

/-- what the contract makes of the votes once the voting is over -/
theorem Ground.phase_over (hg : Ground n₀ b₀ e w) {id : Nat} (h1 : n₀ < id)
    (h2 : id ≤ w.dao.proposalCount) (hv : (w.dao.proposals id).vetoed = false)
    (hc : (w.dao.proposals id).canceled = false) (h0 : (w.dao.proposals id).eta = 0)
    (hend : (w.dao.proposals id).endBlock < e.number) :
    ∃ b, w.dao.defeated (w.dao.proposals id) = .ok b ∧
      w.dao.state e id = .ok (if b then .defeated else .succeeded) := by
  obtain ⟨b, hb⟩ := hg.sane.defeated_ok h1 h2
  have hstart := (hg.sane.wellFormed id h1 h2).end_ge
  refine ⟨b, hb, ?_⟩
  rw [NounsDAOLogicV2.state_eq h2 hb]
  simp only [phase, hv, hc, h0, Bool.false_eq_true, if_false, if_true,
    if_neg (show ¬ e.number ≤ (w.dao.proposals id).startBlock by omega),
    if_neg (show ¬ e.number ≤ (w.dao.proposals id).endBlock by omega)]

/-- and while it lasts -/
theorem Ground.phase_open (hg : Ground n₀ b₀ e w) {id : Nat} (h1 : n₀ < id)
    (h2 : id ≤ w.dao.proposalCount) (hv : (w.dao.proposals id).vetoed = false)
    (hc : (w.dao.proposals id).canceled = false) (hend : e.number ≤ (w.dao.proposals id).endBlock) :
    w.dao.state e id
      = .ok (if e.number ≤ (w.dao.proposals id).startBlock then .pending else .active) := by
  obtain ⟨b, hb⟩ := hg.sane.defeated_ok h1 h2
  rw [NounsDAOLogicV2.state_eq h2 hb]
  simp only [phase, hv, hc, Bool.false_eq_true, if_false, if_pos hend]

/-- the votes are counted alike -/
theorem Ground.defeated_eq (hg : Ground n₀ b₀ e w) {id : Nat} (h1 : n₀ < id)
    (h2 : id ≤ w.dao.proposalCount) {x : ProposalEntity}
    (hfor : x.forVotes = (w.dao.proposals id).forVotes)
    (hagainst : x.againstVotes = (w.dao.proposals id).againstVotes) {n : Nat}
    (hn : w.dao.quorumVotes id = .ok n) (hx : x.quorumVotes = (n : Int)) :
    w.dao.defeated (w.dao.proposals id)
      = .ok (decide (x.forVotes ≤ x.againstVotes ∨ x.forVotes < x.quorumVotes)) := by
  rw [hfor, hagainst, hx]
  unfold NounsDAOLogicV2.defeated
  rw [(hg.sane.wellFormed id h1 h2).id_eq, hn]
  simp only [Int.ofNat_le, Int.ofNat_lt]
  split_ifs with hle
  · simp [hle, pure, Except.pure]
  · simp [hle, bind, Except.bind, pure, Except.pure]

/-- **The application shows the state of a proposal**, unless nobody has voted and the voting is over. -/
theorem Ground.shown_iff (hg : Ground n₀ b₀ e w) {id : Nat} (h1 : n₀ < id)
    (h2 : id ≤ w.dao.proposalCount) {k : Quote} {x : ProposalEntity}
    (he : Figures k (w.dao.dynamic id) (display w.dao id) (w.dao.proposals id) x)
    (hshown : Shown (.proposalExecuted id ∈ w.dao.logs) (w.dao.proposals id) (display w.dao id))
    (hquorum : Voted (w.dao.proposals id) → ∃ n, w.dao.quorumVotes id = .ok n ∧ x.quorumVotes = (n : Int))
    (hann : (w.dao.proposals id).executed = true → .proposalExecuted id ∈ w.dao.logs)
    (ht : e.timestamp ≤ 8640000000000) :
    ∃ st, w.dao.state e id = .ok st ∧
      (shownState (some e.number) (some e.timestamp) x = ofContract st
        ↔ Settled e (w.dao.proposals id)) := by
  have hw := hg.sane.wellFormed id h1 h2
  have hn : e.number ≠ 0 := by
    have := hw.creation_pos
    have := hw.creation_le
    omega
  have hsame : ∀ st : ProposalState, w.dao.state e id = .ok st →
      shownState (some e.number) (some e.timestamp) x = ofContract st →
      Settled e (w.dao.proposals id) → ∃ st, w.dao.state e id = .ok st ∧
        (shownState (some e.number) (some e.timestamp) x = ofContract st
          ↔ Settled e (w.dao.proposals id)) :=
    fun _ h1 h2 h3 => ⟨_, h1, fun _ => h3, fun _ => h2⟩
  unfold shownState at hsame ⊢
  rw [Option.getD_some] at hsame ⊢
  rw [← he.shown] at hshown
  generalize hstatus : x.status = status at hshown
  generalize heta : x.executionETA = eta at hshown
  cases hshown with
  | vetoed eta hv =>
    obtain ⟨b, hb⟩ := hg.sane.defeated_ok h1 h2
    refine hsame .vetoed ?_ ?_ (.inr (.inr (.inr hv)))
    · rw [NounsDAOLogicV2.state_eq h2 hb]
      simp [phase, hv]
    · simp [getProposalState, hstatus, Webapp.ProposalState.ofStatus, ofContract]
  | canceled eta hv hc =>
    obtain ⟨b, hb⟩ := hg.sane.defeated_ok h1 h2
    refine hsame .canceled ?_ ?_ (.inr (.inr (.inl hc)))
    · rw [NounsDAOLogicV2.state_eq h2 hb]
      simp [phase, hv, hc]
    · simp [getProposalState, hstatus, Webapp.ProposalState.ofStatus, ofContract]
  | executed hp htold =>
    refine hsame _ ((hg.held id h1).state hg.sane (hg.carried id h1) (fun _ => h1)
      (hg.told id h1 htold)) ?_ (.inr (.inl (hg.voted_of_eta h1 hp.eta_ne)))
    simp [getProposalState, hstatus, Webapp.ProposalState.ofStatus, ofContract]
  | queued hp htold =>
    have hx0 : (w.dao.proposals id).executed = false := by
      by_contra h
      exact htold (hann (by simpa using h))
    have hst := (hg.carried id h1).state_eq hg.sane h1 hp.eta_ne hp.vetoed hp.canceled
    rw [hx0, if_neg Bool.false_ne_true] at hst
    refine hsame _ hst ?_ (.inr (.inl (hg.voted_of_eta h1 hp.eta_ne)))
    have hgrace : Webapp.GRACE_PERIOD = NounsDAOExecutor.GRACE_PERIOD := rfl
    rw [shown_queued hstatus heta, atLeast_ofTimestamp ht, hgrace]
    simp only [decide_eq_true_eq]
    split_ifs <;> rfl
  | active hv hc h0 hvoted =>
    have hstart := hg.begun id h1 hvoted
    by_cases hend : e.number ≤ (w.dao.proposals id).endBlock
    · have hst := hg.phase_open h1 h2 hv hc hend
      rw [if_neg (Nat.not_le.mpr hstart)] at hst
      refine hsame _ hst ?_ (.inl hend)
      rw [shown_active hstatus heta hn, he.endBlock, if_neg (Nat.not_lt.mpr hend)]
      rfl
    · obtain ⟨b, hb, hst⟩ := hg.phase_over h1 h2 hv hc h0 (Nat.lt_of_not_le hend)
      obtain ⟨n, hquorum, hxn⟩ := hquorum hvoted
      have hbb := Except.ok.inj (hb.symm.trans
        (hg.defeated_eq h1 h2 he.forVotes he.againstVotes hquorum hxn))
      refine hsame _ hst ?_ (.inr (.inl hvoted))
      rw [shown_active hstatus heta hn, he.endBlock, if_pos (Nat.lt_of_not_le hend), hbb]
      simp only [decide_eq_true_eq]
      split_ifs <;> rfl
  | pending hv hc h0 hvoted =>
    have hshow := shown_pending hstatus hn (some (Webapp.Date.ofTimestamp e.timestamp))
    by_cases hend : e.number ≤ (w.dao.proposals id).endBlock
    · refine hsame _ (hg.phase_open h1 h2 hv hc hend) ?_ (.inl hend)
      rw [hshow, he.startBlock]
      split_ifs <;> rfl
    · -- nobody has voted, and the application waits for votes
      obtain ⟨b, hb, hst⟩ := hg.phase_over h1 h2 hv hc h0 (Nat.lt_of_not_le hend)
      have hstart := hw.end_ge
      refine ⟨_, hst, fun h => ?_, fun h => ?_⟩
      · rw [hshow, he.startBlock, if_neg (by omega)] at h
        cases b <;> cases h
      · rcases h with h | h | h | h
        · exact absurd h hend
        · exact absurd h hvoted
        · exact absurd (hc.symm.trans h) Bool.false_ne_true
        · exact absurd (hv.symm.trans h) Bool.false_ne_true

/-- **The state that is shown is the state on chain** for a proposal of the second version, after a run
of clean steps and at a time that a date can hold, unless nobody has voted and the voting is over: then
the application still waits for votes, and only then.  The events may come with any hashes; the
mapping reads them all. -/
theorem shown_eq_state_iff (e : Env) (w : World P) (js : List (Block × ChainEvent))
    (hw : Begins e w js) (ts : List (Tx Env (GovCall P))) (hch : (e :: ts.map Tx.env).IsChain (· ≤ ·))
    (e' : Env) (he' : lastEnv e ts ≤ e') :
    let last := (runTxs GovCall.code ts ⟨[], w⟩).2
    CleanRun last → e'.timestamp ≤ 8640000000000 →
    ∀ id, w.dao.proposalCount < id → id ≤ last.now.dao.proposalCount →
    ∀ es : List (Event ChainEvent),
      es.map Event.entry = journalAfter js w.token.logs.length e last →
    ∃ s x st, read .empty es = some s ∧ s.proposals id = some x ∧
      last.now.dao.state e' id = .ok st ∧
      (shownState (some e'.number) (some e'.timestamp) x = ofContract st
        ↔ Settled e' (last.now.dao.proposals id)) := by
  intro last hclean ht id h1 h2 es hes
  have hr := (runTxs_timed GovCall.follows_exact ts e ⟨[], w⟩ hch).2
  have hsteady := hclean.steady
  have hf := runs_followed hw hr hsteady.countable
  have hq := runs_reckoned hw hr hsteady.1
  have hshown := runs_shown hw hr hclean.1 id h1 h2
  obtain ⟨s, hs, hm⟩ := hf.noted es hes
  obtain ⟨k, x, hk, hx, hfig⟩ := hm.entries id h1 h2
  have hquorum : Voted (last.now.dao.proposals id) →
      ∃ n, last.now.dao.quorumVotes id = .ok n ∧ x.quorumVotes = (n : Int) := by
    intro hv
    obtain ⟨x', _, n, hx', _, hn, hxn⟩ := hf.quorumVotes hq hclean.2 h1 h2 hv hm
    obtain rfl : x = x' := Option.some.inj (hx.symm.trans hx')
    exact ⟨n, hn, hxn⟩
  have hann : (last.now.dao.proposals id).executed = true → .proposalExecuted id ∈ last.now.dao.logs :=
    announced_of_executed (runs_announces (hw.opens.announces h1) hch) h2
  obtain ⟨st, hst, hiff⟩ := (hf.ground.tick he').shown_iff h1 h2 hfig hshown hquorum hann ht
  exact ⟨s, x, st, hs, hx, hst, hiff⟩

end

/-! ## runs -/

/-- a steady run in which nothing is canceled -/
theorem cleanRun_of_plain {P : Platform} {c : GovConfig P} (hs : SteadyRun c)
    (h : ∀ r ∈ c.past, r.op.op.cancels = none) : CleanRun c :=
  ⟨fun r hr => ⟨hs.1 r hr, fun id hid => nomatch (h r hr).symm.trans hid⟩, hs.2⟩

/-- a proposal that was voted on, queued and executed is shown as executed -/
theorem shown_eq_state_iff_run :
    let last := (runTxs GovCall.code (proposeTxs ++ reenterTxs) ⟨[], sampleWorld⟩).2
    last.past.length = 5 ∧ last.now.dao.state (.block 9000 173800) 1 = .ok .executed ∧
      ∃ s x, read .empty (unhashed (journalAfter (older ⟨6, 60⟩ sampleWorld.token.logs [])
          sampleWorld.token.logs.length (.block 6 60) last)) = some s ∧ s.proposals 1 = some x ∧
        shownState (some 9000) (some 173800) x = .EXECUTED := by
  intro last
  have hst : last.now.dao.state (.block 9000 173800) 1 = .ok .executed := by decide +kernel
  have hvoted : Voted (last.now.dao.proposals 1) := ⟨2, by decide +kernel⟩
  obtain ⟨s, x, st, hs, hx, hst', hiff⟩ := shown_eq_state_iff (.block 6 60) sampleWorld _
    (GovSetup.deploy_begins sampleWorld_deployed) (proposeTxs ++ reenterTxs)
    (by simp [proposeTxs, reenterTxs, Env.le_def, Env.block]) (.block 9000 173800) (by decide +kernel)
    (cleanRun_of_plain (steadyRun_of_plain
      (countableRun_of_plain (by decide +kernel) (by decide +kernel)) (by decide +kernel))
      (by decide +kernel))
    (by decide +kernel) 1 (by decide +kernel) (by decide +kernel) _ (unhashed_entry _)
  refine ⟨by decide +kernel, hst, s, x, hs, hx, ?_⟩
  rw [hst] at hst'
  cases hst'
  exact hiff.mpr (.inr (.inl hvoted))

/-- **Nobody votes**: the proposal is defeated, and shown as active. -/
theorem not_shown_eq_state :
    let last := (runTxs GovCall.code proposeTxs ⟨[], sampleWorld⟩).2
    lastEnv (.block 6 60) proposeTxs ≤ .block 9000 173800 ∧
      last.now.dao.state (.block 9000 173800) 1 = .ok .defeated ∧
      ((read .empty (sampleEvents last)).bind (·.proposals 1)).map
        (shownState (some 9000) (some 173800)) = some .ACTIVE ∧
      ofContract .defeated ≠ .ACTIVE := by
  intro last
  exact ⟨by decide +kernel, by decide +kernel, by decide +kernel, by decide⟩

end UNouns.Subgraph
