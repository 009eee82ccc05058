import UNouns.Subgraph.Entries
import UNouns.Governance.Upgrade

/-!
# From the first event on

The subgraph has read the token, and perhaps the first version of the DAO, before a run of the second
version begins.  None of that sets a quorum parameter, so all older proposals keep the quorum of their
own event.

* `Begins`           a new DAO with a token of any age, or one that has been upgraded;
* `Elder`            the store after the older events;
* `Begins.noted`     and after those of the deployment;
* `CountableRun`     no vote of the run traps the mapping;
* `runs_followed`    then the subgraph reads all events, and its store follows the run.
-/

set_option linter.unusedVariables false
set_option linter.unusedSectionVars false

namespace UNouns.Subgraph
open Function Relation Reentrant Checkpoints Journal NounsDAOLogicV2

section
variable {P : Platform}

/-! ## beginnings -/

/-- the older events of the token and of the DAO, up to block `b` -/
structure Preceded (b : Nat) (us : List TokenEvent) (vs : List DaoEvent)
    (js : List (Block × ChainEvent)) : Prop where
  tokens : tokens js = us
  daos : daos js = vs
  blocks : ∀ j ∈ js, j.1.number ≤ b

/-- a world in which the second version of the DAO begins, and what has happened before -/
inductive Begins (e : Env) : World P → List (Block × ChainEvent) → Prop
  | deployed (g : GovSetup) (w : World P) (hw : g.deploy P e = .ok w) (t : UNounsToken)
      (ht : t.Reached P) (js : List (Block × ChainEvent)) (hjs : Preceded e.number t.logs [] js) :
      Begins e { w with token := t } js
  | upgraded (g : GovSetupV1) (w : WorldV1 P) (hw : g.deploy P = .ok w) (t : UNounsToken)
      (ht : t.Reached P) (e₀ : Env) (ts : List (Tx Env (GovCallV1 P)))
      (hch : (e₀ :: ts.map Tx.env).IsChain (· ≤ ·)) (o : Env × GovConfigV1 P)
      (ho : o ∈ observations GovCallV1.code e₀ ts ⟨[], { w with token := t }⟩) (he : o.1 ≤ e)
      (js : List (Block × ChainEvent))
      (hjs : Preceded e.number o.2.now.token.logs o.2.now.dao.events js) :
      Begins e o.2.now.upgrade js

/-- what matters of a beginning -/
structure Opens (e : Env) (w : World P) (js : List (Block × ChainEvent)) : Prop where
  token : w.token.Reached P
  tokens : tokens js = w.token.logs
  blocks : ∀ j ∈ js, j.1.number ≤ e.number
  elder : ∀ v ∈ daos js, v.sets = false ∧ ∀ id, v.about = some id → id ≤ w.dao.proposalCount
  sane : SaneSince w.dao.proposalCount e w.dao
  votingDelay : MIN_VOTING_DELAY ≤ w.dao.votingDelay
  unvoiced : ∀ v ∈ w.dao.logs, v.about = none
  startBlock : w.dao.startBlock
    = if ∃ v ∈ w.dao.logs, v.sets = true then some e.number else none
  truthful : Truthful w.dao

theorem Begins.opens {e : Env} {w : World P} {js : List (Block × ChainEvent)} (h : Begins e w js) :
    Opens e w js := by
  cases h with
  | deployed g w hw t ht js hjs =>
    have hf := GovSetup.deploy_fresh hw
    have hsane : SaneSince w.dao.proposalCount e w.dao := by
      rw [hf.proposalCount]
      exact hf.sane.toSaneSince
    simp only [GovSetup.deploy, bind_eq_ok, pure_eq_ok] at hw
    obtain ⟨_, _, d, hd, rfl⟩ := hw
    obtain ⟨_, _, hcps, hlogs⟩ := deploy_exact hd
    have hdelay : MIN_VOTING_DELAY ≤ d.votingDelay := by
      simp only [NounsDAOLogicV2.deploy, bind_eq_ok, pure_eq_ok] at hd
      obtain ⟨d1, h1, rfl⟩ := hd
      have h2 := initializeV2_votingDelay h1
      exact h2
    refine ⟨ht, hjs.tokens, hjs.blocks, ?_, hsane, hdelay, ?_, ?_, ?_⟩
    · rw [hjs.daos]
      exact fun v hv => absurd hv List.not_mem_nil
    · rw [hlogs]
      simp [DaoEvent.about]
    · have hsets : ∃ v ∈ d.logs, v.sets = true := by
        rw [hlogs]
        simp [DaoEvent.sets]
      rw [if_pos hsets]
      show start d.quorumParamsCheckpoints = _
      rw [hcps, start_write]
      rfl
    · have hforce : d.inForce = g.dynamicQuorumParams := by
        unfold NounsDAOLogicV2.inForce
        rw [hcps, latest_write]
        rfl
      have hsaid : d.announced = g.dynamicQuorumParams := by
        unfold NounsDAOLogicV2.announced
        rw [hlogs]
        rfl
      show Agree _ _ d.announced d.inForce
      rw [hforce, hsaid]
      exact ⟨fun _ => rfl, fun _ => rfl, rfl⟩
  | upgraded g w hw t ht e₀ ts hch o ho he js hjs =>
    have haged : AgedV1 { w with token := t } := ⟨ht, (GovSetupV1.deploy_aged hw).dao⟩
    obtain ⟨htoken, hdao⟩ := observations_agedV1 haged hch ho
    refine ⟨htoken, hjs.tokens, hjs.blocks, ?_, hdao.upgrade e, hdao.votingDelay,
      fun v hv => absurd hv List.not_mem_nil, ?_, ?_⟩
    · rw [hjs.daos]
      exact hdao.events
    · refine (if_neg ?_).symm
      rintro ⟨v, hv, _⟩
      cases hv
    · exact ⟨fun h => absurd h Bool.false_ne_true, fun h => absurd h Bool.false_ne_true, rfl⟩

section
variable {e : Env} {w : World P} {js : List (Block × ChainEvent)}

/-- nothing has happened yet to the proposals that are to come -/
theorem Opens.ground (h : Opens e w js) : Ground w.dao.proposalCount e.number e w := by
  have hempty : ∀ i, w.dao.proposalCount < i → w.dao.proposals i = .empty := h.sane.fresh
  refine ⟨h.sane, fun i hi he => ?_, fun i hi hx => ?_, h.votingDelay, fun i hi hv => ?_,
    fun i hi hx => ?_, fun i hi => ?_, fun v hv id hid => ?_, Nat.le_refl _, fun b hb => ?_⟩
  · exact absurd (by rw [hempty i hi]; rfl) he
  · rw [hempty i hi] at hx
    cases hx
  · rw [hempty i hi] at hv
    exact absurd hv not_voted_empty
  · exact nomatch h.unvoiced _ hx
  · rw [hempty i hi]
    exact empty_tallied
  · exact nomatch (h.unvoiced v hv).symm.trans hid
  · rw [h.startBlock] at hb
    split_ifs at hb
    exact Nat.le_of_eq (Option.some.inj hb)

/-- nor has their execution been announced -/
theorem Opens.announces (h : Opens e w js) {i : Nat} (hi : w.dao.proposalCount < i) :
    w.dao.announcements i = w.dao.executions i := by
  have hx : w.dao.executions i = 0 := if_neg fun hle => absurd hle.1 (Nat.not_le.mpr hi)
  rw [hx]
  exact countP_executes fun hv => nomatch h.unvoiced _ hv

theorem Opens.written (h : Opens e w js) : WrittenAfter js w.token.logs.length e ⟨[], w⟩ :=
  writtenAfter_start h.token h.tokens (Nat.le_refl _)

/-- the events of the deployment come after the older ones -/
theorem Opens.journal (h : Opens e w js) : journalAfter js w.token.logs.length e ⟨[], w⟩
    = js ++ inBlock (blockOf e) w.dao.logs := by
  show js ++ newEvents _ _ _ w = _
  unfold newEvents
  rw [List.drop_length]
  rfl

end

/-! ## reading the token -/

theorem read_token {s : Store} {e : Event ChainEvent} {v : TokenEvent} (he : e.params = .token v) :
    read s [e] = some (handleTokenEvent s e v) := by
  unfold read
  rw [List.foldlM_cons, handleChainEvent, he]
  rfl

/-- an event of the token keeps the supply -/
theorem Ownership.Step.supply {o o' : Ownership} {v : TokenEvent} (hv : Ownership.Step o v o') {s : Store}
    (hk : s.Keyed) (hs : s.books.supply = o.supply) {V : Type} (e : Event V) :
    (handleTokenEvent s e v).Keyed ∧ (handleTokenEvent s e v).books.supply = o'.supply := by
  obtain ⟨hk', hb⟩ := handleTokenEvent_books hk e v
  refine ⟨hk', ?_⟩
  rw [hb]
  cases hv with
  | transfer src dst id hsrc =>
    show s.books.supply + _ - _ = o.supply + _ - _
    rw [hs]
  | other v hv =>
    rw [hv]
    exact hs

/-- the events of the token keep the supply, and leave the entities of the DAO alone -/
theorem read_told {o o' : Ownership} {us : List TokenEvent} (h : Told Ownership.Step o us o') :
    ∀ {s : Store} {b : Block} {es : List (Event ChainEvent)}, s.Keyed → s.books.supply = o.supply →
      es.map Event.entry = (us.map ChainEvent.token).map (b, ·) →
      ∃ s', read s es = some s' ∧ s'.Keyed ∧ s'.books.supply = o'.supply ∧ s.SameDesk s' := by
  induction h with
  | nil =>
    intro s b es hk hs hes
    rw [List.map_eq_nil_iff.mp hes]
    exact ⟨s, rfl, hk, hs, ⟨rfl, rfl, rfl⟩⟩
  | snoc us o1 o2 v _ hv ih =>
    intro s b es hk hs hes
    rw [List.map_append, List.map_append] at hes
    obtain ⟨es1, es2, rfl, h1, h2⟩ := List.map_eq_append_iff.mp hes
    obtain ⟨s1, hs1, hk1, hsup1, hdesk1⟩ := ih hk hs h1
    obtain ⟨e, rfl, he⟩ := List.map_eq_singleton_iff.mp h2
    have hread := read_token (s := s1) (e := e) (v := v) (congrArg Prod.snd he)
    obtain ⟨hk2, hsup2⟩ := Ownership.Step.supply hv hk1 hsup1 e
    exact ⟨_, (read_append hs1).trans hread, hk2, hsup2,
      hdesk1.trans (handleTokenEvent_desk s1 e v)⟩

end

/-! ## older events -/

/-- the store when no quorum parameter has been set, up to block `b` -/
structure Elder (n b : Nat) (s : Store) : Prop where
  named : ∀ id, (s.proposal id).id = id
  params : s.quorumParams = ⟨0, 0, 0, none⟩
  fresh : ∀ id, n < id → s.proposals id = none
  created : ∀ id, (s.proposal id).createdBlock ≤ b

theorem Elder.desk {n b : Nat} {s s' : Store} (h : Elder n b s) (hd : s.SameDesk s') : Elder n b s' := by
  have hp := congrFun (Store.proposal_of_same hd.proposals)
  refine ⟨fun id => (hp id).symm ▸ h.named id, hd.quorumParams.trans h.params, fun id hid => ?_,
    fun id => (hp id).symm ▸ h.created id⟩
  rw [hd.proposals]
  exact h.fresh id hid

/-- an entity is saved that was created by then -/
theorem Elder.save {n b : Nat} {s s' : Store} (h : Elder n b s) {x : ProposalEntity} (hid : x.id ≤ n)
    (hx : x.createdBlock ≤ b)
    (hs : s.Becomes s' (update s.proposals x.id (some x)) s.quorumParams) : Elder n b s' := by
  refine ⟨named_update h.named hs.proposals, hs.params.trans h.params, fun id hn => ?_, fun id => ?_⟩
  · rw [hs.proposals, update_of_ne (by omega)]
    exact h.fresh id hn
  · rw [proposal_update hs.proposals]
    split_ifs
    · exact hx
    · exact h.created id

/-- **An older event of the DAO traps no mapping**: no proposal has a dynamic quorum yet. -/
theorem Elder.dao {n b : Nat} {s : Store} (h : Elder n b s) {V : Type} (e : Event V)
    (he : e.block.number ≤ b) {v : DaoEvent} (hsets : v.sets = false)
    (habout : ∀ id, v.about = some id → id ≤ n) :
    ∃ s', handleDaoEvent s e v = some s' ∧ s.SameBooks s' ∧ Elder n b s' := by
  cases v with
  | proposalCreatedWithRequirements id proposer targets values signatures calldatas startBlock endBlock
      proposalThreshold quorumVotes =>
    have hb := handleProposalCreatedWithRequirements_becomes (s := s) e id proposer targets values
      signatures calldatas startBlock endBlock proposalThreshold quorumVotes
    refine ⟨_, rfl, hb.books, h.save (x := s.created e id proposer targets values signatures calldatas
      startBlock endBlock proposalThreshold quorumVotes) ?_ he hb⟩
    exact (h.named id).trans_le (habout id rfl)
  | voteCast voter id support votes reason =>
    have hcount := count_eq (s.proposal id) support votes
    have hfixed := withQuorum_fixed (y := (s.proposal id).count support votes) (q := s.quorumParams)
      (by rw [h.params]; rfl)
    obtain ⟨s', hs', hb⟩ := handleVoteCast_becomes e voter id support votes reason hfixed
    refine ⟨s', hs', hb.books, h.save (x := { (s.proposal id).count support votes with
      status := if ((s.proposal id).count support votes).status = .PENDING then .ACTIVE
        else ((s.proposal id).count support votes).status }) ?_ ?_ hb⟩
    · rw [hcount]
      exact (h.named id).trans_le (habout id rfl)
    · rw [hcount]
      exact h.created id
  | proposalCanceled id =>
    have hb := handleProposalCanceled_becomes s id
    exact ⟨_, rfl, hb.books, h.save (x := { s.proposal id with status := .CANCELLED })
      ((h.named id).trans_le (habout id rfl)) (h.created id) hb⟩
  | proposalVetoed id =>
    have hb := handleProposalVetoed_becomes s id
    exact ⟨_, rfl, hb.books, h.save (x := { s.proposal id with status := .VETOED })
      ((h.named id).trans_le (habout id rfl)) (h.created id) hb⟩
  | proposalQueued id eta =>
    have hb := handleProposalQueued_becomes s id eta
    exact ⟨_, rfl, hb.books, h.save (x := { s.proposal id with
      status := .QUEUED, executionETA := some eta })
      ((h.named id).trans_le (habout id rfl)) (h.created id) hb⟩
  | proposalExecuted id =>
    have hb := handleProposalExecuted_becomes s id
    exact ⟨_, rfl, hb.books, h.save (x := { s.proposal id with
      status := .EXECUTED, executionETA := none })
      ((h.named id).trans_le (habout id rfl)) (h.created id) hb⟩
  | minQuorumVotesBPSSet | maxQuorumVotesBPSSet | quorumCoefficientSet => cases hsets
  | _ => exact ⟨s, rfl, .refl s, h⟩

/-- the older events, in whatever order -/
theorem Elder.read {n b : Nat} (es : List (Event ChainEvent)) : ∀ {o o' : Ownership} {s : Store},
    Elder n b s → s.Keyed → s.books.supply = o.supply →
    Told Ownership.Step o (tokens (es.map Event.entry)) o' →
    (∀ v ∈ daos (es.map Event.entry), v.sets = false ∧ ∀ id, v.about = some id → id ≤ n) →
    (∀ j ∈ es.map Event.entry, j.1.number ≤ b) →
    ∃ s', read s es = some s' ∧ Elder n b s' ∧ s'.Keyed ∧ s'.books.supply = o'.supply := by
  induction es with
  | nil =>
    intro o o' s h hk hs ht _ _
    obtain rfl := ht.eq_of_nil
    exact ⟨s, rfl, h, hk, hs⟩
  | cons e es ih =>
    intro o o' s h hk hs ht hv hb
    have hblock : e.block.number ≤ b := hb e.entry List.mem_cons_self
    have hlater : ∀ j ∈ es.map Event.entry, j.1.number ≤ b :=
      fun j hj => hb j (List.mem_cons_of_mem _ hj)
    cases he : e.params with
    | token v =>
      have hentry : e.entry = (e.block, .token v) := by rw [← he]; rfl
      rw [List.map_cons, hentry] at ht hv
      obtain ⟨o1, hstep, ht⟩ := ht.uncons
      obtain ⟨hk1, hs1⟩ := Ownership.Step.supply hstep hk hs e
      obtain ⟨s', hs', hrest⟩ := ih (h.desk (handleTokenEvent_desk s e v)) hk1 hs1 ht hv hlater
      have hread : UNouns.Subgraph.read s ([e] ++ es) = some s' := (read_append (read_token he)).trans hs'
      exact ⟨s', hread, hrest⟩
    | dao v =>
      have hentry : e.entry = (e.block, .dao v) := by rw [← he]; rfl
      rw [List.map_cons, hentry] at ht hv
      obtain ⟨hsets, habout⟩ := hv v List.mem_cons_self
      obtain ⟨s1, h1, hbooks, helder⟩ := h.dao e hblock hsets habout
      obtain ⟨s', hs', hrest⟩ := ih helder (hbooks.keyed hk) (by rw [hbooks.books, hs]) ht
        (fun u hu => hv u (List.mem_cons_of_mem _ hu)) hlater
      have hread : UNouns.Subgraph.read s ([e] ++ es) = some s' :=
        (read_append (read_single he h1)).trans hs'
      exact ⟨s', hread, hrest⟩

theorem Elder.empty (n b : Nat) : Elder n b .empty :=
  ⟨fun _ => rfl, rfl, fun _ _ => rfl, fun _ => Nat.zero_le _⟩

section
variable {P : Platform} {e : Env} {w : World P} {js : List (Block × ChainEvent)}

/-- **The store of a beginning.** -/
theorem Opens.noted (h : Opens e w js) {es : List (Event ChainEvent)}
    (hes : es.map Event.entry = journalAfter js w.token.logs.length e ⟨[], w⟩) :
    ∃ s, read .empty es = some s ∧ Noted w.dao.proposalCount e.number w s := by
  rw [h.journal] at hes
  obtain ⟨es1, es2, rfl, h1, h2⟩ := List.map_eq_append_iff.mp hes
  have htold := h.token.chronicled
  unfold Chronicled at htold
  rw [← h.tokens, ← h1] at htold
  obtain ⟨s1, hs1, helder, hk, hsup⟩ := (Elder.empty w.dao.proposalCount e.number).read es1
    ⟨fun _ _ h => absurd h.symm (Option.some_ne_none _),
      fun _ _ h => absurd h.symm (Option.some_ne_none _)⟩ rfl htold (h1 ▸ h.elder) (h1 ▸ h.blocks)
  have hnone : s1.quorumParams = paramsEntity ⟨0, 0, 0⟩ none := helder.params
  obtain ⟨s2, hs2, hb⟩ := read_params w.dao.logs hnone h.unvoiced h2
  have hp := congrFun (Store.proposal_of_same hb.proposals)
  refine ⟨s2, (read_append hs1).trans hs2, hb.books.keyed hk, fun id => (hp id).symm ▸ helder.named id,
    ?_, ?_, fun id hid => ?_, fun id _ => (hp id).symm ▸ helder.created id,
    fun id h1 h2 => absurd h2 (Nat.not_le.mpr h1)⟩
  · rw [hb.books.books, hsup]
    rfl
  · rw [hb.params, h.startBlock]
    rfl
  · rw [hb.proposals]
    exact helder.fresh id hid

/-! ## runs -/

theorem Ground.move {n₀ b₀ : Nat} {e : Env} {c c' : GovConfig P} (h : Ground n₀ b₀ e c.now)
    (hm : GovExact e c c') : Ground n₀ b₀ e c'.now := by
  have hexec := fun i (hi : i ≤ c.now.dao.proposalCount)
    (hx : (c.now.dao.proposals i).executed = true) => (GovMove.executed (.single hm.move) hi hx).2
  obtain ⟨x, vs, hd⟩ := hm.deed
  refine h.deed hd ?_ hexec
  cases hm with
  | enter op w hb => exact (GovBegin.rules hb).votingDelay h.votingDelay
  | resume w hr =>
    show MIN_VOTING_DELAY ≤ w.dao.votingDelay
    rw [(GovResume.rules hr).votingDelay]
    exact h.votingDelay

/-- every vote of the run can be counted -/
def CountableRun (c : GovConfig P) : Prop := (∀ r ∈ c.past, Countable r.pre.dao) ∧ Countable c.now.dao

theorem quote_of_append {d d' : NounsDAOLogicV2} {vs : List DaoEvent} (h : d'.logs = d.logs ++ vs)
    {id : Nat} {k : Quote} (hk : d.quote id = some k) : d'.quote id = some k := by
  unfold NounsDAOLogicV2.quote at hk ⊢
  rw [h, quoteFrom_append, hk]
  rfl

theorem countable_back {e : Env} {w w' : World P} (hr : GovResume e w w') (h : Countable w'.dao) :
    Countable w.dao := by
  obtain ⟨_, hp, hc, hcps, _⟩ := GovRest.dao hr.rest
  obtain ⟨vs, hd⟩ := hr.deed
  intro id hid k hk hdyn hv
  have hdyn' : w'.dao.dynamic id = w.dao.dynamic id := by
    unfold NounsDAOLogicV2.dynamic NounsDAOLogicV2.startBlock
    rw [hp, hcps]
  have hw := h id (hc ▸ hid) k (quote_of_append hd.logs hk) (hdyn'.trans hdyn)
  rw [hp] at hw
  exact hw hv

theorem CountableRun.back {e : Env} {c c' : GovConfig P} (hm : GovExact e c c') (h : CountableRun c') :
    CountableRun c := by
  cases hm with
  | enter op w hb =>
    refine ⟨fun r hr => h.1 r (List.mem_append_left _ hr), ?_⟩
    exact h.1 ⟨e, c.now, op⟩ (List.mem_append_right _ (List.mem_singleton_self _))
  | resume w hr => exact ⟨h.1, countable_back hr h.2⟩

/-- a run whose votes can be counted, whether cast or not -/
theorem countableRun_of_plain {c : GovConfig P}
    (h : ∀ r ∈ c.past, ∀ id ≤ r.pre.dao.proposalCount, ∀ k ∈ r.pre.dao.quote id, Fits k.params
      (r.pre.dao.proposals id).totalSupply (r.pre.dao.proposals id).againstVotes ∧
        (r.pre.dao.proposals id).totalSupply ≠ 0)
    (hnow : ∀ id ≤ c.now.dao.proposalCount, ∀ k ∈ c.now.dao.quote id, Fits k.params
      (c.now.dao.proposals id).totalSupply (c.now.dao.proposals id).againstVotes ∧
        (c.now.dao.proposals id).totalSupply ≠ 0) : CountableRun c :=
  ⟨fun r hr id hid k hk _ _ => (h r hr id hid k hk).symm,
    fun id hid k hk _ _ => (hnow id hid k hk).symm⟩

/-- what is known of a configuration of a run that began at `e₀` with `n₀` proposals -/
structure Followed (n₀ : Nat) (js : List (Block × ChainEvent)) (n : Nat) (e₀ e : Env)
    (c : GovConfig P) : Prop where
  written : WrittenAfter js n e₀ c
  ground : Ground n₀ e₀.number e c.now
  noted : ∀ es : List (Event ChainEvent), es.map Event.entry = journalAfter js n e₀ c →
    ∃ s, read .empty es = some s ∧ Noted n₀ e₀.number c.now s

/-- the events of the DAO alone, as the journal has them -/
theorem inBlock_eq (b : Block) (vs : List DaoEvent) :
    (([] : List TokenEvent).map ChainEvent.token ++ vs.map ChainEvent.dao).map (b, ·) = inBlock b vs := rfl

/-- an entry of the token leaves the proposals alone -/
theorem Noted.token {n₀ b₀ : Nat} {w w' : World P} {s s' : Store} (h : Noted n₀ b₀ w s)
    (hdao : w'.dao = w.dao) (hk : s'.Keyed) (hs : s'.books.supply = w'.token.totalSupply)
    (hd : s.SameDesk s') : Noted n₀ b₀ w' s' := by
  have hp := congrFun (Store.proposal_of_same hd.proposals)
  refine ⟨hk, fun id => (hp id).symm ▸ h.named id, hs, ?_, fun id hid => ?_,
    fun id hid => (hp id).symm ▸ h.elder id hid, fun id h1 h2 => ?_⟩
  · rw [hd.quorumParams, h.params, hdao]
  · rw [hd.proposals]
    exact h.fresh id (hdao ▸ hid)
  · rw [hdao] at h2 ⊢
    obtain ⟨k, x, hk, hx, hfig⟩ := h.entries id h1 h2
    exact ⟨k, x, hk, by rw [hd.proposals, hx], hfig⟩

section
variable {n₀ n : Nat} {js : List (Block × ChainEvent)} {e₀ e : Env} {c : GovConfig P}

theorem Followed.enter (h : Followed n₀ js n e₀ e c) {op : GovCall P} {w : World P}
    (hb : GovBegin e op c.now w) (hcount : Countable w.dao) :
    Followed n₀ js n e₀ e ⟨c.enter e op, w⟩ := by
  obtain ⟨vs, hd⟩ := GovBegin.deed hb
  refine ⟨h.written.enter hb, h.ground.move (.enter c op w hb), ?_⟩
  rcases GovBegin.splits hb with ⟨hdao, _, _, hop⟩ | htoken
  · -- an entry of the token
    obtain ⟨us, hlogs, htold⟩ := TokenOp.apply_tells hop
    have hquiet : w.dao.logs = c.now.dao.logs ++ [] := by rw [hdao, List.append_nil]
    rw [journalAfter_enter js n e₀ e c op hlogs hquiet]
    refine read_more h.noted fun s es hm hes => ?_
    rw [List.map_nil, List.append_nil] at hes
    obtain ⟨s', hs', hk, hsup, hdesk⟩ := read_told htold hm.keyed hm.supply hes
    exact ⟨s', hs', hm.token hdao hk hsup hdesk⟩
  · have hsame : w.token.logs = c.now.token.logs ++ [] := by rw [htoken, List.append_nil]
    rw [journalAfter_enter js n e₀ e c op hsame hd.logs, inBlock_eq]
    refine read_more h.noted fun s es hm hes => ?_
    exact Deed.noted h.ground hm htoken hd hcount (.inl rfl) hes

theorem Followed.resume (h : Followed n₀ js n e₀ e c) {w : World P} (hr : GovResume e c.now w)
    (hcount : Countable w.dao) : Followed n₀ js n e₀ e ⟨c.past, w⟩ := by
  obtain ⟨_, _, hc, _⟩ := GovRest.dao hr.rest
  obtain ⟨vs, hd, _, hsets⟩ := hr.quiet_deed
  have htoken := GovResume.token hr
  obtain ⟨b, hj⟩ := journalAfter_resume js n e₀ h.written.grown htoken hd.logs
  refine ⟨h.written.resume hr, h.ground.move (.resume c w hr), ?_⟩
  rw [hj]
  refine read_more h.noted fun s es hm hes => ?_
  exact Deed.noted h.ground hm htoken hd hcount (.inr ⟨hc, hsets⟩) hes

end

/-- **The subgraph follows every run whose votes can be counted.** -/
theorem runs_followed (hw : Begins e w js) {y : Env × GovConfig P}
    (h : ReflTransGen (Timed GovExact) (e, ⟨[], w⟩) y) (hcount : CountableRun y.2) :
    Followed w.dao.proposalCount js w.token.logs.length e y.1 y.2 := by
  have ho := hw.opens
  refine Timed.invariant_under (I := Followed w.dao.proposalCount js w.token.logs.length e)
    (P := CountableRun) (fun _ _ _ hm => CountableRun.back hm) (fun e' c c' hP hP' hI hm => ?_)
    (fun _ _ _ hI he => ⟨hI.written, hI.ground.tick he, hI.noted⟩) h
    ⟨ho.written, ho.ground, fun es hes => ho.noted hes⟩ hcount
  cases hm with
  | enter op w' hb => exact hI.enter hb hP'.2
  | resume w' hr => exact hI.resume hr hP'.2

end
/-! ## samples -/

/-- the events, all with the same hash -/
def unhashed (js : List (Block × ChainEvent)) : List (Event ChainEvent) := js.map fun j => ⟨j.2, j.1, 0⟩

theorem unhashed_entry (js : List (Block × ChainEvent)) : (unhashed js).map Event.entry = js := by
  unfold unhashed
  rw [List.map_map]
  exact List.map_id _

/-- older events, all of one block -/
def older (b : Block) (us : List TokenEvent) (vs : List DaoEvent) : List (Block × ChainEvent) :=
  (us.map ChainEvent.token ++ vs.map ChainEvent.dao).map (b, ·)

theorem older_preceded {b : Block} {n : Nat} (hb : b.number ≤ n) (us : List TokenEvent)
    (vs : List DaoEvent) : Preceded n us vs (older b us vs) := by
  refine ⟨tokens_entry b us vs, daos_entry b us vs, fun j hj => ?_⟩
  obtain ⟨_, _, rfl⟩ := List.mem_map.mp hj
  exact hb

/-- a token of the age of the DAO -/
theorem GovSetup.deploy_begins {P : Platform} {g : GovSetup} {e : Env} {w : World P}
    (hw : g.deploy P e = .ok w) : Begins e w (older (blockOf e) w.token.logs []) := by
  have ht : w.token.Reached P := by
    rw [(GovSetup.deploy_fresh hw).token]
    exact .deployed _ _ _ _ _ _
  exact .deployed g w hw w.token ht _
    (older_preceded (b := blockOf e) (n := e.number) (Nat.le_refl _) w.token.logs [])

/-- the events of a run from the deployment of the sample on -/
def sampleEvents (c : GovConfig samplePlatform) : List (Event ChainEvent) :=
  unhashed (journal (.block 6 60) c)

theorem sampleEvents_entry (c : GovConfig samplePlatform) :
    (sampleEvents c).map Event.entry = journal (.block 6 60) c := unhashed_entry _

end UNouns.Subgraph
