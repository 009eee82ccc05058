import UNouns.Governance.Safety
import UNouns.Lib.Reports

/-!
# Execution is once, in order and atomic

* `Executing`        what stays of a proposal while its targets run, whatever they do;
* `Performed`        how `execute` ends: all actions done in order, or an error;
* `ExecutedOnce`     an executed proposal is not executed or taken back again;
* `execution_atomic` every call of every run, those made by targets and those undone included.
-/

set_option linter.unusedVariables false

namespace UNouns
open Function Relation Reentrant NounsDAOLogicV2

/-- the proposal that an entry executes or takes back -/
def GovOp.ends : GovOp → Option Nat
  | .execute id => some id
  | op => op.withdraws

/-- the calls that the actions of a queued proposal stand for -/
def Proposal.targetCalls (P : Platform) (p : Proposal) : List GovExternal :=
  p.own.map fun tx => .target (NounsDAOExecutor.targetCall P tx)

/-! ## while the targets run -/

theorem DaoChange.eta_kept {env : Env} {d d' : NounsDAOLogicV2} (h : DaoChange env d d') {i : Nat}
    (hi : i ≤ d.proposalCount) (h0 : (d.proposals i).eta ≠ 0) :
    (d'.proposals i).eta = (d.proposals i).eta := by
  have hsame : ∀ {id : Nat} {p : Proposal}, SetsProposal d d' id p → p.eta = (d.proposals id).eta →
      (d'.proposals i).eta = (d.proposals i).eta := by
    intro id p hs hp
    by_cases e : i = id
    · subst e; rw [hs.self, hp]
    · rw [hs.other e]
  cases h with
  | same h => rw [h.proposals]
  | propose sender t targets values signatures calldatas description h =>
    rw [propose_other h (by omega)]
  | vote voter id support votes hstate hsupport hvoted h =>
    exact hsame h (withVote_flags _ _ _ _).2.2.2
  | queue id delay hstate h =>
    by_cases e : i = id
    · subst e
      exact absurd (state_succeeded hstate).2 h0
    · rw [h.other e]
  | execute id hstate h => exact hsame h rfl
  | cancel id s hstate hs h => exact hsame h rfl
  | veto id s hstate hs h => exact hsame h rfl

/-- `p` is being executed -/
structure Executing (p : Proposal) (id : Nat) (d : NounsDAOLogicV2) : Prop where
  count : id ≤ d.proposalCount
  executed : (d.proposals id).executed = true
  kept : Kept p (d.proposals id)
  eta : (d.proposals id).eta = p.eta
  eta_ne : p.eta ≠ 0

section
variable {P : Platform}

theorem Executing.moves {env : Env} {c c' : GovConfig P} {p : Proposal} {id : Nat}
    (h : Executing p id c.now.dao) (hm : ReflTransGen (GovMove env) c c') :
    Executing p id c'.now.dao := by
  induction hm with
  | refl => exact h
  | tail _ hm ih =>
    have hc := GovMove.change hm
    obtain ⟨h1, h2⟩ := GovMove.executed (.single hm) ih.count ih.executed
    have h3 := hc.eta_kept ih.count (ih.eta ▸ ih.eta_ne)
    exact ⟨h1, h2, (hc.header ih.count).trans ih.kept, h3.trans ih.eta, ih.eta_ne⟩

/-- how `execute` ends -/
structure Performed (p : Proposal) (made : List (GovExternal × Bool))
    (r : Except Revert (GovConfig P)) : Prop where
  inOrder : InOrder (p.targetCalls P) made
  whole : ∀ c, r = .ok c → made = (p.targetCalls P).map (·, true)

theorem Performed.failed {p : Proposal} {made : List (GovExternal × Bool)}
    {r : Except Revert (GovConfig P)} (h : Performed p made r) {m : GovExternal × Bool}
    (hm : m ∈ made) (hf : m.2 = false) : ∃ e, r = .error e := by
  cases hr : r with
  | error e => exact ⟨e, rfl⟩
  | ok c =>
    rw [h.whole c hr] at hm
    obtain ⟨x, _, rfl⟩ := List.mem_map.mp hm
    cases hf

/-- the calls for some of the actions -/
def Proposal.callsAt (P : Platform) (p : Proposal) (is : List Nat) : List GovExternal :=
  (is.filterMap fun i => (p.action p.eta i).toOption).map fun tx =>
    .target (NounsDAOExecutor.targetCall P tx)

theorem Proposal.callsAt_snoc {p : Proposal} {i : Nat} {tx : Transaction}
    (h : p.action p.eta i = .ok tx) (is : List Nat) :
    p.callsAt P (is ++ [i]) = p.callsAt P is ++ [.target (NounsDAOExecutor.targetCall P tx)] := by
  simp [Proposal.callsAt, List.filterMap_append, h, Except.toOption]

theorem Proposal.callsAt_prefix {p : Proposal} {is js : List Nat} (h : is ++ js = p.indices) :
    p.callsAt P is <+: p.targetCalls P := by
  refine ⟨p.callsAt P js, ?_⟩
  rw [Proposal.targetCalls, Proposal.own, Proposal.transactions, ← h]
  simp [Proposal.callsAt, List.filterMap_append]

/-- the loop of `execute` when the actions `is` are done; the induction is on those left -/
theorem executeActions_ends (env : Env) {p : Proposal} {id : Nat} (js : List Nat) :
    ∀ (is : List Nat) (c : GovConfig P), is ++ js = p.indices → Executing p id c.now.dao →
      (executeActions env id js c.now).Ends (ReflTransGen (GovMove env)) (Performed p) c.past
        ((p.callsAt P is).map (·, true)) := by
  induction js with
  | nil =>
    intro is c hi hx
    have hall : p.callsAt P is = p.targetCalls P := by
      rw [List.append_nil] at hi
      rw [hi]
      rfl
    exact ⟨.of_succeeded (p.callsAt_prefix hi), fun _ _ => by rw [hall]⟩
  | cons i js ih =>
    intro is c hi hx
    have hdone := p.callsAt_prefix (P := P) hi
    unfold executeActions
    cases h : beginAction env c.now id i with
    | error e =>
      refine ⟨.of_succeeded hdone, fun c hc => ?_⟩
      cases hc
    | ok r =>
      obtain ⟨w, tx⟩ := r
      obtain ⟨htx, _, hw⟩ := beginAction_ok h
      rw [hx.kept.action, hx.eta] at htx
      have hi' : (is ++ [i]) ++ js = p.indices := by simpa using hi
      have hnext := p.callsAt_prefix (P := P) hi'
      have hsnoc := Proposal.callsAt_snoc (P := P) htx is
      have hx' : Executing p id w.dao := by rw [hw]; exact hx
      refine ⟨fun c' hc' => ?_, ?_⟩
      · -- the target came back
        rw [show (p.callsAt P is).map (·, true) ++ [(_, true)]
          = (p.callsAt P (is ++ [i])).map (·, true) by rw [hsnoc]; simp]
        cases he : c'.now.timelock.endExecute tx true with
        | error e =>
          simp only [he]
          refine ⟨.of_succeeded hnext, fun c hc => ?_⟩
          cases hc
        | ok tl =>
          simp only [he]
          have hx2 := Executing.moves (c := ⟨c.past, w⟩) hx' hc'
          exact ih (is ++ [i]) ⟨c'.past, { c'.now with timelock := tl }⟩ hi' hx2
      · -- it failed
        rw [hsnoc] at hnext
        refine ⟨.of_failed hnext, fun c hc => ?_⟩
        cases hc

/-! ## the end of a call -/

/-- how a call ends that began in `c` -/
structure EndsWell (env : Env) (c : GovConfig P) (op : GovCall P)
    (made : List (GovExternal × Bool)) (r : Except Revert (GovConfig P)) : Prop where
  performed : ∀ id, op.op = .execute id → Performed (c.now.dao.proposals id) made r
  state : ∀ c', r = .ok c' → ∀ id, op.op.ends = some id → ∃ s, c.now.dao.state env id = .ok s ∧
    s ≠ .executed ∧ (op.op = .execute id → s = .queued)

theorem GovStep.state {env : Env} {msg : Msg} {op : GovOp} {w w' : World P}
    (h : GovStep env msg w op w') {id : Nat} (hid : op.ends = some id) :
    ∃ s, w.dao.state env id = .ok s ∧ s ≠ .executed ∧ (op = .execute id → s = .queued) := by
  cases h with
  | token | timelock | settings | propose | vote | queue => cases hid
  | cancel i r h =>
    cases hid
    obtain ⟨⟨s, h1, h2⟩, _⟩ := cancel_ok h
    exact ⟨s, h1, h2, fun e => nomatch e⟩
  | veto i r h =>
    cases hid
    obtain ⟨⟨s, h1, h2⟩, _⟩ := veto_ok h
    exact ⟨s, h1, h2, fun e => nomatch e⟩
  | execute i d w' h hact =>
    cases hid
    exact ⟨.queued, (beginExecute_ok h).1, by simp, fun _ => rfl⟩

theorem GovCall.ends_well (env : Env) (op : GovCall P) (c : GovConfig P) :
    (op.code env c.now).Ends (ReflTransGen (GovMove env)) (EndsWell env c op) (c.enter env op) [] := by
  obtain ⟨msg, op, hout⟩ := op
  cases op with
  | entry op =>
    refine Code.once_ends (fun made e => ⟨fun id h => (nomatch h), fun c' h => nomatch h⟩) ?_
    intro w x h made c'
    refine ⟨fun id h => (nomatch h), fun _ _ id hid => ?_⟩
    exact GovStep.state (GovEntry.enter_step h).1 hid
  | execute id =>
    show Code.Ends _ _ (executeProposal env c.now id) _ _
    unfold executeProposal
    cases h : c.now.dao.beginExecute env id with
    | error e =>
      refine ⟨fun i hi => ?_, fun c' hc => nomatch hc⟩
      exact ⟨.of_succeeded (X := GovExternal) List.nil_prefix, fun c' hc => nomatch hc⟩
    | ok d =>
      obtain ⟨hstate, hs⟩ := beginExecute_ok h
      have hx : Executing (c.now.dao.proposals id) id d :=
        ⟨by rw [hs.proposalCount]; exact state_le hstate, by rw [hs.self], by rw [hs.self]; rfl,
          by rw [hs.self], (state_queued hstate).2.1⟩
      have hloop := executeActions_ends env (c.now.dao.proposals id).indices []
        (⟨c.enter env ⟨msg, .execute id, hout⟩, { c.now with dao := d }⟩ : GovConfig P) rfl hx
      refine Code.Ends.mono (fun made r hp => ⟨fun i hi => ?_, fun _ _ i hi => ?_⟩) hloop
      · cases hi
        exact hp
      · cases hi
        exact ⟨.queued, hstate, by simp, fun _ => rfl⟩

/-! ## once -/

/-- what was executed is marked as such, and was not executed or taken back again -/
structure ExecutedOnce (c : GovConfig P) : Prop where
  marked : ∀ r ∈ c.past, ∀ id, r.op.op = .execute id →
    id ≤ c.now.dao.proposalCount ∧ (c.now.dao.proposals id).executed = true
  once : c.past.Pairwise fun q r => ∀ id, q.op.op = .execute id → r.op.op.ends ≠ some id

/-- an executed proposal is in no state to be executed or taken back -/
theorem ExecutedOnce.refuses {e : Env} {c : GovConfig P} (h : ExecutedOnce c) (hf : Founded e c)
    {r : GovRecord P} (hr : r ∈ c.past) {id : Nat} (hid : r.op.op = .execute id) :
    c.now.dao.state e id = .ok .executed :=
  hf.executed.state hf.sane hf.carries (h.marked r hr id hid).2

theorem ExecutedOnce.move {e : Env} {c c' : GovConfig P} (h : ExecutedOnce c) (hf : Founded e c)
    (hm : GovMove e c c') : ExecutedOnce c' := by
  have hold : ∀ r ∈ c.past, ∀ id, r.op.op = .execute id →
      id ≤ c'.now.dao.proposalCount ∧ (c'.now.dao.proposals id).executed = true := by
    intro r hr id hid
    obtain ⟨h1, h2⟩ := h.marked r hr id hid
    exact GovMove.executed (.single hm) h1 h2
  cases hm with
  | resume w hrest => exact ⟨hold, h.once⟩
  | enter op w hstep =>
    refine ⟨fun r hr id hid => ?_, ?_⟩
    · rcases List.mem_append.mp hr with hr | hr
      · exact hold r hr id hid
      · rw [List.mem_singleton.mp hr] at hid
        have hid' : op.op = .execute id := hid
        rw [hid'] at hstep
        cases hstep with
        | execute _ d w' hb hact =>
          obtain ⟨hstate, hs⟩ := beginExecute_ok hb
          rw [hact.dao.1, hs.proposalCount, hs.self]
          exact ⟨state_le hstate, rfl⟩
    · refine List.pairwise_append.mpr ⟨h.once, List.pairwise_singleton _ _, fun q hq r hr id hid => ?_⟩
      rw [List.mem_singleton.mp hr]
      intro hend
      obtain ⟨s, hs, hne, _⟩ := GovStep.state hstep hend
      rw [h.refuses hf hq hid] at hs
      cases hs
      exact hne rfl

theorem runs_executedOnce {x y : Env × GovConfig P} (h : ReflTransGen (Timed GovMove) x y)
    (hx : Founded x.1 x.2) (ho : ExecutedOnce x.2) : ExecutedOnce y.2 :=
  (Timed.invariant (I := fun e c => Founded e c ∧ ExecutedOnce c)
    (fun e c c' hc hm => ⟨runs_founded (.single (.move hm)) hc.1, hc.2.move hc.1 hm⟩)
    (fun e e' c hc he => ⟨hc.1.tick he, hc.2⟩) h ⟨hx, ho⟩).2

/-- **Execution is once, in order and atomic.**  Of every call of a run, also of those that targets
make and of those that are undone: `execute` does all actions of a queued proposal in their order,
or it fails; it fails when one of them does, and what it did is undone; and once a proposal has been
executed, or is about to be, nobody executes it or takes it back. -/
theorem execution_atomic (g : GovSetup) (e : Env) (w : World P) (hw : g.deploy P e = .ok w)
    (ts : List (Tx Env (GovCall P))) (hch : (e :: ts.map Tx.env).IsChain (· ≤ ·)) :
    (∀ r ∈ runReports GovCall.code ts ⟨[], w⟩,
      (∀ id, r.op.op = .execute id →
        InOrder ((r.before.now.dao.proposals id).targetCalls P) r.calls ∧
        ((∃ x ∈ r.calls, x.2 = false) →
          (∃ err, r.result = .error err) ∧ commit r.before r.result = r.before) ∧
        ∀ c, r.result = .ok c → r.before.now.dao.state r.env id = .ok .queued ∧
          r.calls = ((r.before.now.dao.proposals id).targetCalls P).map (·, true)) ∧
      (∀ q ∈ r.before.past, ∀ id, q.op.op = .execute id → r.op.op.ends = some id →
        ∃ err, r.result = .error err)) ∧
    ∀ o ∈ observations GovCall.code e ts ⟨[], w⟩, o.2.past.Pairwise
      fun q r => ∀ id, q.op.op = .execute id → r.op.op.ends ≠ some id := by
  have hfollow := fun env (op : GovCall P) (c : GovConfig P) => op.follows env c
  have hfounded := GovSetup.deploy_founded hw
  have honce : ExecutedOnce (⟨[], w⟩ : GovConfig P) :=
    ⟨fun r hr => absurd hr List.not_mem_nil, .nil⟩
  refine ⟨fun r hr => ?_, fun o ho => ?_⟩
  · obtain ⟨htimed, hends⟩ := runReports_timed hfollow GovCall.ends_well ts e ⟨[], w⟩ hch r hr
    refine ⟨fun id hid => ⟨(hends.performed id hid).inOrder, ?_, fun c hc => ?_⟩, ?_⟩
    · rintro ⟨x, hx, hf⟩
      obtain ⟨err, herr⟩ := (hends.performed id hid).failed hx hf
      exact ⟨⟨err, herr⟩, by rw [herr]; rfl⟩
    · obtain ⟨s, hs, _, hq⟩ := hends.state c hc id (by rw [hid]; rfl)
      rw [hq hid] at hs
      exact ⟨hs, (hends.performed id hid).whole c hc⟩
    · intro q hq id hid hend
      cases hr : r.result with
      | error err => exact ⟨err, rfl⟩
      | ok c =>
        obtain ⟨s, hs, hne, _⟩ := hends.state c hr id hend
        have hrefuse := (runs_executedOnce htimed hfounded honce).refuses
          (runs_founded htimed hfounded) hq hid
        rw [hrefuse] at hs
        cases hs
        exact absurd rfl hne
  · exact (runs_executedOnce (observations_timed hfollow hch ho) hfounded honce).once

end

/-- account `2` votes for its proposal, then it is queued; its target executes it once more -/
def reenterTxs : List (Tx Env (GovCall samplePlatform)) :=
  [⟨.block 10 100, sampleCall 2 0 (.entry (.dao (.castVote 1 1)))⟩,
   ⟨.block 5770 1000, sampleCall 7 0 (.entry (.queue 1))⟩,
   ⟨.block 9000 173800, sampleCall 7 0 (.execute 1)
     (.cons true (.cons (sampleCall 9 0 (.execute 1)) .nil) .nil)⟩]

theorem execution_atomic_run :
    let reports := runReports GovCall.code (proposeTxs ++ reenterTxs) ⟨[], sampleWorld⟩
    let last := (runTxs GovCall.code (proposeTxs ++ reenterTxs) ⟨[], sampleWorld⟩).2
    reports.length = 6 ∧ last.past.length = 5 ∧ (last.now.dao.proposals 1).executed = true ∧
      (∀ r ∈ reports, ∀ q ∈ r.before.past, q.op.op = .execute 1 → r.op.op.ends = some 1 →
        ∃ err, r.result = .error err) ∧
      last.past.Pairwise fun q r => q.op.op = .execute 1 → r.op.op.ends ≠ some 1 := by
  intro reports last
  obtain ⟨h1, h2⟩ := execution_atomic sampleSetup (.block 6 60) sampleWorld sampleWorld_deployed
    (proposeTxs ++ reenterTxs) (by simp [proposeTxs, reenterTxs, Env.le_def, Env.block])
  refine ⟨by decide +kernel, by decide +kernel, by decide +kernel, fun r hr q hq => ?_, ?_⟩
  · exact (h1 r hr).2 q hq 1
  · exact (h2 _ (final_mem_observations _ _ _ _)).imp fun h => h 1

end UNouns
