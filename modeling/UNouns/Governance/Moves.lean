import UNouns.Governance.Effects
import UNouns.Token.Steps

/-!
# What the governance system can do

`GovStep` lists what an entry can do up to its first external call, `GovRest` what can happen when
it goes on after one:

* `settle`   the log, and a payment that failed;
* `act`      `execute` takes the next action of its proposal to the timelock.

`GovBegin` and `GovResume` are the same stretches of code with nothing left out (`GovExact`).

`GovCall.follows`: the code of every entry is a sequence of such moves, whatever the code it calls
does in between.  For `execute` this needs that a proposal once executed stays so
(`GovMove.executed`).
-/

set_option linter.unusedVariables false

namespace UNouns
open Function Relation Reentrant NounsDAOLogicV2

section
variable {P : Platform}

/-- the first action, taken to the timelock; a proposal has one -/
def FirstAction (env : Env) (id : Nat) (w w' : World P) : Prop :=
  (w.dao.proposals id).targets = [] ∧ w' = w ∨ ∃ tx, beginAction env w id 0 = .ok (w', tx)

/-- an entry up to its first external call, by what it does -/
inductive GovStep (env : Env) (msg : Msg) (w : World P) : GovOp → World P → Prop
  | token (op : TokenOp) (t : UNounsToken)
      (h : op.apply P env msg.sender w.token = .ok t) :
      GovStep env msg w (.entry (.token op)) { w with token := t }
  | timelock (op : ExecutorOp) (tl : NounsDAOExecutor P)
      (h : op.apply env msg.sender w.timelock = .ok tl) :
      GovStep env msg w (.entry (.timelock op)) { w with timelock := tl }
  | settings (op : DaoOp) (d : NounsDAOLogicV2) (hop : op.ballot P env msg = none)
      (h : SameProposals env w.dao d) :
      GovStep env msg w (.entry (.dao op)) { w with dao := d }
  | propose (targets : List Address) (values : List Nat) (signatures : List String)
      (calldatas : List Bytes) (description : String) (d : NounsDAOLogicV2)
      (h : w.dao.propose env msg.sender w.token targets values signatures calldatas description
        = .ok d) :
      GovStep env msg w (.entry (.dao (.propose targets values signatures calldatas description)))
        { w with dao := d }
  | vote (op : DaoOp) (voter : Address) (id support : Nat) (d : NounsDAOLogicV2)
      (hop : op.ballot P env msg = some (voter, id, support))
      (h : Votes env w.token w.dao d voter id support) :
      GovStep env msg w (.entry (.dao op)) { w with dao := d }
  | queue (id : Nat) (r : NounsDAOExecutor P × NounsDAOLogicV2)
      (h : w.dao.queue env w.timelock id = .ok r) :
      GovStep env msg w (.entry (.queue id)) (w.withDao r)
  | cancel (id : Nat) (r : NounsDAOExecutor P × NounsDAOLogicV2)
      (h : w.dao.cancel env msg.sender w.token w.timelock id = .ok r) :
      GovStep env msg w (.entry (.cancel id)) (w.withDao r)
  | veto (id : Nat) (r : NounsDAOExecutor P × NounsDAOLogicV2)
      (h : w.dao.veto env msg.sender w.timelock id = .ok r) :
      GovStep env msg w (.entry (.veto id)) (w.withDao r)
  | execute (id : Nat) (d : NounsDAOLogicV2) (w' : World P)
      (h : w.dao.beginExecute env id = .ok d) (hact : FirstAction env id { w with dao := d } w') :
      GovStep env msg w (.execute id) w'

/-- an entry with a ballot is a vote -/
theorem GovStep.votes {env : Env} {msg : Msg} {op : GovOp} {w w' : World P} {voter : Address}
    {id support : Nat} (h : GovStep env msg w op w')
    (hb : op.ballot P env msg = some (voter, id, support)) :
    Votes env w.token w.dao w'.dao voter id support := by
  cases h with
  | settings op d hop h => exact absurd (hop.symm.trans hb) (by simp)
  | vote op voter' id' support' d hop h =>
    obtain ⟨rfl, rfl, rfl⟩ : voter' = voter ∧ id' = id ∧ support' = support := by
      simpa using hop.symm.trans hb
    exact h
  | token op t h => cases hb
  | timelock op tl h => cases hb
  | propose targets values signatures calldatas description d h => cases hb
  | queue i r h => cases hb
  | cancel i r h => cases hb
  | veto i r h => cases hb
  | execute i d w' h hact => cases hb

/-- what happens after an external call -/
inductive GovRest (env : Env) (w : World P) : World P → Prop
  | settle (tlLogs : List (ExecutorEvent P)) (balance : Nat) (logs : List DaoEvent) :
      GovRest env w { w with
        timelock := { w.timelock with logs := tlLogs }
        dao := { w.dao with balance := balance, logs := logs } }
  | act (w' : World P) (id i : Nat) (tx : Transaction) (hid : id ≤ w.dao.proposalCount)
      (hex : (w.dao.proposals id).executed = true) (h : beginAction env w id i = .ok (w', tx)) :
      GovRest env w w'

def GovMove : Env → GovConfig P → GovConfig P → Prop :=
  Move (fun env c w w' => GovStep env c.msg w c.op w') GovRest

/-- an entry up to its first external call, as the code has it -/
inductive GovBegin (env : Env) (c : GovCall P) (w : World P) : World P → Prop
  | entry (op : GovEntry) (w' : World P) (x : Option GovExternal) (hop : c.op = .entry op)
      (h : op.enter env c.msg w = .ok (w', x)) : GovBegin env c w w'
  | execute (id : Nat) (d : NounsDAOLogicV2) (w' : World P) (hop : c.op = .execute id)
      (h : w.dao.beginExecute env id = .ok d) (hact : FirstAction env id { w with dao := d } w') :
      GovBegin env c w w'

/-- an entry that goes on after an external call, as the code has it -/
inductive GovResume (env : Env) (w : World P) : World P → Prop
  | after (x : GovExternal) (ok : Bool) (w' : World P) (h : x.after ok w = .ok w') :
      GovResume env w w'
  | act (w' : World P) (id i : Nat) (tx : Transaction) (hid : id ≤ w.dao.proposalCount)
      (hex : (w.dao.proposals id).executed = true) (h : beginAction env w id i = .ok (w', tx)) :
      GovResume env w w'
  | executed (id : Nat) (hid : id ≤ w.dao.proposalCount)
      (hex : (w.dao.proposals id).executed = true) :
      GovResume env w { w with dao := w.dao.emit (.proposalExecuted id) }

def GovExact : Env → GovConfig P → GovConfig P → Prop := Move GovBegin GovResume

/-! ## a proposal once executed stays so -/

theorem beginAction_ok {env : Env} {w w' : World P} {id i : Nat} {tx : Transaction}
    (h : beginAction env w id i = .ok (w', tx)) :
    (w.dao.proposals id).action (w.dao.proposals id).eta i = .ok tx ∧
      w.timelock.beginExecute env P.dao tx = .ok w'.timelock ∧
      w' = { w with timelock := w'.timelock } := by
  simp only [beginAction, bind_eq_ok, pure_eq_ok, Prod.mk.injEq] at h
  obtain ⟨tx', htx, tl, htl, rfl, rfl⟩ := h
  exact ⟨htx, htl, rfl⟩

theorem FirstAction.dao {env : Env} {w w' : World P} {id : Nat} (h : FirstAction env id w w') :
    w'.dao = w.dao ∧ w'.token = w.token := by
  rcases h with ⟨_, rfl⟩ | ⟨tx, h⟩
  · exact ⟨rfl, rfl⟩
  · rw [(beginAction_ok h).2.2]
    exact ⟨rfl, rfl⟩

/-- what no move takes back -/
structure Grows (d d' : NounsDAOLogicV2) : Prop where
  count : d.proposalCount ≤ d'.proposalCount
  executed : ∀ id ≤ d.proposalCount, (d.proposals id).executed = true →
    (d'.proposals id).executed = true

theorem Grows.refl (d : NounsDAOLogicV2) : Grows d d := ⟨Nat.le_refl _, fun _ _ h => h⟩

theorem Grows.of_sets {d d' : NounsDAOLogicV2} {id : Nat} {p : Proposal}
    (hs : SetsProposal d d' id p) (he : (d.proposals id).executed = true → p.executed = true) :
    Grows d d' := by
  refine ⟨Nat.le_of_eq hs.proposalCount.symm, fun i _ h => ?_⟩
  by_cases e : i = id
  · subst e
    rw [hs.self]
    exact he h
  · rwa [hs.other e]

theorem withVote_flags (p : Proposal) (voter : Address) (support votes : Nat) :
    (Proposal.withVote p voter support votes).vetoed = p.vetoed ∧
      (Proposal.withVote p voter support votes).canceled = p.canceled ∧
      (Proposal.withVote p voter support votes).executed = p.executed ∧
      (Proposal.withVote p voter support votes).eta = p.eta := by
  unfold Proposal.withVote
  split_ifs <;> exact ⟨rfl, rfl, rfl, rfl⟩

theorem GovStep.grows {env : Env} {msg : Msg} {op : GovOp} {w w' : World P}
    (h : GovStep env msg w op w') : Grows w.dao w'.dao := by
  cases h with
  | token op t h => exact .refl _
  | timelock op tl h => exact .refl _
  | settings op d hop h => exact ⟨Nat.le_of_eq h.proposalCount.symm, fun i _ hi => by
      rw [h.proposals]; exact hi⟩
  | propose targets values signatures calldatas description d h =>
    obtain ⟨_, _, _, _, e⟩ := propose_ok h
    refine ⟨?_, fun i hi hx => ?_⟩
    · show w.dao.proposalCount ≤ d.proposalCount
      rw [e]
      exact Nat.le_succ _
    · show (d.proposals i).executed = true
      rwa [propose_other h (by omega)]
  | vote op voter id support d hop h =>
    obtain ⟨votes, _, _, _, _, hs⟩ := h.sets
    exact .of_sets hs (fun h => by rwa [(withVote_flags _ _ _ _).2.2.1])
  | queue id r h => exact .of_sets (queue_ok h).2.2 (fun h => h)
  | cancel id r h => exact .of_sets (cancel_ok h).2.2 (fun h => h)
  | veto id r h => exact .of_sets (veto_ok h).2.2 (fun h => h)
  | execute id d w' h hact =>
    rw [hact.dao.1]
    exact .of_sets (beginExecute_ok h).2 (fun _ => rfl)

theorem GovRest.dao {env : Env} {w w' : World P} (h : GovRest env w w') :
    w'.token = w.token ∧ w'.dao.proposals = w.dao.proposals ∧
      w'.dao.proposalCount = w.dao.proposalCount ∧
      w'.dao.quorumParamsCheckpoints = w.dao.quorumParamsCheckpoints ∧
      w'.dao.quorumVotesBPS = w.dao.quorumVotesBPS := by
  cases h with
  | settle tlLogs balance logs => exact ⟨rfl, rfl, rfl, rfl, rfl⟩
  | act w' id i tx hid hex h =>
    rw [(beginAction_ok h).2.2]
    exact ⟨rfl, rfl, rfl, rfl, rfl⟩

theorem GovMove.executed {env : Env} {c c' : GovConfig P}
    (h : ReflTransGen (GovMove env) c c') {id : Nat} (hid : id ≤ c.now.dao.proposalCount)
    (hex : (c.now.dao.proposals id).executed = true) :
    id ≤ c'.now.dao.proposalCount ∧ (c'.now.dao.proposals id).executed = true := by
  induction h with
  | refl => exact ⟨hid, hex⟩
  | tail _ hm ih =>
    cases hm with
    | enter op w h =>
      have hg := GovStep.grows h
      exact ⟨Nat.le_trans ih.1 hg.count, hg.executed id ih.1 ih.2⟩
    | resume w h =>
      obtain ⟨_, hp, hc, _⟩ := GovRest.dao h
      exact ⟨by rw [hc]; exact ih.1, by rw [hp]; exact ih.2⟩

/-! ## the code follows the moves -/

/-- what calls a target of the timelock: an entry of the timelock just begun, or an action of an
executed proposal just taken to it -/
def AtTarget (env : Env) (c : GovConfig P) (x : GovExternal) : Prop :=
  ∀ t, x = .target t →
    (∃ before r, c.past = before ++ [r] ∧
      r.op.op = .entry (.timelock (.executeTransaction t.tx)) ∧
      r.op.msg.sender = r.pre.timelock.admin) ∨
    ∃ id i, id ≤ c.now.dao.proposalCount ∧ (c.now.dao.proposals id).executed = true ∧
      (c.now.dao.proposals id).action (c.now.dao.proposals id).eta i = .ok t.tx ∧
      t = NounsDAOExecutor.targetCall P t.tx ∧ (c.now.dao.proposals id).eta ≤ env.timestamp

theorem NounsDAOExecutor.beginExecute_window {env : Env} {sender : Address}
    {tl tl' : NounsDAOExecutor P} {tx : Transaction} (h : tl.beginExecute env sender tx = .ok tl') :
    sender = tl.admin ∧ tl.queuedTransactions (P.keccak256 tx) = true ∧ tx.eta ≤ env.timestamp ∧
      tl' = { tl with
        queuedTransactions := update tl.queuedTransactions (P.keccak256 tx) false } := by
  simp only [NounsDAOExecutor.beginExecute, bind_eq_ok, require_eq_ok, checkedAdd_eq_ok,
    pure_eq_ok] at h
  obtain ⟨_, h1, _, h2, _, h3, _, _, _, _, rfl⟩ := h
  exact ⟨h1, h2, h3, rfl⟩

theorem GovEntry.enter_step {env : Env} {msg : Msg} {w w' : World P} {op : GovEntry}
    {x : Option GovExternal} (h : op.enter env msg w = .ok (w', x)) :
    GovStep env msg w (.entry op) w' ∧ ∀ t, x = some (.target t) →
      op = .timelock (.executeTransaction t.tx) ∧ msg.sender = w.timelock.admin := by
  cases op with
  | token op =>
    obtain ⟨t, h1, h2⟩ := map_eq_ok.mp h
    cases h2
    exact ⟨.token op t h1, fun t' h => by cases hr : op.receiver msg.sender <;> simp [hr] at h⟩
  | timelock op =>
    obtain ⟨tl, h1, h2⟩ := map_eq_ok.mp h
    cases h2
    refine ⟨.timelock op tl h1, fun t' h => ?_⟩
    cases op with
    | executeTransaction tx =>
      cases h
      exact ⟨rfl, (NounsDAOExecutor.beginExecute_window h1).1⟩
    | setDelay _ | acceptAdmin | setPendingAdmin _ | queueTransaction _ | cancelTransaction _ =>
      cases h
  | dao op =>
    obtain ⟨⟨d, y⟩, h1, h2⟩ := map_eq_ok.mp h
    cases h2
    obtain ⟨h3, h4⟩ := DaoOp.apply_ok h1
    refine ⟨?_, fun t' h => absurd h (h4 t')⟩
    rcases h3 with ⟨hop, h3⟩ | ⟨_, _, _, _, _, rfl, h3⟩ | ⟨_, _, _, hop, h3⟩
    · exact .settings op d hop h3
    · exact .propose _ _ _ _ _ d h3
    · exact .vote op _ _ _ d hop h3
  | queue id =>
    obtain ⟨r, h1, h2⟩ := map_eq_ok.mp h
    cases h2
    exact ⟨.queue id r h1, fun t h => by cases h⟩
  | cancel id =>
    obtain ⟨r, h1, h2⟩ := map_eq_ok.mp h
    cases h2
    exact ⟨.cancel id r h1, fun t h => by cases h⟩
  | veto id =>
    obtain ⟨r, h1, h2⟩ := map_eq_ok.mp h
    cases h2
    exact ⟨.veto id r h1, fun t h => by cases h⟩

theorem GovExternal.after_settle {env : Env} {x : GovExternal} {ok : Bool} {w w' : World P}
    (h : x.after ok w = .ok w') : GovRest env w w' := by
  cases x with
  | receiver x =>
    obtain ⟨t, h1, rfl⟩ := map_eq_ok.mp h
    simp only [TokenOp.after, bind_eq_ok, pure_eq_ok] at h1
    obtain ⟨_, _, rfl⟩ := h1
    exact .settle _ _ _
  | target x =>
    obtain ⟨tl, h1, rfl⟩ := map_eq_ok.mp h
    simp only [NounsDAOExecutor.endExecute, bind_eq_ok, pure_eq_ok] at h1
    obtain ⟨_, _, rfl⟩ := h1
    exact .settle _ _ _
  | refund p =>
    cases h
    exact .settle _ _ _
  | withdraw p =>
    cases h
    exact .settle _ _ _

/-! ### exact moves are moves -/

theorem GovBegin.step {env : Env} {c : GovCall P} {w w' : World P} (h : GovBegin env c w w') :
    GovStep env c.msg w c.op w' := by
  cases h with
  | entry op w' x hop h =>
    rw [hop]
    exact (GovEntry.enter_step h).1
  | execute id d w' hop h hact =>
    rw [hop]
    exact .execute id d w' h hact

theorem GovResume.rest {env : Env} {w w' : World P} (h : GovResume env w w') : GovRest env w w' := by
  cases h with
  | after x ok w' h => exact x.after_settle h
  | act w' id i tx hid hex h => exact .act w' id i tx hid hex h
  | executed id hid hex => exact .settle _ _ _

theorem GovExact.move {env : Env} {c c' : GovConfig P} (h : GovExact env c c') :
    GovMove env c c' := by
  cases h with
  | enter op w h => exact .enter c op w h.step
  | resume w h => exact .resume c w h.rest

theorem GovExact.timed {a b : Env × GovConfig P} (h : ReflTransGen (Timed GovExact) a b) :
    ReflTransGen (Timed GovMove) a b := by
  refine ReflTransGen.mono (fun x y hxy => ?_) _ _ h
  cases hxy with
  | move hm => exact .move hm.move
  | tick he => exact .tick he

/-! ### the code follows any moves that include the exact ones and keep what is executed -/

section
variable {M : Env → GovConfig P → GovConfig P → Prop}
  (hM : ∀ {env : Env} {c c' : GovConfig P}, GovExact env c c' → M env c c')
  (hkeep : ∀ {env : Env} {c c' : GovConfig P} {id : Nat}, ReflTransGen (M env) c c' →
    id ≤ c.now.dao.proposalCount → (c.now.dao.proposals id).executed = true →
    id ≤ c'.now.dao.proposalCount ∧ (c'.now.dao.proposals id).executed = true)
include hM hkeep

/-- the call of a target in the loop of `execute`, when what comes after it follows the moves -/
theorem action_follows {env : Env} {id i : Nat} {is : List Nat}
    (ih : ∀ c : GovConfig P, id ≤ c.now.dao.proposalCount →
      (c.now.dao.proposals id).executed = true →
      (executeActions env id is c.now).Follows (M env) (AtTarget env) c.past c)
    {c : GovConfig P} {past : List (GovRecord P)} {w0 w : World P} {tx : Transaction}
    (hreach : ReflTransGen (M env) c ⟨past, w⟩) (h : beginAction env w0 id i = .ok (w, tx))
    (hid : id ≤ w0.dao.proposalCount) (hex : (w0.dao.proposals id).executed = true) :
    Code.Follows (M env) (AtTarget env)
      (.call (.target (NounsDAOExecutor.targetCall P tx)) w fun ok w =>
        match w.timelock.endExecute tx ok with
        | .error e => .revert e
        | .ok tl => executeActions env id is { w with timelock := tl }) past c := by
  obtain ⟨htx, htl, hw⟩ := beginAction_ok h
  have hid' : id ≤ w.dao.proposalCount := by rw [hw]; exact hid
  have hex' : (w.dao.proposals id).executed = true := by rw [hw]; exact hex
  refine ⟨hreach, fun t ht => .inr ?_, fun c' hc' => ?_, trivial⟩
  · cases ht
    refine ⟨id, i, hid', hex', by rw [hw]; exact htx, rfl, ?_⟩
    rw [hw, ← Proposal.action_eta htx]
    exact (NounsDAOExecutor.beginExecute_window htl).2.2.1
  · obtain ⟨hid2, hex2⟩ := hkeep hc' hid' hex'
    cases he : c'.now.timelock.endExecute tx true with
    | error e => trivial
    | ok tl =>
      have hafter : (GovExternal.target (NounsDAOExecutor.targetCall P tx)).after true c'.now
          = .ok { c'.now with timelock := tl } := by
        simp only [GovExternal.after, NounsDAOExecutor.targetCall, he]
        rfl
      have hk := ih ⟨c'.past, { c'.now with timelock := tl }⟩ hid2 hex2
      simp only [he]
      exact hk.from (ReflTransGen.single (hM (.resume c' _ (.after _ _ _ hafter))))

/-- the loop of `execute` from some action on; the induction is on the actions left -/
theorem executeActions_follows {env : Env} {id : Nat} (is : List Nat) :
    ∀ c : GovConfig P, id ≤ c.now.dao.proposalCount → (c.now.dao.proposals id).executed = true →
      (executeActions env id is c.now).Follows (M env) (AtTarget env) c.past c := by
  induction is with
  | nil =>
    intro c hid hex
    exact ReflTransGen.single (hM (.resume c _ (.executed id hid hex)))
  | cons i is ih =>
    intro c hid hex
    unfold executeActions
    cases h : beginAction env c.now id i with
    | error e => trivial
    | ok r =>
      have hm : ReflTransGen (M env) c ⟨c.past, r.1⟩ :=
        ReflTransGen.single (hM (.resume c r.1 (.act r.1 id i r.2 hid hex h)))
      exact action_follows hM hkeep ih hm h hid hex

theorem GovCall.follows_of (env : Env) (c : GovCall P) (k : GovConfig P) :
    (c.code env k.now).Follows (M env) (AtTarget env) (k.enter env c) k := by
  obtain ⟨msg, op, hout⟩ := c
  cases op with
  | entry op =>
    show Code.Follows _ _ (Code.once GovExternal.after (op.enter env msg k.now)) _ k
    refine Code.once_follows_of (fun w x h => ⟨hM (.enter k _ w (.entry op w x rfl h)), ?_⟩)
      (fun x ok c' w' h => .single (hM (.resume c' w' (.after x ok w' h))))
    intro y hy t ht
    subst ht
    obtain ⟨rfl, hadmin⟩ := (GovEntry.enter_step h).2 t hy
    exact .inl ⟨k.past, _, rfl, rfl, hadmin⟩
  | execute id =>
    show Code.Follows _ _ (executeProposal env k.now id) _ k
    unfold executeProposal
    cases h : k.now.dao.beginExecute env id with
    | error e => trivial
    | ok d =>
      obtain ⟨hstate, hs⟩ := beginExecute_ok h
      have hid : id ≤ d.proposalCount := by rw [hs.proposalCount]; exact state_le hstate
      have hex : (d.proposals id).executed = true := by rw [hs.self]
      have htargets : (d.proposals id).targets = (k.now.dao.proposals id).targets := by rw [hs.self]
      simp only
      cases hn : (k.now.dao.proposals id).indices with
      | nil =>
        have hnil : (d.proposals id).targets = [] := by
          rw [htargets]
          exact List.length_eq_zero_iff.mp (List.range_eq_nil.mp hn)
        have hm : M env k ⟨k.enter env ⟨msg, .execute id, hout⟩, { k.now with dao := d }⟩ :=
          hM (.enter k _ _ (.execute id d _ rfl h (.inl ⟨hnil, rfl⟩)))
        exact (executeActions_follows hM hkeep [] ⟨_, { k.now with dao := d }⟩ hid hex).from
          (ReflTransGen.single hm)
      | cons i is =>
        have hi : i = 0 := by
          have h0 : (k.now.dao.proposals id).indices[0]? = some i := by rw [hn]; rfl
          simpa [Proposal.indices, List.getElem?_range] using (List.getElem?_eq_some_iff.mp h0).2.symm
        subst hi
        unfold executeActions
        cases ha : beginAction env { k.now with dao := d } id 0 with
        | error e => trivial
        | ok r =>
          have hm : ReflTransGen (M env) k ⟨k.enter env ⟨msg, .execute id, hout⟩, r.1⟩ :=
            ReflTransGen.single (hM (.enter k _ r.1 (.execute id d r.1 rfl h (.inr ⟨r.2, ha⟩))))
          exact action_follows hM hkeep (executeActions_follows hM hkeep is) hm ha hid hex

end

theorem GovCall.follows (env : Env) (c : GovCall P) (k : GovConfig P) :
    (c.code env k.now).Follows (GovMove env) (AtTarget env) (k.enter env c) k :=
  GovCall.follows_of GovExact.move (fun h hid hex => GovMove.executed h hid hex) env c k

theorem GovCall.follows_exact (env : Env) (c : GovCall P) (k : GovConfig P) :
    (c.code env k.now).Follows (GovExact env) (AtTarget env) (k.enter env c) k :=
  GovCall.follows_of (fun h => h)
    (fun h hid hex => GovMove.executed (ReflTransGen.mono (fun _ _ hm => hm.move) _ _ h) hid hex) env c k

end
end UNouns
