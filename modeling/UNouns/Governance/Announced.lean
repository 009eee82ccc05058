import UNouns.Governance.Deeds
import UNouns.Lib.Guard

/-!
# What the DAO has announced

* `GovOp.setsQuorum`, `GovBegin.rules`   which entries change the voting delay or the quorum
                                         parameters;
* `GovBegin.cancels`, `GovOp.proposes`   which announce that a proposal is canceled, or make one;
* `announcements`, `executions`          how often the execution of a proposal was announced, and
                                         whether it was executed;
* `runs_announced`                       after a transaction they agree.
-/

set_option linter.unusedVariables false

namespace UNouns
open Function Relation Reentrant Checkpoints NounsDAOLogicV2

/-! ## rules -/

def DaoOp.setsQuorum : DaoOp → Bool
  | .initializeV2 .. => true
  | .setMinQuorumVotesBPS _ => true
  | .setMaxQuorumVotesBPS _ => true
  | .setQuorumCoefficient _ => true
  | .setDynamicQuorumParams .. => true
  | _ => false

/-- the entries that write a checkpoint of the quorum parameters -/
def GovOp.setsQuorum : GovOp → Bool
  | .entry (.dao op) => op.setsQuorum
  | _ => false

/-- the proposal that is canceled -/
def GovOp.cancels : GovOp → Option Nat
  | .entry (.cancel id) => some id
  | _ => none

/-- the entries that make a proposal -/
def GovOp.proposes : GovOp → Bool
  | .entry (.dao (.propose ..)) => true
  | _ => false

structure SameRules (d d' : NounsDAOLogicV2) : Prop where
  votingDelay : d'.votingDelay = d.votingDelay
  checkpoints : d'.quorumParamsCheckpoints = d.quorumParamsCheckpoints

/-- the voting delay stays within its bound, and the checkpoints change with `sets` only -/
structure KeepsRules (sets : Bool) (d d' : NounsDAOLogicV2) : Prop where
  votingDelay : MIN_VOTING_DELAY ≤ d.votingDelay → MIN_VOTING_DELAY ≤ d'.votingDelay
  checkpoints : sets = false → d'.quorumParamsCheckpoints = d.quorumParamsCheckpoints

theorem SameRules.keeps {d d' : NounsDAOLogicV2} (h : SameRules d d') (sets : Bool) :
    KeepsRules sets d d' := ⟨fun hd => h.votingDelay ▸ hd, fun _ => h.checkpoints⟩

section
variable {P : Platform} {env : Env} {t : UNounsToken} {d d' : NounsDAOLogicV2}

theorem castVoteInternal_rules {voter : Address} {id support votes : Nat}
    (h : d.castVoteInternal env t voter id support = .ok (d', votes)) : SameRules d d' := by
  simp only [castVoteInternal, bind_eq_ok, pure_eq_ok, Prod.mk.injEq] at h
  obtain ⟨_, _, _, _, _, _, _, _, _, _, _, _, rfl, _⟩ := h
  exact ⟨rfl, rfl⟩

theorem Votes.rules {voter : Address} {id support : Nat} (h : Votes env t d d' voter id support) :
    SameRules d d' := by
  obtain ⟨d1, votes, balance, logs, h, rfl⟩ := h
  have hr := castVoteInternal_rules h
  exact ⟨hr.votingDelay, hr.checkpoints⟩

theorem propose_rules {sender : Address} {targets : List Address} {values : List Nat}
    {signatures : List String} {calldatas : List Bytes} {description : String}
    (h : d.propose env sender t targets values signatures calldatas description = .ok d') :
    SameRules d d' := by
  obtain ⟨_, _, _, _, e⟩ := propose_ok h
  rw [e]
  exact ⟨rfl, rfl⟩

theorem initializeV2_votingDelay {sender timelock nouns vetoer : Address}
    {votingPeriod votingDelay proposalThresholdBPS : Nat} {params : DynamicQuorumParams}
    (h : d.initializeV2 env sender timelock nouns vetoer votingPeriod votingDelay
      proposalThresholdBPS params = .ok d') : MIN_VOTING_DELAY ≤ d'.votingDelay := by
  obtain ⟨_, _, _, rfl⟩ := initializeV2_exact h
  simp only [initializeV2, bind_eq_ok, require_eq_ok] at h
  obtain ⟨_, _, _, _, _, _, _, _, _, _, _, ⟨hn, _⟩, _⟩ := h
  exact hn

theorem castVoteWithEvent_rules {voter : Address} {id support votes : Nat} {reason : String}
    (h : d.castVoteWithEvent env t voter id support reason = .ok (d', votes)) (sets : Bool) :
    KeepsRules sets d d' := (castVoteWithEvent_ok h).rules.keeps sets

/-- a checkpoint is written, and nothing else that is a rule -/
theorem writes_rules {params : DynamicQuorumParams} {d1 : NounsDAOLogicV2} {v : DaoEvent}
    (h : d.writeQuorumParamsCheckpoint env params = .ok d1) : KeepsRules true d (d1.emit v) := by
  rw [writeQuorumParamsCheckpoint_ok h]
  exact ⟨fun hd => hd, fun hf => (nomatch hf)⟩

theorem DaoOp.rules {msg : Msg} {op : DaoOp} {x : Option GovExternal}
    (h : op.apply P env msg t d = .ok (d', x)) : KeepsRules op.setsQuorum d d' := by
  cases op with
  | initializeV2 timelock nouns vetoer period delay threshold params =>
    obtain ⟨_, h1, h2⟩ := map_eq_ok.mp h
    cases h2
    exact ⟨fun _ => initializeV2_votingDelay h1, fun hf => absurd hf.symm Bool.false_ne_true⟩
  | setMinQuorumVotesBPS _ | setMaxQuorumVotesBPS _ =>
    obtain ⟨_, h1, h2⟩ := map_eq_ok.mp h
    cases h2
    simp only [NounsDAOLogicV2.setMinQuorumVotesBPS, NounsDAOLogicV2.setMaxQuorumVotesBPS,
      bind_eq_ok, pure_eq_ok] at h1
    obtain ⟨_, _, _, _, _, _, _, _, _, h1, rfl⟩ := h1
    exact writes_rules h1
  | setQuorumCoefficient n =>
    obtain ⟨_, h1, h2⟩ := map_eq_ok.mp h
    cases h2
    simp only [NounsDAOLogicV2.setQuorumCoefficient, bind_eq_ok, pure_eq_ok] at h1
    obtain ⟨_, _, _, _, _, h1, rfl⟩ := h1
    exact writes_rules h1
  | setDynamicQuorumParams a b c =>
    obtain ⟨_, h1, h2⟩ := map_eq_ok.mp h
    cases h2
    obtain ⟨_, _, _, rfl⟩ := setDynamicQuorumParams_exact h1
    exact ⟨fun hd => hd, fun hf => absurd hf.symm Bool.false_ne_true⟩
  | propose targets values signatures calldatas description =>
    obtain ⟨_, h1, h2⟩ := map_eq_ok.mp h
    cases h2
    exact (propose_rules h1).keeps _
  | castVote | castVoteWithReason =>
    obtain ⟨⟨_, _⟩, h1, h2⟩ := map_eq_ok.mp h
    cases h2
    exact castVoteWithEvent_rules h1 _
  | castVoteBySig id support sig =>
    obtain ⟨⟨_, _⟩, h1, h2⟩ := map_eq_ok.mp h
    cases h2
    simp only [NounsDAOLogicV2.castVoteBySig, bind_eq_ok] at h1
    obtain ⟨_, _, h1⟩ := h1
    exact castVoteWithEvent_rules h1 _
  | castRefundableVote | castRefundableVoteWithReason =>
    obtain ⟨⟨_, _⟩, h1, h2⟩ := map_eq_ok.mp h
    cases h2
    exact (castRefundableVoteInternal_ok h1).rules.keeps _
  | _ =>
    obtain ⟨⟨_, hs⟩, _⟩ := DaoOp.adjusted rfl h
    exact ⟨hs.votingDelay, fun _ => hs.checkpoints⟩

end

/-! ## entries -/

section
variable {P : Platform} {env : Env} {w w' : World P}

theorem GovBegin.rules {c : GovCall P} (h : GovBegin env c w w') :
    KeepsRules c.op.setsQuorum w.dao w'.dao := by
  cases h with
  | execute id d w' hop h hact =>
    rw [hact.dao.1]
    simp only [beginExecute, bind_eq_ok, pure_eq_ok] at h
    obtain ⟨_, _, _, _, rfl⟩ := h
    exact ⟨fun hd => hd, fun _ => rfl⟩
  | entry op w' x hop h =>
    rw [hop]
    cases op with
    | token | timelock =>
      obtain ⟨_, _, h2⟩ := map_eq_ok.mp h
      cases h2
      exact ⟨fun hd => hd, fun _ => rfl⟩
    | dao op =>
      obtain ⟨⟨_, _⟩, h1, h2⟩ := map_eq_ok.mp h
      cases h2
      exact DaoOp.rules h1
    | queue id =>
      obtain ⟨_, h1, h2⟩ := map_eq_ok.mp h
      cases h2
      simp only [NounsDAOLogicV2.queue, bind_eq_ok, pure_eq_ok] at h1
      obtain ⟨_, _, _, _, _, _, rfl⟩ := h1
      exact ⟨fun hd => hd, fun _ => rfl⟩
    | cancel id =>
      obtain ⟨_, h1, h2⟩ := map_eq_ok.mp h
      cases h2
      simp only [NounsDAOLogicV2.cancel, bind_eq_ok, pure_eq_ok] at h1
      obtain ⟨_, _, _, _, _, _, _, _, _, _, rfl⟩ := h1
      exact ⟨fun hd => hd, fun _ => rfl⟩
    | veto id =>
      obtain ⟨_, h1, h2⟩ := map_eq_ok.mp h
      cases h2
      simp only [NounsDAOLogicV2.veto, bind_eq_ok, pure_eq_ok] at h1
      obtain ⟨_, _, _, _, _, _, _, _, _, _, rfl⟩ := h1
      exact ⟨fun hd => hd, fun _ => rfl⟩

/-- of the two entries that take a proposal back only `cancel` says so -/
theorem GovBegin.cancels {c : GovCall P} (h : GovBegin env c w w') {id : Nat}
    (hw : c.op.withdraws = some id) (hlogs : w'.dao.logs = w.dao.logs ++ [.proposalCanceled id]) :
    c.op.cancels = some id := by
  cases h with
  | execute id' d w' hop h hact =>
    rw [hop] at hw
    cases hw
  | entry op w' x hop h =>
    rw [hop] at hw ⊢
    cases op with
    | token | timelock | dao | queue => cases hw
    | cancel id' =>
      cases hw
      rfl
    | veto id' =>
      obtain ⟨_, h1, h2⟩ := map_eq_ok.mp h
      cases h2
      simp only [NounsDAOLogicV2.veto, bind_eq_ok, pure_eq_ok] at h1
      obtain ⟨_, _, _, _, _, _, _, _, _, _, rfl⟩ := h1
      have hv := List.append_cancel_left hlogs
      simp at hv

theorem GovResume.rules (h : GovResume env w w') : SameRules w.dao w'.dao := by
  cases h with
  | executed id hid hex => exact ⟨rfl, rfl⟩
  | act w' id i tx hid hex h =>
    rw [(beginAction_ok h).2.2]
    exact ⟨rfl, rfl⟩
  | after x ok w' h =>
    cases x with
    | receiver | target =>
      obtain ⟨_, _, rfl⟩ := map_eq_ok.mp h
      exact ⟨rfl, rfl⟩
    | refund | withdraw =>
      cases h
      exact ⟨rfl, rfl⟩

end

/-! ## executions -/

/-- an execution is announced of a proposal that has been executed -/
theorem Deed.tells_executed {env : Env} {t : UNounsToken} {d d' : NounsDAOLogicV2} {x : Option Nat}
    {vs : List DaoEvent} (h : Deed env t d x vs d') {i : Nat} (hi : .proposalExecuted i ∈ vs) :
    i ≤ d.proposalCount ∧ (d.proposals i).executed = true := by
  cases h with
  | settings vs d' h hcps hlogs hquiet => cases (hquiet _ hi).about
  | params old vs d' h hold hcps hbounds hlogs habout => cases habout _ hi
  | propose => simp [Proposal.created] at hi
  | vote | queue | cancel | veto | execute => simp at hi
  | executed id hid hex =>
    obtain rfl : i = id := by simpa using hi
    exact ⟨hid, hex⟩

/-- what was announced to be executed is, as long as nothing that was executed is not any more -/
theorem Deed.told {env : Env} {t : UNounsToken} {d d' : NounsDAOLogicV2} {x : Option Nat}
    {vs : List DaoEvent} (h : Deed env t d x vs d') {i : Nat}
    (hexec : i ≤ d.proposalCount → (d.proposals i).executed = true → (d'.proposals i).executed = true)
    (hbefore : .proposalExecuted i ∈ d.logs → i ≤ d.proposalCount ∧ (d.proposals i).executed = true)
    (hi : .proposalExecuted i ∈ d'.logs) : (d'.proposals i).executed = true := by
  rw [h.logs] at hi
  have hdone : i ≤ d.proposalCount ∧ (d.proposals i).executed = true := by
    rcases List.mem_append.mp hi with hm | hm
    · exact hbefore hm
    · exact h.tells_executed hm
  exact hexec hdone.1 hdone.2

/-- the event announces the execution of proposal `i` -/
def DaoEvent.executes (i : Nat) : DaoEvent → Bool
  | .proposalExecuted id => id = i
  | _ => false

def NounsDAOLogicV2.announcements (d : NounsDAOLogicV2) (i : Nat) : Nat :=
  d.logs.countP (DaoEvent.executes i)

def NounsDAOLogicV2.executions (d : NounsDAOLogicV2) (i : Nat) : Nat :=
  if i ≤ d.proposalCount ∧ (d.proposals i).executed = true then 1 else 0

/-- between `d` and `d'` as many executions are announced as begin, but for `n` that are not yet -/
def Announces (n : Nat → Nat) (d d' : NounsDAOLogicV2) : Prop :=
  ∀ i, d'.announcements i + d.executions i + n i = d.announcements i + d'.executions i

theorem Announces.trans {n : Nat → Nat} {a b c : NounsDAOLogicV2} (h1 : Announces n a b)
    (h2 : Announces 0 b c) : Announces n a c := fun i => by
  have e1 := h1 i
  have e2 := h2 i
  simp only [Pi.zero_apply] at e2
  omega

theorem countP_executes {vs : List DaoEvent} {i : Nat} (h : .proposalExecuted i ∉ vs) :
    vs.countP (DaoEvent.executes i) = 0 := by
  rw [List.countP_eq_zero]
  intro v hv he
  cases v with
  | proposalExecuted id =>
    have hid : id = i := by simpa [DaoEvent.executes] using he
    exact h (hid ▸ hv)
  | _ => cases he

theorem announced_of_executed {d : NounsDAOLogicV2} {i : Nat} (h : d.announcements i = d.executions i)
    (hle : i ≤ d.proposalCount) (hx : (d.proposals i).executed = true) : .proposalExecuted i ∈ d.logs := by
  by_contra hn
  unfold NounsDAOLogicV2.announcements NounsDAOLogicV2.executions at h
  rw [countP_executes hn, if_pos ⟨hle, hx⟩] at h
  cases h

/-- nothing is executed, and nothing announced -/
theorem Announces.of_silent {d d' : NounsDAOLogicV2} (vs : List DaoEvent)
    (hx : ∀ i, d'.executions i = d.executions i) (hlogs : d'.logs = d.logs ++ vs)
    (hsilent : ∀ i, .proposalExecuted i ∉ vs) : Announces 0 d d' := fun i => by
  unfold NounsDAOLogicV2.announcements
  rw [hlogs, List.countP_append, countP_executes (hsilent i), hx]
  rfl

theorem NounsDAOLogicV2.SetsProposal.executions {d d' : NounsDAOLogicV2} {id : Nat} {p : Proposal}
    (h : SetsProposal d d' id p) (hp : p.executed = (d.proposals id).executed) (i : Nat) :
    d'.executions i = d.executions i := by
  have hx : (d'.proposals i).executed = (d.proposals i).executed := by
    by_cases e : i = id
    · subst e
      rw [h.self, hp]
    · rw [h.other e]
  unfold NounsDAOLogicV2.executions
  rw [hx, h.proposalCount]

/-- a new proposal has not been executed -/
theorem propose_executions {env : Env} {sender : Address} {t : UNounsToken} {d d' : NounsDAOLogicV2}
    {targets : List Address} {values : List Nat} {signatures : List String} {calldatas : List Bytes}
    {description : String}
    (h : d.propose env sender t targets values signatures calldatas description = .ok d') (i : Nat) :
    d'.executions i = d.executions i := by
  obtain ⟨hcount, hnew⟩ := propose_new h
  unfold NounsDAOLogicV2.executions
  by_cases e : i = d.proposalCount + 1
  · subst e
    have h1 : ¬ (d.proposalCount + 1 ≤ d'.proposalCount ∧
        (d'.proposals (d.proposalCount + 1)).executed = true) := fun hx => by
      rw [hnew] at hx
      cases hx.2
    have h2 : ¬ (d.proposalCount + 1 ≤ d.proposalCount ∧
        (d.proposals (d.proposalCount + 1)).executed = true) := fun hx => by omega
    rw [if_neg h1, if_neg h2]
  · have hle : i ≤ d'.proposalCount ↔ i ≤ d.proposalCount := by omega
    rw [propose_other h e]
    exact if_congr (and_congr_left fun _ => hle) rfl rfl

/-- only `execute` executes -/
theorem GovEntry.executions {P : Platform} {env : Env} {msg : Msg} {w w' : World P} {op : GovEntry}
    {x : Option GovExternal} (h : op.enter env msg w = .ok (w', x)) (i : Nat) :
    w'.dao.executions i = w.dao.executions i := by
  cases op with
  | token | timelock =>
    obtain ⟨_, _, h2⟩ := map_eq_ok.mp h
    cases h2
    rfl
  | dao op =>
    obtain ⟨⟨d, _⟩, h1, h2⟩ := map_eq_ok.mp h
    cases h2
    show d.executions i = _
    rcases (DaoOp.apply_ok h1).1 with ⟨_, hs⟩ | ⟨_, _, _, _, _, _, hp⟩ | ⟨_, _, _, _, hv⟩
    · unfold NounsDAOLogicV2.executions
      rw [hs.proposals, hs.proposalCount]
    · exact propose_executions hp i
    · obtain ⟨votes, _, _, _, _, hs⟩ := hv.sets
      exact hs.executions (withVote_flags _ _ _ _).2.2.1 i
  | queue id =>
    obtain ⟨_, h1, h2⟩ := map_eq_ok.mp h
    cases h2
    exact (queue_ok h1).2.2.executions rfl i
  | cancel id =>
    obtain ⟨_, h1, h2⟩ := map_eq_ok.mp h
    cases h2
    exact (cancel_ok h1).2.2.executions rfl i
  | veto id =>
    obtain ⟨_, h1, h2⟩ := map_eq_ok.mp h
    cases h2
    exact (veto_ok h1).2.2.executions rfl i

section
variable {P : Platform} {env : Env}

theorem announces_summary : Summary
    (fun c c' : GovConfig P => Announces 0 c.now.dao c'.now.dao) (fun _ _ => True) where
  refl c := fun i => rfl
  trans a b c h1 h2 := h1.trans h2
  midway _ _ _ := trivial
  through _ _ _ _ _ := trivial

/-- what follows on the external call of an entry announces nothing -/
theorem GovExternal.after_announces {x : GovExternal} {ok : Bool} {w w' : World P}
    (h : x.after ok w = .ok w') : Announces 0 w.dao w'.dao := by
  cases x with
  | receiver | target =>
    obtain ⟨_, _, rfl⟩ := map_eq_ok.mp h
    exact fun i => rfl
  | refund | withdraw =>
    cases h
    exact .of_silent [_] (fun i => rfl) rfl fun i => by simp

/-- the one proposal that is being executed -/
def executing (id : Nat) : Nat → Nat := update 0 id 1

theorem executeActions_announces {c : GovConfig P} {id : Nat} (is : List Nat) :
    ∀ d : GovConfig P, Announces (executing id) c.now.dao d.now.dao →
      (executeActions env id is d.now).Meets
        (fun c c' => Announces 0 c.now.dao c'.now.dao) (fun _ _ => True) c d.past := by
  induction is with
  | nil =>
    intro d hd i
    have h := hd i
    have hlogs : (d.now.dao.emit (.proposalExecuted id)).announcements i
        = d.now.dao.announcements i + executing id i := by
      show (d.now.dao.logs ++ [_]).countP _ = _
      rw [List.countP_append, List.countP_singleton]
      by_cases e : i = id
      · subst e
        simp [DaoEvent.executes, executing, NounsDAOLogicV2.announcements]
      · simp [DaoEvent.executes, executing, NounsDAOLogicV2.announcements, e, Ne.symm e]
    show (d.now.dao.emit (.proposalExecuted id)).announcements i + _ + 0
      = _ + d.now.dao.executions i
    rw [hlogs]
    omega
  | cons i is ih =>
    intro d hd
    unfold executeActions
    cases hb : beginAction env d.now id i with
    | error e => trivial
    | ok r =>
      obtain ⟨w, tx⟩ := r
      have hw : w.dao = d.now.dao := by rw [(beginAction_ok hb).2.2]
      refine ⟨trivial, fun d' hd' => ?_, ?_⟩
      · cases he : d'.now.timelock.endExecute tx true with
        | error e => trivial
        | ok tl =>
          simp only [he]
          exact ih ⟨d'.past, { d'.now with timelock := tl }⟩ (hd.trans (hw ▸ hd'))
      · cases he : w.timelock.endExecute tx false with
        | error e => trivial
        | ok tl =>
          simp only [he]
          exact ih ⟨d.past, { w with timelock := tl }⟩ (by rw [hw]; exact hd)

/-- the beginning of an execution, which is announced at its end -/
theorem beginExecute_announces {d d' : NounsDAOLogicV2} {id : Nat} (h : d.beginExecute env id = .ok d') :
    Announces (executing id) d d' := by
  obtain ⟨hstate, hset⟩ := beginExecute_ok h
  have hlogs : d'.logs = d.logs := by
    simp only [beginExecute, bind_eq_ok, pure_eq_ok] at h
    obtain ⟨_, _, _, _, rfl⟩ := h
    rfl
  intro i
  unfold NounsDAOLogicV2.announcements NounsDAOLogicV2.executions
  rw [hlogs, hset.proposalCount]
  by_cases e : i = id
  · subst e
    have h0 : ¬ (i ≤ d.proposalCount ∧ (d.proposals i).executed = true) := fun hx => by
      rw [(state_queued hstate).2.2.1] at hx
      cases hx.2
    have h1 : i ≤ d.proposalCount ∧ ({ d.proposals i with executed := true } : Proposal).executed = true :=
      ⟨state_le hstate, rfl⟩
    have hone : executing i i = 1 := update_self _ _ _
    rw [hset.self, if_neg h0, if_pos h1, hone]
  · have h0 : executing id i = 0 := update_of_ne e _ _
    rw [hset.other e, h0]
    rfl

/-- **A call announces what it executes**, and nothing else. -/
theorem GovCall.announces (env : Env) (op : GovCall P) (c : GovConfig P) :
    (op.code env c.now).Meets (fun c c' => Announces 0 c.now.dao c'.now.dao) (fun _ _ => True) c
      (c.enter env op) := by
  obtain ⟨msg, op, hout⟩ := op
  cases op with
  | entry op =>
    refine Code.once_meets_of announces_summary (fun w x h => ?_) fun x ok d w h => ?_
    · obtain ⟨vs, hd, hsilent⟩ := GovBegin.silent_deed (c := ⟨msg, .entry op, hout⟩)
        (.entry op w x rfl h)
      exact .of_silent _ (GovEntry.executions h) hd.logs fun i hi => hsilent _ hi
    · exact GovExternal.after_announces h
  | execute id =>
    show Code.Meets _ _ _ (executeProposal env c.now id) _
    unfold executeProposal
    cases h : c.now.dao.beginExecute env id with
    | error e => trivial
    | ok d => exact executeActions_announces _ ⟨_, { c.now with dao := d }⟩ (beginExecute_announces h)

/-- an execution that is announced, or not begun, at the start -/
theorem runs_announces {w : World P} {i : Nat} (hw : w.dao.announcements i = w.dao.executions i) {e : Env}
    {ts : List (Tx Env (GovCall P))} (hch : (e :: ts.map Tx.env).IsChain (· ≤ ·)) :
    (runTxs GovCall.code ts ⟨[], w⟩).2.now.dao.announcements i
      = (runTxs GovCall.code ts ⟨[], w⟩).2.now.dao.executions i := by
  refine (runTxs_meets (J := fun _ (c : GovConfig P) =>
      c.now.dao.announcements i = c.now.dao.executions i)
    (K := fun _ _ => True) (fun _ => announces_summary) GovCall.announces
    (fun e c c' hJ hR => ?_) (fun _ _ _ _ _ => trivial)
    (fun e e' c hJ he => hJ) ts e ⟨[], w⟩ hch hw).2
  have h2 := hR i
  simp only [Pi.zero_apply] at h2
  omega

/-- nothing has been executed, or announced, in a new DAO -/
theorem GovSetup.deploy_announced {g : GovSetup} {e : Env} {w : World P} (hw : g.deploy P e = .ok w)
    (i : Nat) : w.dao.announcements i = w.dao.executions i := by
  have hx : w.dao.executions i = 0 := by
    unfold NounsDAOLogicV2.executions
    rw [(GovSetup.deploy_fresh hw).proposals]
    exact if_neg fun h => nomatch h.2
  rw [hx]
  simp only [GovSetup.deploy, bind_eq_ok, pure_eq_ok] at hw
  obtain ⟨_, _, d, hd, rfl⟩ := hw
  refine countP_executes ?_
  rw [(deploy_exact hd).2.2.2]
  simp

/-- **After a transaction every execution has been announced, once.** -/
theorem runs_announced {g : GovSetup} {e : Env} {w : World P} (hw : g.deploy P e = .ok w)
    {ts : List (Tx Env (GovCall P))} (hch : (e :: ts.map Tx.env).IsChain (· ≤ ·)) (i : Nat) :
    (runTxs GovCall.code ts ⟨[], w⟩).2.now.dao.announcements i
      = (runTxs GovCall.code ts ⟨[], w⟩).2.now.dao.executions i :=
  runs_announces (GovSetup.deploy_announced hw i) hch

end
end UNouns
