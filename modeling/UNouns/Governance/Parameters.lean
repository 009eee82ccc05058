import UNouns.Governance.Quorum
import UNouns.Lib.Lookup

/-!
# The quorum parameters of a block

* `getDynamicQuorumParamsAt_lookup`   the lookup as it goes through the array, and what it reads there;
* `paramWrites`                       the parameters written in a run, each with its block;
* `Written`                           the checkpoints are those writes, and nothing else;
* `getDynamicQuorumParamsAt_exact`    so the lookup gives the last write not after a block, for good.
-/

set_option linter.unusedVariables false

namespace UNouns
open Function Relation Reentrant Checkpoints NounsDAOLogicV2

namespace NounsDAOLogicV2

/-! ## the lookup -/

/-- `quorumParamsCheckpoints[i]`, for an index within the array -/
def checkpointAt (d : NounsDAOLogicV2) (i : Nat) : Checkpoint DynamicQuorumParams :=
  d.quorumParamsCheckpoints[i]?.getD ⟨0, ⟨0, 0, 0⟩⟩

theorem checkpointAt_eq (d : NounsDAOLogicV2) {i : Nat} (hi : i < d.quorumParamsCheckpoints.length) :
    d.quorumParamsCheckpoints[i]? = some (d.checkpointAt i) := by
  unfold checkpointAt
  rw [List.getElem?_eq_getElem hi]
  rfl

/-- what the lookup finds, or the parameters before the first checkpoint -/
def foundParams (d : NounsDAOLogicV2) : Option DynamicQuorumParams → Result DynamicQuorumParams
  | some params => pure params
  | none => d.quorumParamsWithoutCheckpoint

theorem getDynamicQuorumParamsAt_lookup {d : NounsDAOLogicV2} {b : Nat} (hb : b < 2^32) :
    d.getDynamicQuorumParamsAt b
      = d.foundParams (lookup d.checkpointAt d.quorumParamsCheckpoints.length b).1 := by
  have h32 : b ≤ 2^32 - 1 := by omega
  rw [lookup_eq (fun i hi => d.checkpointAt_eq hi) b]
  simp only [getDynamicQuorumParamsAt, safe32, require, if_pos h32]
  show (match prior d.quorumParamsCheckpoints b with
    | some params => pure params
    | none => d.quorumParamsWithoutCheckpoint : Result DynamicQuorumParams) = _
  cases prior d.quorumParamsCheckpoints b <;> rfl

end NounsDAOLogicV2

/-! ## the writes of a run -/

/-- the parameters that a successful call writes -/
def DaoOp.written (env : Env) (d : NounsDAOLogicV2) : DaoOp → Option DynamicQuorumParams
  | .initializeV2 _ _ _ _ _ _ params => some params
  | .setMinQuorumVotesBPS n => (d.getDynamicQuorumParamsAt env.number).toOption.map
      ({ · with minQuorumVotesBPS := n })
  | .setMaxQuorumVotesBPS n => (d.getDynamicQuorumParamsAt env.number).toOption.map
      ({ · with maxQuorumVotesBPS := n })
  | .setQuorumCoefficient n => (d.getDynamicQuorumParamsAt env.number).toOption.map
      ({ · with quorumCoefficient := n })
  | .setDynamicQuorumParams a b c => some ⟨a, b, c⟩
  | _ => none

section
variable {P : Platform}

def recordWritten (r : GovRecord P) : Option (Checkpoint DynamicQuorumParams) :=
  match r.op.op with
  | .entry (.dao op) => (op.written r.env r.pre.dao).map (⟨r.env.number, ·⟩)
  | _ => none

/-- what has been written by the start, which `initialize` does, and what in the run -/
def paramWrites (w : World P) (past : List (GovRecord P)) : List (Checkpoint DynamicQuorumParams) :=
  w.dao.quorumParamsCheckpoints ++ past.filterMap recordWritten

/-! ## what a call writes -/

/-- the checkpoints after a call that writes `params`, if any -/
def writeSome (cps : List (Checkpoint DynamicQuorumParams)) (b : Nat) :
    Option DynamicQuorumParams → List (Checkpoint DynamicQuorumParams)
  | some params => write cps b params
  | none => cps

theorem castVoteWithEvent_checkpoints {env : Env} {t : UNounsToken} {d d' : NounsDAOLogicV2}
    {voter : Address} {id support votes : Nat} {reason : String}
    (h : d.castVoteWithEvent env t voter id support reason = .ok (d', votes)) :
    d'.quorumParamsCheckpoints = d.quorumParamsCheckpoints := by
  obtain ⟨d1, hv, rfl⟩ := castVoteWithEvent_exact h
  exact (castVoteInternal_ok hv).2.2.2.2.checkpoints

theorem castRefundableVoteInternal_checkpoints {env : Env} {t : UNounsToken} {d d' : NounsDAOLogicV2}
    {sender : Address} {id support gasUsed : Nat} {reason : String} {x : Option Payment}
    (h : d.castRefundableVoteInternal env sender t id support reason gasUsed = .ok (d', x)) :
    d'.quorumParamsCheckpoints = d.quorumParamsCheckpoints := by
  simp only [castRefundableVoteInternal, bind_eq_ok, pure_eq_ok] at h
  obtain ⟨⟨d1, v⟩, h1, h2⟩ := h
  rw [← castVoteWithEvent_checkpoints h1]
  simp only [beginRefund] at h2
  split_ifs at h2 <;> cases h2 <;> rfl

theorem DaoOp.apply_checkpoints {env : Env} {msg : Msg} {t : UNounsToken} {d d' : NounsDAOLogicV2}
    {op : DaoOp} {x : Option GovExternal} (h : op.apply P env msg t d = .ok (d', x)) :
    d'.quorumParamsCheckpoints
      = writeSome d.quorumParamsCheckpoints env.number (op.written env d) := by
  cases op with
  | initializeV2 timelock nouns vetoer period delay threshold params =>
    obtain ⟨_, h1, h2⟩ := map_eq_ok.mp h
    cases h2
    obtain ⟨old, _, _, rfl⟩ := initializeV2_exact h1
    rfl
  | propose targets values signatures calldatas description =>
    obtain ⟨_, h1, h2⟩ := map_eq_ok.mp h
    cases h2
    obtain ⟨_, _, _, _, e⟩ := propose_ok h1
    rw [e]
    rfl
  | castVote | castVoteWithReason =>
    obtain ⟨⟨_, _⟩, h1, h2⟩ := map_eq_ok.mp h
    cases h2
    exact castVoteWithEvent_checkpoints h1
  | castVoteBySig id support sig =>
    obtain ⟨⟨_, _⟩, h1, h2⟩ := map_eq_ok.mp h
    cases h2
    simp only [NounsDAOLogicV2.castVoteBySig, bind_eq_ok] at h1
    obtain ⟨_, _, h1⟩ := h1
    exact castVoteWithEvent_checkpoints h1
  | castRefundableVote | castRefundableVoteWithReason =>
    obtain ⟨⟨_, _⟩, h1, h2⟩ := map_eq_ok.mp h
    cases h2
    exact castRefundableVoteInternal_checkpoints h1
  | setMinQuorumVotesBPS n =>
    obtain ⟨_, h1, h2⟩ := map_eq_ok.mp h
    cases h2
    simp only [NounsDAOLogicV2.setMinQuorumVotesBPS, bind_eq_ok, require_eq_ok, pure_eq_ok] at h1
    obtain ⟨_, _, old, hold, _, _, _, _, d1, hd, rfl⟩ := h1
    simp only [DaoOp.written, hold]
    exact congrArg quorumParamsCheckpoints (writeQuorumParamsCheckpoint_ok hd)
  | setMaxQuorumVotesBPS n =>
    obtain ⟨_, h1, h2⟩ := map_eq_ok.mp h
    cases h2
    simp only [NounsDAOLogicV2.setMaxQuorumVotesBPS, bind_eq_ok, require_eq_ok, pure_eq_ok] at h1
    obtain ⟨_, _, old, hold, _, _, _, _, d1, hd, rfl⟩ := h1
    simp only [DaoOp.written, hold]
    exact congrArg quorumParamsCheckpoints (writeQuorumParamsCheckpoint_ok hd)
  | setQuorumCoefficient n =>
    obtain ⟨_, h1, h2⟩ := map_eq_ok.mp h
    cases h2
    simp only [NounsDAOLogicV2.setQuorumCoefficient, bind_eq_ok, pure_eq_ok] at h1
    obtain ⟨_, _, old, hold, d1, hd, rfl⟩ := h1
    simp only [DaoOp.written, hold]
    exact congrArg quorumParamsCheckpoints (writeQuorumParamsCheckpoint_ok hd)
  | setDynamicQuorumParams a b c =>
    obtain ⟨_, h1, h2⟩ := map_eq_ok.mp h
    cases h2
    obtain ⟨old, _, _, rfl⟩ := setDynamicQuorumParams_exact h1
    rfl
  | _ =>
    obtain ⟨⟨_, hs⟩, _⟩ := DaoOp.adjusted rfl h
    exact hs.checkpoints

theorem GovBegin.checkpoints {env : Env} {c : GovCall P} {w w' : World P} (h : GovBegin env c w w') :
    w'.dao.quorumParamsCheckpoints = match recordWritten ⟨env, w, c⟩ with
      | some cp => write w.dao.quorumParamsCheckpoints cp.fromBlock cp.val
      | none => w.dao.quorumParamsCheckpoints := by
  cases h with
  | execute id d w' hop h hact =>
    rw [hact.dao.1, recordWritten, hop]
    simp only [beginExecute, bind_eq_ok, require_eq_ok, pure_eq_ok] at h
    obtain ⟨s, hs, _, rfl, rfl⟩ := h
    rfl
  | entry op w' x hop h =>
    rw [recordWritten, hop]
    cases op with
    | token op | timelock op =>
      obtain ⟨_, _, h2⟩ := map_eq_ok.mp h
      cases h2
      rfl
    | dao op =>
      obtain ⟨⟨_, _⟩, h1, h2⟩ := map_eq_ok.mp h
      cases h2
      refine (DaoOp.apply_checkpoints h1).trans ?_
      show _ = match (op.written env w.dao).map (Checkpoint.mk env.number) with
        | some cp => write w.dao.quorumParamsCheckpoints cp.fromBlock cp.val
        | none => w.dao.quorumParamsCheckpoints
      cases op.written env w.dao <;> rfl
    | queue id =>
      obtain ⟨_, h1, h2⟩ := map_eq_ok.mp h
      cases h2
      simp only [NounsDAOLogicV2.queue, bind_eq_ok, require_eq_ok, pure_eq_ok] at h1
      obtain ⟨s, hs, _, rfl, tl', _, rfl⟩ := h1
      rfl
    | cancel id =>
      obtain ⟨_, h1, h2⟩ := map_eq_ok.mp h
      cases h2
      simp only [NounsDAOLogicV2.cancel, bind_eq_ok, revertUnless_eq_ok, pure_eq_ok] at h1
      obtain ⟨s, hs, _, hne, _, _, _, _, tl', _, rfl⟩ := h1
      rfl
    | veto id =>
      obtain ⟨_, h1, h2⟩ := map_eq_ok.mp h
      cases h2
      simp only [NounsDAOLogicV2.veto, bind_eq_ok, revertUnless_eq_ok, pure_eq_ok] at h1
      obtain ⟨_, _, _, _, s, hs, _, hne, tl', _, rfl⟩ := h1
      rfl

theorem GovResume.checkpoints {env : Env} {w w' : World P} (h : GovResume env w w') :
    w'.dao.quorumParamsCheckpoints = w.dao.quorumParamsCheckpoints := by
  cases h with
  | executed id hid hex => rfl
  | act w' id i tx hid hex h => rw [(beginAction_ok h).2.2]
  | after x ok w' h =>
    cases x with
    | receiver x | target x =>
      obtain ⟨_, _, rfl⟩ := map_eq_ok.mp h
      rfl
    | refund p | withdraw p =>
      cases h
      rfl

/-! ## the invariant -/

/-- the checkpoints are what has been written, in order, up to now -/
structure Written (w : World P) (e : Env) (c : GovConfig P) : Prop where
  eq : c.now.dao.quorumParamsCheckpoints = writes (paramWrites w c.past)
  inOrder : InOrder (paramWrites w c.past)
  le : ∀ x ∈ paramWrites w c.past, x.fromBlock ≤ e.number

theorem paramWrites_enter (w : World P) (past : List (GovRecord P)) (r : GovRecord P) :
    paramWrites w (past ++ [r]) = paramWrites w past ++ (recordWritten r).toList := by
  unfold paramWrites
  rw [List.filterMap_append, List.append_assoc]
  cases h : recordWritten r <;> simp [h]

theorem recordWritten_fromBlock {r : GovRecord P} {cp : Checkpoint DynamicQuorumParams}
    (h : recordWritten r = some cp) : cp.fromBlock = r.env.number := by
  unfold recordWritten at h
  split at h
  · obtain ⟨_, _, rfl⟩ := Option.map_eq_some_iff.mp h
    rfl
  · cases h

theorem Written.move {w : World P} {e : Env} {c c' : GovConfig P} (h : Written w e c)
    (hm : GovExact e c c') : Written w e c' := by
  cases hm with
  | resume w' hr => exact ⟨(GovResume.checkpoints hr).trans h.eq, h.inOrder, h.le⟩
  | enter op w' hb =>
    have hcps := GovBegin.checkpoints hb
    have hpast := paramWrites_enter w c.past ⟨e, c.now, op⟩
    show Written w e ⟨c.past ++ [⟨e, c.now, op⟩], w'⟩
    cases hr : recordWritten ⟨e, c.now, op⟩ with
    | none =>
      rw [hr] at hcps hpast
      rw [Option.toList_none, List.append_nil] at hpast
      exact ⟨by rw [hpast]; exact hcps.trans h.eq, hpast ▸ h.inOrder, hpast ▸ h.le⟩
    | some cp =>
      rw [hr] at hcps hpast
      have hn : cp.fromBlock = e.number := recordWritten_fromBlock hr
      rw [Option.toList_some] at hpast
      refine ⟨?_, ?_, ?_⟩
      · rw [hpast, writes_concat, ← h.eq]
        exact hcps
      · rw [hpast]
        refine List.pairwise_append.mpr ⟨h.inOrder, List.pairwise_singleton _ _, fun x hx y hy => ?_⟩
        rw [List.mem_singleton.mp hy, hn]
        exact h.le x hx
      · rw [hpast]
        intro x hx
        rcases List.mem_append.mp hx with hx | hx
        · exact h.le x hx
        · rw [List.mem_singleton.mp hx, hn]

theorem Start.written {e : Env} {w : World P} (h : Start e w) : Written w e ⟨[], w⟩ := by
  have hnil : paramWrites w [] = w.dao.quorumParamsCheckpoints := List.append_nil _
  have hcps : w.dao.quorumParamsCheckpoints = [] ∨
      ∃ params : DynamicQuorumParams, w.dao.quorumParamsCheckpoints = [⟨e.number, params⟩] := by
    cases h with
    | fresh g w h =>
      simp only [GovSetup.deploy, bind_eq_ok, pure_eq_ok] at h
      obtain ⟨_, _, d, hd, rfl⟩ := h
      exact .inr ⟨_, (deploy_exact hd).2.2.1⟩
    | upgraded w h1 h2 => exact .inl rfl
  rcases hcps with hcps | ⟨params, hcps⟩
  · refine ⟨?_, ?_, ?_⟩ <;> rw [hnil, hcps]
    · rfl
    · exact List.Pairwise.nil
    · exact fun x hx => absurd hx List.not_mem_nil
  · refine ⟨?_, ?_, ?_⟩ <;> rw [hnil, hcps]
    · rfl
    · exact List.pairwise_singleton _ _
    · intro x hx
      rw [List.mem_singleton.mp hx]

theorem runs_written {w : World P} {x y : Env × GovConfig P} (h : ReflTransGen (Timed GovExact) x y)
    (hx : Written w x.1 x.2) : Written w y.1 y.2 :=
  Timed.invariant (I := fun e c => Written w e c) (fun e c c' hc hm => hc.move hm)
    (fun e e' c hc he => ⟨hc.eq, hc.inOrder, fun x hx =>
      Nat.le_trans (hc.le x hx) (Env.le_def.mp he).1⟩) h hx

/-! ## the lookup over runs -/

/-- **The lookup of quorum parameters is exact.**  Wherever a run is looked at, the lookup at a block
reads only checkpoints that have been written, and gives the parameters of the last write not after
the block, or the fixed quorum where there is none; and once the block is over this stays so. -/
theorem getDynamicQuorumParamsAt_exact (e : Env) (w : World P) (hw : Start e w)
    (ts us : List (Tx Env (GovCall P))) (hch : (e :: (ts ++ us).map Tx.env).IsChain (· ≤ ·))
    (b : Nat) (hb : b < 2^32) :
    (∀ o ∈ observations GovCall.code e (ts ++ us) ⟨[], w⟩,
      let d := o.2.now.dao
      (∃ params reads, lookup d.checkpointAt d.quorumParamsCheckpoints.length b = (params, reads) ∧
        d.getDynamicQuorumParamsAt b = d.foundParams params ∧
        ∀ i ∈ reads, i < d.quorumParamsCheckpoints.length) ∧
      d.getDynamicQuorumParamsAt b = .ok ((lastWrite (paramWrites w o.2.past) b).getD
        ⟨.ofNat d.quorumVotesBPS, .ofNat d.quorumVotesBPS, 0⟩)) ∧
    ((∀ t ∈ us, b < t.env.number) →
      let cut := (runTxs GovCall.code ts ⟨[], w⟩).2
      ∀ o ∈ observations GovCall.code (lastEnv e ts) us cut,
        o.2.now.dao.getDynamicQuorumParamsAt b = cut.now.dao.getDynamicQuorumParamsAt b) := by
  have hfollow := fun env (op : GovCall P) (c : GovConfig P) => op.follows_exact env c
  refine ⟨fun o ho => ⟨⟨_, _, rfl, getDynamicQuorumParamsAt_lookup hb, lookup_lt _ _ b⟩, ?_⟩, ?_⟩
  · have hr := observations_timed hfollow hch ho
    have hs := runs_quorumSound hr hw.quorumSound
    have hwritten := runs_written hr hw.written
    rw [hs.params_eq hb, hwritten.eq, valueAt_writes _ b hwritten.inOrder]
  · intro hus cut o ho
    obtain ⟨hch1, hch2⟩ := isChain_cut hch
    have hcut := runs_quorumSound (runTxs_timed hfollow ts e ⟨[], w⟩ hch1).2 hw.quorumSound
    exact (observations_since hch2 hus hcut hb (Nat.zero_le _) ho).params

end

/-- two writes in block 8, and one in block 10: block 8 keeps the last of its own -/
theorem getDynamicQuorumParamsAt_exact_run :
    let cut := (runTxs GovCall.code tunedTxs ⟨[], sampleWorld⟩).2
    let last := (runTxs GovCall.code raisedTxs cut).2
    (paramWrites sampleWorld last.past).map (·.fromBlock) = [6, 8, 8, 10] ∧
      last.now.dao.getDynamicQuorumParamsAt 8 = cut.now.dao.getDynamicQuorumParamsAt 8 := by
  intro cut last
  refine ⟨by decide +kernel, ?_⟩
  exact (getDynamicQuorumParamsAt_exact (.block 6 60) sampleWorld
    (.fresh sampleSetup _ sampleWorld_deployed) tunedTxs raisedTxs
    (by simp [tunedTxs, proposeTxs, raisedTxs, Env.le_def, Env.block]) 8 (by decide)).2
    (by simp [raisedTxs, Env.block]) _ (final_mem_observations _ _ _ _)

end UNouns
