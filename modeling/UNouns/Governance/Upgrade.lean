import UNouns.Governance.SystemV1
import UNouns.Governance.Deeds
import UNouns.Lib.Guard

/-!
# The upgrade from the first version of the DAO to the second

The proxy keeps its storage and changes its code.  The proposals of the first version have no total
supply and no creation block then, by which the second version knows them.

* `upgrade`                 the storage of the first version as the second reads it;
* `DeedV1`                  what the first version does, event by event;
* `SoundV1`                 what it keeps in every run (`observations_agedV1`): proposals carry their
                            own ids, which the second version relies on, and no event is about one
                            that has not been made, or about a parameter of the second version.
-/

set_option linter.unusedVariables false

namespace UNouns
open Function Relation Reentrant Checkpoints

/-! ## the storage -/

/-- the fields the second version has added are zero -/
def ProposalV1.upgrade (p : ProposalV1) : Proposal where
  id := p.id
  proposer := p.proposer
  proposalThreshold := p.proposalThreshold
  quorumVotes := p.quorumVotes
  eta := p.eta
  targets := p.targets
  values := p.values
  signatures := p.signatures
  calldatas := p.calldatas
  startBlock := p.startBlock
  endBlock := p.endBlock
  forVotes := p.forVotes
  againstVotes := p.againstVotes
  abstainVotes := p.abstainVotes
  canceled := p.canceled
  vetoed := p.vetoed
  executed := p.executed
  receipts := p.receipts
  totalSupply := 0
  creationBlock := 0

/-- the same storage under the second version; `logs` begins anew -/
def NounsDAOLogicV1.upgrade (d : NounsDAOLogicV1) : NounsDAOLogicV2 where
  admin := d.admin
  pendingAdmin := d.pendingAdmin
  vetoer := d.vetoer
  pendingVetoer := 0
  votingDelay := d.votingDelay
  votingPeriod := d.votingPeriod
  proposalThresholdBPS := d.proposalThresholdBPS
  quorumVotesBPS := d.quorumVotesBPS
  proposalCount := d.proposalCount
  timelock := d.timelock
  nouns := d.nouns
  proposals := fun i => (d.proposals i).upgrade
  latestProposalIds := d.latestProposalIds
  quorumParamsCheckpoints := []
  balance := 0
  logs := []

def WorldV1.upgrade {P : Platform} (w : WorldV1 P) : World P :=
  ⟨w.token, w.timelock, w.dao.upgrade⟩

theorem ProposalV1.upgrade_withVote (p : ProposalV1) (voter : Address) (support votes : Nat) :
    (p.withVote voter support votes).upgrade
      = NounsDAOLogicV2.Proposal.withVote p.upgrade voter support votes := by
  unfold ProposalV1.withVote NounsDAOLogicV2.Proposal.withVote
  split_ifs <;> rfl

theorem ProposalV1.withVote_header (p : ProposalV1) (voter : Address) (support votes : Nat) :
    (p.withVote voter support votes).id = p.id ∧
      (p.withVote voter support votes).proposer = p.proposer := by
  unfold ProposalV1.withVote
  split_ifs <;> exact ⟨rfl, rfl⟩

/-! ## deeds of the first version -/

namespace NounsDAOLogicV1

/-- the events that the second version has too -/
def common (us : List DaoEventV1) : List DaoEvent :=
  us.filterMap fun
    | .common v => some v
    | .quorumVotesBPSSet _ _ => none

def events (d : NounsDAOLogicV1) : List DaoEvent := common d.logs

/-- the fixed quorum is within its bounds -/
def QuorumInBounds (d : NounsDAOLogicV1) : Prop :=
  MIN_QUORUM_VOTES_BPS ≤ d.quorumVotesBPS ∧ d.quorumVotesBPS ≤ MAX_QUORUM_VOTES_BPS

/-- the rules stay within their bounds -/
structure KeepsRules (d d' : NounsDAOLogicV1) : Prop where
  votingDelay : MIN_VOTING_DELAY ≤ d.votingDelay → MIN_VOTING_DELAY ≤ d'.votingDelay
  quorumVotesBPS : d.QuorumInBounds → d'.QuorumInBounds

theorem keepsRules_same {d d' : NounsDAOLogicV1} (h1 : d'.votingDelay = d.votingDelay)
    (h2 : d'.quorumVotesBPS = d.quorumVotesBPS) : d.KeepsRules d' := by
  refine ⟨fun h => h1 ▸ h, fun h => ?_⟩
  unfold QuorumInBounds
  rw [h2]
  exact h

/-- what one stretch of code does to the DAO -/
inductive DeedV1 (d : NounsDAOLogicV1) : NounsDAOLogicV1 → Prop
  | settings (us : List DaoEventV1) (d' : NounsDAOLogicV1) (hp : d'.proposals = d.proposals)
      (hc : d'.proposalCount = d.proposalCount) (hrules : d.KeepsRules d')
      (hlogs : d'.logs = d.logs ++ us) (hquiet : ∀ v ∈ common us, v.Quiet) : DeedV1 d d'
  | proposal (id : Nat) (p : ProposalV1) (us : List DaoEventV1) (d' : NounsDAOLogicV1)
      (hid : id ≤ d.proposalCount) (hp : d'.proposals = update d.proposals id p)
      (hpid : p.id = (d.proposals id).id) (hc : d'.proposalCount = d.proposalCount)
      (hrules : d.KeepsRules d') (hlogs : d'.logs = d.logs ++ us)
      (habout : ∀ v ∈ common us, v.sets = false ∧ v.about = some id) : DeedV1 d d'
  | propose (p : ProposalV1) (us : List DaoEventV1) (d' : NounsDAOLogicV1)
      (hp : d'.proposals = update d.proposals (d.proposalCount + 1) p)
      (hpid : p.id = d.proposalCount + 1) (hc : d'.proposalCount = d.proposalCount + 1)
      (hrules : d.KeepsRules d') (hlogs : d'.logs = d.logs ++ us)
      (habout : ∀ v ∈ common us, v.sets = false ∧ v.about = some (d.proposalCount + 1)) : DeedV1 d d'

end NounsDAOLogicV1

section
variable {P : Platform} {env : Env} {d d' : NounsDAOLogicV1}
open NounsDAOLogicV1

theorem stateV1_le {id : Nat} {s : ProposalState} (h : d.state env id = .ok s) :
    id ≤ d.proposalCount := by
  simp only [NounsDAOLogicV1.state, bind_eq_ok, require_eq_ok] at h
  obtain ⟨_, h, _⟩ := h
  exact h

theorem castVoteWithEvent_deedV1 {t : UNounsToken} {voter : Address} {id support : Nat}
    {reason : String} (h : d.castVoteWithEvent env t voter id support reason = .ok d') :
    DeedV1 d d' := by
  simp only [NounsDAOLogicV1.castVoteWithEvent, NounsDAOLogicV1.castVoteInternal, bind_eq_ok,
    require_eq_ok, pure_eq_ok] at h
  obtain ⟨_, ⟨_, hs, _, _, _, _, _, _, _, _, votes, _, rfl⟩, rfl⟩ := h
  exact .proposal id _ [_] _ (stateV1_le hs) rfl (ProposalV1.withVote_header _ _ _ _).1 rfl
    (keepsRules_same rfl rfl) rfl (by simp [common, DaoEvent.sets, DaoEvent.about])

theorem propose_deedV1 {sender : Address} {t : UNounsToken} {targets : List Address}
    {values : List Nat} {signatures : List String} {calldatas : List Bytes} {description : String}
    (h : d.propose env sender t targets values signatures calldatas description = .ok d') :
    DeedV1 d d' := by
  simp only [NounsDAOLogicV1.propose, bind_eq_ok, require_eq_ok, pure_eq_ok] at h
  obtain ⟨_, _, _, _, _, _, _, _, _, _, _, _, rfl⟩ := h
  exact .propose _ _ _ rfl rfl rfl (keepsRules_same rfl rfl) (List.append_assoc _ _ _)
    (by simp [common, newProposal, DaoEvent.sets, DaoEvent.about])

theorem DaoOpV1.deed {sender : Address} {t : UNounsToken} {op : DaoOpV1}
    (h : op.apply P env sender t d = .ok d') : DeedV1 d d' := by
  cases op with
  | propose targets values signatures calldatas description => exact propose_deedV1 h
  | castVote | castVoteWithReason => exact castVoteWithEvent_deedV1 h
  | castVoteBySig id support sig =>
    simp only [DaoOpV1.apply, NounsDAOLogicV1.castVoteBySig, bind_eq_ok] at h
    obtain ⟨_, _, hv⟩ := h
    exact castVoteWithEvent_deedV1 hv
  | initializeV1 timelock nouns vetoer period delay threshold quorum =>
    simp only [DaoOpV1.apply, NounsDAOLogicV1.initializeV1, bind_eq_ok, require_eq_ok,
      pure_eq_ok] at h
    obtain ⟨_, _, _, _, _, _, _, _, _, _, _, hdelay, _, _, _, hquorum, rfl⟩ := h
    exact .settings [_, _, _, _] _ rfl rfl ⟨fun _ => hdelay.1, fun _ => hquorum⟩ rfl
      (quiet_of_all rfl)
  | setVotingDelay n =>
    simp only [DaoOpV1.apply, NounsDAOLogicV1.setVotingDelay, bind_eq_ok, require_eq_ok,
      pure_eq_ok] at h
    obtain ⟨_, _, _, hn, rfl⟩ := h
    exact .settings [_] _ rfl rfl ⟨fun _ => hn.1, fun h => h⟩ rfl
      (quiet_of_all rfl)
  | setQuorumVotesBPS n =>
    simp only [DaoOpV1.apply, NounsDAOLogicV1.setQuorumVotesBPS, bind_eq_ok, require_eq_ok,
      pure_eq_ok] at h
    obtain ⟨_, _, _, hn, rfl⟩ := h
    exact .settings [_] _ rfl rfl ⟨fun h => h, fun _ => hn⟩ rfl (quiet_of_all rfl)
  | setVotingPeriod _ | setProposalThresholdBPS _ =>
    simp only [DaoOpV1.apply, NounsDAOLogicV1.setVotingPeriod,
      NounsDAOLogicV1.setProposalThresholdBPS, bind_eq_ok, pure_eq_ok] at h
    obtain ⟨_, _, _, _, rfl⟩ := h
    exact .settings [_] _ rfl rfl (keepsRules_same rfl rfl) rfl (quiet_of_all rfl)
  | setPendingAdmin _ | setVetoer _ =>
    simp only [DaoOpV1.apply, NounsDAOLogicV1.setPendingAdmin, NounsDAOLogicV1.setVetoer,
      bind_eq_ok, pure_eq_ok] at h
    obtain ⟨_, _, rfl⟩ := h
    exact .settings [_] _ rfl rfl (keepsRules_same rfl rfl) rfl (quiet_of_all rfl)
  | acceptAdmin =>
    simp only [DaoOpV1.apply, NounsDAOLogicV1.acceptAdmin, bind_eq_ok, pure_eq_ok] at h
    obtain ⟨_, _, rfl⟩ := h
    exact .settings _ _ rfl rfl (keepsRules_same rfl rfl) (List.append_assoc _ _ _)
      (quiet_of_all rfl)
  | burnVetoPower =>
    simp only [DaoOpV1.apply, NounsDAOLogicV1.burnVetoPower, NounsDAOLogicV1.setVetoer, bind_eq_ok,
      pure_eq_ok] at h
    obtain ⟨_, _, _, _, rfl⟩ := h
    exact .settings [_] _ rfl rfl (keepsRules_same rfl rfl) rfl (quiet_of_all rfl)

end

/-! ## runs of the first version -/

/-- every proposal there carries its own id -/
def Numbered (d : NounsDAOLogicV1) : Prop := ∀ i ≤ d.proposalCount, (d.proposals i).id = i

/-- what the first version keeps -/
structure SoundV1 (d : NounsDAOLogicV1) : Prop where
  numbered : Numbered d
  blank : ∀ id, d.proposalCount < id → d.proposals id = .empty
  votingDelay : NounsDAOLogicV1.MIN_VOTING_DELAY ≤ d.votingDelay
  quorumVotesBPS : d.QuorumInBounds
  events : ∀ v ∈ d.events, v.sets = false ∧ ∀ id, v.about = some id → id ≤ d.proposalCount

theorem Numbered.set {d d' : NounsDAOLogicV1} (h : Numbered d) {id : Nat} {p : ProposalV1}
    (hc : d'.proposalCount = d.proposalCount) (hp : d'.proposals = update d.proposals id p)
    (hid : p.id = (d.proposals id).id) : Numbered d' := by
  intro i hi
  rw [hc] at hi
  by_cases e : i = id
  · rw [hp, e, update_self, hid]
    exact h id (e ▸ hi)
  · rw [hp, update_of_ne e]
    exact h i hi

section
variable {P : Platform} {env : Env} {d d' : NounsDAOLogicV1}
open NounsDAOLogicV1

/-- events about proposals that are there -/
theorem SoundV1.told (h : SoundV1 d) {us : List DaoEventV1} (hc : d.proposalCount ≤ d'.proposalCount)
    (hlogs : d'.logs = d.logs ++ us)
    (hus : ∀ v ∈ common us, v.sets = false ∧ ∀ id, v.about = some id → id ≤ d'.proposalCount) :
    ∀ v ∈ d'.events, v.sets = false ∧ ∀ id, v.about = some id → id ≤ d'.proposalCount := by
  intro v hv
  unfold NounsDAOLogicV1.events common at hv
  rw [hlogs, List.filterMap_append] at hv
  rcases List.mem_append.mp hv with hv | hv
  · exact ⟨(h.events v hv).1, fun id hid => ((h.events v hv).2 id hid).trans hc⟩
  · exact hus v hv

/-- **A deed of the first version keeps it sound.** -/
theorem NounsDAOLogicV1.DeedV1.sound (hd : DeedV1 d d') (h : SoundV1 d) :
    SoundV1 d' ∧ d.proposalCount ≤ d'.proposalCount := by
  have hrules : ∀ hr : d.KeepsRules d', MIN_VOTING_DELAY ≤ d'.votingDelay ∧ d'.QuorumInBounds :=
    fun hr => ⟨hr.votingDelay h.votingDelay, hr.quorumVotesBPS h.quorumVotesBPS⟩
  cases hd with
  | settings us d' hp hc hr hlogs hquiet =>
    refine ⟨⟨?_, ?_, (hrules hr).1, (hrules hr).2, h.told hc.ge hlogs fun v hv =>
      ⟨(hquiet v hv).sets, fun id hid => nomatch (hquiet v hv).about.symm.trans hid⟩⟩, hc.ge⟩
    · unfold Numbered
      rw [hc, hp]
      exact h.numbered
    · rw [hc, hp]
      exact h.blank
  | proposal id p us d' hid hp hpid hc hr hlogs habout =>
    refine ⟨⟨h.numbered.set hc hp hpid, ?_, (hrules hr).1, (hrules hr).2,
      h.told hc.ge hlogs fun v hv => ⟨(habout v hv).1, fun i hi => ?_⟩⟩, hc.ge⟩
    · intro i hi
      rw [hc] at hi
      rw [hp, update_of_ne (by omega)]
      exact h.blank i hi
    · rw [← Option.some.inj ((habout v hv).2.symm.trans hi), hc]
      exact hid
  | propose p us d' hp hpid hc hr hlogs habout =>
    have hle : d.proposalCount ≤ d'.proposalCount := hc ▸ Nat.le_succ _
    refine ⟨⟨?_, ?_, (hrules hr).1, (hrules hr).2,
      h.told hle hlogs fun v hv => ⟨(habout v hv).1, fun i hi => ?_⟩⟩, hle⟩
    · intro i hi
      rw [hp]
      by_cases e : i = d.proposalCount + 1
      · rw [e, update_self, hpid]
      · rw [update_of_ne e]
        exact h.numbered i (by omega)
    · intro i hi
      rw [hp, update_of_ne (by omega)]
      exact h.blank i (by omega)
    · exact (Option.some.inj ((habout v hv).2.symm.trans hi)).symm.trans hc.symm |>.le

/-- an entry up to its external call -/
theorem GovEntryV1.deed {msg : Msg} {w w' : WorldV1 P} {op : GovEntryV1} {x : Option GovExternal}
    (h : op.enter env msg w = .ok (w', x)) :
    (∃ sender op, TokenOp.apply P env sender w.token op = .ok w'.token) ∧ w'.dao = w.dao ∨
      w'.token = w.token ∧ (w'.dao = w.dao ∨ DeedV1 w.dao w'.dao) := by
  have hset : ∀ {id : Nat} {s : ProposalState} (p : ProposalV1) (v : DaoEvent),
      w.dao.state env id = .ok s → p.id = (w.dao.proposals id).id →
      v.sets = false ∧ v.about = some id →
      DeedV1 w.dao ({ w.dao with proposals := update w.dao.proposals id p }.emit v) :=
    fun p v hs hp hv => .proposal _ p [.common v] _ (stateV1_le hs) rfl hp rfl (keepsRules_same rfl rfl)
      rfl (by simpa [common] using hv)
  cases op with
  | token op =>
    obtain ⟨t, h1, h2⟩ := map_eq_ok.mp h
    cases h2
    exact .inl ⟨⟨_, op, h1⟩, rfl⟩
  | timelock op =>
    obtain ⟨_, _, h2⟩ := map_eq_ok.mp h
    cases h2
    exact .inr ⟨rfl, .inl rfl⟩
  | dao op =>
    obtain ⟨_, h1, h2⟩ := map_eq_ok.mp h
    cases h2
    exact .inr ⟨rfl, .inr (DaoOpV1.deed h1)⟩
  | queue id =>
    obtain ⟨_, h1, h2⟩ := map_eq_ok.mp h
    cases h2
    simp only [NounsDAOLogicV1.queue, bind_eq_ok, pure_eq_ok] at h1
    obtain ⟨_, hs, _, _, _, _, rfl⟩ := h1
    exact .inr ⟨rfl, .inr (hset _ (.proposalQueued id _) hs rfl ⟨rfl, rfl⟩)⟩
  | cancel id =>
    obtain ⟨_, h1, h2⟩ := map_eq_ok.mp h
    cases h2
    simp only [NounsDAOLogicV1.cancel, bind_eq_ok, pure_eq_ok] at h1
    obtain ⟨_, hs, _, _, _, _, _, _, _, _, rfl⟩ := h1
    exact .inr ⟨rfl, .inr (hset _ (.proposalCanceled id) hs rfl ⟨rfl, rfl⟩)⟩
  | veto id =>
    obtain ⟨_, h1, h2⟩ := map_eq_ok.mp h
    cases h2
    simp only [NounsDAOLogicV1.veto, bind_eq_ok, pure_eq_ok] at h1
    obtain ⟨_, _, _, _, _, hs, _, _, _, _, rfl⟩ := h1
    exact .inr ⟨rfl, .inr (hset _ (.proposalVetoed id) hs rfl ⟨rfl, rfl⟩)⟩

/-- a world of the first version, some time after its deployment -/
structure AgedV1 (w : WorldV1 P) : Prop where
  token : w.token.Reached P
  dao : SoundV1 w.dao

/-- calls keep a world sound, and its proposals there -/
def KeepsV1 (c c' : GovConfigV1 P) : Prop :=
  AgedV1 c.now → AgedV1 c'.now ∧ c.now.dao.proposalCount ≤ c'.now.dao.proposalCount

theorem KeepsV1.trans {a b c : GovConfigV1 P} (h1 : KeepsV1 a b) (h2 : KeepsV1 b c) : KeepsV1 a c :=
  fun h => ⟨(h2 (h1 h).1).1, (h1 h).2.trans (h2 (h1 h).1).2⟩

theorem keepsV1_summary : Summary (KeepsV1 (P := P)) KeepsV1 :=
  ⟨fun c h => ⟨h, Nat.le_refl _⟩, fun a b c => KeepsV1.trans, fun a b h => h, fun a b c => KeepsV1.trans⟩

/-- nothing but the timelock changes -/
theorem keepsV1_same {c : GovConfigV1 P} {past : List (Record Env (WorldV1 P) (GovCallV1 P))}
    {w : WorldV1 P} (ht : w.token = c.now.token) (hd : w.dao = c.now.dao) : KeepsV1 c ⟨past, w⟩ :=
  fun h => ⟨⟨ht.symm ▸ h.token, hd.symm ▸ h.dao⟩, Nat.le_of_eq (congrArg _ hd.symm)⟩

theorem keepsV1_deed {c : GovConfigV1 P} {past : List (Record Env (WorldV1 P) (GovCallV1 P))}
    {w : WorldV1 P} (ht : w.token = c.now.token) (hd : DeedV1 c.now.dao w.dao) :
    KeepsV1 c ⟨past, w⟩ :=
  fun h => ⟨⟨ht.symm ▸ h.token, (hd.sound h.dao).1⟩, (hd.sound h.dao).2⟩

theorem GovExternal.afterV1_same {x : GovExternal} {ok : Bool} {w w' : WorldV1 P}
    (h : x.afterV1 ok w = .ok w') : w'.token = w.token ∧ w'.dao = w.dao := by
  cases x with
  | receiver x =>
    obtain ⟨_, h1, rfl⟩ := map_eq_ok.mp h
    simp only [TokenOp.after, bind_eq_ok, pure_eq_ok] at h1
    obtain ⟨_, _, rfl⟩ := h1
    exact ⟨rfl, rfl⟩
  | target x =>
    obtain ⟨_, _, rfl⟩ := map_eq_ok.mp h
    exact ⟨rfl, rfl⟩
  | refund p =>
    cases h
    exact ⟨rfl, rfl⟩
  | withdraw p =>
    cases h
    exact ⟨rfl, rfl⟩

theorem beginActionV1_ok {w w' : WorldV1 P} {id i : Nat} {tx : Transaction}
    (h : beginActionV1 env w id i = .ok (w', tx)) : w' = { w with timelock := w'.timelock } := by
  simp only [beginActionV1, bind_eq_ok, pure_eq_ok, Prod.mk.injEq] at h
  obtain ⟨_, _, _, _, rfl, _⟩ := h
  rfl

/-- the loop of `execute`; the proposal is there all the time -/
theorem executeActionsV1_keeps {id : Nat} {c : GovConfigV1 P} (hid : id ≤ c.now.dao.proposalCount)
    (is : List Nat) : ∀ d : GovConfigV1 P, KeepsV1 c d →
      (executeActionsV1 env id is d.now).Meets KeepsV1 KeepsV1 c d.past := by
  induction is with
  | nil =>
    intro d h hc
    obtain ⟨h1, h2⟩ := h hc
    have hdeed : DeedV1 d.now.dao (d.now.dao.emit (.proposalExecuted id)) :=
      .proposal id (d.now.dao.proposals id) [_] _ (hid.trans h2) (update_eq_self _ _).symm rfl rfl
        (keepsRules_same rfl rfl) rfl (by simp [common, DaoEvent.sets, DaoEvent.about])
    obtain ⟨h3, h4⟩ := hdeed.sound h1.dao
    exact ⟨⟨h1.token, h3⟩, h2.trans h4⟩
  | cons i is ih =>
    intro d h
    unfold executeActionsV1
    cases hb : beginActionV1 env d.now id i with
    | error e => trivial
    | ok r =>
      have hr : KeepsV1 c ⟨d.past, r.1⟩ := by
        have hw := beginActionV1_ok hb
        exact h.trans (keepsV1_same (by rw [hw]) (by rw [hw]))
      refine ⟨hr, fun c' hc' => ?_, trivial⟩
      cases he : c'.now.timelock.endExecute r.2 true with
      | error e =>
        simp only [he]
        trivial
      | ok tl =>
        simp only [he]
        exact ih ⟨c'.past, { c'.now with timelock := tl }⟩ ((hr.trans hc').trans (keepsV1_same rfl rfl))

theorem GovCallV1.keeps (env : Env) (op : GovCallV1 P) (c : GovConfigV1 P) :
    (op.code env c.now).Meets KeepsV1 KeepsV1 c (c.enter env op) := by
  obtain ⟨msg, op, hout⟩ := op
  cases op with
  | entry op =>
    refine Code.once_meets_of keepsV1_summary (fun w x h => ?_) fun x ok d w h => ?_
    · rcases GovEntryV1.deed h with ⟨⟨sender, op, ht⟩, hd⟩ | ⟨ht, hd | hd⟩
      · exact fun hc => ⟨⟨.entered env sender op _ _ hc.token ht, hd.symm ▸ hc.dao⟩,
          Nat.le_of_eq (congrArg _ hd.symm)⟩
      · exact keepsV1_same ht hd
      · exact keepsV1_deed ht hd
    · obtain ⟨ht, hd⟩ := x.afterV1_same h
      exact keepsV1_same ht hd
  | execute id =>
    show Code.Meets _ _ _ (executeProposalV1 env c.now id) _
    unfold executeProposalV1
    cases h : c.now.dao.beginExecute env id with
    | error e => trivial
    | ok d =>
      simp only [NounsDAOLogicV1.beginExecute, bind_eq_ok, pure_eq_ok] at h
      obtain ⟨_, hs, _, _, rfl⟩ := h
      have hdeed : DeedV1 c.now.dao { c.now.dao with
          proposals := update c.now.dao.proposals id { c.now.dao.proposals id with executed := true } } :=
        .proposal id _ [] _ (stateV1_le hs) rfl rfl rfl (keepsRules_same rfl rfl) (List.append_nil _).symm
          (by simp [common])
      exact executeActionsV1_keeps (stateV1_le hs) _ ⟨c.enter env ⟨msg, .execute id, hout⟩, _⟩
        (keepsV1_deed rfl hdeed)

theorem GovSetupV1.deploy_aged {g : GovSetupV1} {w : WorldV1 P} (hw : g.deploy P = .ok w) :
    AgedV1 w := by
  simp only [GovSetupV1.deploy, NounsDAOLogicV1.deploy, NounsDAOLogicV1.initializeV1, bind_eq_ok,
    require_eq_ok, pure_eq_ok] at hw
  obtain ⟨_, _, _, ⟨_, ⟨_, _, _, _, _, _, _, _, _, _, _, hdelay, _, _, _, hquorum, rfl⟩, rfl⟩, rfl⟩ := hw
  refine ⟨.deployed _ _ _ _ _ _, fun i hi => (Nat.le_zero.mp hi).symm, fun _ _ => rfl, hdelay.1,
    hquorum, ?_⟩
  simp [NounsDAOLogicV1.events, common, NounsDAOLogicV1.blank, DaoEvent.sets, DaoEvent.about]

/-- **Wherever a run of the first version can be looked at, it is sound.** -/
theorem observations_agedV1 {w : WorldV1 P} (hw : AgedV1 w) {e : Env} {ts : List (Tx Env (GovCallV1 P))}
    (hch : (e :: ts.map Tx.env).IsChain (· ≤ ·)) {o : Env × GovConfigV1 P}
    (ho : o ∈ observations GovCallV1.code e ts ⟨[], w⟩) : AgedV1 o.2.now := by
  obtain ⟨h1, h2⟩ := runTxs_meets (J := fun (_ : Env) (c : GovConfigV1 P) => AgedV1 c.now)
    (K := fun _ c => AgedV1 c.now) (fun _ => keepsV1_summary)
    (fun env op c => GovCallV1.keeps env op c) (fun _ _ _ hJ hR => (hR hJ).1)
    (fun _ _ _ hJ hQ => (hQ hJ).1) (fun _ _ _ hJ _ => hJ) ts e ⟨[], w⟩ hch hw
  rcases List.mem_append.mp ho with h | h
  · obtain ⟨q, hq, rfl⟩ := List.mem_map.mp h
    exact h1 q hq
  · rw [List.mem_singleton.mp h]
    exact h2

/-- the second version knows nothing of the proposals it finds but that there are no others -/
theorem SoundV1.upgrade (h : SoundV1 d) (e : Env) : SaneSince d.proposalCount e d.upgrade where
  count := Nat.le_refl _
  fresh := fun id hid => congrArg ProposalV1.upgrade (h.blank id hid)
  wellFormed := fun id h1 h2 => absurd h2 (Nat.not_le.mpr h1)
  upTo := .nil _
  quorumVotesBPS_lt := Nat.lt_of_le_of_lt h.quorumVotesBPS.2 (by decide)

end
end UNouns
