import UNouns.Subgraph.Census
import UNouns.Subgraph.Delegation
import UNouns.Subgraph.Proposals
import UNouns.Governance.Snapshot
import UNouns.Token.Backing

/-!
# Which tokens is a recorded vote made of?

A vote weighs as much as the tokens that stood behind the voter at the end of the block in which the
proposal was made.  The mapping writes down those that stand behind the voter when it votes.

* `OnRecord`          on chain: whoever is told to have voted has a receipt with these votes;
* `Parted`            an event of the DAO does not come between the events of a mint;
* `Twins`             the events of the DAO leave the roll of the delegates alone;
* `vote_nouns_iff`    so the tokens are the right ones if and only if they are the same at both moments.
-/

set_option linter.unusedVariables false

namespace UNouns.Subgraph
open Function Relation Reentrant Journal NounsDAOLogicV2

/-! ## receipts -/

/-- who is told to have voted is not the zero address, and has a receipt -/
def OnRecord (d : NounsDAOLogicV2) : Prop := ∀ voter id support votes reason,
  .voteCast voter id support votes reason ∈ d.logs → voter ≠ 0 ∧ id ≤ d.proposalCount ∧
    ((d.proposals id).receipts voter).hasVoted = true ∧ ((d.proposals id).receipts voter).votes = votes

/-- receipts are kept -/
theorem OnRecord.keep {d d' : NounsDAOLogicV2} {vs : List DaoEvent} (h : OnRecord d)
    (hl : d'.logs = d.logs ++ vs) (hc : d.proposalCount ≤ d'.proposalCount)
    (hkeep : ∀ i v, i ≤ d.proposalCount → ((d.proposals i).receipts v).hasVoted = true →
      (d'.proposals i).receipts v = (d.proposals i).receipts v)
    (hnew : ∀ voter id support votes reason, .voteCast voter id support votes reason ∈ vs →
      voter ≠ 0 ∧ id ≤ d'.proposalCount ∧ ((d'.proposals id).receipts voter).hasVoted = true ∧
        ((d'.proposals id).receipts voter).votes = votes) : OnRecord d' := by
  intro voter id support votes reason hm
  rw [hl] at hm
  rcases List.mem_append.mp hm with hm | hm
  · obtain ⟨h0, h1, h2, h3⟩ := h voter id support votes reason hm
    rw [hkeep id voter h1 h2]
    exact ⟨h0, h1.trans hc, h2, h3⟩
  · exact hnew voter id support votes reason hm

theorem OnRecord.deed {env : Env} {t : UNounsToken} {d d' : NounsDAOLogicV2} {x : Option Nat}
    {vs : List DaoEvent} (h : OnRecord d) (hd : Deed env t d x vs d')
    (hvoters : ∀ voter id support votes reason, .voteCast voter id support votes reason ∈ vs →
      voter ≠ 0) : OnRecord d' := by
  have hlogs := hd.logs
  have hone : ∀ (id : Nat) (p : Proposal), p.receipts = (d.proposals id).receipts → ∀ i v,
      (update d.proposals id p i).receipts v = (d.proposals i).receipts v := by
    intro id p hp i v
    by_cases e : i = id
    · rw [e, update_self, hp]
    · rw [update_of_ne e]
  cases hd with
  | settings vs d' hb _ _ hq =>
    exact h.keep hlogs hb.proposalCount.ge (fun i v _ _ => by rw [hb.proposals])
      fun _ _ _ _ _ hm => nomatch (hq _ hm).about
  | params old vs d' hb _ _ _ _ habout =>
    exact h.keep hlogs hb.proposalCount.ge (fun i v _ _ => by rw [hb.proposals])
      fun _ _ _ _ _ hm => nomatch habout _ hm
  | propose sender targets values signatures calldatas description minQuorum d' hp hmin _ =>
    obtain ⟨hcount, _⟩ := propose_new hp
    refine h.keep hlogs (by omega) (fun i v hi _ => ?_) fun _ _ _ _ _ hm => ?_
    · rw [propose_other hp (by omega)]
    · simp [Proposal.created] at hm
  | vote voter id support votes balance reason d1 hv =>
    obtain ⟨hstate, _, hnot, _, hs⟩ := castVoteInternal_ok hv
    have hreceipts : (d1.proposals id).receipts
        = update (d.proposals id).receipts voter ⟨true, support, votes⟩ := by
      rw [hs.self]
      unfold Proposal.withVote
      split_ifs <;> rfl
    refine h.keep hlogs hs.proposalCount.ge (fun i v _ hvoted => ?_) fun u i s n r hm => ?_
    · by_cases e : i = id
      · subst e
        have hne : v ≠ voter := fun e => by
          rw [e, hnot] at hvoted
          cases hvoted
        show (d1.proposals i).receipts v = _
        rw [hreceipts, update_of_ne hne]
      · show (d1.proposals i).receipts v = _
        rw [hs.other e]
    · have hnonzero := hvoters u i s n r hm
      obtain ⟨rfl, rfl, rfl, rfl, rfl⟩ := DaoEvent.voteCast.inj (List.mem_singleton.mp hm)
      have hself : (d1.proposals i).receipts u = ⟨true, s, n⟩ := by
        rw [hreceipts, update_self]
      refine ⟨hnonzero, hs.proposalCount.symm ▸ state_le hstate, ?_, ?_⟩
      · exact congrArg Receipt.hasVoted hself
      · exact congrArg Receipt.votes hself
  | queue id delay hstate =>
    exact h.keep hlogs (le_refl _) (fun i v _ _ => hone id { d.proposals id with eta := env.timestamp + delay } rfl i v)
      (by simp)
  | cancel id st hstate hs =>
    exact h.keep hlogs (le_refl _) (fun i v _ _ => hone id { d.proposals id with canceled := true } rfl i v)
      (by simp)
  | veto id st hstate hs =>
    exact h.keep hlogs (le_refl _) (fun i v _ _ => hone id { d.proposals id with vetoed := true } rfl i v)
      (by simp)
  | execute id hstate =>
    exact h.keep hlogs (le_refl _) (fun i v _ _ => hone id { d.proposals id with executed := true } rfl i v)
      (by simp)
  | executed id hid hex =>
    exact h.keep hlogs (le_refl _) (fun i v _ _ => rfl) (by simp)

section
variable {P : Platform} {g : GovSetup} {e : Env} {w : World P}

theorem runs_onRecord (hw : g.deploy P e = .ok w) {y : Env × GovConfig P}
    (h : ReflTransGen (Timed GovExact) (e, ⟨[], w⟩) y) : OnRecord y.2.now.dao := by
  refine Timed.invariant (I := fun _ (c : GovConfig P) => OnRecord c.now.dao) ?_ (fun _ _ c hI _ => hI) h ?_
  · intro env c c' hI hm
    obtain ⟨x, vs, hd, hvoters⟩ := hm.voters
    exact hI.deed hd hvoters
  · exact fun voter id support votes reason hm =>
      absurd hm (GovSetup.deploy_voteless hw voter id support votes reason)

/-! ## the token -/

/-- the log of the token only grows -/
theorem GovExact.token_logs {env : Env} {c c' : GovConfig P} (h : GovExact env c c') :
    c.now.token.logs <+: c'.now.token.logs := by
  cases h with
  | enter op w' hb =>
    rcases GovBegin.splits hb with ⟨_, _, _, hop⟩ | htoken
    · obtain ⟨us, hlogs, _⟩ := TokenOp.apply_tells hop
      exact ⟨us, hlogs.symm⟩
    · exact ⟨[], (List.append_nil _).trans (congrArg _ htoken.symm)⟩
  | resume w' hr => exact ⟨[], (List.append_nil _).trans (congrArg _ (GovResume.token hr).symm)⟩

theorem runs_token_logs {x y : Env × GovConfig P} (h : ReflTransGen (Timed GovExact) x y) :
    x.2.now.token.logs <+: y.2.now.token.logs := by
  refine Timed.invariant (I := fun _ (c : GovConfig P) => x.2.now.token.logs <+: c.now.token.logs) ?_
    (fun _ _ _ hI _ => hI) h (List.prefix_refl _)
  exact fun env c c' hI hm => hI.trans (GovExact.token_logs hm)

/-- the votes are what is delegated, as long as nobody delegates to the zero address -/
structure Backed (e : Env) (t : UNounsToken) : Prop where
  sound : t.ledger.Sound e.number
  delegated : NoneToZero t.logs → t.ledger.Delegated

theorem runs_backed (hw : g.deploy P e = .ok w) {y : Env × GovConfig P}
    (h : ReflTransGen (Timed GovExact) (e, ⟨[], w⟩) y) : Backed y.1 y.2.now.token := by
  refine Timed.invariant (I := fun env (c : GovConfig P) => Backed env c.now.token) ?_ ?_ h ?_
  · intro env c c' hI hm
    have hcut := GovExact.token_logs hm
    refine ⟨Ledger.steps_sound (GovMove.ledger hm.move) hI.sound, fun hz => ?_⟩
    have hd := hI.delegated (hz.of_cut hcut)
    cases hm with
    | enter op w' hb =>
      rcases GovBegin.splits hb with ⟨_, _, _, hop⟩ | htoken
      · exact TokenOp.apply_delegated hop hz hI.sound hd
      · rw [htoken]
        exact hd
    | resume w' hr =>
      rw [GovResume.token hr]
      exact hd
  · exact fun env env' c hI he => ⟨hI.sound.mono (Env.le_def.mp he).1, hI.delegated⟩
  · have hf := GovSetup.deploy_fresh hw
    show Backed e w.token
    rw [hf.token]
    exact ⟨Ledger.deploy_sound _ _ _ _ _ _ _, fun _ => Ledger.deploy_delegated _ _ _ _ _ _⟩

/-! ## an event of the DAO -/

/-- the log of the token is cut between two entries wherever the DAO speaks -/
def Parted (js : List (Block × ChainEvent)) : Prop := ∀ us b v ws,
  js = us ++ (b, .dao v) :: ws → ∃ t : UNounsToken, tokens us = t.logs ∧ Dealt t

/-- an entry adds the events of the token before those of the DAO -/
theorem Parted.entry {js : List (Block × ChainEvent)} (h : Parted js) (b : Block)
    (us : List TokenEvent) (vs : List DaoEvent) {t : UNounsToken} (ht : tokens js ++ us = t.logs)
    (hdealt : Dealt t) : Parted (js ++ (us.map ChainEvent.token ++ vs.map ChainEvent.dao).map (b, ·)) := by
  intro as b' v ws he
  rw [List.map_append] at he
  rcases cut_append he with ⟨ws', hjs⟩ | ⟨cs, rfl, hks⟩
  · exact h as b' v ws' hjs
  rcases cut_append hks with ⟨ws', hus⟩ | ⟨ds, rfl, hds⟩
  · have hm : (b', .dao v) ∈ (us.map ChainEvent.token).map (b, ·) :=
      hus ▸ List.mem_append_right _ List.mem_cons_self
    simp at hm
  · refine ⟨t, ?_, hdealt⟩
    have hnone : tokens ds = [] := by
      refine List.filterMap_eq_nil_iff.mpr fun j hj => ?_
      have hm : j ∈ (vs.map ChainEvent.dao).map (b, ·) := hds ▸ List.mem_append_left _ hj
      obtain ⟨x, hx, rfl⟩ := List.mem_map.mp hm
      obtain ⟨y, _, rfl⟩ := List.mem_map.mp hx
      rfl
    have hentry := tokens_entry b us []
    rw [List.map_nil, List.append_nil] at hentry
    rw [tokens_append, tokens_append, hnone, List.append_nil, hentry, ht]

theorem runs_parted (hw : g.deploy P e = .ok w) {y : Env × GovConfig P}
    (h : ReflTransGen (Timed GovExact) (e, ⟨[], w⟩) y) : Parted (journal e y.2) := by
  have hI : Written e y.2 ∧ Parted (journal e y.2) := by
    refine Timed.invariant (I := fun _ (c : GovConfig P) => Written e c ∧ Parted (journal e c)) ?_
      (fun _ _ _ hI _ => hI) h ⟨GovSetup.deploy_written hw, ?_⟩
    · rintro env c c' ⟨hwritten, hI⟩ hm
      obtain ⟨us, hus⟩ := GovExact.token_logs hm
      have hlogs : tokens (journal e c) ++ us = c'.now.token.logs := by rw [hwritten.tokens, hus]
      cases hm with
      | enter op w' hb =>
        have hwritten' := hwritten.enter hb
        obtain ⟨vs, hd⟩ := GovBegin.deed hb
        refine ⟨hwritten', ?_⟩
        rw [journal_enter e env c op hus.symm hd.logs]
        exact hI.entry _ us vs hlogs hwritten'.dealt
      | resume w' hr =>
        have hwritten' := hwritten.resume hr
        obtain ⟨vs, hd⟩ := hr.deed
        refine ⟨hwritten', ?_⟩
        obtain ⟨b, hj⟩ := journal_resume e hwritten.grown (GovResume.token hr) hd.logs
        rw [hj]
        have htokens : tokens (journal e c) ++ [] = c.now.token.logs := by
          rw [List.append_nil, hwritten.tokens]
        exact hI.entry b [] vs htokens hwritten.dealt
    · have hnew : Parted [] := fun us b v ws he => absurd he.symm
        (List.append_ne_nil_of_right_ne_nil _ (List.cons_ne_nil _ _))
      exact hnew.entry (blockOf e) w.token.logs w.dao.logs rfl (GovSetup.deploy_written hw).dealt
  exact hI.2

end

/-! ## the events of the token alone -/

def tokenEvents (es : List (Event ChainEvent)) : List (Event TokenEvent) :=
  es.filterMap fun e => match e.params with
    | .token v => some ⟨v, e.block, e.transactionHash⟩
    | .dao _ => none

theorem tokenEvents_params (es : List (Event ChainEvent)) :
    (tokenEvents es).map Event.params = tokens (es.map Event.entry) := by
  unfold tokenEvents tokens
  rw [List.map_filterMap, List.filterMap_map]
  refine List.filterMap_congr fun e _ => ?_
  show Option.map _ _ = (match e.params with | .token v => some v | .dao _ => none)
  cases e.params <;> rfl

/-- two stores with the same roll and the same holdings -/
structure Twins (s t : Store) : Prop where
  keyed : s.Keyed
  keyed' : t.Keyed
  sorted : s.Sorted
  sorted' : t.Sorted
  roll : s.roll = t.roll
  holding : s.books.holding = t.books.holding

theorem Twins.empty : Twins .empty .empty :=
  ⟨Reading.empty.keyed, Reading.empty.keyed, fun _ _ h => (nomatch h), fun _ _ h => (nomatch h), rfl, rfl⟩

theorem Twins.token {s t : Store} (h : Twins s t) {V W : Type} (e : Event V) (f : Event W)
    (v : TokenEvent) : Twins (handleTokenEvent s e v) (handleTokenEvent t f v) := by
  obtain ⟨h1, h2⟩ := handleTokenEvent_roll h.keyed h.sorted e v
  obtain ⟨h3, h4⟩ := handleTokenEvent_roll h.keyed' h.sorted' f v
  obtain ⟨h5, h6⟩ := handleTokenEvent_books h.keyed e v
  obtain ⟨h7, h8⟩ := handleTokenEvent_books h.keyed' f v
  have hraw : (fun a => (s.account a).tokenBalanceRaw) = fun a => (t.account a).tokenBalanceRaw :=
    funext fun a => congrArg Holding.raw (congrFun h.holding a)
  have hnouns : ∀ a, (s.account a).nouns = (t.account a).nouns :=
    fun a => congrArg Holding.nouns (congrFun h.holding a)
  refine ⟨h5, h7, h1, h3, ?_, ?_⟩
  · rw [h2, h4]
    cases v with
    | transfer src dst id =>
      unfold Store.rolled
      rw [h.roll, hraw]
    | delegateChanged a b c =>
      show Roll.redelegate _ (s.account a).nouns _ _ _ = Roll.redelegate _ (t.account a).nouns _ _ _
      rw [h.roll, hnouns]
    | _ => exact h.roll
  · rw [h6, h8]
    cases v.moved with
    | none => exact h.holding
    | some m =>
      show (s.books.transfer m.1 m.2.1 m.2.2).holding = (t.books.transfer m.1 m.2.1 m.2.2).holding
      unfold Books.transfer
      rw [h.holding]

theorem Twins.dao {s s' t : Store} (h : Twins s t) {V : Type} (e : Event V) {v : DaoEvent}
    (hs : handleDaoEvent s e v = some s') : Twins s' t := by
  have hr := handleDaoEvent_registers e hs
  refine ⟨⟨fun a x hx => h.keyed.account a x (hr.accounts ▸ hx),
    fun id x hx => h.keyed.noun id x (hr.nouns ▸ hx)⟩, h.keyed', hr.sorted h.sorted, h.sorted', ?_, ?_⟩
  · rw [← h.roll]
    unfold Store.roll Store.account
    rw [hr.accounts, hr.delegateOf h.sorted]
  · rw [← h.holding]
    show (fun a => (s'.account a).holding) = fun a => (s.account a).holding
    unfold Store.account
    rw [hr.accounts]

/-! ## the entities of the votes -/

/-- votes are kept under their ids -/
def Store.Booked (s : Store) : Prop := ∀ k x, s.votes k = some x → x.id = k

section
variable {V : Type} {s s' : Store} (e : Event V)

theorem Store.getOrCreateProposal_votes (id : Nat) : (s.getOrCreateProposal id).2.votes = s.votes := by
  unfold Store.getOrCreateProposal
  cases s.proposals id <;> rfl

theorem Store.getOrCreateDynamicQuorumParams_votes (block : Option Nat) :
    (s.getOrCreateDynamicQuorumParams block).2.votes = s.votes := by
  unfold Store.getOrCreateDynamicQuorumParams
  cases s.dynamicQuorumParams with
  | some q =>
    dsimp only
    split_ifs <;> rfl
  | none =>
    dsimp only
    split_ifs <;> rfl

/-- **What a vote records**: its votes, and the tokens of the delegate. -/
theorem handleVoteCast_votes {voter : Address} {id support votes : Nat} {reason : String}
    (hb : s.Booked) (hsorted : s.Sorted) (h : handleVoteCast s e voter id support votes reason = some s') :
    ∃ x, s'.votes = update s.votes (voter, id) (some x) ∧ x.id = (voter, id) ∧ x.votes = votes ∧
      x.nouns = (s.delegateOf voter).nounsRepresented := by
  unfold handleVoteCast at h
  simp only at h
  obtain ⟨p, _, h⟩ := Option.bind_eq_some_iff.mp h
  obtain rfl := Option.some.inj h
  have hregister := s.getOrCreateProposal_register id
  have hsorted1 : (s.getOrCreateProposal id).2.Sorted :=
    fun d x hx => hsorted d x (hregister.delegates ▸ hx)
  have hd := (Store.getOrCreateDelegate_roll hsorted1 voter).1
  have hvotes : ((s.getOrCreateProposal id).2.getOrCreateDelegate voter).2.votes = s.votes :=
    ((s.getOrCreateProposal id).2.getOrCreateDelegate_files voter).votes.trans
      (s.getOrCreateProposal_votes id)
  have hid : ((s.getOrCreateProposal id).2.getOrCreateVote (voter, id)).id = (voter, id) := by
    unfold Store.getOrCreateVote
    rw [s.getOrCreateProposal_votes id]
    cases hx : s.votes (voter, id) with
    | none => rfl
    | some x => exact hb _ x hx
  generalize hx : Vote.mk _ _ _ _ _ _ _ _ _ _ = x
  have hxid : x.id = (voter, id) := by rw [← hx, hid]
  refine ⟨x, (Store.getOrCreateDynamicQuorumParams_votes none).trans ?_, hxid, ?_, ?_⟩
  · show update (β := fun _ => Option Vote) _ x.id (some x) = _
    rw [hxid, hvotes]
  · rw [← hx]
  · rw [← hx, ← hregister.delegateOf, ← hd]

/-- no other event records a vote -/
theorem handleDaoEvent_votes {v : DaoEvent} (h : handleDaoEvent s e v = some s') :
    (∃ voter id support votes reason, v = .voteCast voter id support votes reason) ∨
      s'.votes = s.votes := by
  cases v with
  | voteCast voter id support votes reason => exact .inl ⟨_, _, _, _, _, rfl⟩
  | proposalCreatedWithRequirements id proposer targets values signatures calldatas startBlock endBlock
      proposalThreshold quorumVotes description =>
    obtain rfl := Option.some.inj h
    have h1 := ((s.getOrCreateProposal id).2.getOrCreateDelegate_files proposer).votes
    exact .inr ((Store.getOrCreateDynamicQuorumParams_votes none).trans
      (h1.trans (s.getOrCreateProposal_votes id)))
  | proposalCanceled id | proposalVetoed id | proposalQueued id | proposalExecuted id =>
    obtain rfl := Option.some.inj h
    exact .inr (s.getOrCreateProposal_votes id)
  | minQuorumVotesBPSSet | maxQuorumVotesBPSSet | quorumCoefficientSet =>
    obtain rfl := Option.some.inj h
    exact .inr (Store.getOrCreateDynamicQuorumParams_votes _)
  | _ =>
    obtain rfl := Option.some.inj h
    exact .inr rfl

theorem Store.Booked.dao {v : DaoEvent} (hb : s.Booked) (hsorted : s.Sorted)
    (h : handleDaoEvent s e v = some s') : s'.Booked := by
  rcases handleDaoEvent_votes e h with ⟨voter, id, support, votes, reason, rfl⟩ | hsame
  · obtain ⟨x, hx, hid, _⟩ := handleVoteCast_votes e hb hsorted h
    intro k y hy
    rw [hx] at hy
    by_cases he : k = (voter, id)
    · rw [he, update_self] at hy
      rw [← Option.some.inj hy, hid, he]
    · rw [update_of_ne he] at hy
      exact hb k y hy
  · exact fun k y hy => hb k y (hsame ▸ hy)

end

/-! ## reading -/

/-- after some events the roll is that of the events of the token -/
theorem Twins.read {es : List (Event ChainEvent)} : ∀ {s t s' : Store}, Twins s t → s.Booked →
    UNouns.Subgraph.read s es = some s' →
    Twins s' ((tokenEvents es).foldl (fun s e => handleTokenEvent s e e.params) t) ∧ s'.Booked := by
  induction es with
  | nil =>
    intro s t s' h hb hs
    obtain rfl : s = s' := Option.some.inj hs
    exact ⟨h, hb⟩
  | cons e es ih =>
    intro s t s' h hb hs
    unfold UNouns.Subgraph.read at hs
    rw [List.foldlM_cons] at hs
    obtain ⟨s1, h1, hs⟩ := Option.bind_eq_some_iff.mp hs
    unfold handleChainEvent at h1
    unfold tokenEvents
    rw [List.filterMap_cons]
    cases he : e.params with
    | token v =>
      rw [he] at h1
      obtain rfl := Option.some.inj h1
      have hb1 : (handleTokenEvent s e v).Booked :=
        fun k x hx => hb k x ((handleTokenEvent_desk s e v).votes ▸ hx)
      exact ih (h.token e ⟨v, e.block, e.transactionHash⟩ v) hb1 hs
    | dao v =>
      rw [he] at h1
      exact ih (h.dao e h1) (hb.dao e h.sorted h1) hs

/-- the token stands behind the delegate, as the events `vs` of the token tell -/
def behind (vs : List TokenEvent) (d : Address) (id : Nat) : Prop :=
  (dealings vs).owners id ≠ 0 ∧ (dealings vs).delegates ((dealings vs).owners id) = d

/-- they tell what the token has -/
theorem behind_logs {t : UNounsToken} (hc : Chronicled t) (hd : Dealt t) (d : Address) (id : Nat) :
    behind t.logs d id ↔ t.backs d id := by
  unfold behind UNounsToken.backs
  rw [(dealings_owners hc).1, dealings_delegates hd.named]
  exact Iff.rfl

/-- the entity of a vote lists the tokens behind the voter, each once -/
structure Recalls (x : Vote) (t : UNounsToken) (voter : Address) : Prop where
  nouns : ∀ n, n ∈ x.nouns ↔ t.backs voter n
  nodup : x.nouns.Nodup
  length : (x.nouns.length : Int) = x.votes

section
variable {P : Platform} {g : GovSetup} {e : Env} {w : World P}

/-- the roll when an event of the DAO is read -/
theorem read_cut (hw : g.deploy P e = .ok w) {c : Env × GovConfig P}
    (h : ReflTransGen (Timed GovExact) (e, ⟨[], w⟩) c) (hfair : Fairly .none c.2.now.token.logs)
    {fs : List (Event ChainEvent)} {b : Block} {v : DaoEvent} {ws : List (Block × ChainEvent)}
    (hj : journal e c.2 = fs.map Event.entry ++ (b, .dao v) :: ws) {s : Store}
    (hs : read .empty fs = some s) :
    s.Sorted ∧ s.Booked ∧ Faithful (dealings (tokens (fs.map Event.entry))) s.roll := by
  have hwritten := runs_written hw h
  obtain ⟨t, htokens, gs, hlogs, hg⟩ := runs_parted hw h _ b v ws hj
  obtain ⟨htwins, hbooked⟩ := Twins.read .empty (fun _ _ h => (nomatch h)) hs
  have hall : c.2.now.token.logs = gs.flatten ++ tokens ((b, .dao v) :: ws) := by
    have hsaid : tokens (journal e c.2) = c.2.now.token.logs := hwritten.tokens
    rw [← hsaid, hj, tokens_append, htokens, hlogs]
  have hchronicled := hwritten.chronicled
  unfold Chronicled at hchronicled
  rw [hall] at hchronicled hfair
  obtain ⟨_, hread⟩ := read_faithful hg hchronicled hfair
  have hparams : (tokenEvents fs).map Event.params = gs.flatten := by
    rw [tokenEvents_params, htokens, hlogs]
  refine ⟨htwins.sorted, hbooked, ?_⟩
  rw [htwins.roll, htokens, hlogs]
  exact hread (tokenEvents fs) hparams

/-- the votes on record are the tokens behind the voter at the end of the block of the proposal -/
theorem backed_votes (hw : g.deploy P e = .ok w) {ts us : List (Tx Env (GovCall P))} {b id : Nat}
    (hch : (e :: (ts ++ us).map Tx.env).IsChain (· ≤ ·)) (hts : ∀ t ∈ ts, t.env.number ≤ b)
    (hus : ∀ t ∈ us, b < t.env.number) (h1 : 1 ≤ id)
    (hid : id ≤ (runTxs GovCall.code ts ⟨[], w⟩).2.now.dao.proposalCount)
    (hb : ((runTxs GovCall.code ts ⟨[], w⟩).2.now.dao.proposals id).creationBlock = b)
    (hz : NoneToZero (runTxs GovCall.code (ts ++ us) ⟨[], w⟩).2.now.token.logs)
    {voter : Address} {support votes : Nat} {reason : String}
    (hv : .voteCast voter id support votes reason
      ∈ (runTxs GovCall.code (ts ++ us) ⟨[], w⟩).2.now.dao.logs) :
    voter ≠ 0 ∧ ∀ ns : List Nat, ns.Nodup →
      (∀ n, n ∈ ns ↔ (runTxs GovCall.code ts ⟨[], w⟩).2.now.token.backs voter n) → ns.length = votes := by
  obtain ⟨hch1, hch2⟩ := isChain_cut hch
  have hall := (runTxs_timed GovCall.follows_exact (ts ++ us) e ⟨[], w⟩ hch).2
  have hcut := (runTxs_timed GovCall.follows_exact ts e ⟨[], w⟩ hch1).2
  have hrest := (runTxs_timed GovCall.follows_exact us (lastEnv e ts)
    (runTxs GovCall.code ts ⟨[], w⟩).2 hch2).2
  obtain ⟨hvoter, _, hvoted, hvotes⟩ := runs_onRecord hw hall voter id support votes reason hv
  refine ⟨hvoter, fun ns hn hm => ?_⟩
  have hrecorded := (recorded_after hw hch hts hus h1 hid hb _
    (final_mem_observations _ _ _ _)).receipts voter
  rw [runTxs_append] at hvoted hvotes hz
  have hat := (hvotes.symm.trans (hrecorded hvoted)).symm
  -- nothing has been written after block `b` yet
  have hlast := lastEnv_le_of_proposed hw hts h1 hid
  have hbacked := runs_backed hw hcut
  have hsound := hbacked.sound.mono hlast
  have hdelegated := hbacked.delegated (hz.of_cut (runs_token_logs hrest))
  rw [hsound.votes_eq_card hdelegated hvoter hn hm, ← hat]
  exact (hsound.votesAt_eq voter).symm

end

theorem Fairly.noneToZero {d : Dealings} {vs : List TokenEvent} (h : Fairly d vs) : NoneToZero vs := by
  intro a b hm
  obtain ⟨us, ws, rfl⟩ := List.append_of_mem hm
  exact h.suffix.1.1 rfl

/-- **A vote recalls its tokens** in a run of fair events if and only if the tokens behind the voter
are the same when it votes as at the end of the block in which the proposal was made. -/
theorem vote_nouns_iff {P : Platform} (g : GovSetup) (e : Env) (w : World P)
    (hw : g.deploy P e = .ok w) (ts us : List (Tx Env (GovCall P))) (b id : Nat)
    (hch : (e :: (ts ++ us).map Tx.env).IsChain (· ≤ ·)) (hts : ∀ t ∈ ts, t.env.number ≤ b)
    (hus : ∀ t ∈ us, b < t.env.number) (h1 : 1 ≤ id) :
    let cut := (runTxs GovCall.code ts ⟨[], w⟩).2
    let last := (runTxs GovCall.code (ts ++ us) ⟨[], w⟩).2
    id ≤ cut.now.dao.proposalCount → (cut.now.dao.proposals id).creationBlock = b →
    Fairly .none last.now.token.logs →
    ∀ (fs : List (Event ChainEvent)) (v : Event ChainEvent) (voter : Address) (support votes : Nat)
      (reason : String), v.params = .dao (.voteCast voter id support votes reason) →
      (fs ++ [v]).map Event.entry <+: journal e last →
      ∀ s, read .empty (fs ++ [v]) = some s →
        ∃ x, s.votes (voter, id) = some x ∧ x.votes = votes ∧ (Recalls x cut.now.token voter ↔
          ∀ n, behind (tokens (fs.map Event.entry)) voter n ↔ cut.now.token.backs voter n) := by
  intro cut last hid hb hfair fs v voter support votes reason hv hes s hs
  have hall := (runTxs_timed GovCall.follows_exact (ts ++ us) e ⟨[], w⟩ hch).2
  obtain ⟨ws, hws⟩ := hes
  have hentry : Event.entry v = (v.block, .dao (.voteCast voter id support votes reason)) := by
    rw [← hv]
    rfl
  rw [List.map_append, List.map_singleton, hentry, List.append_assoc] at hws
  unfold read at hs
  rw [List.foldlM_append] at hs
  obtain ⟨s1, hs1, hs⟩ := Option.bind_eq_some_iff.mp hs
  obtain ⟨hsorted, hbooked, hfaithful⟩ := read_cut hw hall hfair hws.symm hs1
  have hvote : handleVoteCast s1 v voter id support votes reason = some s := by
    rw [List.foldlM_cons] at hs
    obtain ⟨s2, hs2, hs⟩ := Option.bind_eq_some_iff.mp hs
    obtain rfl := Option.some.inj hs
    unfold handleChainEvent at hs2
    rw [hv] at hs2
    exact hs2
  obtain ⟨x, hx, _, hxvotes, hxnouns⟩ := handleVoteCast_votes v hbooked hsorted hvote
  have hlog : DaoEvent.voteCast voter id support votes reason ∈ last.now.dao.logs := by
    rw [← (runs_written hw hall).daos, ← hws, daos_append]
    exact List.mem_append_right _ List.mem_cons_self
  obtain ⟨hvoter, hlength⟩ := backed_votes hw hch hts hus h1 hid hb hfair.noneToZero hlog
  have hmem : ∀ n, n ∈ x.nouns ↔ behind (tokens (fs.map Event.entry)) voter n := fun n => by
    rw [hxnouns]
    exact hfaithful.mem voter hvoter n
  have hnodup : x.nouns.Nodup := by
    rw [hxnouns]
    exact hfaithful.nodup voter hvoter
  refine ⟨x, by rw [hx, update_self], hxvotes, fun h n => (hmem n).symm.trans (h.nouns n), fun h => ?_⟩
  have hnouns : ∀ n, n ∈ x.nouns ↔ cut.now.token.backs voter n := fun n => (hmem n).trans (h n)
  exact ⟨hnouns, hnodup, by rw [hxvotes, hlength x.nouns hnodup hnouns]⟩

theorem vote_nouns_iff_run :
    let cut := (runTxs GovCall.code proposeTxs ⟨[], sampleWorld⟩).2
    let last := (runTxs GovCall.code (proposeTxs ++ voteTxs) ⟨[], sampleWorld⟩).2
    ∃ s x, read .empty (sampleEvents last) = some s ∧ s.votes (2, 1) = some x ∧ x.votes = 1 ∧
      Recalls x cut.now.token 2 := by
  intro cut last
  have hch : (Env.block 6 60 :: (proposeTxs ++ voteTxs).map Tx.env).IsChain (· ≤ ·) := by
    simp [proposeTxs, voteTxs, Env.le_def, Env.block]
  have hread : (read .empty (sampleEvents last)).isSome = true := by decide +kernel
  obtain ⟨s, hs⟩ := Option.isSome_iff_exists.mp hread
  -- the vote is the last event
  have hlast : (sampleEvents last).getLast?.map Event.params = some (.dao (.voteCast 2 1 1 1 "")) := rfl
  obtain ⟨v, hgetLast, hv⟩ := Option.map_eq_some_iff.mp hlast
  have hsplit : sampleEvents last = (sampleEvents last).dropLast ++ [v] :=
    (List.dropLast_append_getLast? v hgetLast).symm
  have htokens : tokens ((sampleEvents last).dropLast.map Event.entry) = cut.now.token.logs := by
    decide +kernel
  have hcut := (runTxs_timed GovCall.follows_exact proposeTxs (.block 6 60) ⟨[], sampleWorld⟩
    (isChain_cut hch).1).2
  have hwritten := runs_written sampleWorld_deployed hcut
  obtain ⟨x, hx, hvotes, hiff⟩ := vote_nouns_iff sampleSetup (.block 6 60) sampleWorld
    sampleWorld_deployed proposeTxs voteTxs 8 1 hch (by simp [proposeTxs, Env.block])
    (by simp [voteTxs, Env.block]) (Nat.le_refl 1) (by decide +kernel) (by decide +kernel)
    (by decide +kernel) _ v 2 1 1 "" hv (by rw [← hsplit, sampleEvents_entry]) s (hsplit ▸ hs)
  refine ⟨s, x, hs, hx, hvotes, hiff.mpr fun n => ?_⟩
  rw [htokens]
  exact behind_logs hwritten.chronicled hwritten.dealt 2 n

/-- **Account `2` sells its token before it votes**: its vote counts one token and recalls none. -/
theorem vote_nouns_lost :
    let cut := (runTxs GovCall.code proposeTxs ⟨[], sampleWorld⟩).2
    let last := (runTxs GovCall.code (proposeTxs ++ sellTxs) ⟨[], sampleWorld⟩).2
    Fairly .none last.now.token.logs ∧ (cut.now.dao.proposals 1).creationBlock = 8 ∧
      cut.now.token.backs 2 0 ∧
      ∃ s x, read .empty (sampleEvents last) = some s ∧ s.votes (2, 1) = some x ∧
        x.nouns = [] ∧ x.votes = 1 ∧ ¬ Recalls x cut.now.token 2 := by
  intro cut last
  have hread : (read .empty (sampleEvents last)).bind (fun s => (s.votes (2, 1)).map fun x =>
      (x.nouns, x.votes)) = some ([], 1) := by
    decide +kernel
  obtain ⟨s, hs, hvote⟩ := Option.bind_eq_some_iff.mp hread
  obtain ⟨x, hx, hboth⟩ := Option.map_eq_some_iff.mp hvote
  obtain ⟨hnouns, hvotes⟩ := Prod.mk.inj hboth
  have hbacks : cut.now.token.backs 2 0 := by decide +kernel
  refine ⟨by decide +kernel, by decide +kernel, hbacks, s, x, hs, hx, hnouns, hvotes, fun h => ?_⟩
  have hmem := (h.nouns 0).mpr hbacks
  rw [hnouns] at hmem
  cases hmem

end UNouns.Subgraph
