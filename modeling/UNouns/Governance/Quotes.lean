import UNouns.Governance.Announced
import UNouns.Governance.Quorum

/-!
# What the log of the DAO says of quorums

Who knows nothing but the events knows the quorum parameters that were set, and of a proposal what was
set before it.

* `announced`, `quote`     the parameters by the events, now and when a proposal was made;
* `dynamic`                the proposal was made after the block in which parameters were set first;
* `Listed`                 no event is about a proposal that has not been made;
* `Truthful`               what was announced is in force, as far as the events say;
* `Gated`                  a proposal made now is quoted with what is in force;
* `QuotedAt`               a proposal whose quote is right (`Deed.quotedAt`, `propose_quotedAt`), so
                           that its quorum can be told from it (`QuotedAt.quorumVotes`).
-/

set_option linter.unusedVariables false

namespace UNouns
open Function Relation Reentrant Checkpoints NounsDAOLogicV2

/-! ## the log -/

/-- what the events say of the quorum of a proposal: the parameters set before it, and the quorum that
its own event has -/
structure Quote where
  params : DynamicQuorumParams
  minQuorum : Nat
  deriving DecidableEq

/-- what an event says of a new proposal, after the parameters `p` -/
def DaoEvent.quote (id : Nat) (p : DynamicQuorumParams) : DaoEvent → Option Quote
  | .proposalCreatedWithRequirements i _ _ _ _ _ _ _ _ quorumVotes _ =>
    if i = id then some ⟨p, quorumVotes⟩ else none
  | _ => none

def quoteFrom (id : Nat) : DynamicQuorumParams → List DaoEvent → Option Quote
  | _, [] => none
  | p, v :: vs => (v.quote id p).or (quoteFrom id (p.set v) vs)

namespace NounsDAOLogicV2

/-- the parameters by the events, zero where none was set -/
def announced (d : NounsDAOLogicV2) : DynamicQuorumParams := d.logs.foldl .set ⟨0, 0, 0⟩

def quote (d : NounsDAOLogicV2) (id : Nat) : Option Quote := quoteFrom id ⟨0, 0, 0⟩ d.logs

/-- the block in which a parameter was set first -/
def startBlock (d : NounsDAOLogicV2) : Option Nat := start d.quorumParamsCheckpoints

/-- the proposal was made after that block -/
def dynamic (d : NounsDAOLogicV2) (id : Nat) : Bool :=
  d.startBlock.any (· < (d.proposals id).creationBlock)

/-- the fixed quorum, as parameters -/
def fixedParams (d : NounsDAOLogicV2) : DynamicQuorumParams :=
  ⟨.ofNat d.quorumVotesBPS, .ofNat d.quorumVotesBPS, 0⟩

/-- the parameters in force -/
def inForce (d : NounsDAOLogicV2) : DynamicQuorumParams :=
  (latest d.quorumParamsCheckpoints).getD d.fixedParams

end NounsDAOLogicV2

theorem quoteFrom_append (id : Nat) (us vs : List DaoEvent) : ∀ p : DynamicQuorumParams,
    quoteFrom id p (us ++ vs) = (quoteFrom id p us).or (quoteFrom id (us.foldl .set p) vs) := by
  induction us with
  | nil => exact fun p => rfl
  | cons u us ih =>
    intro p
    show (u.quote id p).or (quoteFrom id (p.set u) (us ++ vs)) = _
    rw [ih, ← Option.or_assoc]
    rfl

theorem DaoEvent.quote_none {id : Nat} {v : DaoEvent} (h : v.about ≠ some id) (p : DynamicQuorumParams) :
    v.quote id p = none := by
  cases v with
  | proposalCreatedWithRequirements i => exact if_neg fun e => h (congrArg some e)
  | _ => rfl

theorem quoteFrom_none {id : Nat} {vs : List DaoEvent} (h : ∀ v ∈ vs, v.about ≠ some id) :
    ∀ p : DynamicQuorumParams, quoteFrom id p vs = none := by
  induction vs with
  | nil => exact fun p => rfl
  | cons v vs ih =>
    intro p
    show (v.quote id p).or _ = none
    rw [DaoEvent.quote_none (h v List.mem_cons_self), ih fun u hu => h u (List.mem_cons_of_mem _ hu)]
    rfl

theorem foldl_set {vs : List DaoEvent} (h : ∀ v ∈ vs, v.sets = false) (p : DynamicQuorumParams) :
    vs.foldl .set p = p := by
  induction vs with
  | nil => rfl
  | cons v vs ih =>
    rw [List.foldl_cons, DynamicQuorumParams.set_of_sets (h v List.mem_cons_self)]
    exact ih fun u hu => h u (List.mem_cons_of_mem _ hu)

/-! ## deeds -/

/-- no event is about a proposal that has not been made -/
def Listed (d : NounsDAOLogicV2) : Prop := ∀ v ∈ d.logs, ∀ id, v.about = some id → id ≤ d.proposalCount

section
variable {env : Env} {t : UNounsToken} {d d' : NounsDAOLogicV2} {x : Option Nat} {vs : List DaoEvent}

theorem Deed.about (h : Deed env t d x vs d') :
    ∀ v ∈ vs, ∀ id, v.about = some id → id ≤ d'.proposalCount := by
  cases h with
  | settings vs d' h hcps hlogs hquiet =>
    exact fun v hv id hid => nomatch (hquiet v hv).about.symm.trans hid
  | params old vs d' h hold hcps hbounds hlogs habout =>
    exact fun v hv id hid => nomatch (habout v hv).symm.trans hid
  | propose sender targets values signatures calldatas description minQuorum d' h =>
    rw [(propose_new h).1]
    simp [Proposal.created, DaoEvent.about, newProposal]
  | vote voter id support votes balance reason d1 h =>
    obtain ⟨hstate, _, _, _, hs⟩ := castVoteInternal_ok h
    simpa [DaoEvent.about, hs.proposalCount] using state_le hstate
  | queue id delay hstate => simpa [DaoEvent.about] using state_le hstate
  | cancel id s hstate => simpa [DaoEvent.about] using state_le hstate
  | veto id s hstate => simpa [DaoEvent.about] using state_le hstate
  | execute id hstate => simp
  | executed id hid => simpa [DaoEvent.about, NounsDAOLogicV2.emit] using hid

theorem Deed.listed (h : Deed env t d x vs d') (hl : Listed d) : Listed d' := by
  intro v hv id hid
  rw [h.logs] at hv
  rcases List.mem_append.mp hv with hv | hv
  · exact (hl v hv id hid).trans h.change.count_le
  · exact h.about v hv id hid

/-- either no parameter is set, or the checkpoint says what the events say -/
theorem Deed.sets (h : Deed env t d x vs d') :
    (d'.quorumParamsCheckpoints = d.quorumParamsCheckpoints ∧ ∀ v ∈ vs, v.sets = false) ∨
      ∃ old : DynamicQuorumParams, d.getDynamicQuorumParamsAt env.number = .ok old ∧
        d'.quorumParamsCheckpoints = write d.quorumParamsCheckpoints env.number (vs.foldl .set old) ∧
        (∃ v ∈ vs, v.sets = true) ∧ d'.proposals = d.proposals ∧
        d'.proposalCount = d.proposalCount := by
  cases h with
  | settings vs d' h hcps hlogs hquiet => exact .inl ⟨hcps, fun v hv => (hquiet v hv).sets⟩
  | params old vs d' h hold hcps hbounds hlogs habout hsets =>
    exact .inr ⟨old, hold, hcps, hsets, h.proposals, h.proposalCount⟩
  | propose sender targets values signatures calldatas description minQuorum d' h =>
    exact .inl ⟨(propose_rules h).checkpoints, by simp [Proposal.created, DaoEvent.sets]⟩
  | vote voter id support votes balance reason d1 h =>
    exact .inl ⟨(castVoteInternal_rules h).checkpoints, by simp [DaoEvent.sets]⟩
  | queue | cancel | veto | executed => exact .inl ⟨rfl, by simp [DaoEvent.sets]⟩
  | execute => exact .inl ⟨rfl, by simp⟩

theorem Deed.announced (h : Deed env t d x vs d') : d'.announced = vs.foldl .set d.announced := by
  unfold NounsDAOLogicV2.announced
  rw [h.logs, List.foldl_append]

theorem Deed.startBlock (h : Deed env t d x vs d') :
    d'.startBlock = if ∃ v ∈ vs, v.sets = true then some (d.startBlock.getD env.number)
      else d.startBlock := by
  unfold NounsDAOLogicV2.startBlock
  rcases h.sets with ⟨hcps, hnone⟩ | ⟨old, _, hcps, hsome, _⟩
  · have hn : ¬ ∃ v ∈ vs, v.sets = true := fun ⟨v, hv, hs⟩ => nomatch (hnone v hv).symm.trans hs
    rw [hcps, if_neg hn]
  · rw [hcps, if_pos hsome, start_write]

/-- the quote of a proposal stays -/
theorem Deed.quote (h : Deed env t d x vs d') {id : Nat} (hid : id ≤ d.proposalCount) :
    d'.quote id = d.quote id := by
  have hnone : ∀ p : DynamicQuorumParams, quoteFrom id p vs = none := by
    cases h with
    | settings vs d' h hcps hlogs hquiet =>
      exact quoteFrom_none fun v hv e => nomatch (hquiet v hv).about.symm.trans e
    | params old vs d' h hold hcps hbounds hlogs habout =>
      exact quoteFrom_none fun v hv e => nomatch (habout v hv).symm.trans e
    | propose sender targets values signatures calldatas description minQuorum d' h =>
      refine quoteFrom_none fun v hv e => ?_
      simp only [Proposal.created, List.mem_cons, List.not_mem_nil, or_false] at hv
      rcases hv with rfl | rfl <;> injection e with e <;>
        exact absurd (show d.proposalCount + 1 = id from e) (by omega)
    | vote | queue | cancel | veto | execute | executed => exact fun p => rfl
  unfold NounsDAOLogicV2.quote
  rw [h.logs, quoteFrom_append, hnone, Option.or_none]

/-- a new proposal is quoted with what has been announced -/
theorem propose_quote (hl : Listed d) {sender : Address} {targets : List Address} {values : List Nat}
    {signatures : List String} {calldatas : List Bytes} {description : String} {minQuorum : Nat}
    (hlogs : d'.logs = d.logs ++ (d.newProposal env sender t targets values signatures
      calldatas).created minQuorum description) :
    d'.quote (d.proposalCount + 1) = some ⟨d.announced, minQuorum⟩ := by
  have hnone : quoteFrom (d.proposalCount + 1) ⟨0, 0, 0⟩ d.logs = none :=
    quoteFrom_none (fun v hv e => absurd (hl v hv _ e) (Nat.not_succ_le_self _)) _
  unfold NounsDAOLogicV2.quote
  rw [hlogs, quoteFrom_append, hnone, Option.none_or]
  show (if d.proposalCount + 1 = d.proposalCount + 1 then _ else _ : Option Quote).or _ = _
  rw [if_pos rfl]
  rfl

/-! ## what is in force -/

/-- `p` is `q` as far as events can say: the minimum and the maximum once they have been set -/
structure Agree (min max : Bool) (p q : DynamicQuorumParams) : Prop where
  min : min = true → p.minQuorumVotesBPS = q.minQuorumVotesBPS
  max : max = true → p.maxQuorumVotesBPS = q.maxQuorumVotesBPS
  quorumCoefficient : p.quorumCoefficient = q.quorumCoefficient

/-- once both have been set, the events say all -/
theorem Agree.eq {p q : DynamicQuorumParams} (h : Agree true true p q) : p = q := by
  obtain ⟨p1, p2, p3⟩ := p
  obtain ⟨q1, q2, q3⟩ := q
  rw [show p1 = q1 from h.min rfl, show p2 = q2 from h.max rfl, show p3 = q3 from h.quorumCoefficient]

theorem Agree.set {a b : Bool} {p q : DynamicQuorumParams} (h : Agree a b p q) (v : DaoEvent) :
    Agree (a || v.setsMin) (b || v.setsMax) (p.set v) (q.set v) := by
  obtain ⟨h1, h2, h3⟩ := h
  cases v <;> simp [DaoEvent.setsMin, DaoEvent.setsMax, DynamicQuorumParams.set] <;>
    constructor <;> simp_all

theorem Agree.foldl (vs : List DaoEvent) : ∀ {a b : Bool} {p q : DynamicQuorumParams}, Agree a b p q →
    Agree (a || vs.any DaoEvent.setsMin) (b || vs.any DaoEvent.setsMax) (vs.foldl .set p)
      (vs.foldl .set q) := by
  induction vs with
  | nil =>
    intro a b p q h
    simpa using h
  | cons v vs ih =>
    intro a b p q h
    rw [List.any_cons, List.any_cons, ← Bool.or_assoc, ← Bool.or_assoc]
    exact ih (h.set v)

/-- what was announced is in force, as far as the events say -/
def Truthful (d : NounsDAOLogicV2) : Prop :=
  Agree (d.logs.any DaoEvent.setsMin) (d.logs.any DaoEvent.setsMax) d.announced d.inForce

theorem SaneSince.inForce {n₀ : Nat} (h : SaneSince n₀ env d) (hn : env.number < 2^32) :
    d.getDynamicQuorumParamsAt env.number = .ok d.inForce := by
  rw [h.params_ok hn, valueAt_eq_latest _ h.upTo.le]
  rfl

theorem Deed.truthful {n₀ : Nat} (h : Deed env t d x vs d') (hs : SaneSince n₀ env d)
    (ht : Truthful d) : Truthful d' := by
  have hfold := Agree.foldl vs ht
  rw [← List.any_append, ← List.any_append, ← h.logs, ← h.announced] at hfold
  have hforce : d'.inForce = vs.foldl .set d.inForce := by
    unfold NounsDAOLogicV2.inForce NounsDAOLogicV2.fixedParams
    rw [h.change.quorum.1]
    rcases h.sets with ⟨hcps, hnone⟩ | ⟨old, hold, hcps, _⟩
    · rw [hcps, foldl_set hnone]
    · rw [hs.inForce (getDynamicQuorumParamsAt_ok hold)] at hold
      rw [hcps, latest_write, ← Except.ok.inj hold]
      rfl
  unfold Truthful
  rw [hforce]
  exact hfold

/-- before a parameter is set the fixed quorum is in force -/
theorem inForce_of_startBlock (h : d.startBlock = none) : d.inForce = d.fixedParams := by
  have h0 := latest_isSome d.quorumParamsCheckpoints
  rw [show start d.quorumParamsCheckpoints = none from h] at h0
  have hlatest : latest d.quorumParamsCheckpoints = none := by simpa using h0
  unfold NounsDAOLogicV2.inForce
  rw [hlatest]
  rfl

/-! ## quotes -/

/-- the events tell the quorum of a proposal made in block `b`: no parameter has been set yet, or some
were in an earlier block, the minimum and the maximum among those set since -/
def Gated (d : NounsDAOLogicV2) (b : Nat) : Prop :=
  d.startBlock = none ∨
    (d.startBlock ≠ some b ∧ d.logs.any DaoEvent.setsMin = true ∧ d.logs.any DaoEvent.setsMax = true)

instance (d : NounsDAOLogicV2) (b : Nat) : Decidable (Gated d b) := inferInstanceAs (Decidable (_ ∨ _))

/-- the first parameters of a block are not after it, and behind the gate not in it -/
theorem Gated.startBlock {b : Nat} (hg : Gated d b)
    (hle : ∀ cp ∈ d.quorumParamsCheckpoints, cp.fromBlock ≤ b)
    (hd : d.startBlock.any (· < b) = false) : d.startBlock = none := by
  rcases hg with hnone | ⟨hne, _, _⟩
  · exact hnone
  · cases hb : d.startBlock with
    | none => rfl
    | some n =>
      rw [hb] at hd
      have hn : n ≤ b := start_le hle hb
      have hlt : ¬ n < b := of_decide_eq_false hd
      exact absurd (hb.trans (congrArg some (by omega))) hne

/-- behind the gate, what has been announced after a first setting is in force -/
theorem Gated.announced {b : Nat} (hg : Gated d b) (ht : Truthful d)
    (hd : d.startBlock.any (· < b) = true) : d.announced = d.inForce := by
  rcases hg with hnone | ⟨_, h1, h2⟩
  · rw [hnone] at hd
    cases hd
  · unfold Truthful at ht
    rw [h1, h2] at ht
    exact ht.eq

/-- the quote of a proposal is right: its parameters are those of the block of the proposal, or the
quorum was fixed then and is the one that the event has -/
structure QuotedAt (d : NounsDAOLogicV2) (id : Nat) (k : Quote) : Prop where
  quote : d.quote id = some k
  dynamic : d.dynamic id = true →
    d.getDynamicQuorumParamsAt (d.proposals id).creationBlock = .ok k.params
  fixed : d.dynamic id = false →
    d.getDynamicQuorumParamsAt (d.proposals id).creationBlock = .ok d.fixedParams ∧
      k.minQuorum = bps2Uint d.fixedParams.minQuorumVotesBPS.toNat (d.proposals id).totalSupply

theorem quorumOf_fixed (d : NounsDAOLogicV2) (supply against : Nat) :
    quorumOf d.fixedParams supply against = bps2Uint d.fixedParams.minQuorumVotesBPS.toNat supply := by
  have h0 : d.fixedParams.quorumCoefficient.toNat = 0 := rfl
  have hmax : d.fixedParams.maxQuorumVotesBPS = d.fixedParams.minQuorumVotesBPS := rfl
  unfold quorumOf
  rw [h0, hmax, Nat.zero_mul, Nat.zero_div, Nat.add_zero, Nat.min_self]

/-- **The quorum of a proposal can be told from its quote.** -/
theorem QuotedAt.quorumVotes {id : Nat} {k : Quote} (h : QuotedAt d id k)
    (h0 : (d.proposals id).quorumVotes = 0)
    (hs : d.dynamic id = true → (d.proposals id).totalSupply ≠ 0) :
    d.quorumVotes id = .ok (if d.dynamic id then
      quorumOf k.params (d.proposals id).totalSupply (d.proposals id).againstVotes else k.minQuorum) := by
  cases hd : d.dynamic id with
  | true => exact UNouns.quorumVotes_eq (hs hd) (h.dynamic hd)
  | false =>
    obtain ⟨hp, hk⟩ := h.fixed hd
    by_cases hsup : (d.proposals id).totalSupply = 0
    · unfold NounsDAOLogicV2.quorumVotes
      have hzero : bps2Uint d.fixedParams.minQuorumVotesBPS.toNat 0 = 0 := by
        unfold bps2Uint
        rw [Nat.zero_mul, Nat.zero_div]
      rw [if_pos hsup, h0, hk, hsup, hzero]
      rfl
    · rw [UNouns.quorumVotes_eq hsup hp, quorumOf_fixed, ← hk]
      rfl

/-- whether a proposal is dynamic is settled, but for its own block -/
theorem Deed.dynamic {n₀ : Nat} (h : Deed env t d x vs d') (hs : SaneSince n₀ env d) {id : Nat}
    (h1 : n₀ < id) (h2 : id ≤ d.proposalCount) : d'.dynamic id = d.dynamic id := by
  have hle := (hs.wellFormed id h1 h2).creation_le
  have hcreated : (d'.proposals id).creationBlock = (d.proposals id).creationBlock :=
    (h.change.header h2).congr (·.creationBlock) fun _ => rfl
  unfold NounsDAOLogicV2.dynamic
  rw [hcreated, h.startBlock]
  split_ifs
  · cases d.startBlock with
    | some b => rfl
    | none => exact decide_eq_false (Nat.not_lt.mpr hle)
  · rfl

/-- a right quote stays right, unless parameters are set in the block of the proposal -/
theorem Deed.quotedAt {n₀ : Nat} (h : Deed env t d x vs d') (hs : SaneSince n₀ env d) {id : Nat}
    (h1 : n₀ < id) (h2 : id ≤ d.proposalCount)
    (hsteady : d'.quorumParamsCheckpoints ≠ d.quorumParamsCheckpoints →
      (d.proposals id).creationBlock ≠ env.number)
    {k : Quote} (hk : QuotedAt d id k) : QuotedAt d' id k := by
  have hw := hs.wellFormed id h1 h2
  have hq := h.change.quorum.1
  have hkept := h.change.header h2
  have hcreated : (d'.proposals id).creationBlock = (d.proposals id).creationBlock :=
    hkept.congr (·.creationBlock) fun _ => rfl
  have hparams : d'.getDynamicQuorumParamsAt (d.proposals id).creationBlock
      = d.getDynamicQuorumParamsAt (d.proposals id).creationBlock := by
    rw [(hs.change h.change).params_ok hw.creation_lt, hs.params_ok hw.creation_lt, hq]
    by_cases hsame : d'.quorumParamsCheckpoints = d.quorumParamsCheckpoints
    · rw [hsame]
    · have hne := hsteady hsame
      have hle := hw.creation_le
      rcases h.change.quorum.2 with hcps | ⟨params, hcps⟩
      · exact absurd hcps hsame
      · rw [hcps, valueAt_write _ _ (by omega)]
  have hfixed : d'.fixedParams = d.fixedParams := by
    unfold NounsDAOLogicV2.fixedParams
    rw [hq]
  refine ⟨(h.quote h2).trans hk.quote, fun hd => ?_, fun hd => ?_⟩
  · rw [h.dynamic hs h1 h2] at hd
    rw [hcreated, hparams, hk.dynamic hd]
  · rw [h.dynamic hs h1 h2] at hd
    rw [hcreated, hparams, hfixed, hkept.congr (·.totalSupply) fun _ => rfl]
    exact hk.fixed hd

/-- **A proposal made behind the gate is quoted right.** -/
theorem propose_quotedAt {n₀ : Nat} (hs : SaneSince n₀ env d) (hl : Listed d) (ht : Truthful d)
    (hg : Gated d env.number) {sender : Address} {targets : List Address} {values : List Nat}
    {signatures : List String} {calldatas : List Bytes} {description : String} {minQuorum : Nat}
    (h : d.propose env sender t targets values signatures calldatas description = .ok d')
    (hmin : d.minQuorumVotes env t = .ok minQuorum)
    (hlogs : d'.logs = d.logs ++ (d.newProposal env sender t targets values signatures
      calldatas).created minQuorum description) :
    QuotedAt d' (d.proposalCount + 1) ⟨d.announced, minQuorum⟩ := by
  obtain ⟨_, _, _, hn, _⟩ := propose_ok h
  obtain ⟨hcount, hnew⟩ := propose_new h
  have hcps := (propose_rules h).checkpoints
  have hq := (DaoChange.propose d' sender t targets values signatures calldatas description h).quorum.1
  have hforce : d'.getDynamicQuorumParamsAt env.number = .ok d.inForce := by
    have hs' := hs.change (.propose d' sender t targets values signatures calldatas description h)
    rw [hs'.inForce hn]
    unfold NounsDAOLogicV2.inForce NounsDAOLogicV2.fixedParams
    rw [hcps, hq]
  have hstart : d'.startBlock = d.startBlock := by
    unfold NounsDAOLogicV2.startBlock
    rw [hcps]
  have hdynamic : d'.dynamic (d.proposalCount + 1) = d.startBlock.any (· < env.number) := by
    unfold NounsDAOLogicV2.dynamic
    rw [hnew, hstart]
    rfl
  have hf' : d'.fixedParams = d.fixedParams := by
    unfold NounsDAOLogicV2.fixedParams
    rw [hq]
  refine ⟨propose_quote hl hlogs, fun hd => ?_, fun hd => ?_⟩
  · rw [hdynamic] at hd
    rw [hnew, hg.announced ht hd]
    exact hforce
  · rw [hdynamic] at hd
    have hfixed := inForce_of_startBlock (hg.startBlock hs.upTo.le hd)
    rw [hnew, hf', ← hfixed]
    refine ⟨hforce, ?_⟩
    simp only [minQuorumVotes, bind_eq_ok, pure_eq_ok] at hmin
    obtain ⟨params, hp, hm⟩ := hmin
    rw [hs.inForce hn] at hp
    rw [← Except.ok.inj hp] at hm
    exact hm.symm

end
end UNouns
