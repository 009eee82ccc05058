import UNouns.Governance.Lifecycle
import UNouns.Timelock.Safety

/-!
# Queued proposals and the timelock

The timelock knows hashes, not proposals.  Two proposals with the same action and the same `eta`
share a hash, so what is done to one may be felt by the other.

* `Live`, `Held`          a proposal that is queued, and one that was and has not been taken back;
* `QueueSound`            the coupling: the bits of live proposals are set, and their transactions are
                          theirs alone among those held;
* `SparesQueued`          no repeated `cancel` or `veto` clears a bit of a queued proposal;
* `queued_executable`     where that is so, queued proposals can be executed;
* `not_queued_executable` a run in which it is not so.
-/

set_option linter.unusedVariables false

namespace UNouns
open Function Relation Reentrant NounsDAOLogicV2

/-! ## live and held proposals -/

/-- the transactions a proposal has in the queue, or had -/
abbrev Proposal.own (p : Proposal) : List Transaction := p.transactions p.eta

/-- waiting to be executed, and in time for it -/
structure Live (e : Env) (p : Proposal) : Prop where
  held : Held p
  executed : p.executed = false
  inTime : e.timestamp < p.eta + NounsDAOExecutor.GRACE_PERIOD

theorem Live.of_le {e e' : Env} {p : Proposal} (h : Live e' p) (he : e ≤ e') : Live e p :=
  ⟨h.held, h.executed, Nat.lt_of_le_of_lt (Env.le_def.mp he).2 h.inTime⟩

theorem live_of_state {e : Env} {d : NounsDAOLogicV2} {i : Nat} (h : d.state e i = .ok .queued) :
    Live e (d.proposals i) := by
  obtain ⟨hc, heta, hx, ht⟩ := state_queued h
  exact ⟨⟨heta, hc.canceled, hc.vetoed⟩, hx, ht⟩

theorem Live.state {e : Env} {d : NounsDAOLogicV2} {i : Nat} (h : Live e (d.proposals i))
    (hd : Sane e d) (hc : Carries e d) : d.state e i = .ok .queued := by
  rw [hc.state_eq hd h.held.eta_ne h.held.vetoed h.held.canceled, h.executed,
    if_neg Bool.false_ne_true, if_neg (Nat.not_le.mpr h.inTime)]

theorem Proposal.set_executed {p : Proposal} (h : p.executed = true) :
    { p with executed := true } = p := by
  rw [← h]

section
variable {P : Platform}

/-- the bit of a transaction -/
def Queued (w : World P) (tx : Transaction) : Prop :=
  w.timelock.queuedTransactions (P.keccak256 tx) = true

structure QueueSound (e : Env) (w : World P) : Prop where
  sane : Sane e w.dao
  carries : Carries e w.dao
  delay_ge : NounsDAOExecutor.MINIMUM_DELAY ≤ w.timelock.delay
  delay_le : w.timelock.delay ≤ NounsDAOExecutor.MAXIMUM_DELAY
  eta_le : ∀ i, (w.dao.proposals i).eta ≤ e.timestamp + NounsDAOExecutor.MAXIMUM_DELAY
  executed : ExecutedHeld w.dao
  due : ∀ i, (w.dao.proposals i).executed = true → (w.dao.proposals i).eta ≤ e.timestamp
  bits : ∀ i, Live e (w.dao.proposals i) → ∀ tx ∈ (w.dao.proposals i).own, Queued w tx
  nodup : ∀ i, Live e (w.dao.proposals i) → ((w.dao.proposals i).own.map P.keccak256).Nodup
  apart : ∀ i j, i ≠ j → Live e (w.dao.proposals i) → Held (w.dao.proposals j) →
    ∀ tx ∈ (w.dao.proposals i).own, tx ∉ (w.dao.proposals j).own

theorem QueueSound.tick {e e' : Env} {w : World P} (h : QueueSound e w) (he : e ≤ e') :
    QueueSound e' w := by
  have ht := (Env.le_def.mp he).2
  exact ⟨h.sane.mono he, h.carries.mono he, h.delay_ge, h.delay_le,
    fun i => Nat.le_trans (h.eta_le i) (by omega),
    h.executed, fun i hx => Nat.le_trans (h.due i hx) ht,
    fun i hl => h.bits i (hl.of_le he), fun i hl => h.nodup i (hl.of_le he),
    fun i j hij hl => h.apart i j hij (hl.of_le he)⟩

/-! ## steps that queue nothing -/

variable {env : Env} {w w' : World P}

/-- no proposal becomes held or live, and the bits of those that stay live stay set -/
theorem QueueSound.keep (h : QueueSound env w) (hchange : DaoChange env w.dao w'.dao)
    (hdelay : NounsDAOExecutor.MINIMUM_DELAY ≤ w'.timelock.delay ∧
      w'.timelock.delay ≤ NounsDAOExecutor.MAXIMUM_DELAY)
    (heta : ∀ i, (w'.dao.proposals i).eta = (w.dao.proposals i).eta)
    (hheld : ∀ i, Held (w'.dao.proposals i) → Held (w.dao.proposals i))
    (hlive : ∀ i, (w'.dao.proposals i).executed = false → (w.dao.proposals i).executed = false)
    (hdue : ∀ i, (w'.dao.proposals i).executed = true →
      (w'.dao.proposals i).eta ≤ env.timestamp)
    (hbits : ∀ i, Live env (w.dao.proposals i) → Live env (w'.dao.proposals i) →
      ∀ tx ∈ (w.dao.proposals i).own, Queued w tx → Queued w' tx) : QueueSound env w' := by
  have hlive' : ∀ {i}, Live env (w'.dao.proposals i) → Live env (w.dao.proposals i) := fun hl =>
    ⟨hheld _ hl.held, hlive _ hl.executed, heta _ ▸ hl.inTime⟩
  have hown : ∀ {i}, Held (w'.dao.proposals i) → (w'.dao.proposals i).own = (w.dao.proposals i).own := by
    intro i hi
    have hle := (h.sane.id_of_eta (hheld i hi).eta_ne).2
    unfold Proposal.own
    rw [heta, (hchange.header hle).transactions]
  refine ⟨h.sane.change hchange, h.carries.change h.sane hchange, hdelay.1, hdelay.2,
    fun i => heta i ▸ h.eta_le i, h.executed.change h.sane h.carries hchange, hdue,
    fun i hl tx htx => ?_, fun i hl => ?_,
    fun i j hij hl hj tx htx => ?_⟩
  · rw [hown hl.held] at htx
    exact hbits i (hlive' hl) hl tx htx (h.bits i (hlive' hl) tx htx)
  · rw [hown hl.held]
    exact h.nodup i (hlive' hl)
  · rw [hown hl.held] at htx
    rw [hown hj]
    exact h.apart i j hij (hlive' hl) (hheld j hj) tx htx

/-- what the queue sees of a proposal -/
structure SameFlags (p p' : Proposal) : Prop where
  eta : p'.eta = p.eta
  canceled : p'.canceled = p.canceled
  vetoed : p'.vetoed = p.vetoed
  executed : p'.executed = p.executed

theorem SameFlags.held {p p' : Proposal} (h : SameFlags p p') (hp : Held p') : Held p :=
  ⟨h.eta ▸ hp.eta_ne, h.canceled ▸ hp.canceled, h.vetoed ▸ hp.vetoed⟩

theorem QueueSound.same (h : QueueSound env w) (hchange : DaoChange env w.dao w'.dao)
    (hdelay : NounsDAOExecutor.MINIMUM_DELAY ≤ w'.timelock.delay ∧
      w'.timelock.delay ≤ NounsDAOExecutor.MAXIMUM_DELAY)
    (hflags : ∀ i, SameFlags (w.dao.proposals i) (w'.dao.proposals i))
    (hbits : w'.timelock.queuedTransactions = w.timelock.queuedTransactions) : QueueSound env w' := by
  refine h.keep hchange hdelay (fun i => (hflags i).eta) (fun i => (hflags i).held)
    (fun i hx => (hflags i).executed ▸ hx) (fun i hx => ?_) (fun i _ _ tx _ hq => ?_)
  · exact (hflags i).eta ▸ h.due i ((hflags i).executed ▸ hx)
  · unfold Queued
    rwa [hbits]

/-- `cancel` and `veto`: the bits of the proposal go -/
theorem QueueSound.withdraw (h : QueueSound env w) (hchange : DaoChange env w.dao w'.dao)
    (hsame : SameExecutor w.timelock w'.timelock) {a : Nat} {p : Proposal}
    (hs : SetsProposal w.dao w'.dao a p) (hp : p.eta = (w.dao.proposals a).eta)
    (hx : p.executed = false) (hnot : ¬ Held p)
    (hspares : ¬ Held (w.dao.proposals a) → ∀ i, Live env (w.dao.proposals i) →
      ∀ tx ∈ (w.dao.proposals i).own, tx ∉ (w.dao.proposals a).own)
    (hbits : ∀ h, w'.timelock.queuedTransactions h = true ↔
      h ∉ (w.dao.proposals a).own.map P.keccak256 ∧ w.timelock.queuedTransactions h = true)
    (hP : Injective P.keccak256) (hxa : (w.dao.proposals a).executed = false) :
    QueueSound env w' := by
  have hother : ∀ {i}, i ≠ a → w'.dao.proposals i = w.dao.proposals i := fun hi => hs.other hi
  refine h.keep hchange ⟨hsame.delay ▸ h.delay_ge, hsame.delay ▸ h.delay_le⟩ (fun i => ?_)
    (fun i hi => ?_) (fun i hi => ?_) (fun i hi => ?_) (fun i hl hl' tx htx hq => ?_)
  · by_cases e : i = a
    · rw [e, hs.self, hp]
    · rw [hother e]
  · by_cases e : i = a
    · rw [e, hs.self] at hi
      exact absurd hi hnot
    · rwa [hother e] at hi
  · by_cases e : i = a
    · rw [e, hxa]
    · rwa [hother e] at hi
  · by_cases e : i = a
    · rw [e, hs.self, hx] at hi
      cases hi
    · rw [hother e] at hi ⊢
      exact h.due i hi
  · have e : i ≠ a := by
      rintro rfl
      rw [hs.self] at hl'
      exact hnot hl'.held
    refine (hbits _).mpr ⟨fun hm => ?_, hq⟩
    obtain ⟨tx', htx', he⟩ := List.mem_map.mp hm
    rw [hP he] at htx'
    by_cases ha : Held (w.dao.proposals a)
    · exact h.apart i a e hl ha tx htx htx'
    · exact hspares ha i hl tx htx htx'

/-- one action of an executed proposal: its bit goes -/
theorem QueueSound.take (h : QueueSound env w) (hchange : DaoChange env w.dao w'.dao)
    (hdelay : w'.timelock.delay = w.timelock.delay) {a : Nat} {tx : Transaction}
    (hother : ∀ i, i ≠ a → w'.dao.proposals i = w.dao.proposals i)
    (hself : w'.dao.proposals a = { w.dao.proposals a with executed := true })
    (ha : Held (w.dao.proposals a)) (hle : (w.dao.proposals a).eta ≤ env.timestamp)
    (htx : tx ∈ (w.dao.proposals a).own)
    (hbits : w'.timelock.queuedTransactions
      = update w.timelock.queuedTransactions (P.keccak256 tx) false)
    (hP : Injective P.keccak256) : QueueSound env w' := by
  refine h.keep hchange ⟨hdelay ▸ h.delay_ge, hdelay ▸ h.delay_le⟩ (fun i => ?_)
    (fun i hi => ?_) (fun i hi => ?_) (fun i hi => ?_) (fun i hl hl' tx' htx' hq => ?_)
  · by_cases e : i = a
    · rw [e, hself]
    · rw [hother i e]
  · by_cases e : i = a
    · rwa [e]
    · rwa [hother i e] at hi
  · by_cases e : i = a
    · rw [e, hself] at hi
      cases hi
    · rwa [hother i e] at hi
  · by_cases e : i = a
    · rw [e, hself]
      exact hle
    · rw [hother i e] at hi ⊢
      exact h.due i hi
  · have e : i ≠ a := by
      rintro rfl
      rw [hself] at hl'
      cases hl'.executed
    have hne : tx' ≠ tx := fun he => h.apart i a e hl ha tx' htx' (he ▸ htx)
    unfold Queued
    rwa [hbits, update_of_ne (fun he => hne (hP he))]

/-! ## queueing -/

/-- the new transactions had no bit; those held without one are of another time -/
theorem QueueSound.queue (h : QueueSound env w) {id : Nat}
    {r : NounsDAOExecutor P × NounsDAOLogicV2} (hq : w.dao.queue env w.timelock id = .ok r) :
    QueueSound env (w.withDao r) := by
  obtain ⟨hstate, hfor, hs⟩ := queue_ok hq
  have hchange : DaoChange env w.dao r.2 := .queue _ id _ hstate hs
  obtain ⟨hsame, hnd, hfree, hbits⟩ := forActions_queue hfor
  obtain ⟨hc, heta0⟩ := state_succeeded hstate
  have hge := h.delay_ge
  have hle := h.delay_le
  have hpos : 0 < w.timelock.delay := Nat.lt_of_lt_of_le (by decide) hge
  have hown : (r.2.proposals id).own
      = (w.dao.proposals id).transactions (env.timestamp + w.timelock.delay) := by rw [hs.self]; rfl
  -- whoever is held at the new time is live, and has its bits set
  have hapart : ∀ j, j ≠ id → Held (w.dao.proposals j) → ∀ tx ∈ (r.2.proposals id).own,
      tx ∉ (w.dao.proposals j).own := by
    intro j hj hheld tx htx htx'
    rw [hown] at htx
    have h1 := Proposal.eta_of_mem htx
    have h2 := Proposal.eta_of_mem htx'
    have hx : (w.dao.proposals j).executed = false := by
      by_contra hx
      have := h.due j (by simpa using hx)
      omega
    have hlive : Live env (w.dao.proposals j) := ⟨hheld, hx, by omega⟩
    have h3 := h.bits j hlive tx htx'
    rw [Queued, hfree tx htx] at h3
    cases h3
  have hother : ∀ {i}, i ≠ id → r.2.proposals i = w.dao.proposals i := fun hi => hs.other hi
  refine ⟨h.sane.change hchange, h.carries.change h.sane hchange, hsame.delay ▸ hge, hsame.delay ▸ hle,
    fun i => ?_, h.executed.change h.sane h.carries hchange, fun i hx => ?_, fun i hl tx htx => ?_,
    fun i hl => ?_, fun i j hij hl hj tx htx => ?_⟩
  · show (r.2.proposals i).eta ≤ _
    by_cases e : i = id
    · rw [e, hs.self]
      show env.timestamp + w.timelock.delay ≤ _
      omega
    · rw [hother e]
      exact h.eta_le i
  · have hx' : (r.2.proposals i).executed = true := hx
    show (r.2.proposals i).eta ≤ _
    by_cases e : i = id
    · rw [e, hs.self] at hx'
      exact absurd heta0 (h.executed id hx').eta_ne
    · rw [hother e] at hx' ⊢
      exact h.due i hx'
  · refine (hbits _).mpr ?_
    by_cases e : i = id
    · subst e
      refine .inl (List.mem_map_of_mem ?_)
      rw [← hown]
      exact htx
    · have hi : (w.withDao r).dao.proposals i = w.dao.proposals i := hother e
      rw [hi] at hl htx
      exact .inr (h.bits i hl tx htx)
  · by_cases e : i = id
    · subst e
      show ((r.2.proposals i).own.map _).Nodup
      rw [hown]
      exact hnd
    · have hi : (w.withDao r).dao.proposals i = w.dao.proposals i := hother e
      rw [hi] at hl ⊢
      exact h.nodup i hl
  · by_cases ei : i = id
    · subst ei
      have hj' : (w.withDao r).dao.proposals j = w.dao.proposals j := hother (Ne.symm hij)
      rw [hj'] at hj ⊢
      exact hapart j (Ne.symm hij) hj tx htx
    · have hi : (w.withDao r).dao.proposals i = w.dao.proposals i := hother ei
      rw [hi] at hl htx
      by_cases ej : j = id
      · subst ej
        exact fun htx' => hapart i ei hl.held tx htx' htx
      · have hj' : (w.withDao r).dao.proposals j = w.dao.proposals j := hother ej
        rw [hj'] at hj ⊢
        exact h.apart i j hij hl hj tx htx

/-! ## the admin of the timelock -/

/-- an admin that is not the DAO never makes room for it again -/
theorem GovMove.admin {c c' : GovConfig P} (hm : GovMove env c c')
    (h : c'.now.timelock.admin = P.dao) : c.now.timelock.admin = P.dao := by
  cases hm with
  | resume w h' =>
    cases h' with
    | settle tlLogs balance logs => exact h
    | act w' id i tx hid hex hb =>
      obtain ⟨_, hb, _⟩ := beginAction_ok hb
      obtain ⟨_, _, _, e⟩ := NounsDAOExecutor.beginExecute_window hb
      rwa [e] at h
  | enter op w h' =>
    obtain ⟨msg, op, hout⟩ := op
    cases h' with
    | token op t h' => exact h
    | settings op d hop h' => exact h
    | propose targets values signatures calldatas description d h' => exact h
    | vote op voter id support d hop h' => exact h
    | queue id r h' => exact (forActions_queue (queue_ok h').2.1).1.admin.symm.trans h
    | cancel id r h' => exact (forActions_cancel (cancel_ok h').2.1).1.admin.symm.trans h
    | veto id r h' => exact (forActions_cancel (veto_ok h').2.1).1.admin.symm.trans h
    | timelock op tl h' =>
      rcases ExecutorOp.admin h' with e | e
      · exact e.symm.trans h
      · exact absurd (e.symm.trans h) hout
    | execute id d w' h' hact =>
      rcases hact with ⟨_, rfl⟩ | ⟨tx, hb⟩
      · exact h
      · obtain ⟨_, hb, _⟩ := beginAction_ok hb
        obtain ⟨_, _, _, e⟩ := NounsDAOExecutor.beginExecute_window hb
        rwa [e] at h

/-- a `cancel` or `veto` of a proposal that is canceled or vetoed already has no transaction in common
with a queued one -/
def SparesQueued (r : GovRecord P) : Prop :=
  ∀ a ∈ r.op.op.withdraws,
    ((r.pre.dao.proposals a).canceled = true ∨ (r.pre.dao.proposals a).vetoed = true) →
    ∀ i ≤ r.pre.dao.proposalCount, r.pre.dao.state r.env i = .ok .queued →
    ∀ tx ∈ (r.pre.dao.proposals i).own, tx ∉ (r.pre.dao.proposals a).own

instance (r : GovRecord P) : Decidable (SparesQueued r) := by
  delta SparesQueued
  infer_instance

/-! ## what a move does to the queue -/

/-- the proposal that an entry executes -/
def GovOp.executes : GovOp → Option Nat
  | .execute id => some id
  | _ => none

/-- the bits, and the proposals as the queue sees them; a proposal may be withdrawn, and an action of
one taken -/
inductive QueueMove (env : Env) (w w' : World P) : Option Nat → Option Nat → Prop
  | idle (flags : ∀ i, SameFlags (w.dao.proposals i) (w'.dao.proposals i))
      (bits : w'.timelock.queuedTransactions = w.timelock.queuedTransactions)
      (delay : w'.timelock.delay = w.timelock.delay ∨
        NounsDAOExecutor.MINIMUM_DELAY ≤ w'.timelock.delay ∧
          w'.timelock.delay ≤ NounsDAOExecutor.MAXIMUM_DELAY) :
      QueueMove env w w' none none
  | queue (id : Nat) (r : NounsDAOExecutor P × NounsDAOLogicV2)
      (h : w.dao.queue env w.timelock id = .ok r) (e : w' = w.withDao r) :
      QueueMove env w w' none none
  | withdraw (id : Nat) (s : ProposalState) (p : Proposal) (hstate : w.dao.state env id = .ok s)
      (hs : s ≠ .executed) (same : SameExecutor w.timelock w'.timelock)
      (set : SetsProposal w.dao w'.dao id p) (eta : p.eta = (w.dao.proposals id).eta)
      (executed : p.executed = (w.dao.proposals id).executed) (held : ¬ Held p)
      (bits : ∀ h, w'.timelock.queuedTransactions h = true ↔
        h ∉ (w.dao.proposals id).own.map P.keccak256 ∧ w.timelock.queuedTransactions h = true) :
      QueueMove env w w' (some id) none
  | take (id : Nat) (tx : Transaction) (held : Held (w.dao.proposals id))
      (due : (w.dao.proposals id).eta ≤ env.timestamp) (mem : tx ∈ (w.dao.proposals id).own)
      (other : ∀ i, i ≠ id → w'.dao.proposals i = w.dao.proposals i)
      (self : w'.dao.proposals id = { w.dao.proposals id with executed := true })
      (delay : w'.timelock.delay = w.timelock.delay)
      (bits : w'.timelock.queuedTransactions
        = update w.timelock.queuedTransactions (P.keccak256 tx) false) :
      QueueMove env w w' none (some id)

theorem GovStep.queueMove {c : GovCall P} (hs : GovStep env c.msg w c.op w') (hsane : Sane env w.dao)
    (hadmin : w.timelock.admin = P.dao) : QueueMove env w w' c.op.withdraws c.op.executes := by
  obtain ⟨msg, op, hout⟩ := c
  cases hs with
  | token op t hop => exact .idle (fun i => ⟨rfl, rfl, rfl, rfl⟩) rfl (.inl rfl)
  | timelock op tl hop =>
    obtain ⟨hbits, hd⟩ := ExecutorOp.outside hop (fun e => hout (e.trans hadmin))
    exact .idle (fun i => ⟨rfl, rfl, rfl, rfl⟩) hbits hd
  | settings op d hop hd =>
    refine .idle (fun i => ?_) rfl (.inl rfl)
    show SameFlags _ (d.proposals i)
    rw [hd.proposals]
    exact ⟨rfl, rfl, rfl, rfl⟩
  | propose targets values signatures calldatas description d hp =>
    refine .idle (fun i => ?_) rfl (.inl rfl)
    show SameFlags _ (d.proposals i)
    by_cases e : i = w.dao.proposalCount + 1
    · -- the flags of a new proposal are those of one that is not there
      obtain ⟨_, _, _, _, ed⟩ := propose_ok hp
      rw [e, hsane.fresh _ (Nat.lt_succ_self _), ed]
      show SameFlags _ (update w.dao.proposals _ _ (w.dao.proposalCount + 1))
      rw [update_self]
      exact ⟨rfl, rfl, rfl, rfl⟩
    · rw [propose_other hp e]
      exact ⟨rfl, rfl, rfl, rfl⟩
  | vote op voter id support d hop hv =>
    obtain ⟨votes, _, _, _, _, hset⟩ := hv.sets
    refine .idle (fun i => ?_) rfl (.inl rfl)
    show SameFlags _ (d.proposals i)
    by_cases e : i = id
    · obtain ⟨h1, h2, h3, h4⟩ := withVote_flags (w.dao.proposals id) voter support votes
      rw [e, hset.self]
      exact ⟨h4, h2, h1, h3⟩
    · rw [hset.other e]
      exact ⟨rfl, rfl, rfl, rfl⟩
  | queue id r hq => exact .queue id r hq rfl
  | cancel id r hc =>
    obtain ⟨⟨s, hstate, hs⟩, hfor, hset⟩ := cancel_ok hc
    obtain ⟨hsame, hbits⟩ := forActions_cancel hfor
    exact .withdraw id s _ hstate hs hsame hset rfl rfl (fun hh => nomatch hh.canceled) hbits
  | veto id r hv =>
    obtain ⟨⟨s, hstate, hs⟩, hfor, hset⟩ := veto_ok hv
    obtain ⟨hsame, hbits⟩ := forActions_cancel hfor
    exact .withdraw id s _ hstate hs hsame hset rfl rfl (fun hh => nomatch hh.vetoed) hbits
  | execute id d w' hx hact =>
    obtain ⟨hstate, hset⟩ := NounsDAOLogicV2.beginExecute_ok hx
    have hl := live_of_state hstate
    rcases hact with ⟨hnil, _⟩ | ⟨tx, hb⟩
    · -- a proposal has an action
      have hw := hsane.wellFormed id (hsane.id_of_eta hl.held.eta_ne).1 (state_le hstate)
      have hnil' : (d.proposals id).targets = [] := hnil
      rw [hset.self] at hnil'
      exact absurd (by rw [show (w.dao.proposals id).targets = [] from hnil']; rfl) hw.targets_ne
    · obtain ⟨htx, hb, hw'⟩ := beginAction_ok hb
      obtain ⟨_, _, hle, htl⟩ := NounsDAOExecutor.beginExecute_window hb
      have htx' : (d.proposals id).action (d.proposals id).eta 0 = .ok tx := htx
      rw [hset.self] at htx'
      have hmem : tx ∈ (w.dao.proposals id).own := Proposal.mem_transactions.mpr ⟨0, htx'⟩
      rw [Proposal.eta_of_mem hmem] at hle
      have hdao : w'.dao = d := by rw [hw']
      refine .take id tx hl.held hle hmem (fun i e => ?_) ?_ (by rw [htl]) (by rw [htl])
      · rw [hdao, hset.other e]
      · rw [hdao, hset.self]

theorem GovRest.queueMove (hr : GovRest env w w') (hheld : ExecutedHeld w.dao)
    (hdue : ∀ i, (w.dao.proposals i).executed = true → (w.dao.proposals i).eta ≤ env.timestamp) :
    ∃ y, QueueMove env w w' none y ∧ ∀ id ∈ y, (w.dao.proposals id).executed = true := by
  cases hr with
  | settle tlLogs balance logs =>
    exact ⟨none, .idle (fun i => ⟨rfl, rfl, rfl, rfl⟩) rfl (.inl rfl), fun _ h => nomatch h⟩
  | act w' id i tx hid hex hb =>
    obtain ⟨htx, hb, hw'⟩ := beginAction_ok hb
    obtain ⟨_, _, _, htl⟩ := NounsDAOExecutor.beginExecute_window hb
    have hdao : w'.dao = w.dao := by rw [hw']
    refine ⟨some id, .take id tx (hheld id hex) (hdue id hex) (Proposal.mem_transactions.mpr ⟨i, htx⟩)
      (fun j _ => by rw [hdao]) ?_ (by rw [htl]) (by rw [htl]), fun _ h => by cases h; exact hex⟩
    rw [hdao]
    exact (Proposal.set_executed hex).symm

/-! ## runs -/

theorem QueueSound.move (hP : Injective P.keccak256) (h : QueueSound env w) {x y : Option Nat}
    (hm : QueueMove env w w' x y) (hchange : DaoChange env w.dao w'.dao)
    (hspares : ∀ a ∈ x, ((w.dao.proposals a).canceled = true ∨ (w.dao.proposals a).vetoed = true) →
      ∀ i ≤ w.dao.proposalCount, w.dao.state env i = .ok .queued →
      ∀ tx ∈ (w.dao.proposals i).own, tx ∉ (w.dao.proposals a).own) : QueueSound env w' := by
  cases hm with
  | idle flags bits delay =>
    refine h.same hchange ?_ flags bits
    rcases delay with hd | hd
    · exact hd ▸ ⟨h.delay_ge, h.delay_le⟩
    · exact hd
  | queue id r hq e => exact e ▸ h.queue hq
  | take id tx held due mem other self delay bits =>
    exact h.take hchange delay other self held due mem bits hP
  | withdraw a s p hstate hs same set eta executed held bits =>
    have hxa : (w.dao.proposals a).executed = false := by
      by_contra hx
      exact hs (Except.ok.inj (hstate.symm.trans
        (h.executed.state h.sane h.carries (by simpa using hx))))
    refine h.withdraw hchange same set eta (executed.trans hxa) held
      (fun hna i hl tx htx htx' => ?_) bits hP hxa
    by_cases h0 : (w.dao.proposals a).eta = 0
    · -- it was never queued, and nobody is queued for the time zero
      exact hl.held.eta_ne
        ((Proposal.eta_of_mem htx).symm.trans ((Proposal.eta_of_mem htx').trans h0))
    · refine hspares a rfl ?_ i (h.sane.id_of_eta hl.held.eta_ne).2 (hl.state h.sane h.carries) tx
        htx htx'
      by_contra hflags
      push Not at hflags
      exact hna ⟨h0, by simpa using hflags.1, by simpa using hflags.2⟩

theorem QueueSound.step (hP : Injective P.keccak256) (h : QueueSound env w) {c : GovCall P}
    (hs : GovStep env c.msg w c.op w') (hadmin : w.timelock.admin = P.dao)
    (hspares : SparesQueued ⟨env, w, c⟩) : QueueSound env w' :=
  h.move hP (GovStep.queueMove hs h.sane hadmin) (GovStep.change hs) hspares

theorem QueueSound.rest (hP : Injective P.keccak256) (h : QueueSound env w) (hr : GovRest env w w') :
    QueueSound env w' := by
  obtain ⟨y, hm, _⟩ := GovRest.queueMove hr h.executed h.due
  exact h.move hP hm (.same _ (GovRest.same hr)) fun _ ha => nomatch ha

theorem GovSetup.deploy_queueSound {g : GovSetup} {e : Env} {w : World P} (hw : g.deploy P e = .ok w) :
    QueueSound e w := by
  have h := GovSetup.deploy_fresh hw
  have heta : ∀ i, (w.dao.proposals i).eta = 0 := fun i => by rw [h.proposals]; rfl
  have hex : ∀ i, (w.dao.proposals i).executed ≠ true := fun i hx => by rw [h.proposals] at hx; cases hx
  refine ⟨h.sane, fun i hi => absurd (heta i) hi, h.delay_ge, h.delay_le, fun i => ?_,
    fun i hx => absurd hx (hex i), fun i hx => absurd hx (hex i),
    fun i hl => absurd (heta i) hl.held.eta_ne, fun i hl => absurd (heta i) hl.held.eta_ne,
    fun i j _ hl => absurd (heta i) hl.held.eta_ne⟩
  rw [heta]
  exact Nat.zero_le _

theorem runs_queueSound (hP : Injective P.keccak256) {x y : Env × GovConfig P}
    (h : ReflTransGen (Timed GovMove) x y) (hx : QueueSound x.1 x.2.now)
    (hadmin : y.2.now.timelock.admin = P.dao) (hspares : ∀ r ∈ y.2.past, SparesQueued r) :
    QueueSound y.1 y.2.now := by
  refine Timed.invariant_under (I := fun e c => QueueSound e c.now)
    (P := fun c => c.now.timelock.admin = P.dao ∧ ∀ r ∈ c.past, SparesQueued r) ?_ ?_ ?_ h hx
    ⟨hadmin, hspares⟩
  · exact fun e c c' hm hc' => ⟨GovMove.admin hm hc'.1, fun r hr =>
      hc'.2 r ((Move.past_prefix hm).subset hr)⟩
  · intro e c c' hc hc' hI hm
    cases hm with
    | resume w hr => exact hI.rest hP hr
    | enter op w hs => exact hI.step hP hs hc.1 (hc'.2 _ (List.mem_append_right _ List.mem_cons_self))
  · exact fun e e' c hc he => hc.tick he

/-! ## execution -/

/-- the timelock when `execute` comes to action `i`, if no target has changed it: the bits of earlier
actions are gone -/
structure BeforeAction (w : World P) (id i : Nat) (tl : NounsDAOExecutor P) : Prop where
  admin : tl.admin = P.dao
  bits : ∀ h, (∀ j < i, ∀ tx,
      (w.dao.proposals id).action (w.dao.proposals id).eta j = .ok tx → h ≠ P.keccak256 tx) →
    tl.queuedTransactions h = w.timelock.queuedTransactions h

/-- every action is in the queue and in time; one that is refused is early -/
structure Executable (e : Env) (w : World P) (id : Nat) : Prop where
  queued : ∀ i < (w.dao.proposals id).targets.length, ∃ tx,
    (w.dao.proposals id).action (w.dao.proposals id).eta i = .ok tx ∧ Queued w tx
  inTime : e.timestamp < (w.dao.proposals id).eta + NounsDAOExecutor.GRACE_PERIOD
  refused : ∀ i tl tx r, BeforeAction w id i tl →
    (w.dao.proposals id).action (w.dao.proposals id).eta i = .ok tx →
    tl.beginExecute e P.dao tx = .error r → e.timestamp < (w.dao.proposals id).eta

/-- the hashes of two actions differ -/
theorem Proposal.action_ne {p : Proposal} {eta : Nat} (h : ((p.transactions eta).map P.keccak256).Nodup)
    {i j : Nat} (hij : j < i) {tx tx' : Transaction} (hi : p.action eta i = .ok tx)
    (hj : p.action eta j = .ok tx') : P.keccak256 tx ≠ P.keccak256 tx' := by
  rw [List.Nodup, List.pairwise_map, Proposal.transactions, List.pairwise_filterMap,
    Proposal.indices, List.pairwise_iff_getElem] at h
  have hlt := Proposal.action_lt hi
  have := h j i (by simp; omega) (by simpa using hlt) hij tx' (by simp [hj, Except.toOption]) tx
    (by simp [hi, Except.toOption])
  exact Ne.symm this

theorem NounsDAOExecutor.beginExecute_refused {e : Env} {tl : NounsDAOExecutor P} {tx : Transaction}
    {r : Revert} (hadmin : tl.admin = P.dao)
    (hq : tl.queuedTransactions (P.keccak256 tx) = true)
    (hgrace : e.timestamp < tx.eta + GRACE_PERIOD) (hlt : tx.eta + GRACE_PERIOD < 2^256)
    (h : tl.beginExecute e P.dao tx = .error r) : e.timestamp < tx.eta := by
  by_contra hle
  have hok : tl.beginExecute e P.dao tx = .ok { tl with
      queuedTransactions := update tl.queuedTransactions (P.keccak256 tx) false } := by
    simp only [NounsDAOExecutor.beginExecute, bind_eq_ok, require_eq_ok, checkedAdd_eq_ok, pure_eq_ok]
    exact ⟨(), hadmin.symm, (), hq, (), Nat.le_of_not_lt hle, _, ⟨hlt, rfl⟩, (), Nat.le_of_lt hgrace,
      trivial⟩
  rw [hok] at h
  cases h

theorem QueueSound.executable (h : QueueSound env w) {id : Nat}
    (hs : w.dao.state env id = .ok .queued) : Executable env w id := by
  have hl := live_of_state hs
  have hid := h.sane.id_of_eta hl.held.eta_ne
  refine ⟨fun i hi => ?_, hl.inTime, fun i tl tx r hb htx hr => ?_⟩
  · obtain ⟨tx, htx⟩ := (h.sane.wellFormed id hid.1 hid.2).action hi (w.dao.proposals id).eta
    exact ⟨tx, htx, h.bits id hl tx (Proposal.mem_transactions.mpr ⟨i, htx⟩)⟩
  · have hbit : tl.queuedTransactions (P.keccak256 tx) = true := by
      rw [hb.bits _ fun j hj tx' htx' => Proposal.action_ne (h.nodup id hl) hj htx htx']
      exact h.bits id hl tx (Proposal.mem_transactions.mpr ⟨i, htx⟩)
    have heta := Proposal.action_eta htx
    have hle := h.eta_le id
    have hts := env.timestamp_lt
    rw [← heta]
    refine NounsDAOExecutor.beginExecute_refused hb.admin hbit (heta ▸ hl.inTime) ?_ hr
    rw [heta]
    simp only [NounsDAOExecutor.MAXIMUM_DELAY, NounsDAOExecutor.GRACE_PERIOD] at hle ⊢
    omega

/-- **Queued proposals stay executable**, as long as no `cancel` or `veto` is repeated on a proposal
that has a transaction in common with a queued one. -/
theorem queued_executable (hP : Injective P.keccak256) (g : GovSetup) (e : Env) (w : World P)
    (hw : g.deploy P e = .ok w) (ts : List (Tx Env (GovCall P)))
    (hch : (e :: ts.map Tx.env).IsChain (· ≤ ·)) (e' : Env) (he' : lastEnv e ts ≤ e') :
    let last := (runTxs GovCall.code ts ⟨[], w⟩).2
    last.now.timelock.admin = P.dao → (∀ r ∈ last.past, SparesQueued r) →
    ∀ id, last.now.dao.state e' id = .ok .queued → Executable e' last.now id := by
  intro last hadmin hspares id hs
  have hr := (runTxs_timed (fun env (op : GovCall P) (c : GovConfig P) => op.follows env c) ts e
    ⟨[], w⟩ hch).2
  have h := runs_queueSound hP hr (GovSetup.deploy_queueSound hw) hadmin hspares
  exact (h.tick he').executable hs

end

/-- accounts `2` and `4` propose the same, and both proposals succeed; the first is queued and
canceled, then the second is queued for the same time -/
def twinTxs : List (Tx Env (GovCall samplePlatform)) :=
  proposeTxs ++
  [⟨.block 8 80, sampleCall 4 0 (.entry (.dao (.propose [9] [3] [""] [[]] "the same")))⟩,
   ⟨.block 10 100, sampleCall 2 0 (.entry (.dao (.castVote 1 1)))⟩,
   ⟨.block 10 100, sampleCall 2 0 (.entry (.dao (.castVote 2 1)))⟩,
   ⟨.block 5770 1000, sampleCall 7 0 (.entry (.queue 1))⟩,
   ⟨.block 5770 1000, sampleCall 2 0 (.entry (.cancel 1))⟩,
   ⟨.block 5770 1000, sampleCall 7 0 (.entry (.queue 2))⟩]

theorem queued_executable_run :
    let last := (runTxs GovCall.code twinTxs ⟨[], sampleWorld⟩).2
    last.past.length = 8 ∧ Executable (.block 9000 173800) last.now 2 :=
  ⟨by decide +kernel,
    queued_executable (fun _ _ h => h) sampleSetup (.block 6 60) sampleWorld sampleWorld_deployed
      twinTxs (by simp [twinTxs, proposeTxs, Env.le_def, Env.block]) (.block 9000 173800)
      (by decide +kernel) (by decide +kernel) (by decide +kernel) 2 (by decide +kernel)⟩

/-- **Canceled again, the first proposal takes the second with it**: that one is still queued, but its
action is not in the timelock, and it cannot be executed. -/
theorem not_queued_executable :
    let last := (runTxs GovCall.code
      (twinTxs ++ [⟨.block 5771 1012, sampleCall 2 0 (.entry (.cancel 1))⟩]) ⟨[], sampleWorld⟩).2
    last.now.timelock.admin = samplePlatform.dao ∧
      last.now.dao.state (.block 9000 173800) 2 = .ok .queued ∧
      ¬ Executable (.block 9000 173800) last.now 2 ∧
      failure ((sampleCall 7 0 (.execute 2)).run GovCall.code (.block 9000 173800) last).2
        = some (.error "NounsDAOExecutor::executeTransaction: Transaction hasn't been queued.") := by
  intro last
  refine ⟨by decide +kernel, by decide +kernel, fun h => ?_, by decide +kernel⟩
  obtain ⟨tx, htx, hq⟩ := h.queued 0 (by decide +kernel)
  have hfree : ∀ tx ∈ (last.now.dao.proposals 2).own,
      last.now.timelock.queuedTransactions (samplePlatform.keccak256 tx) = false := by
    decide +kernel
  rw [Queued, hfree tx (Proposal.mem_transactions.mpr ⟨0, htx⟩)] at hq
  cases hq

end UNouns
