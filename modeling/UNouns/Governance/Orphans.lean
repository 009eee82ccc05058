import UNouns.Governance.Execution
import UNouns.Lib.Guard

/-!
# No orphaned entries in the timelock

A bit of the timelock is set by one loop and cleared by three others.

* `Owned`        every set bit is of an action of a proposal that was queued and not taken back;
* `Debt`         an executed proposal with an action in the queue, which is so only within `execute`;
* `Settles`      a call leaves no debt that it did not find;
* `no_orphans`   so after a transaction every set bit is of a proposal that is queued or has expired.
-/

set_option linter.unusedVariables false

namespace UNouns
open Function Relation Reentrant NounsDAOLogicV2

section
variable {P : Platform} {env : Env} {w w' : World P}

/-- every set bit is of an action of a proposal that was queued and not taken back -/
def Owned (w : World P) : Prop :=
  ∀ h, w.timelock.queuedTransactions h = true →
    ∃ i, Held (w.dao.proposals i) ∧ h ∈ (w.dao.proposals i).own.map P.keccak256

/-- an action of an executed proposal that is still in the queue -/
structure Debt (w : World P) (i : Nat) (tx : Transaction) : Prop where
  executed : (w.dao.proposals i).executed = true
  mem : tx ∈ (w.dao.proposals i).own
  queued : Queued w tx

structure Accounted (e : Env) (w : World P) : Prop where
  sane : Sane e w.dao
  carries : Carries e w.dao
  executed : ExecutedHeld w.dao
  delay_ge : NounsDAOExecutor.MINIMUM_DELAY ≤ w.timelock.delay
  due : ∀ i, (w.dao.proposals i).executed = true → (w.dao.proposals i).eta ≤ e.timestamp
  owned : Owned w

theorem Accounted.tick {e e' : Env} (h : Accounted e w) (he : e ≤ e') : Accounted e' w :=
  { h with
    sane := h.sane.mono he
    carries := h.carries.mono he
    due := fun i hx => Nat.le_trans (h.due i hx) (Env.le_def.mp he).2 }

/-- the actions of a queued proposal stay the same -/
theorem Sane.own_eq {d d' : NounsDAOLogicV2} (hd : Sane env d) (hc : DaoChange env d d') {i : Nat}
    (h0 : (d.proposals i).eta ≠ 0) (he : (d'.proposals i).eta = (d.proposals i).eta) :
    (d'.proposals i).own = (d.proposals i).own := by
  unfold Proposal.own
  rw [he, (hc.header (hd.id_of_eta h0).2).transactions]

/-! ## moves -/

theorem Owned.keep (h : Owned w) (hsane : Sane env w.dao) (hc : DaoChange env w.dao w'.dao)
    (hbits : ∀ h, w'.timelock.queuedTransactions h = true → w.timelock.queuedTransactions h = true)
    (hheld : ∀ i h, w'.timelock.queuedTransactions h = true → Held (w.dao.proposals i) →
      h ∈ (w.dao.proposals i).own.map P.keccak256 →
      (w'.dao.proposals i).eta = (w.dao.proposals i).eta ∧ Held (w'.dao.proposals i)) :
    Owned w' := by
  intro x hx
  obtain ⟨i, hi, hm⟩ := h x (hbits x hx)
  obtain ⟨he, hi'⟩ := hheld i x hx hi hm
  exact ⟨i, hi', by rwa [hsane.own_eq hc hi.eta_ne he]⟩

theorem Owned.move (h : Owned w) (hsane : Sane env w.dao) (hc : DaoChange env w.dao w'.dao)
    (hdelay : 0 < w.timelock.delay) {x y : Option Nat} (hm : QueueMove env w w' x y) : Owned w' := by
  cases hm with
  | idle flags bits delay =>
    refine h.keep hsane hc (fun _ hx => bits ▸ hx) fun i _ _ hi _ => ⟨(flags i).eta, ?_⟩
    exact ⟨(flags i).eta ▸ hi.eta_ne, (flags i).canceled ▸ hi.canceled, (flags i).vetoed ▸ hi.vetoed⟩
  | withdraw id s p hstate hs same set eta executed held bits =>
    refine h.keep hsane hc (fun b hx => ((bits b).mp hx).2) fun i b hx hi hmem => ?_
    -- the bits of the one withdrawn are gone
    have hne : i ≠ id := fun e => ((bits b).mp hx).1 (e ▸ hmem)
    rw [set.other hne]
    exact ⟨rfl, hi⟩
  | take id tx held due mem other self delay bits =>
    refine h.keep hsane hc (fun b hx => ?_) fun i b _ hi _ => ?_
    · rw [bits] at hx
      by_cases e : b = P.keccak256 tx
      · rw [e, update_self] at hx
        cases hx
      · rwa [update_of_ne e] at hx
    · by_cases e : i = id
      · rw [e, self]
        exact ⟨rfl, held.eta_ne, held.canceled, held.vetoed⟩
      · rw [other i e]
        exact ⟨rfl, hi⟩
  | queue id r hq e =>
    subst e
    obtain ⟨hstate, hfor, hs⟩ := queue_ok hq
    obtain ⟨hcarried, heta0⟩ := state_succeeded hstate
    obtain ⟨_, _, _, hbits⟩ := forActions_queue hfor
    intro b hb
    rcases (hbits b).mp hb with hnew | hold
    · refine ⟨id, ?_, ?_⟩
      · show Held (r.2.proposals id)
        rw [hs.self]
        exact ⟨by show env.timestamp + w.timelock.delay ≠ 0; omega, hcarried.canceled, hcarried.vetoed⟩
      · show b ∈ (r.2.proposals id).own.map P.keccak256
        rw [hs.self]
        exact hnew
    · obtain ⟨i, hi, hmem⟩ := h b hold
      have hne : i ≠ id := fun e => hi.eta_ne (e ▸ heta0)
      have hsame : (w.withDao r).dao.proposals i = w.dao.proposals i := hs.other hne
      exact ⟨i, by rwa [hsame], by rwa [hsame]⟩

theorem Accounted.move (h : Accounted env w) (hc : DaoChange env w.dao w'.dao) {x y : Option Nat}
    (hm : QueueMove env w w' x y) : Accounted env w' := by
  have hpos : 0 < w.timelock.delay := Nat.lt_of_lt_of_le (by decide) h.delay_ge
  have hsane := h.sane.change hc
  have hcarries := h.carries.change h.sane hc
  have hexecuted := h.executed.change h.sane h.carries hc
  have howned := h.owned.move h.sane hc hpos hm
  cases hm with
  | idle flags bits delay =>
    refine ⟨hsane, hcarries, hexecuted, ?_, fun i hx => ?_, howned⟩
    · rcases delay with hd | hd
      · exact hd ▸ h.delay_ge
      · exact hd.1
    · exact (flags i).eta ▸ h.due i ((flags i).executed ▸ hx)
  | withdraw id s p hstate hs same set eta executed held bits =>
    refine ⟨hsane, hcarries, hexecuted, same.delay ▸ h.delay_ge, fun i hx => ?_, howned⟩
    by_cases e : i = id
    · subst e
      rw [set.self] at hx ⊢
      exact eta ▸ h.due i (executed ▸ hx)
    · rw [set.other e] at hx ⊢
      exact h.due i hx
  | take id tx held due mem other self delay bits =>
    refine ⟨hsane, hcarries, hexecuted, delay ▸ h.delay_ge, fun i hx => ?_, howned⟩
    by_cases e : i = id
    · rw [e, self]
      exact due
    · rw [other i e] at hx ⊢
      exact h.due i hx
  | queue id r hq e =>
    subst e
    obtain ⟨hstate, hfor, hs⟩ := queue_ok hq
    refine ⟨hsane, hcarries, hexecuted, (forActions_queue hfor).1.delay ▸ h.delay_ge,
      fun i hx => ?_, howned⟩
    have hx' : (r.2.proposals i).executed = true := hx
    show (r.2.proposals i).eta ≤ _
    by_cases e : i = id
    · rw [e, hs.self] at hx'
      exact absurd (state_succeeded hstate).2 (h.executed id hx').eta_ne
    · rw [hs.other e] at hx' ⊢
      exact h.due i hx'

/-- no move but the beginning of `execute` makes a debt: what is queued anew is for later -/
theorem Debt.back (hP : Injective P.keccak256) (h : Accounted env w) (hc : DaoChange env w.dao w'.dao)
    {x y : Option Nat} (hm : QueueMove env w w' x y)
    (hy : ∀ id ∈ y, (w.dao.proposals id).executed = true) {i : Nat} {tx : Transaction}
    (hd : Debt w' i tx) : Debt w i tx := by
  -- the proposal was executed before, for the same time
  have hkey : (w.dao.proposals i).executed = true →
      (w'.dao.proposals i).eta = (w.dao.proposals i).eta → Queued w tx → Debt w i tx := by
    intro hx he hq
    refine ⟨hx, ?_, hq⟩
    rw [← h.sane.own_eq hc (h.executed i hx).eta_ne he]
    exact hd.mem
  have hexec := hd.executed
  have hq := hd.queued
  cases hm with
  | idle flags bits delay =>
    refine hkey ((flags i).executed ▸ hexec) (flags i).eta ?_
    unfold Queued at hq ⊢
    rwa [bits] at hq
  | withdraw id s p hstate hs same set eta executed held bits =>
    have hq' := ((bits _).mp hq).2
    by_cases e : i = id
    · subst e
      rw [set.self] at hexec
      exact hkey (executed ▸ hexec) (by rw [set.self, eta]) hq'
    · rw [set.other e] at hexec
      exact hkey hexec (by rw [set.other e]) hq'
  | take id tx' held due mem other self delay bits =>
    have hq' : Queued w tx := by
      unfold Queued at hq ⊢
      rw [bits] at hq
      by_cases e : P.keccak256 tx = P.keccak256 tx'
      · rw [e, update_self] at hq
        cases hq
      · rwa [update_of_ne e] at hq
    by_cases e : i = id
    · subst e
      exact hkey (hy i rfl) (by rw [self]) hq'
    · rw [other i e] at hexec
      exact hkey hexec (by rw [other i e]) hq'
  | queue id r hr e =>
    subst e
    obtain ⟨hstate, hfor, hs⟩ := queue_ok hr
    obtain ⟨_, _, _, hbits⟩ := forActions_queue hfor
    have hpos : 0 < w.timelock.delay := Nat.lt_of_lt_of_le (by decide) h.delay_ge
    have hne : i ≠ id := by
      rintro rfl
      have hexec' : (r.2.proposals i).executed = true := hexec
      rw [hs.self] at hexec'
      exact (h.executed i hexec').eta_ne (state_succeeded hstate).2
    have hsame : (w.withDao r).dao.proposals i = w.dao.proposals i := hs.other hne
    rw [hsame] at hexec
    refine hkey hexec (by rw [hsame]) ?_
    rcases (hbits _).mp hq with hnew | hold
    · obtain ⟨tx', htx', ht⟩ := List.mem_map.mp hnew
      have h1 := Proposal.eta_of_mem htx'
      have hmem := hd.mem
      rw [hsame] at hmem
      have h2 := Proposal.eta_of_mem hmem
      have h3 := h.due i hexec
      rw [hP ht] at h1
      omega
    · exact hold

/-! ## calls -/

theorem Accounted.govMove {c c' : GovConfig P} (h : Accounted env c.now) (hm : GovMove env c c')
    (hadmin : c'.now.timelock.admin = P.dao) : Accounted env c'.now := by
  have hchange := GovMove.change hm
  have hadmin' := GovMove.admin hm hadmin
  cases hm with
  | enter op w hs => exact h.move hchange (GovStep.queueMove hs h.sane hadmin')
  | resume w hr =>
    obtain ⟨y, hq, _⟩ := GovRest.queueMove hr h.executed h.due
    exact h.move hchange hq

theorem Accounted.moves {c c' : GovConfig P} (h : Accounted env c.now)
    (hm : ReflTransGen (GovMove env) c c') :
    c'.now.timelock.admin = P.dao → Accounted env c'.now := by
  induction hm with
  | refl => exact fun _ => h
  | tail _ hm ih => exact fun hadmin => (ih (GovMove.admin hm hadmin)).govMove hm hadmin

theorem GovMoves.admin {c c' : GovConfig P} (hm : ReflTransGen (GovMove env) c c') :
    c'.now.timelock.admin = P.dao → c.now.timelock.admin = P.dao := by
  induction hm with
  | refl => exact id
  | tail _ hm ih => exact fun hadmin => ih (GovMove.admin hm hadmin)

/-- moves, after which there is no debt that was not there before -/
structure Settles (env : Env) (c c' : GovConfig P) : Prop where
  moves : ReflTransGen (GovMove env) c c'
  debts : c'.now.timelock.admin = P.dao → Accounted env c.now →
    ∀ i tx, Debt c'.now i tx → Debt c.now i tx

theorem settles_summary (env : Env) :
    Summary (Settles (P := P) env) (fun _ _ => True) where
  refl c := ⟨.refl, fun _ _ _ _ h => h⟩
  trans a b c h1 h2 := by
    refine ⟨h1.moves.trans h2.moves, fun hadmin ha i tx hd => ?_⟩
    have hb := GovMoves.admin h2.moves hadmin
    exact h1.debts hb ha i tx (h2.debts hadmin (ha.moves h1.moves hb) i tx hd)
  midway _ _ _ := trivial
  through _ _ _ _ _ := trivial

/-- a move that takes no action, or one of a proposal that was executed before -/
theorem Settles.of_move (hP : Injective P.keccak256) {c c' : GovConfig P} (hm : GovMove env c c')
    (hq : c.now.timelock.admin = P.dao → Accounted env c.now →
      ∃ x y, QueueMove env c.now c'.now x y ∧
        ∀ id ∈ y, (c.now.dao.proposals id).executed = true) : Settles env c c' := by
  refine ⟨.single hm, fun hadmin ha i tx hd => ?_⟩
  obtain ⟨x, y, hq, hy⟩ := hq (GovMove.admin hm hadmin) ha
  exact Debt.back hP ha (GovMove.change hm) hq hy hd

theorem Settles.of_resume (hP : Injective P.keccak256) {c : GovConfig P} {w : World P}
    (h : GovRest env c.now w) : Settles env c ⟨c.past, w⟩ := by
  refine .of_move hP (.resume c w h) fun _ ha => ?_
  obtain ⟨y, hq, hy⟩ := GovRest.queueMove h ha.executed ha.due
  exact ⟨none, y, hq, hy⟩

/-! ### execute -/

/-- the actions at some positions -/
def Proposal.ownAt (p : Proposal) (is : List Nat) : List Transaction :=
  is.filterMap fun i => (p.action p.eta i).toOption

theorem Proposal.mem_ownAt_snoc {p : Proposal} {i : Nat} {tx tx' : Transaction}
    (h : p.action p.eta i = .ok tx) (is : List Nat) :
    tx' ∈ p.ownAt (is ++ [i]) ↔ tx' ∈ p.ownAt is ∨ tx' = tx := by
  simp [Proposal.ownAt, List.filterMap_append, h, Except.toOption]

/-- `execute` of `p` in `c` has got to `d`, with the actions `is` done -/
structure Underway (env : Env) (p : Proposal) (id : Nat) (is : List Nat) (c d : GovConfig P) :
    Prop where
  moves : ReflTransGen (GovMove env) c d
  executing : Executing p id d.now.dao
  debts : d.now.timelock.admin = P.dao → Accounted env c.now →
    ∀ i tx, Debt d.now i tx → Debt c.now i tx ∨ i = id ∧ tx ∉ p.ownAt is

theorem Underway.trans {p : Proposal} {id : Nat} {is : List Nat} {c d d' : GovConfig P}
    (h : Underway env p id is c d) (hs : Settles env d d') : Underway env p id is c d' := by
  refine ⟨h.moves.trans hs.moves, h.executing.moves hs.moves, fun hadmin ha i tx hd => ?_⟩
  have hadmin' := GovMoves.admin hs.moves hadmin
  exact h.debts hadmin' ha i tx (hs.debts hadmin (ha.moves h.moves hadmin') i tx hd)

/-- an action has just been taken -/
theorem Underway.snoc {p : Proposal} {id : Nat} {is : List Nat} {c d : GovConfig P}
    (h : Underway env p id is c d) {i : Nat} {tx : Transaction} (htx : p.action p.eta i = .ok tx)
    (hq : ¬ Queued d.now tx) : Underway env p id (is ++ [i]) c d := by
  refine ⟨h.moves, h.executing, fun hadmin ha j tx' hd => ?_⟩
  refine (h.debts hadmin ha j tx' hd).imp_right fun ⟨hj, hnot⟩ => ⟨hj, fun hmem => ?_⟩
  rcases (Proposal.mem_ownAt_snoc htx is).mp hmem with hm | rfl
  · exact hnot hm
  · exact hq hd.queued

/-- all actions are done -/
theorem Underway.settles {p : Proposal} {id : Nat} {c d : GovConfig P}
    (h : Underway env p id p.indices c d) : Settles env c d := by
  refine ⟨h.moves, fun hadmin ha i tx hd => (h.debts hadmin ha i tx hd).resolve_right ?_⟩
  rintro ⟨rfl, hnot⟩
  have hmem := hd.mem
  rw [Proposal.own, h.executing.kept.transactions, h.executing.eta] at hmem
  exact hnot hmem

theorem beginAction_taken {w0 w : World P} {id i : Nat} {tx : Transaction}
    (h : beginAction env w0 id i = .ok (w, tx)) : ¬ Queued w tx := by
  obtain ⟨_, hb, _⟩ := beginAction_ok h
  obtain ⟨_, _, _, htl⟩ := NounsDAOExecutor.beginExecute_window hb
  rw [Queued, htl]
  simp

/-- the call of a target, when what comes after it settles -/
theorem action_settles (hP : Injective P.keccak256) {p : Proposal} {id : Nat} {is js : List Nat}
    {c : GovConfig P}
    (ih : ∀ d : GovConfig P, Underway env p id is c d →
      (executeActions env id js d.now).Meets (Settles env) (fun _ _ => True) c d.past)
    {past : List (GovRecord P)} {w : World P} {tx : Transaction}
    (h : Underway env p id is c ⟨past, w⟩) :
    Code.Meets (Settles env) (fun _ _ => True) c
      (.call (.target (NounsDAOExecutor.targetCall P tx)) w fun ok w =>
        match w.timelock.endExecute tx ok with
        | .error e => .revert e
        | .ok tl => executeActions env id js { w with timelock := tl }) past := by
  refine ⟨trivial, fun c' hc' => ?_, trivial⟩
  cases he : c'.now.timelock.endExecute tx true with
  | error e => trivial
  | ok tl =>
    have hafter : (GovExternal.target (NounsDAOExecutor.targetCall P tx)).after true c'.now
        = .ok { c'.now with timelock := tl } := by
      simp only [GovExternal.after, NounsDAOExecutor.targetCall, he]
      rfl
    simp only [he]
    exact ih ⟨c'.past, { c'.now with timelock := tl }⟩
      ((h.trans hc').trans (.of_resume hP (GovExternal.after_settle hafter)))

/-- the loop of `execute`, from some action on; the induction is on the actions left -/
theorem executeActions_settles (hP : Injective P.keccak256) {p : Proposal} {id : Nat}
    {c : GovConfig P} (js : List Nat) : ∀ (is : List Nat) (d : GovConfig P),
      is ++ js = p.indices → Underway env p id is c d →
      (executeActions env id js d.now).Meets (Settles env) (fun _ _ => True) c d.past := by
  induction js with
  | nil =>
    intro is d hi h
    rw [List.append_nil] at hi
    subst hi
    have hrest : GovRest env d.now { d.now with dao := d.now.dao.emit (.proposalExecuted id) } :=
      .settle _ _ _
    exact (h.trans (.of_resume hP hrest)).settles
  | cons i js ih =>
    intro is d hi h
    unfold executeActions
    cases hb : beginAction env d.now id i with
    | error e => trivial
    | ok r =>
      obtain ⟨w, tx⟩ := r
      obtain ⟨htx, _, _⟩ := beginAction_ok hb
      rw [h.executing.kept.action, h.executing.eta] at htx
      have hact : GovRest env d.now w := .act w id i tx h.executing.count h.executing.executed hb
      have hnext := Underway.snoc (d := ⟨d.past, w⟩) (h.trans (.of_resume hP hact)) htx
        (beginAction_taken hb)
      exact action_settles hP (fun d' hd' => ih (is ++ [i]) d' (by simpa using hi) hd') hnext

/-- `execute` up to its first target -/
theorem underway_begin {c : GovConfig P} {o : GovCall P} {id : Nat} (ho : o.op = .execute id)
    {d : NounsDAOLogicV2} (h : c.now.dao.beginExecute env id = .ok d) {w : World P} {tx : Transaction}
    (hb : beginAction env { c.now with dao := d } id 0 = .ok (w, tx)) :
    Underway env (c.now.dao.proposals id) id [0] c ⟨c.enter env o, w⟩ := by
  obtain ⟨hstate, hs⟩ := NounsDAOLogicV2.beginExecute_ok h
  obtain ⟨htx, hbegin, hw⟩ := beginAction_ok hb
  obtain ⟨_, _, _, htl⟩ := NounsDAOExecutor.beginExecute_window hbegin
  have htx' : (c.now.dao.proposals id).action (c.now.dao.proposals id).eta 0 = .ok tx := by
    have htx2 : (d.proposals id).action (d.proposals id).eta 0 = .ok tx := htx
    rwa [hs.self] at htx2
  have hdao : w.dao = d := by rw [hw]
  have hstep : GovStep env o.msg c.now o.op w := by
    rw [ho]
    exact .execute id d w h (.inr ⟨tx, hb⟩)
  refine ⟨.single (.enter c o w hstep), ?_, fun hadmin ha i tx' hd => ?_⟩
  · show Executing _ id w.dao
    rw [hdao]
    exact ⟨by rw [hs.proposalCount]; exact state_le hstate, by rw [hs.self], by rw [hs.self]; rfl,
      by rw [hs.self], (state_queued hstate).2.1⟩
  · have hbits : w.timelock.queuedTransactions
        = update c.now.timelock.queuedTransactions (P.keccak256 tx) false := by rw [htl]
    have hq : Queued w tx' := hd.queued
    have hq' : Queued c.now tx' ∧ tx' ≠ tx := by
      unfold Queued at hq ⊢
      rw [hbits] at hq
      by_cases e : P.keccak256 tx' = P.keccak256 tx
      · rw [e, update_self] at hq
        cases hq
      · rw [update_of_ne e] at hq
        exact ⟨hq, fun e' => e (by rw [e'])⟩
    have hexec : (w.dao.proposals i).executed = true := hd.executed
    have hmem : tx' ∈ (w.dao.proposals i).own := hd.mem
    by_cases e : i = id
    · refine .inr ⟨e, ?_⟩
      simp [Proposal.ownAt, htx', Except.toOption, hq'.2]
    · rw [hdao, hs.other e] at hexec hmem
      exact .inl ⟨hexec, hmem, hq'.1⟩

theorem GovCall.settles (hP : Injective P.keccak256) (env : Env) (op : GovCall P) (c : GovConfig P) :
    (op.code env c.now).Meets (Settles env) (fun _ _ => True) c (c.enter env op) := by
  obtain ⟨msg, op, hout⟩ := op
  cases op with
  | entry op =>
    refine Code.once_meets_of (settles_summary env) (fun w x h => ?_) fun x ok d w h => ?_
    · have hstep := (GovEntry.enter_step h).1
      refine .of_move hP (.enter c ⟨msg, .entry op, hout⟩ w hstep) fun hadmin ha => ?_
      exact ⟨_, _, GovStep.queueMove (c := ⟨msg, .entry op, hout⟩) hstep ha.sane hadmin,
        fun _ h => nomatch h⟩
    · exact .of_resume hP (GovExternal.after_settle h)
  | execute id =>
    show Code.Meets _ _ _ (executeProposal env c.now id) _
    unfold executeProposal
    cases h : c.now.dao.beginExecute env id with
    | error e => trivial
    | ok d =>
      obtain ⟨hstate, hs⟩ := NounsDAOLogicV2.beginExecute_ok h
      simp only
      cases hn : (c.now.dao.proposals id).indices with
      | nil =>
        -- a proposal has an action
        have hnil : (c.now.dao.proposals id).targets = [] :=
          List.length_eq_zero_iff.mp (List.range_eq_nil.mp hn)
        have hact : FirstAction env id { c.now with dao := d } { c.now with dao := d } := by
          refine .inl ⟨?_, rfl⟩
          show (d.proposals id).targets = []
          rw [hs.self]
          exact hnil
        have hstep : GovStep env msg c.now (.execute id) { c.now with dao := d } :=
          .execute id d _ h hact
        have hend : GovRest env { c.now with dao := d }
            { c.now with dao := d.emit (.proposalExecuted id) } := .settle _ _ _
        refine ⟨(ReflTransGen.single (.enter c ⟨msg, .execute id, hout⟩ _ hstep)).tail
          (.resume ⟨_, { c.now with dao := d }⟩ _ hend), fun _ ha => ?_⟩
        have h1 := (ha.sane.id_of_eta (state_queued hstate).2.1).1
        exact absurd (by rw [hnil]; rfl) (ha.sane.wellFormed id h1 (state_le hstate)).targets_ne
      | cons i js =>
        have hi : i = 0 := by
          have h0 : (c.now.dao.proposals id).indices[0]? = some i := by rw [hn]; rfl
          simpa [Proposal.indices, List.getElem?_range] using (List.getElem?_eq_some_iff.mp h0).2.symm
        subst hi
        unfold executeActions
        cases hb : beginAction env { c.now with dao := d } id 0 with
        | error e => trivial
        | ok r =>
          have hunder := underway_begin (o := ⟨msg, .execute id, hout⟩) rfl h hb
          exact action_settles hP
            (fun d' hd' => executeActions_settles hP js [0] d' hn.symm hd') hunder

/-! ## runs -/

theorem GovSetup.deploy_accounted {g : GovSetup} {e : Env} {w : World P} (hw : g.deploy P e = .ok w) :
    Accounted e w := by
  have h := GovSetup.deploy_queueSound hw
  refine ⟨h.sane, h.carries, h.executed, h.delay_ge, h.due, fun b hb => ?_⟩
  simp only [GovSetup.deploy, NounsDAOExecutor.deploy, bind_eq_ok, require_eq_ok, pure_eq_ok] at hw
  obtain ⟨_, ⟨_, _, _, _, rfl⟩, _, _, rfl⟩ := hw
  cases hb

/-- after a transaction nothing is owed -/
theorem runs_settled (hP : Injective P.keccak256) {g : GovSetup} {e : Env} {w : World P}
    (hw : g.deploy P e = .ok w) {ts : List (Tx Env (GovCall P))}
    (hch : (e :: ts.map Tx.env).IsChain (· ≤ ·))
    (hadmin : (runTxs GovCall.code ts ⟨[], w⟩).2.now.timelock.admin = P.dao) :
    Accounted (lastEnv e ts) (runTxs GovCall.code ts ⟨[], w⟩).2.now ∧
      ∀ i tx, ¬ Debt (runTxs GovCall.code ts ⟨[], w⟩).2.now i tx := by
  let J := fun e (c : GovConfig P) => c.now.timelock.admin = P.dao →
    Accounted e c.now ∧ ∀ i tx, ¬ Debt c.now i tx
  have hstart : J e ⟨[], w⟩ := fun _ => by
    refine ⟨GovSetup.deploy_accounted hw, fun i tx hd => ?_⟩
    have hx : (w.dao.proposals i).executed = true := hd.executed
    rw [(GovSetup.deploy_fresh hw).proposals] at hx
    cases hx
  refine (runTxs_meets (J := J) (K := fun _ _ => True) settles_summary
    (fun env op c => GovCall.settles hP env op c) (fun e c c' hJ hR hadmin => ?_)
    (fun _ _ _ _ _ => trivial) (fun e e' c hJ he hadmin => ?_) ts e _ hch hstart).2 hadmin
  · obtain ⟨ha, hn⟩ := hJ (GovMoves.admin hR.moves hadmin)
    exact ⟨ha.moves hR.moves hadmin, fun i tx hd => hn i tx (hR.debts hadmin ha i tx hd)⟩
  · exact ⟨(hJ hadmin).1.tick he, (hJ hadmin).2⟩

end

/-- queued, in time or not -/
def Waiting (e : Env) (d : NounsDAOLogicV2) (i : Nat) : Prop :=
  d.state e i = .ok .queued ∨ d.state e i = .ok .expired

instance (e : Env) (d : NounsDAOLogicV2) (i : Nat) : Decidable (Waiting e d i) := by
  delta Waiting
  infer_instance

theorem Held.waiting {e : Env} {d : NounsDAOLogicV2} {i : Nat} (h : Held (d.proposals i))
    (hx : (d.proposals i).executed = false) (hd : Sane e d) (hc : Carries e d) : Waiting e d i := by
  unfold Waiting
  rw [hc.state_eq hd h.eta_ne h.vetoed h.canceled, hx, if_neg Bool.false_ne_true]
  split_ifs
  · exact .inr rfl
  · exact .inl rfl

section
variable {P : Platform}

/-- **No orphaned entries.**  After a transaction every set bit of the timelock is of an action, at the
time of its proposal, of a proposal that is queued or has expired.  So an action of a proposal that was
canceled, vetoed or executed can only be executed where another such proposal has the same action for
the same time. -/
theorem no_orphans (hP : Injective P.keccak256) (g : GovSetup) (e : Env) (w : World P)
    (hw : g.deploy P e = .ok w) (ts : List (Tx Env (GovCall P)))
    (hch : (e :: ts.map Tx.env).IsChain (· ≤ ·)) (e' : Env) (he' : lastEnv e ts ≤ e') :
    let last := (runTxs GovCall.code ts ⟨[], w⟩).2.now
    last.timelock.admin = P.dao →
    (∀ h, last.timelock.queuedTransactions h = true → ∃ i, ∃ tx ∈ (last.dao.proposals i).own,
      P.keccak256 tx = h ∧ Waiting e' last.dao i) ∧
    ∀ a, ∀ tx ∈ (last.dao.proposals a).own, ¬ Waiting e' last.dao a →
      ∀ sender tl, last.timelock.beginExecute e' sender tx = .ok tl →
        ∃ i, i ≠ a ∧ Waiting e' last.dao i ∧ tx ∈ (last.dao.proposals i).own := by
  intro last hadmin
  obtain ⟨hacc, hdebt⟩ := runs_settled hP hw hch hadmin
  have hacc' := hacc.tick he'
  have hfirst : ∀ h, last.timelock.queuedTransactions h = true →
      ∃ i, ∃ tx ∈ (last.dao.proposals i).own, P.keccak256 tx = h ∧ Waiting e' last.dao i := by
    intro h hbit
    obtain ⟨i, hheld, hmem⟩ := hacc'.owned h hbit
    obtain ⟨tx, htx, rfl⟩ := List.mem_map.mp hmem
    have hx : (last.dao.proposals i).executed = false := by
      by_contra hx
      exact hdebt i tx ⟨by simpa using hx, htx, hbit⟩
    exact ⟨i, tx, htx, rfl, hheld.waiting hx hacc'.sane hacc'.carries⟩
  refine ⟨hfirst, fun a tx htx ha sender tl hb => ?_⟩
  obtain ⟨_, hbit, _⟩ := NounsDAOExecutor.beginExecute_window hb
  obtain ⟨i, tx', htx', he, hwait⟩ := hfirst _ hbit
  rw [hP he] at htx'
  exact ⟨i, fun e => ha (e ▸ hwait), hwait, htx'⟩

end

/-- the action that the twins share -/
def twinAction : Transaction := ⟨9, 3, "", [], 173800⟩

theorem no_orphans_run :
    let last := (runTxs GovCall.code twinTxs ⟨[], sampleWorld⟩).2.now
    last.dao.state (.block 9000 173800) 1 = .ok .canceled ∧
      ∃ i, i ≠ 1 ∧ Waiting (.block 9000 173800) last.dao i ∧ twinAction ∈ (last.dao.proposals i).own := by
  intro last
  have h := no_orphans (fun _ _ h => h) sampleSetup (.block 6 60) sampleWorld sampleWorld_deployed
    twinTxs (by simp [twinTxs, proposeTxs, Env.le_def, Env.block]) (.block 9000 173800)
    (by decide +kernel) (by decide +kernel)
  exact ⟨by decide +kernel, h.2 1 twinAction (by decide +kernel) (by decide +kernel) 10 _
    (eq_ok_get (by decide +kernel))⟩

end UNouns
