import UNouns.Timelock.Executor
import UNouns.Lib.Histories

/-!
# Timelock safety

The executor alone, called by anyone, in any order, and again by the targets it calls.

* `ExecutorOp.apply_ok`   what an entry can do: one case for the three administrative entries, one
                          for each entry that touches a hash;
* `Timelocked`            a set bit goes back to a queueing that nothing has used up;
* `timelock_safety`       so every execution does, within the delay and the grace period.
-/

set_option linter.unusedVariables false

namespace UNouns
open Function Relation Reentrant Histories NounsDAOExecutor

abbrev ExecutorRecord (P : Platform) := Record Env (NounsDAOExecutor P) ExecutorCall
abbrev ExecutorConfig (P : Platform) := Config Env (NounsDAOExecutor P) ExecutorCall

section
variable {P : Platform}

/-! ## what an entry can do -/

theorem NounsDAOExecutor.setDelay_ok {sender : Address} {s s' : NounsDAOExecutor P} {d : Nat}
    (h : s.setDelay sender d = .ok s') :
    MINIMUM_DELAY ≤ d ∧ d ≤ MAXIMUM_DELAY ∧ s' = { s with delay := d, logs := s'.logs } := by
  simp only [setDelay, bind_eq_ok, require_eq_ok, pure_eq_ok] at h
  obtain ⟨_, _, _, h1, _, h2, rfl⟩ := h
  exact ⟨h1, h2, rfl⟩

theorem NounsDAOExecutor.queueTransaction_ok {env : Env} {sender : Address} {s s' : NounsDAOExecutor P}
    {tx : Transaction} (h : s.queueTransaction env sender tx = .ok s') :
    sender = s.admin ∧ env.timestamp + s.delay ≤ tx.eta ∧ s' = { s with
      queuedTransactions := update s.queuedTransactions (P.keccak256 tx) true, logs := s'.logs } := by
  simp only [queueTransaction, bind_eq_ok, require_eq_ok, pure_eq_ok] at h
  obtain ⟨_, h1, _, h2, rfl⟩ := h
  exact ⟨h1, h2, rfl⟩

theorem NounsDAOExecutor.cancelTransaction_ok {sender : Address} {s s' : NounsDAOExecutor P} {tx : Transaction}
    (h : s.cancelTransaction sender tx = .ok s') :
    sender = s.admin ∧ s' = { s with
      queuedTransactions := update s.queuedTransactions (P.keccak256 tx) false, logs := s'.logs } := by
  simp only [cancelTransaction, bind_eq_ok, require_eq_ok, pure_eq_ok] at h
  obtain ⟨_, h1, rfl⟩ := h
  exact ⟨h1, rfl⟩

theorem NounsDAOExecutor.beginExecute_ok {env : Env} {sender : Address} {s s' : NounsDAOExecutor P}
    {tx : Transaction} (h : s.beginExecute env sender tx = .ok s') :
    (sender = s.admin ∧ s.queuedTransactions (P.keccak256 tx) = true ∧ tx.eta ≤ env.timestamp ∧
      env.timestamp ≤ tx.eta + GRACE_PERIOD) ∧ s' = { s with
      queuedTransactions := update s.queuedTransactions (P.keccak256 tx) false } := by
  simp only [beginExecute, bind_eq_ok, require_eq_ok, checkedAdd_eq_ok, pure_eq_ok] at h
  obtain ⟨_, h1, _, h2, _, h3, _, ⟨_, rfl⟩, _, h4, rfl⟩ := h
  exact ⟨⟨h1, h2, h3, h4⟩, rfl⟩

/-- the entries by their effect on the bits and the delay -/
theorem ExecutorOp.apply_ok {env : Env} {sender : Address} {s s' : NounsDAOExecutor P}
    {op : ExecutorOp} (h : op.apply env sender s = .ok s') :
    ((∀ tx, op ≠ .queueTransaction tx ∧ op ≠ .cancelTransaction tx ∧ op ≠ .executeTransaction tx) ∧
      s'.queuedTransactions = s.queuedTransactions ∧
      (s'.delay = s.delay ∨ MINIMUM_DELAY ≤ s'.delay ∧ s'.delay ≤ MAXIMUM_DELAY)) ∨
    (∃ tx, op = .queueTransaction tx ∧ env.timestamp + s.delay ≤ tx.eta ∧ s'.delay = s.delay ∧
      s'.queuedTransactions = update s.queuedTransactions (P.keccak256 tx) true) ∨
    (∃ tx, op = .cancelTransaction tx ∧ s'.delay = s.delay ∧
      s'.queuedTransactions = update s.queuedTransactions (P.keccak256 tx) false) ∨
    (∃ tx, op = .executeTransaction tx ∧ s.queuedTransactions (P.keccak256 tx) = true ∧
      tx.eta ≤ env.timestamp ∧ env.timestamp ≤ tx.eta + GRACE_PERIOD ∧ s'.delay = s.delay ∧
      s'.queuedTransactions = update s.queuedTransactions (P.keccak256 tx) false) := by
  cases op with
  | setDelay d =>
    obtain ⟨h1, h2, h3⟩ := setDelay_ok h
    exact .inl ⟨by simp, by rw [h3], .inr (by rw [h3]; exact ⟨h1, h2⟩)⟩
  | acceptAdmin =>
    simp only [ExecutorOp.apply, NounsDAOExecutor.acceptAdmin, bind_eq_ok, pure_eq_ok] at h
    obtain ⟨_, _, rfl⟩ := h
    exact .inl ⟨by simp, rfl, .inl rfl⟩
  | setPendingAdmin a =>
    simp only [ExecutorOp.apply, NounsDAOExecutor.setPendingAdmin, bind_eq_ok, pure_eq_ok] at h
    obtain ⟨_, _, rfl⟩ := h
    exact .inl ⟨by simp, rfl, .inl rfl⟩
  | queueTransaction tx =>
    obtain ⟨_, h1, h2⟩ := queueTransaction_ok h
    exact .inr (.inl ⟨tx, rfl, h1, by rw [h2], by rw [h2]⟩)
  | cancelTransaction tx =>
    obtain ⟨_, h1⟩ := cancelTransaction_ok h
    exact .inr (.inr (.inl ⟨tx, rfl, by rw [h1], by rw [h1]⟩))
  | executeTransaction tx =>
    obtain ⟨⟨_, h1, h2, h3⟩, h4⟩ := beginExecute_ok h
    exact .inr (.inr (.inr ⟨tx, rfl, h1, h2, h3, by rw [h4], by rw [h4]⟩))

/-- the admin changes only to whoever accepts -/
theorem ExecutorOp.admin {env : Env} {sender : Address} {s s' : NounsDAOExecutor P}
    {op : ExecutorOp} (h : op.apply env sender s = .ok s') :
    s'.admin = s.admin ∨ s'.admin = sender := by
  cases op with
  | setDelay d => exact .inl (by rw [(setDelay_ok h).2.2])
  | acceptAdmin =>
    simp only [ExecutorOp.apply, NounsDAOExecutor.acceptAdmin, bind_eq_ok, pure_eq_ok] at h
    obtain ⟨_, _, rfl⟩ := h
    exact .inr rfl
  | setPendingAdmin a =>
    simp only [ExecutorOp.apply, NounsDAOExecutor.setPendingAdmin, bind_eq_ok, pure_eq_ok] at h
    obtain ⟨_, _, rfl⟩ := h
    exact .inl rfl
  | queueTransaction tx => exact .inl (by rw [(queueTransaction_ok h).2.2])
  | cancelTransaction tx => exact .inl (by rw [(cancelTransaction_ok h).2])
  | executeTransaction tx => exact .inl (by rw [(beginExecute_ok h).2])

/-- what anyone but the admin can do: not touch the bits -/
theorem ExecutorOp.outside {env : Env} {sender : Address} {s s' : NounsDAOExecutor P}
    {op : ExecutorOp} (h : op.apply env sender s = .ok s') (hne : sender ≠ s.admin) :
    s'.queuedTransactions = s.queuedTransactions ∧
      (s'.delay = s.delay ∨ MINIMUM_DELAY ≤ s'.delay ∧ s'.delay ≤ MAXIMUM_DELAY) := by
  rcases ExecutorOp.apply_ok h with ⟨_, hq, hd⟩ | ⟨tx, rfl, _⟩ | ⟨tx, rfl, _⟩ | ⟨tx, rfl, _⟩
  · exact ⟨hq, hd⟩
  · exact absurd (queueTransaction_ok h).1 hne
  · exact absurd (cancelTransaction_ok h).1 hne
  · exact absurd (beginExecute_ok h).1.1 hne

/-! ## the moves -/

/-- an entry up to its external call; after it, a line in the log -/
def ExecutorMove : Env → ExecutorConfig P → ExecutorConfig P → Prop :=
  Move (fun env c s s' => c.op.apply env c.msg.sender s = .ok s')
    (fun _ s s' => ∃ logs, s' = { s with logs := logs })

theorem ExecutorCall.follows (env : Env) (c : ExecutorCall) (k : ExecutorConfig P) :
    (c.code env k.now).Follows (ExecutorMove env) (fun _ _ => True) (k.enter env c) k := by
  refine Code.once_follows (fun s x h => ?_) (fun x ok s s' h => ?_)
  · obtain ⟨u, hu, hx⟩ := map_eq_ok.mp h
    cases hx
    exact ⟨hu, fun _ _ => trivial⟩
  · simp only [endExecute, bind_eq_ok, pure_eq_ok] at h
    obtain ⟨_, _, rfl⟩ := h
    exact .inr ⟨_, rfl⟩

/-! ## the invariant -/

/-- `tx` is queued, at least the minimum delay ahead -/
def Queues (tx : Transaction) (r : ExecutorRecord P) : Prop :=
  r.op.op = .queueTransaction tx ∧ r.env.timestamp + MINIMUM_DELAY ≤ tx.eta

/-- `tx` is canceled or executed -/
def Takes (tx : Transaction) (r : ExecutorRecord P) : Prop :=
  r.op.op = .cancelTransaction tx ∨ r.op.op = .executeTransaction tx

/-- an execution uses up a queueing, within the window -/
def InWindow (before : List (ExecutorRecord P)) (r : ExecutorRecord P) : Prop :=
  ∀ tx, r.op.op = .executeTransaction tx → Since (Queues tx) (Takes tx) before ∧
    tx.eta ≤ r.env.timestamp ∧ r.env.timestamp ≤ tx.eta + GRACE_PERIOD

structure Timelocked (c : ExecutorConfig P) : Prop where
  delay_ge : MINIMUM_DELAY ≤ c.now.delay
  delay_le : c.now.delay ≤ MAXIMUM_DELAY
  queued : ∀ tx, c.now.queuedTransactions (P.keccak256 tx) = true →
    Since (Queues tx) (Takes tx) c.past
  executed : Every InWindow c.past

variable (hP : Injective P.keccak256)
include hP

theorem Timelocked.move {env : Env} {c c' : ExecutorConfig P} (hc : Timelocked c)
    (h : ExecutorMove env c c') : Timelocked c' := by
  cases h with
  | resume s' h =>
    obtain ⟨logs, rfl⟩ := h
    exact ⟨hc.delay_ge, hc.delay_le, hc.queued, hc.executed⟩
  | enter op s' h =>
    obtain ⟨msg, op⟩ := op
    have hge := hc.delay_ge
    have hle := hc.delay_le
    -- a bit cleared or set is the bit of one transaction only
    have hbit : ∀ {tx tx' : Transaction} {b : Bool}, tx' ≠ tx →
        update c.now.queuedTransactions (P.keccak256 tx) b (P.keccak256 tx')
          = c.now.queuedTransactions (P.keccak256 tx') :=
      fun hne => update_of_ne (fun e => hne (hP e)) _ _
    rcases ExecutorOp.apply_ok h with ⟨hno, hq, hd⟩ | ⟨tx, rfl, hdelay, hd, hq⟩ | ⟨tx, rfl, hd, hq⟩ |
      ⟨tx, rfl, hset, heta, hgrace, hd, hq⟩
    · have hb : MINIMUM_DELAY ≤ s'.delay ∧ s'.delay ≤ MAXIMUM_DELAY := by
        rcases hd with hd | hd
        · exact hd ▸ ⟨hge, hle⟩
        · exact hd
      refine ⟨hb.1, hb.2, fun tx' h' => ?_, every_concat hc.executed ?_⟩
      · refine (hc.queued tx' (by rw [← hq]; exact h')).concat (fun ht => ?_)
        rcases ht with ht | ht
        · exact (hno tx').2.1 ht
        · exact (hno tx').2.2 ht
      · intro tx' he
        exact absurd he (hno tx').2.2
    · refine ⟨hd ▸ hge, hd ▸ hle, fun tx' h' => ?_, every_concat hc.executed ?_⟩
      · by_cases e : tx' = tx
        · subst e
          have hnow : env.timestamp + MINIMUM_DELAY ≤ tx'.eta := by omega
          exact Since.concat_new ⟨rfl, hnow⟩
        · have h1 : c.now.queuedTransactions (P.keccak256 tx') = true := by
            rw [← hbit e, ← hq]; exact h'
          exact (hc.queued tx' h1).concat (fun ht => by rcases ht with ht | ht <;> cases ht)
      · intro tx' he
        cases he
    · refine ⟨hd ▸ hge, hd ▸ hle, fun tx' h' => ?_, every_concat hc.executed ?_⟩
      · by_cases e : tx' = tx
        · subst e
          exact absurd h' (by simp [hq])
        · have h1 : c.now.queuedTransactions (P.keccak256 tx') = true := by
            rw [← hbit e, ← hq]; exact h'
          refine (hc.queued tx' h1).concat (fun ht => ?_)
          rcases ht with ht | ht
          · exact e (ExecutorOp.cancelTransaction.inj ht).symm
          · cases ht
      · intro tx' he
        cases he
    · refine ⟨hd ▸ hge, hd ▸ hle, fun tx' h' => ?_, every_concat hc.executed ?_⟩
      · by_cases e : tx' = tx
        · subst e
          exact absurd h' (by simp [hq])
        · have h1 : c.now.queuedTransactions (P.keccak256 tx') = true := by
            rw [← hbit e, ← hq]; exact h'
          refine (hc.queued tx' h1).concat (fun ht => ?_)
          rcases ht with ht | ht
          · cases ht
          · exact e (ExecutorOp.executeTransaction.inj ht).symm
      · intro tx' he
        obtain rfl := ExecutorOp.executeTransaction.inj he
        exact ⟨hc.queued tx hset, heta, hgrace⟩

omit hP in
theorem deploy_timelocked {admin : Address} {delay : Nat} {s : NounsDAOExecutor P}
    (h : NounsDAOExecutor.deploy P admin delay = .ok s) : Timelocked ⟨[], s⟩ := by
  simp only [NounsDAOExecutor.deploy, bind_eq_ok, require_eq_ok, pure_eq_ok] at h
  obtain ⟨_, h1, _, h2, rfl⟩ := h
  exact ⟨h1, h2, fun tx h => (by cases h), every_nil _⟩

/-- **Timelock safety.**  Wherever a run of the executor is looked at: every execution uses up a
queueing of the same transaction, at least the minimum delay before `eta`, and happens between `eta`
and the end of the grace period; two executions of a transaction have a queueing between them; the
delay is within its bounds. -/
theorem timelock_safety (admin : Address) (delay : Nat) (s : NounsDAOExecutor P)
    (hs : NounsDAOExecutor.deploy P admin delay = .ok s) (e : Env) (ts : List (Tx Env ExecutorCall))
    (hch : (e :: ts.map Tx.env).IsChain (· ≤ ·)) :
    ∀ o ∈ observations ExecutorCall.code e ts ⟨[], s⟩,
      Every InWindow o.2.past ∧
      (∀ tx before r mid r' after, o.2.past = before ++ r :: mid ++ r' :: after →
        r.op.op = .executeTransaction tx → r'.op.op = .executeTransaction tx →
        ∃ q ∈ mid, q.op.op = .queueTransaction tx) ∧
      MINIMUM_DELAY ≤ o.2.now.delay ∧ o.2.now.delay ≤ MAXIMUM_DELAY := by
  intro o ho
  have hr := observations_timed
    (fun env (op : ExecutorCall) (c : ExecutorConfig P) => ExecutorCall.follows env op c) hch ho
  have hI : Timelocked o.2 := by
    refine Timed.invariant (I := fun _ c => Timelocked c) ?_ ?_ hr (deploy_timelocked hs)
    · exact fun e c c' hc hm => hc.move hP hm
    · exact fun e e' c hc _ => hc
  refine ⟨hI.executed, fun tx before r mid r' after hpast h1 h2 => ?_, hI.delay_ge, hI.delay_le⟩
  have hsince := (hI.executed (before ++ r :: mid) r' after (by simpa using hpast) tx h2).1
  obtain ⟨q, hq, h3⟩ := Since.between (fun x hp hq => by
    rcases hq with hq | hq <;> exact absurd (hp.1.symm.trans hq) (by simp)) hsince (.inr h1)
  exact ⟨q, hq, h3.1⟩

end

/-- to be sent 7 wei three days from now -/
def sampleTx : Transaction := ⟨9, 7, "", [], 259200 + 100⟩

/-- queued, executed with a target that tries to execute it again, queued and canceled -/
def executorTxs : List (Tx Env ExecutorCall) :=
  [⟨.block 1 100, .mk ⟨.of 5 0, .queueTransaction sampleTx⟩ .nil⟩,
   ⟨.block 9 259300, .mk ⟨.of 5 0, .executeTransaction sampleTx⟩
     (.cons true (.cons (.mk ⟨.of 5 0, .executeTransaction sampleTx⟩ .nil) .nil) .nil)⟩,
   ⟨.block 9 259300, .mk ⟨.of 5 0, .cancelTransaction sampleTx⟩ .nil⟩]

theorem timelock_safety_run :
    let last := (runTxs ExecutorCall.code executorTxs
      ⟨[], (⟨5, 0, 200000, fun _ => false, []⟩ : NounsDAOExecutor (.plain 5 6 7))⟩).2
    last.past.length = 3 ∧ Every InWindow last.past :=
  ⟨by decide +kernel,
    (timelock_safety (P := .plain 5 6 7) (fun _ _ h => h) 5 200000 _ rfl (.block 0 50) executorTxs
      (by simp [executorTxs, Env.le_def, Env.block]) _ (final_mem_observations _ _ _ _)).1⟩

end UNouns
