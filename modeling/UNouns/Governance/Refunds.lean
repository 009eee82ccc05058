import UNouns.Governance.Tallies
import UNouns.Governance.Deeds
import UNouns.Lib.Reports

/-!
# Gas refunds

* `refundGasUnchecked`   `_refundGas` with the operations of its `unchecked` block; none of them wraps
                         (`beginRefund_unchecked`);
* `refundOf`             the refund that an entry asks for, with the vote it is for;
* `Refunded`             no vote is refunded twice, nor without votes, nor beyond the bound;
* `RefundsItsVote`       what a call pays, and that the vote stands whatever comes of the payment;
* `vote_refunds`         both, over all runs.
-/

set_option linter.unusedVariables false

namespace UNouns
open Function Relation Reentrant NounsDAOLogicV2

/-! ## arithmetic -/

/-- `gasleft()` at the beginning of the vote and at its refund; a block header has 64 bits for its gas
limit -/
structure GasMeter where
  startGas : Nat
  gasleft : Nat
  gasleft_le : gasleft ≤ startGas
  startGas_lt : startGas < 2^64

namespace NounsDAOLogicV2

/-- a result of unchecked arithmetic -/
def wrap (n : Nat) : Nat := n % 2^256

/-- `_refundGas` up to the payment -/
def refundGasUnchecked (env : Env) (d : NounsDAOLogicV2) (startGas gasleft : Nat) :
    NounsDAOLogicV2 × Option Payment :=
  if d.balance = 0 then (d, none)
  else
    let basefee := min env.basefee MAX_REFUND_BASE_FEE
    let gasPrice := min env.gasprice (wrap (basefee + MAX_REFUND_PRIORITY_FEE))
    let gasUsed := min (wrap (wrap (startGas + 2^256 - gasleft) + REFUND_BASE_GAS)) MAX_REFUND_GAS_USED
    let refundAmount := min (wrap (gasPrice * gasUsed)) d.balance
    ({ d with balance := d.balance - refundAmount }, some ⟨env.origin, refundAmount⟩)

/-- 202 gwei for each of 200,000 units of gas -/
abbrev MAX_REFUND : Nat := (MAX_REFUND_BASE_FEE + MAX_REFUND_PRIORITY_FEE) * MAX_REFUND_GAS_USED

theorem wrap_of_lt {n : Nat} (h : n < 2^256) : wrap n = n := Nat.mod_eq_of_lt h

theorem gasPrice_mul_le (basefee gasprice gas : Nat) :
    min gasprice (min basefee MAX_REFUND_BASE_FEE + MAX_REFUND_PRIORITY_FEE)
      * min gas MAX_REFUND_GAS_USED ≤ MAX_REFUND := by
  refine Nat.mul_le_mul ?_ (Nat.min_le_right _ _)
  exact (Nat.min_le_right _ _).trans (Nat.add_le_add_right (Nat.min_le_right _ _) _)

/-- **Nothing wraps**: the unchecked operations give what they give in exact arithmetic. -/
theorem beginRefund_unchecked (env : Env) (d : NounsDAOLogicV2) (m : GasMeter) :
    d.refundGasUnchecked env m.startGas m.gasleft = d.beginRefund env (m.startGas - m.gasleft) := by
  have h1 := m.gasleft_le
  have h2 := m.startGas_lt
  have hfee : wrap (min env.basefee MAX_REFUND_BASE_FEE + MAX_REFUND_PRIORITY_FEE)
      = min env.basefee MAX_REFUND_BASE_FEE + MAX_REFUND_PRIORITY_FEE :=
    wrap_of_lt (Nat.lt_of_le_of_lt (Nat.add_le_add_right (Nat.min_le_right _ _) _) (by decide))
  have hused : wrap (m.startGas + 2^256 - m.gasleft) = m.startGas - m.gasleft := by
    have e : m.startGas + 2^256 - m.gasleft = m.startGas - m.gasleft + 2^256 := by omega
    rw [e, wrap, Nat.add_mod_right]
    exact Nat.mod_eq_of_lt (by omega)
  have hgas : wrap (m.startGas - m.gasleft + REFUND_BASE_GAS)
      = m.startGas - m.gasleft + REFUND_BASE_GAS := wrap_of_lt (by simp only [REFUND_BASE_GAS]; omega)
  have hamount := fun gas => wrap_of_lt (Nat.lt_of_le_of_lt (gasPrice_mul_le env.basefee env.gasprice gas)
    (by decide : MAX_REFUND < 2^256))
  unfold refundGasUnchecked beginRefund
  dsimp only
  rw [hfee, hused, hgas, hamount]

/-- where the refund goes, and what it is at most -/
theorem beginRefund_bounds {env : Env} {d d' : NounsDAOLogicV2} {gasUsed : Nat} {p : Payment}
    (h : d.beginRefund env gasUsed = (d', some p)) :
    p.toAddr = env.origin ∧ p.amount ≤ min d.balance MAX_REFUND := by
  unfold beginRefund at h
  split_ifs at h
  · cases h
  · obtain ⟨-, h⟩ := Prod.mk.inj h
    rw [← Option.some.inj h]
    refine ⟨rfl, Nat.le_min.mpr ⟨Nat.min_le_right _ _, ?_⟩⟩
    exact (Nat.min_le_left _ _).trans (gasPrice_mul_le _ _ _)

end NounsDAOLogicV2

section
variable {P : Platform} {env : Env} {w w' : World P} {c : GovCall P}

/-! ## the refund of a vote -/

/-- the payment of a refund -/
def GovExternal.refunded : GovExternal → Option Payment
  | .refund p => some p
  | _ => none

/-- the refund that an entry asks for, with the voter and the proposal -/
def refundOf (r : GovRecord P) : Option ((Address × Nat) × Payment) :=
  match r.op.op with
  | .entry op =>
    match op.enter r.env r.op.msg r.pre with
    | .ok (_, some (.refund p)) =>
      (r.op.op.ballot P r.env r.op.msg).map fun b => ((b.1, b.2.1), p)
    | _ => none
  | .execute _ => none

/-- what there is to a refund: a vote with votes, and the bounds -/
structure RefundedVote (env : Env) (w : World P) (voter : Address) (id support : Nat)
    (p : Payment) (w' : World P) : Prop where
  votes : ∃ d1 votes, w.dao.castVoteInternal env w.token voter id support = .ok (d1, votes) ∧
    0 < votes ∧ w'.dao.proposals = d1.proposals
  toAddr : p.toAddr = env.origin
  amount : p.amount ≤ min w.dao.balance MAX_REFUND

theorem castVoteInternal_balance {t : UNounsToken} {d d' : NounsDAOLogicV2} {voter : Address}
    {id support votes : Nat} (h : d.castVoteInternal env t voter id support = .ok (d', votes)) :
    d'.balance = d.balance := by
  simp only [castVoteInternal, bind_eq_ok, pure_eq_ok, Prod.mk.injEq] at h
  obtain ⟨_, _, _, _, _, _, _, _, _, _, _, _, rfl, _⟩ := h
  rfl

theorem castRefundableVoteInternal_refund {t : UNounsToken} {d d' : NounsDAOLogicV2}
    {voter : Address} {id support gasUsed : Nat} {reason : String} {p : Payment}
    (h : d.castRefundableVoteInternal env voter t id support reason gasUsed = .ok (d', some p)) :
    (∃ d1 votes, d.castVoteInternal env t voter id support = .ok (d1, votes) ∧ 0 < votes ∧
      d'.proposals = d1.proposals) ∧
    p.toAddr = env.origin ∧ p.amount ≤ min d.balance MAX_REFUND := by
  simp only [castRefundableVoteInternal, bind_eq_ok, pure_eq_ok] at h
  obtain ⟨⟨d2, votes⟩, h1, h2⟩ := h
  obtain ⟨d1, hv, rfl⟩ := castVoteWithEvent_exact h1
  have hb := castVoteInternal_balance hv
  by_cases hpos : 0 < votes
  · simp only [if_pos hpos] at h2
    have hbounds := beginRefund_bounds h2
    rw [hb] at hbounds
    refine ⟨⟨d1, votes, hv, hpos, ?_⟩, hbounds⟩
    unfold beginRefund at h2
    split_ifs at h2
    · cases h2
    · rw [← (Prod.mk.inj h2).1]
  · simp only [if_neg hpos] at h2
    cases h2

/-- only the refundable votes ask for a refund -/
theorem DaoOp.apply_refund {msg : Msg} {t : UNounsToken} {d d' : NounsDAOLogicV2} {op : DaoOp}
    {p : Payment} (h : op.apply P env msg t d = .ok (d', some (.refund p))) :
    ∃ id support reason gasUsed, op.ballot P env msg = some (msg.sender, id, support) ∧
      d.castRefundableVoteInternal env msg.sender t id support reason gasUsed
        = .ok (d', some p) := by
  cases op with
  | castRefundableVote id support gasUsed | castRefundableVoteWithReason id support _ gasUsed =>
    obtain ⟨⟨_, x⟩, h1, h2⟩ := map_eq_ok.mp h
    cases x with
    | none => cases h2
    | some q =>
      obtain ⟨rfl, h3⟩ := Prod.mk.inj h2
      cases h3
      exact ⟨id, support, _, gasUsed, rfl, h1⟩
  | receive => cases h
  | _ =>
    obtain ⟨_, _, h2⟩ := map_eq_ok.mp h
    cases h2

theorem GovEntry.enter_refund {msg : Msg} {op : GovEntry} {p : Payment}
    (h : op.enter env msg w = .ok (w', some (.refund p))) :
    ∃ voter id support, (GovOp.entry op).ballot P env msg = some (voter, id, support) ∧
      RefundedVote env w voter id support p w' := by
  cases op with
  | dao op =>
    obtain ⟨⟨d, x⟩, h1, h2⟩ := map_eq_ok.mp h
    cases h2
    obtain ⟨id, support, reason, gasUsed, hop, hd⟩ := DaoOp.apply_refund h1
    obtain ⟨hv, ha, hb⟩ := castRefundableVoteInternal_refund hd
    exact ⟨msg.sender, id, support, hop, hv, ha, hb⟩
  | token op =>
    obtain ⟨_, _, h2⟩ := map_eq_ok.mp h
    cases hr : op.receiver msg.sender <;> rw [hr] at h2 <;> cases h2
  | timelock op =>
    obtain ⟨_, _, h2⟩ := map_eq_ok.mp h
    cases hr : op.target P <;> rw [hr] at h2 <;> cases h2
  | queue | cancel | veto =>
    obtain ⟨_, _, h2⟩ := map_eq_ok.mp h
    cases h2

theorem refundOf_eq {r : GovRecord P} {voter : Address} {id : Nat} {p : Payment}
    (h : refundOf r = some ((voter, id), p)) : ∃ op w' support, r.op.op = .entry op ∧
      op.enter r.env r.op.msg r.pre = .ok (w', some (.refund p)) ∧
      r.op.op.ballot P r.env r.op.msg = some (voter, id, support) ∧
      RefundedVote r.env r.pre voter id support p w' := by
  unfold refundOf at h
  cases hop : r.op.op with
  | execute i =>
    rw [hop] at h
    cases h
  | entry op =>
    rw [hop] at h
    dsimp only at h
    split at h
    · next w' q hq =>
      obtain ⟨voter', id', support, hb, hv⟩ := GovEntry.enter_refund hq
      rw [hb] at h
      obtain ⟨h1, rfl⟩ := Prod.mk.inj (Option.some.inj h)
      obtain ⟨rfl, rfl⟩ := Prod.mk.inj h1
      exact ⟨op, w', support, rfl, hq, hb, hv⟩
    · cases h

/-- the receipt of a refunded vote -/
theorem RefundedVote.receipt {voter : Address} {id support : Nat} {p : Payment}
    (h : RefundedVote env w voter id support p w') :
    ((w.dao.proposals id).receipts voter).hasVoted = false ∧
      ((w'.dao.proposals id).receipts voter).hasVoted = true ∧
      0 < ((w'.dao.proposals id).receipts voter).votes := by
  obtain ⟨d1, votes, hv, hpos, hp⟩ := h.votes
  obtain ⟨_, _, hnew, _, hs⟩ := castVoteInternal_ok hv
  have hb : (w'.dao.proposals id).receipts
      = update (w.dao.proposals id).receipts voter ⟨true, support, votes⟩ := by
    rw [hp, hs.self]
    exact congrArg (·.2.2.2) (withVote_ballots (w.dao.proposals id) voter support votes)
  rw [hb, update_self]
  exact ⟨hnew, rfl, hpos⟩

/-! ## all refunds of a history -/

/-- no vote is refunded twice, nor without votes, nor beyond the bound -/
structure Refunded (c : GovConfig P) : Prop where
  once : ((c.past.filterMap refundOf).map Prod.fst).Nodup
  recorded : ∀ r ∈ c.past, ∀ voter id p, refundOf r = some ((voter, id), p) →
    ((c.now.dao.proposals id).receipts voter).hasVoted = true ∧
      0 < ((c.now.dao.proposals id).receipts voter).votes
  bounded : ∀ r ∈ c.past, ∀ key p, refundOf r = some (key, p) →
    p.toAddr = r.env.origin ∧ p.amount ≤ min r.pre.dao.balance MAX_REFUND

/-- a vote that is about to be refunded has not been refunded before -/
theorem Refunded.new {k : GovConfig P} (h : Refunded k) {voter : Address} {id : Nat} {p : Payment}
    (hr : refundOf (⟨env, k.now, c⟩ : GovRecord P) = some ((voter, id), p)) :
    (voter, id) ∉ (k.past.filterMap refundOf).map Prod.fst := by
  intro hm
  obtain ⟨⟨key, q⟩, hmem, rfl⟩ := List.mem_map.mp hm
  obtain ⟨r, hpast, hrefund⟩ := List.mem_filterMap.mp hmem
  obtain ⟨_, _, _, _, _, _, hv⟩ := refundOf_eq hr
  have h1 := (h.recorded r hpast _ _ _ hrefund).1
  rw [hv.receipt.1] at h1
  cases h1

theorem Refunded.move {e : Env} {k k' : GovConfig P} (hk : BallotsKept e k) (h : Refunded k)
    (hm : GovExact e k k') : Refunded k' := by
  have hchange := GovMove.change hm.move
  have hkeep : ∀ r ∈ k.past, ∀ voter id p, refundOf r = some ((voter, id), p) →
      ((k'.now.dao.proposals id).receipts voter).hasVoted = true ∧
        0 < ((k'.now.dao.proposals id).receipts voter).votes := by
    intro r hr voter id p hp
    have h1 := h.recorded r hr voter id p hp
    rw [hchange.receipt hk.sane.fresh h1.1]
    exact h1
  cases hm with
  | resume w' hw => exact ⟨h.once, hkeep, h.bounded⟩
  | enter op w' hw =>
    have hnow : ∀ voter id p, refundOf (⟨e, k.now, op⟩ : GovRecord P) = some ((voter, id), p) →
        ∃ support, RefundedVote e k.now voter id support p w' := by
      intro voter id p hp
      obtain ⟨op', w'', support, hop, henter, _, hv⟩ := refundOf_eq hp
      cases hw with
      | entry op2 w2 x hop2 h2 =>
        obtain rfl : op2 = op' := GovOp.entry.inj (hop2.symm.trans hop)
        obtain ⟨rfl, _⟩ := Prod.mk.inj (Except.ok.inj (h2.symm.trans henter))
        exact ⟨support, hv⟩
      | execute id d w2 hop2 h2 hact => cases hop2.symm.trans hop
    have hpast : ∀ {q : GovRecord P → Prop}, (∀ r ∈ k.past, q r) → q ⟨e, k.now, op⟩ →
        ∀ r ∈ k.enter e op, q r := by
      intro q h1 h2 r hr
      rcases List.mem_append.mp hr with hr | hr
      · exact h1 r hr
      · rw [List.mem_singleton.mp hr]
        exact h2
    refine ⟨?_, hpast hkeep fun voter id p hp => ?_, hpast h.bounded fun key p hp => ?_⟩
    · show (((k.past ++ [_]).filterMap refundOf).map Prod.fst).Nodup
      rw [List.filterMap_append, List.map_append]
      cases hr : refundOf (⟨e, k.now, op⟩ : GovRecord P) with
      | none => simpa [hr] using h.once
      | some x =>
        obtain ⟨⟨voter, id⟩, p⟩ := x
        simp only [List.filterMap_cons, hr, List.filterMap_nil, List.map_cons, List.map_nil]
        exact List.nodup_append.mpr ⟨h.once, by simp, fun a ha b hb => by
          rw [List.mem_singleton.mp hb]
          rintro rfl
          exact h.new hr ha⟩
    · obtain ⟨support, hv⟩ := hnow voter id p hp
      exact hv.receipt.2
    · obtain ⟨voter, id⟩ := key
      obtain ⟨support, hv⟩ := hnow voter id p hp
      exact ⟨hv.toAddr, hv.amount⟩

/-! ## what a call pays, and what it leaves -/

/-- the refunds among the calls made -/
def refundsMade (made : List (GovExternal × Bool)) : List Payment :=
  made.filterMap fun m => m.1.refunded

/-- a call pays the refund of its vote and no other, and its vote stands however the payment ends -/
structure RefundsItsVote (env : Env) (k : GovConfig P) (c : GovCall P)
    (made : List (GovExternal × Bool)) (r : Except Revert (GovConfig P)) : Prop where
  calls : refundsMade made = (refundOf ⟨env, k.now, c⟩).toList.map Prod.snd
  stands : ∀ op voter id support w' x, c.op = .entry op →
    c.op.ballot P env c.msg = some (voter, id, support) →
    op.enter env c.msg k.now = .ok (w', x) → BallotsKept env k →
    ∃ d votes, r = .ok d ∧ k.enter env c <+: d.past ∧
      (∃ d1, k.now.dao.castVoteInternal env k.now.token voter id support = .ok (d1, votes)) ∧
      (d.now.dao.proposals id).receipts voter = ⟨true, support, votes⟩ ∧
      ∀ i, Tallied (d.now.dao.proposals i)

/-- a vote makes no call but for its refund -/
theorem GovEntry.enter_ballot {msg : Msg} {op : GovEntry} {x : Option GovExternal}
    {b : Address × Nat × Nat} (h : op.enter env msg w = .ok (w', x))
    (hb : (GovOp.entry op).ballot P env msg = some b) : x = none ∨ ∃ p, x = some (.refund p) := by
  cases op with
  | dao op =>
    obtain ⟨_, h1, h2⟩ := map_eq_ok.mp h
    cases op with
    | castVote | castVoteWithReason | castVoteBySig =>
      obtain ⟨_, _, h3⟩ := map_eq_ok.mp h1
      cases h3
      cases h2
      exact .inl rfl
    | castRefundableVote | castRefundableVoteWithReason =>
      obtain ⟨⟨_, q⟩, _, h3⟩ := map_eq_ok.mp h1
      cases h3
      cases h2
      cases q with
      | none => exact .inl rfl
      | some p => exact .inr ⟨p, rfl⟩
    | _ => cases hb
  | _ => cases hb

/-- what is recorded of a vote stays, whatever follows in the same transaction -/
theorem BallotsKept.moves {k k' : GovConfig P} (hk : BallotsKept env k) {voter : Address} {id : Nat}
    (hv : ((k.now.dao.proposals id).receipts voter).hasVoted = true)
    (h : ReflTransGen (GovExact env) k k') :
    BallotsKept env k' ∧
      (k'.now.dao.proposals id).receipts voter = (k.now.dao.proposals id).receipts voter := by
  induction h with
  | refl => exact ⟨hk, rfl⟩
  | tail _ hm ih =>
    obtain ⟨h1, h2⟩ := ih
    refine ⟨h1.move hm.move, ?_⟩
    rw [← h2]
    exact (GovMove.change hm.move).receipt h1.sane.fresh (by rw [h2]; exact hv)

/-- the state right after a vote -/
theorem BallotsKept.vote {k : GovConfig P} (hk : BallotsKept env k) {op : GovEntry}
    {voter : Address} {id support : Nat} {x : Option GovExternal} (hop : c.op = .entry op)
    (hb : c.op.ballot P env c.msg = some (voter, id, support))
    (h : op.enter env c.msg k.now = .ok (w', x)) :
    BallotsKept env ⟨k.enter env c, w'⟩ ∧
      ∃ d1 votes, k.now.dao.castVoteInternal env k.now.token voter id support = .ok (d1, votes) ∧
        (w'.dao.proposals id).receipts voter = ⟨true, support, votes⟩ := by
  have hbegin : GovBegin env c k.now w' := .entry op w' x hop h
  refine ⟨hk.move (GovExact.move (.enter k c w' hbegin)), ?_⟩
  obtain ⟨d1, votes, balance, logs, hv, hd⟩ := hbegin.step.votes hb
  refine ⟨d1, votes, hv, ?_⟩
  rw [hd, (castVoteInternal_ok hv).2.2.2.2.self]
  have e := congrArg (·.2.2.2) (withVote_ballots (k.now.dao.proposals id) voter support votes)
  exact (congrFun e voter).trans (update_self _ _ _)

theorem executeActions_pays {T : List (GovExternal × Bool) → Except Revert (GovConfig P) → Prop}
    (hT : ∀ made r, refundsMade made = [] → T made r) {id : Nat} (is : List Nat) :
    ∀ (w : World P) (past : List (GovRecord P)) (made : List (GovExternal × Bool)),
      refundsMade made = [] →
      (executeActions env id is w).Ends (ReflTransGen (GovExact env)) T past made := by
  have hmore : ∀ (made : List (GovExternal × Bool)) x b,
      refundsMade made = [] → refundsMade (made ++ [(GovExternal.target x, b)]) = [] := by
    intro made x b h
    exact List.filterMap_append.trans (by rw [← refundsMade, h]; rfl)
  induction is with
  | nil => exact fun w past made h => hT _ _ h
  | cons i is ih =>
    intro w past made h
    unfold executeActions
    cases hb : beginAction env w id i with
    | error e => exact hT _ _ h
    | ok r =>
      obtain ⟨w', tx⟩ := r
      refine ⟨fun c' _ => ?_, ?_⟩
      · cases he : c'.now.timelock.endExecute tx true with
        | error e =>
          simp only [he]
          exact hT _ _ (hmore _ _ _ h)
        | ok tl =>
          simp only [he]
          exact ih _ _ _ (hmore _ _ _ h)
      · cases he : w'.timelock.endExecute tx false with
        | error e =>
          simp only [he]
          exact hT _ _ (hmore _ _ _ h)
        | ok tl =>
          simp only [he]
          exact ih _ _ _ (hmore _ _ _ h)

/-- **A call refunds its vote**, and the vote stands. -/
theorem GovCall.refunds (env : Env) (c : GovCall P) (k : GovConfig P) :
    (c.code env k.now).Ends (ReflTransGen (GovExact env)) (RefundsItsVote env k c) (k.enter env c)
      [] := by
  obtain ⟨msg, op, hout⟩ := c
  cases op with
  | execute id =>
    have hT : ∀ made r, refundsMade made = [] →
        RefundsItsVote env k ⟨msg, .execute id, hout⟩ made r :=
      fun made r h => ⟨h, fun op voter id' support w' x hop => by cases hop⟩
    show Code.Ends _ _ (executeProposal env k.now id) _ _
    unfold executeProposal
    cases h : k.now.dao.beginExecute env id with
    | error e => exact hT _ _ rfl
    | ok d => exact executeActions_pays hT _ _ _ _ rfl
  | entry op =>
    show Code.Ends _ _ (Code.once GovExternal.after (op.enter env msg k.now)) _ _
    cases h : op.enter env msg k.now with
    | error e =>
      refine ⟨by simp [refundOf, h, refundsMade], fun op' voter id support w' x hop _ hx _ => ?_⟩
      cases hop
      cases h.symm.trans hx
    | ok r =>
      obtain ⟨w', x⟩ := r
      cases x with
      | none =>
        refine ⟨by simp [refundOf, h, refundsMade], fun op' voter id support w2 x hop hb hx hk => ?_⟩
        cases hop
        obtain ⟨rfl, rfl⟩ := Prod.mk.inj (Except.ok.inj (h.symm.trans hx))
        obtain ⟨hk', d1, votes, hv, hreceipt⟩ := hk.vote rfl hb h
        exact ⟨_, votes, rfl, List.prefix_refl _, ⟨d1, hv⟩, hreceipt, hk'.tallied⟩
      | some x =>
        have hcalls : ∀ b, refundsMade [(x, b)]
            = (refundOf ⟨env, k.now, ⟨msg, .entry op, hout⟩⟩).toList.map Prod.snd := by
          intro b
          cases x with
          | refund p =>
            obtain ⟨voter, id, support, hb, _⟩ := GovEntry.enter_refund h
            simp [refundOf, h, refundsMade, GovExternal.refunded, hb]
          | _ => simp [refundOf, h, refundsMade, GovExternal.refunded]
        have hrest : ∀ b (d : GovConfig P),
            ReflTransGen (GovExact env) ⟨k.enter env ⟨msg, .entry op, hout⟩, w'⟩ d →
            (Code.ofExcept (x.after b d.now) : Code (World P) GovExternal Revert).Ends
              (ReflTransGen (GovExact env)) (RefundsItsVote env k ⟨msg, .entry op, hout⟩) d.past
              [(x, b)] := by
          intro b d hd
          have hvote : ∀ {v : Address × Nat × Nat}, (GovOp.entry op).ballot P env msg = some v →
              ∃ p, x = .refund p := by
            intro v hv
            obtain hx | ⟨p, hx⟩ := GovEntry.enter_ballot h hv
            · cases hx
            · exact ⟨p, Option.some.inj hx⟩
          cases ha : x.after b d.now with
          | error e =>
            refine ⟨hcalls b, fun op' voter id support w2 y hop hb hx hk => ?_⟩
            obtain ⟨p, rfl⟩ := hvote hb
            cases ha
          | ok w3 =>
            refine ⟨hcalls b, fun op' voter id support w2 y hop hb hx hk => ?_⟩
            cases hop
            obtain ⟨hk', d1, votes, hv, hreceipt⟩ := hk.vote rfl hb h
            have hvoted : (((⟨k.enter env ⟨msg, .entry op, hout⟩, w'⟩ :
                GovConfig P).now.dao.proposals id).receipts voter).hasVoted = true := by
              show ((w'.dao.proposals id).receipts voter).hasVoted = true
              rw [hreceipt]
            have hall := hd.tail (.resume d w3 (.after x b w3 ha))
            obtain ⟨h1, h2⟩ := hk'.moves hvoted hall
            exact ⟨⟨d.past, w3⟩, votes, rfl, Moves.past_prefix hall, ⟨d1, hv⟩, h2.trans hreceipt,
              h1.tallied⟩
        exact ⟨fun d hd => hrest true d hd, hrest false ⟨_, w'⟩ .refl⟩

/-! ## runs -/

/-- **Refunds are bounded, and once for a vote**: in every history of a run; each call that is made
refunds the vote that it casts, if any, and no other; the vote stands whatever becomes of the payment;
and the amount is what the unchecked operations give, since none of them wraps. -/
theorem vote_refunds (g : GovSetup) (e : Env) (w : World P) (hw : g.deploy P e = .ok w)
    (ts : List (Tx Env (GovCall P))) (hch : (e :: ts.map Tx.env).IsChain (· ≤ ·)) :
    (∀ o ∈ observations GovCall.code e ts ⟨[], w⟩, Refunded o.2) ∧
    (∀ r ∈ runReports GovCall.code ts ⟨[], w⟩,
      RefundsItsVote r.env r.before r.op r.calls r.result ∧ BallotsKept r.env r.before ∧
      Refunded r.before ∧
      ∀ key p, refundOf ⟨r.env, r.before.now, r.op⟩ = some (key, p) →
        key ∉ (r.before.past.filterMap refundOf).map Prod.fst) ∧
    ∀ (env : Env) (d : NounsDAOLogicV2) (m : GasMeter),
      d.refundGasUnchecked env m.startGas m.gasleft = d.beginRefund env (m.startGas - m.gasleft) := by
  have hfollow := fun env (op : GovCall P) (c : GovConfig P) => op.follows_exact env c
  have hstart : BallotsKept e (⟨[], w⟩ : GovConfig P) ∧ Refunded (⟨[], w⟩ : GovConfig P) := by
    have hf := GovSetup.deploy_fresh hw
    refine ⟨⟨hf.sane, fun id => by rw [hf.proposals]; exact empty_tallied,
      fun r hr => absurd hr List.not_mem_nil, Linked.nil w⟩, ?_⟩
    exact ⟨List.Pairwise.nil, fun r hr => absurd hr List.not_mem_nil,
      fun r hr => absurd hr List.not_mem_nil⟩
  have hkept : ∀ x : Env × GovConfig P, ReflTransGen (Timed GovExact) (e, ⟨[], w⟩) x →
      BallotsKept x.1 x.2 ∧ Refunded x.2 := fun x hx =>
    Timed.invariant (I := fun e c => BallotsKept e c ∧ Refunded c)
      (fun e c c' h hm => ⟨h.1.move hm.move, h.2.move h.1 hm⟩)
      (fun e e' c h he => ⟨⟨h.1.sane.mono he, h.1.tallied, h.1.receipts, h.1.linked⟩, h.2⟩) hx hstart
  refine ⟨fun o ho => (hkept o (observations_timed hfollow hch ho)).2, fun r hr => ?_,
    beginRefund_unchecked⟩
  obtain ⟨htimed, hends⟩ := runReports_timed hfollow GovCall.refunds ts e ⟨[], w⟩ hch r hr
  obtain ⟨h1, h2⟩ := hkept (r.env, r.before) htimed
  refine ⟨hends, h1, h2, fun key p hp => ?_⟩
  obtain ⟨voter, id⟩ := key
  exact h2.new hp

end

/-- a block with a base fee of 20 gwei, and a transaction of `2` that pays one more -/
def pricedEnv : Env :=
  { Env.block 10 100 with basefee := 20000000000, gasprice := 21000000000, origin := 2 }

/-- `2` votes, and tries to do so again from its refund -/
def pricedTxs : List (Tx Env (GovCall samplePlatform)) :=
  proposeTxs ++
  [⟨.block 8 80, sampleCall 7 1000000000000000000 (.entry (.dao .receive))⟩,
   ⟨pricedEnv, sampleCall 2 0 (.entry (.dao (.castRefundableVote 1 1 50000)))
     (.cons true (.cons (sampleCall 2 0 (.entry (.dao (.castRefundableVote 1 1 50000)))) .nil) .nil)⟩]

theorem vote_refunds_run :
    let last := (runTxs GovCall.code pricedTxs ⟨[], sampleWorld⟩).2
    last.past.filterMap refundOf = [((2, 1), ⟨2, 86000 * 21000000000⟩)] ∧ Refunded last := by
  intro last
  have h := vote_refunds sampleSetup (.block 6 60) sampleWorld sampleWorld_deployed pricedTxs
    (by simp [pricedTxs, pricedEnv, proposeTxs, Env.le_def, Env.block])
  exact ⟨by decide +kernel, h.1 _ (final_mem_observations GovCall.code (.block 6 60) pricedTxs
    ⟨[], sampleWorld⟩)⟩

end UNouns
