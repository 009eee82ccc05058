import UNouns.Token.Dealings

/-!
# The tokens behind a delegate

A token stands behind the delegate of its owner.  As long as nobody delegates to the zero address, the
votes of a delegate are the number of the tokens behind it.

* `UNounsToken.backs`          the tokens behind a delegate;
* `Ledger.Sound.votes_eq_card` its votes count them;
* `TokenOp.apply_delegated`    read off the log: what the votes are survives an entry.
-/

set_option linter.unusedVariables false

namespace UNouns
open Function Relation Reentrant Finset UNounsToken

/-- the owner of the token has `d` for its delegate -/
def UNounsToken.backs (t : UNounsToken) (d : Address) (id : Nat) : Prop :=
  t.owners id ≠ 0 ∧ t.delegates (t.owners id) = d

instance (t : UNounsToken) (d : Address) (id : Nat) : Decidable (t.backs d id) :=
  inferInstanceAs (Decidable (_ ∧ _))

/-- every token behind a delegate counts once in the balances delegated to it -/
theorem Ledger.Sound.delegated_eq_card {l : Ledger} {b : Nat} (hs : l.Sound b) {d : Address}
    (hd : d ≠ 0) :
    l.delegated d = #{id ∈ range l.nextId | l.owners id ≠ 0 ∧ l.delegates (l.owners id) = d} := by
  have hbalance : ∀ a, (if l.delegates a = d then l.balances a else 0)
      = ∑ id ∈ range l.nextId, if a ≠ 0 ∧ l.owners id = a ∧ l.delegates a = d then 1 else 0 := by
    intro a
    by_cases ha : a = 0
    · subst ha
      have hne : ¬ l.delegates 0 = d := by
        rw [hs.delegates_zero]
        exact hd.symm
      rw [if_neg hne]
      exact (sum_eq_zero fun id _ => if_neg fun h => h.1 rfl).symm
    · rw [hs.balance_eq a ha, Ledger.held]
      by_cases he : l.delegates a = d
      · rw [if_pos he]
        exact sum_congr rfl fun id _ => if_congr (by simp [ha, he]) rfl rfl
      · rw [if_neg he]
        exact (sum_eq_zero fun id _ => if_neg fun h => he h.2.2).symm
  unfold Ledger.delegated
  rw [sum_congr rfl fun a _ => hbalance a, sum_comm, card_filter]
  refine sum_congr rfl fun id _ => ?_
  rw [sum_eq_single (l.owners id)]
  · exact if_congr (by simp) rfl rfl
  · exact fun a _ ha => if_neg fun h => ha h.2.1.symm
  · exact fun h => absurd (mem_univ _) h

theorem Ledger.Sound.votes_eq_card {t : UNounsToken} {b : Nat} (hs : t.ledger.Sound b)
    (hd : t.ledger.Delegated) {d : Address} (h0 : d ≠ 0) {ids : List Nat} (hn : ids.Nodup)
    (hm : ∀ id, id ∈ ids ↔ t.backs d id) : ids.length = t.getCurrentVotes d := by
  have hcard := (hd d h0).trans (hs.delegated_eq_card h0)
  have hids : ids.toFinset = {id ∈ range t.ledger.nextId |
      t.ledger.owners id ≠ 0 ∧ t.ledger.delegates (t.ledger.owners id) = d} := by
    ext id
    rw [List.mem_toFinset, hm, mem_filter]
    exact ⟨fun h => ⟨hs.lt_nextId h.1, h⟩, fun h => h.2⟩
  rw [← List.toFinset_card_of_nodup hn, hids]
  exact hcard.symm

/-! ## delegations in the log -/

/-- nobody delegates to the zero address -/
def NoneToZero (vs : List TokenEvent) : Prop := ∀ a b, .delegateChanged a b 0 ∉ vs

theorem NoneToZero.of_cut {vs ws : List TokenEvent} (h : NoneToZero ws) (hv : vs <+: ws) :
    NoneToZero vs := fun a b hm => h a b (hv.subset hm)

section
variable {P : Platform} {env : Env} {t t' : UNounsToken} {sender : Address} {op : TokenOp}

theorem delegateInternal_named {a d : Address} (h : t.delegateInternal env a d = .ok t') :
    .delegateChanged a (t.delegates a) d ∈ t'.logs := by
  simp only [delegateInternal, bind_eq_ok] at h
  obtain ⟨n, hn, h⟩ := h
  obtain ⟨vs, hl, _⟩ := moveDelegates_minor h
  rw [hl]
  simp [emit]

/-- the delegation of an entry is in its log -/
theorem TokenOp.apply_named {a d : Address} (h : op.apply P env sender t = .ok t')
    (hd : op.delegation P env sender = some (a, d)) : ∃ b, .delegateChanged a b d ∈ t'.logs := by
  cases op with
  | delegate x =>
    obtain ⟨rfl, rfl⟩ := Prod.mk.inj (Option.some.inj hd)
    exact ⟨_, delegateInternal_named h⟩
  | delegateBySig x nonce expiry sig =>
    obtain ⟨rfl, rfl⟩ := Prod.mk.inj (Option.some.inj hd)
    simp only [TokenOp.apply, UNounsToken.delegateBySig, bind_eq_ok] at h
    obtain ⟨_, _, _, _, _, _, h⟩ := h
    exact ⟨_, delegateInternal_named h⟩
  | _ => cases hd

/-- **The votes stay what is delegated**, while the log names nobody's delegate as zero. -/
theorem TokenOp.apply_delegated (h : op.apply P env sender t = .ok t') (hz : NoneToZero t'.logs)
    (hs : t.ledger.Sound env.number) (hd : t.ledger.Delegated) : t'.ledger.Delegated := by
  refine (Ledger.steps_delegated (TokenOp.apply_steps (D := Keeps) (fun a d hop => ?_) h) hs hd).2
  obtain ⟨b, hb⟩ := TokenOp.apply_named h hop
  exact .inl fun e => hz a b (e ▸ hb)

end

end UNouns
