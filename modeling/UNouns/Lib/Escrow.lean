import Mathlib.Data.List.Induction
import Mathlib.Algebra.BigOperators.Group.List.Basic
import Mathlib.Algebra.Ring.Nat

/-!
# An escrow account for bids

One bid is held at a time.  A new one sends the bid held back to its bidder, a settlement pays it to
someone else; what was paid is written down in order.

* `run_append`     an account can be carried forward;
* `conservation`   what came in is what was paid and what is held;
* `paid_once`      amount by amount: each bid is paid once or held, in the order of the bids.
-/

namespace Escrow

inductive Event (α : Type) where
  | bid (bidder : α) (amount : Nat)
  | settle (payee : α)

structure Account (α : Type) where
  held : Option (α × Nat)
  paid : List (α × Nat)

section
variable {α : Type}

/-- an empty bid is given back, but not paid out -/
def Account.step (acc : Account α) : Event α → Account α
  | .bid bidder amount => ⟨some (bidder, amount), acc.paid ++ acc.held.toList⟩
  | .settle payee =>
    ⟨none, acc.paid ++ (acc.held.toList.filter (0 < ·.2)).map fun b => (payee, b.2)⟩

def Account.empty : Account α := ⟨none, []⟩

def run (es : List (Event α)) : Account α := es.foldl Account.step Account.empty

/-- the amounts that came in -/
def bids (es : List (Event α)) : List Nat :=
  es.flatMap fun
    | .bid _ amount => [amount]
    | .settle _ => []

@[simp] theorem run_append (es : List (Event α)) (e : Event α) : run (es ++ [e]) = (run es).step e := by
  simp [run]

theorem bids_append (es fs : List (Event α)) : bids (es ++ fs) = bids es ++ bids fs :=
  List.flatMap_append

theorem sum_filter_pos (l : List Nat) : (l.filter (0 < ·)).sum = l.sum := by
  induction l with
  | nil => rfl
  | cons n l ih =>
    rcases Nat.eq_zero_or_pos n with rfl | hn
    · simpa using ih
    · simp [hn, ih]

/-- **Each bid is paid once or held**, in the order of the bids; empty ones do not count. -/
theorem paid_once (es : List (Event α)) :
    (((run es).paid ++ (run es).held.toList).map Prod.snd).filter (0 < ·)
      = (bids es).filter (0 < ·) := by
  induction es using List.reverseRecOn with
  | nil => rfl
  | append_singleton es e ih =>
    rw [run_append, bids_append, List.filter_append, ← ih]
    cases e with
    | bid bidder amount => simp [Account.step, bids]
    | settle payee =>
      cases h : (run es).held with
      | none => simp [Account.step, bids, h]
      | some b =>
        by_cases hb : 0 < b.2 <;> simp [Account.step, bids, h, hb]

theorem conservation (es : List (Event α)) :
    (bids es).sum = ((run es).paid.map Prod.snd).sum + ((run es).held.map Prod.snd).getD 0 := by
  have h := congrArg List.sum (paid_once es)
  rw [sum_filter_pos, sum_filter_pos, List.map_append, List.sum_append] at h
  rw [← h]
  cases (run es).held <;> simp

end

end Escrow
