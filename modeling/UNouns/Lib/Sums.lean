import Mathlib.Algebra.BigOperators.Group.Finset.Basic
import Mathlib.Algebra.Order.BigOperators.Group.Finset
import Mathlib.Data.Fintype.BigOperators

/-!
# Finite sums when one summand changes

Subtraction-free: what the new sum gains on the old one is what the one summand gains.
-/

namespace Sums
open Finset

section
variable {ι : Type} [DecidableEq ι]

theorem sum_change_one {s : Finset ι} {f g : ι → Nat} {a : ι} (ha : a ∈ s)
    (h : ∀ x, x ≠ a → g x = f x) : ∑ x ∈ s, g x + f a = ∑ x ∈ s, f x + g a := by
  have e : ∑ x ∈ s.erase a, g x = ∑ x ∈ s.erase a, f x :=
    sum_congr rfl (fun x hx => h x (ne_of_mem_erase hx))
  rw [← add_sum_erase s g ha, ← add_sum_erase s f ha, e]
  omega

theorem sum_update {s : Finset ι} (f : ι → Nat) {a : ι} (ha : a ∈ s) (v : Nat) :
    ∑ x ∈ s, Function.update f a v x + f a = ∑ x ∈ s, f x + v := by
  have h := sum_change_one (f := f) (g := Function.update f a v) ha
    (fun x hx => Function.update_of_ne hx v f)
  rwa [Function.update_self] at h

/-- a value moved from one index to another leaves the sum alone -/
theorem sum_move {s : Finset ι} (f : ι → Nat) {a b : ι} (ha : a ∈ s) (hb : b ∈ s) {n : Nat}
    (hn : n ≤ f a) :
    ∑ x ∈ s, Function.update (Function.update f a (f a - n)) b
      (Function.update f a (f a - n) b + n) x = ∑ x ∈ s, f x := by
  have h1 := sum_update f ha (f a - n)
  have h2 := sum_update (Function.update f a (f a - n)) hb (Function.update f a (f a - n) b + n)
  omega

end

end Sums
