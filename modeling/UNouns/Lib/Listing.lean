import Mathlib.Data.List.GetD
import Mathlib.Logic.Function.Basic
import Mathlib.Tactic.Common

/-!
# Lists with an index

Keys are kept in the first `n` slots of a table, and an index says in which slot a key is.  A key is put
in behind the others, and taken out by moving the last one to its slot.

* `Lists slots index n S`   the slots below `n` list the keys of `S`, each once;
* `Lists.push`, `Lists.pop` a key comes in, a key goes out;
* `Lists.congr`             slots from `n` on, and the index of other keys, do not matter;
* `Lists.answers`           what a view of the slots answers.
-/

set_option linter.unusedVariables false

namespace Listing
open Function

variable {K : Type} {slots slots' : Nat → K} {index index' : K → Nat} {n : Nat} {S S' : K → Prop}

structure Lists (slots : Nat → K) (index : K → Nat) (n : Nat) (S : K → Prop) : Prop where
  slot : ∀ i < n, S (slots i) ∧ index (slots i) = i
  key : ∀ k, S k → index k < n ∧ slots (index k) = k

theorem lists_zero (slots : Nat → K) (index : K → Nat) (h : ∀ k, ¬ S k) : Lists slots index 0 S where
  slot i hi := absurd hi (Nat.not_lt_zero i)
  key k hk := absurd hk (h k)

namespace Lists

theorem inj (h : Lists slots index n S) {i j : Nat} (hi : i < n) (hj : j < n)
    (e : slots i = slots j) : i = j := by
  rw [← (h.slot i hi).2, e, (h.slot j hj).2]

theorem pos (h : Lists slots index n S) {k : K} (hk : S k) : 0 < n :=
  Nat.lt_of_le_of_lt (Nat.zero_le _) (h.key k hk).1

/-- slots from `n` on, and the index of other keys, do not matter -/
theorem congr (h : Lists slots index n S) (hslots : ∀ i < n, slots' i = slots i)
    (hindex : ∀ k, S k → index' k = index k) (hS : ∀ k, S' k ↔ S k) : Lists slots' index' n S' where
  slot i hi := by
    obtain ⟨h1, h2⟩ := h.slot i hi
    rw [hslots i hi]
    exact ⟨(hS _).mpr h1, (hindex _ h1).trans h2⟩
  key k hk := by
    have hk' := (hS k).mp hk
    obtain ⟨h1, h2⟩ := h.key k hk'
    rw [hindex k hk']
    exact ⟨h1, (hslots _ h1).trans h2⟩

/-- what is answered for an index: something below `n` only, all of it in `S`, nothing twice, and each key
of `S` for one index -/
structure Answers (view : Nat → K → Prop) (n : Nat) (S : K → Prop) : Prop where
  below : ∀ i, (∃ k, view i k) ↔ i < n
  listed : ∀ i k, view i k → S k
  once : ∀ i j k, view i k → view j k → i = j
  unique : ∀ k, (∃! i, view i k) ↔ S k

/-- a view of the slots below `n` -/
theorem answers (h : Lists slots index n S) {view : Nat → K → Prop}
    (hview : ∀ i k, view i k ↔ i < n ∧ slots i = k) : Answers view n S := by
  have hlisted : ∀ i k, view i k → S k ∧ index k = i := by
    intro i k hik
    obtain ⟨hi, rfl⟩ := (hview i k).mp hik
    exact h.slot i hi
  refine ⟨fun i => ⟨fun ⟨k, hk⟩ => ((hview i k).mp hk).1, fun hi => ⟨_, (hview i _).mpr ⟨hi, rfl⟩⟩⟩,
    fun i k hik => (hlisted i k hik).1,
    fun i j k hi hj => (hlisted i k hi).2.symm.trans (hlisted j k hj).2, fun k => ⟨?_, fun hk => ?_⟩⟩
  · rintro ⟨i, hik, _⟩
    exact (hlisted i k hik).1
  · exact ⟨index k, (hview _ _).mpr (h.key k hk), fun j hj => (hlisted j k hj).2.symm⟩

variable [DecidableEq K]

/-- a key comes in -/
theorem push (h : Lists slots index n S) {k : K} (hk : ¬ S k) :
    Lists (update slots n k) (update index k n) (n + 1) (fun x => x = k ∨ S x) where
  slot i hi := by
    rcases Nat.lt_succ_iff_lt_or_eq.mp hi with hi | rfl
    · obtain ⟨h1, h2⟩ := h.slot i hi
      have hne : slots i ≠ k := fun e => hk (by rwa [← e])
      rw [update_of_ne (Nat.ne_of_lt hi), update_of_ne hne]
      exact ⟨.inr h1, h2⟩
    · rw [update_self]
      exact ⟨.inl rfl, update_self _ _ _⟩
  key x hx := by
    by_cases e : x = k
    · subst e
      rw [update_self]
      exact ⟨Nat.lt_succ_self n, update_self _ _ _⟩
    · obtain ⟨h1, h2⟩ := h.key x (hx.resolve_left e)
      rw [update_of_ne e]
      exact ⟨Nat.lt_succ_of_lt h1, (update_of_ne (Nat.ne_of_lt h1) _ _).trans h2⟩

/-- a key goes out, and the last one takes its slot; where `k` and the last slot then point to does not
matter -/
theorem pop (h : Lists slots index n S) {k : K} (hk : S k) (j : Nat) (x : K) :
    Lists (update (update slots (index k) (slots (n - 1))) (n - 1) x)
      (update (update index (slots (n - 1)) (index k)) k j) (n - 1) (fun y => y ≠ k ∧ S y) := by
  have hn := h.pos hk
  obtain ⟨hik, hsk⟩ := h.key k hk
  obtain ⟨hlast, hilast⟩ := h.slot (n - 1) (by omega)
  refine ⟨fun i hi => ?_, fun y ⟨hyk, hy⟩ => ?_⟩
  · rw [update_of_ne (by omega)]
    by_cases e : i = index k
    · subst e
      -- the last key is another one, since its slot is another one
      have hne : slots (n - 1) ≠ k := fun e => by
        have := h.inj (by omega) hik (e.trans hsk.symm)
        omega
      rw [update_self, update_of_ne hne, update_self]
      exact ⟨⟨hne, hlast⟩, rfl⟩
    · obtain ⟨h1, h2⟩ := h.slot i (by omega)
      have hne : slots i ≠ k := fun e' => e (by rw [← h2, e'])
      have hne' : slots i ≠ slots (n - 1) := fun e' => by
        have := h.inj (by omega) (by omega) e'
        omega
      rw [update_of_ne e, update_of_ne hne, update_of_ne hne']
      exact ⟨⟨hne, h1⟩, h2⟩
  · obtain ⟨h1, h2⟩ := h.key y hy
    rw [update_of_ne hyk]
    by_cases e : y = slots (n - 1)
    · subst e
      have hne : index k ≠ n - 1 := fun e' => hyk (by rw [← e', hsk])
      rw [update_self, update_of_ne hne, update_self]
      exact ⟨by omega, rfl⟩
    · have hne : index y ≠ n - 1 := fun e' => e (by rw [← e', h2])
      have hne' : index y ≠ index k := fun e' => hyk (by rw [← h2, e', hsk])
      rw [update_of_ne e, update_of_ne hne, update_of_ne hne']
      exact ⟨by omega, h2⟩

end Lists

/-! ## slots of a list -/

variable (l : List K) (x : K)

theorem getD_concat (k : K) : (fun i => (l ++ [k]).getD i x) = update (fun i => l.getD i x) l.length k := by
  funext i
  rcases Nat.lt_trichotomy i l.length with hi | rfl | hi
  · rw [update_of_ne (Nat.ne_of_lt hi), List.getD_append _ _ _ _ hi]
  · simp
  · rw [update_of_ne (Nat.ne_of_gt hi), List.getD_eq_default _ _ (by simp; omega),
      List.getD_eq_default _ _ (by omega)]

theorem getD_set_dropLast {i j : Nat} (k : K) (hi : i < l.length) (hj : j < l.length - 1) :
    ((l.set i k).dropLast).getD j x = update (fun i => l.getD i x) i k j := by
  have hlen : (l.set i k).dropLast.length = l.length - 1 := by simp
  rw [List.getD_eq_getElem _ _ (by omega), List.getElem_dropLast, List.getElem_set]
  by_cases e : i = j
  · subst e
    rw [if_pos rfl, update_self]
  · rw [if_neg e, update_of_ne (Ne.symm e), List.getD_eq_getElem _ _ (by omega)]

end Listing
