import Mathlib.Data.List.Infix
import Mathlib.Tactic.Common

/-!
# Statements about a history that only grows

A history is a list, oldest entry first.

* `Every R l`      each entry `x` of `l` stands in `R` to what came before it;
* `Since p q l`    there is an entry with `p`, and none with `q` after it.
-/

namespace Histories
variable {α : Type}

def Every (R : List α → α → Prop) (l : List α) : Prop :=
  ∀ before x after, l = before ++ x :: after → R before x

def Since (p q : α → Prop) (l : List α) : Prop :=
  ∃ before x after, l = before ++ x :: after ∧ p x ∧ ∀ y ∈ after, ¬ q y

theorem every_nil (R : List α → α → Prop) : Every R [] := by
  intro before x after h
  simp at h

theorem every_concat {R : List α → α → Prop} {l : List α} {a : α} (hl : Every R l) (ha : R l a) :
    Every R (l ++ [a]) := by
  intro before x after h
  rcases List.eq_nil_or_concat after with rfl | ⟨after', z, rfl⟩
  · obtain ⟨rfl, h1⟩ := List.append_inj' h rfl
    rw [← List.singleton_inj.mp h1]
    exact ha
  · have h' : l ++ [a] = (before ++ x :: after') ++ [z] := by simpa using h
    exact hl before x after' (List.append_inj' h' rfl).1

theorem Since.concat_new {p q : α → Prop} {l : List α} {a : α} (ha : p a) :
    Since p q (l ++ [a]) := ⟨l, a, [], rfl, ha, by simp⟩

theorem Since.concat {p q : α → Prop} {l : List α} {a : α} (h : Since p q l) (ha : ¬ q a) :
    Since p q (l ++ [a]) := by
  obtain ⟨before, x, after, rfl, hp, hq⟩ := h
  refine ⟨before, x, after ++ [a], by simp, hp, fun y hy => ?_⟩
  rcases List.mem_append.mp hy with h | h
  · exact hq y h
  · rw [List.mem_singleton.mp h]
    exact ha

/-- between two entries with `q`, each since a `p`, there is a `p` -/
theorem Since.between {p q : α → Prop} (hpq : ∀ x, p x → ¬ q x) {before mid : List α} {x : α}
    (h : Since p q (before ++ x :: mid)) (hx : q x) : ∃ y ∈ mid, p y := by
  obtain ⟨b, y, a, e, hp, hq⟩ := h
  rcases List.append_eq_append_iff.mp e with ⟨c, h1, h2⟩ | ⟨c, h1, h2⟩
  · cases c with
    | nil =>
      obtain ⟨rfl, _⟩ := List.cons.inj h2
      exact absurd hx (hpq _ hp)
    | cons z c =>
      obtain ⟨rfl, rfl⟩ := List.cons.inj h2
      exact ⟨y, by simp, hp⟩
  · cases c with
    | nil =>
      obtain ⟨rfl, _⟩ := List.cons.inj h2
      exact absurd hx (hpq _ hp)
    | cons z c =>
      obtain ⟨rfl, rfl⟩ := List.cons.inj h2
      exact absurd hx (hq x (by simp))

end Histories
