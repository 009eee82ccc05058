import Mathlib.Data.List.Basic
import Mathlib.Data.List.Flatten
import Mathlib.Algebra.BigOperators.Group.List.Basic
import Mathlib.Algebra.Ring.Nat
import Mathlib.Tactic.Common

/-!
# Lists in pages

A long list is kept as pages of which only the sizes are known at once.

* `find`            the page of an index, and the index in the page, by a walk over the sizes;
* `find_flatMap`    what is there is what the flat list has at the index;
* `find_append`     more pages leave what is found;
* `find_eq_none`    nothing is found from the sum of the sizes on;
* `flatMap_prefix`  pages are added at the end.
-/

set_option linter.unusedVariables false

namespace Pages
variable {α β : Type}

/-- `first` is the index of the first element of the pages that are left -/
def find (size : α → Nat) : List α → Nat → Nat → Option (α × Nat)
  | [], _, _ => none
  | page :: pages, first, index =>
    if index < first + size page then some (page, index - first)
    else find size pages (first + size page) index

variable {size : α → Nat}

theorem find_mem {pages : List α} {page : α} {index i : Nat} : ∀ {first : Nat}, first ≤ index →
    find size pages first index = some (page, i) → page ∈ pages ∧ i < size page := by
  induction pages with
  | nil =>
    intro first _ h
    cases h
  | cons p pages ih =>
    intro first hle h
    unfold find at h
    by_cases hlt : index < first + size p
    · rw [if_pos hlt] at h
      cases h
      exact ⟨List.mem_cons_self, by omega⟩
    · rw [if_neg hlt] at h
      obtain ⟨h1, h2⟩ := ih (by omega) h
      exact ⟨List.mem_cons_of_mem _ h1, h2⟩

/-- **What is found is what the flat list has at the index.** -/
theorem find_flatMap {content : α → List β} {pages : List α} {index : Nat} : ∀ {first : Nat},
    (∀ page ∈ pages, (content page).length = size page) → first ≤ index →
      (find size pages first index).bind (fun r => (content r.1)[r.2]?)
        = (pages.flatMap content)[index - first]? := by
  induction pages with
  | nil => exact fun _ _ => rfl
  | cons p pages ih =>
    intro first hsize hle
    have hp := hsize p List.mem_cons_self
    rw [List.flatMap_cons]
    unfold find
    by_cases hlt : index < first + size p
    · rw [if_pos hlt, List.getElem?_append_left (by omega)]
      rfl
    · have hsub : index - first - (content p).length = index - (first + size p) := by omega
      rw [if_neg hlt, List.getElem?_append_right (by omega), hsub]
      exact ih (fun q hq => hsize q (List.mem_cons_of_mem _ hq)) (by omega)

theorem find_append {pages : List α} (more : List α) {index : Nat} {r : α × Nat} : ∀ {first : Nat},
    find size pages first index = some r → find size (pages ++ more) first index = some r := by
  induction pages with
  | nil =>
    intro first h
    cases h
  | cons p pages ih =>
    intro first h
    rw [List.cons_append]
    unfold find at h ⊢
    by_cases hlt : index < first + size p
    · rwa [if_pos hlt] at h ⊢
    · rw [if_neg hlt] at h ⊢
      exact ih h

theorem find_eq_none {pages : List α} {index : Nat} : ∀ {first : Nat},
    first + (pages.map size).sum ≤ index → find size pages first index = none := by
  induction pages with
  | nil => exact fun _ => rfl
  | cons p pages ih =>
    intro first h
    rw [List.map_cons, List.sum_cons] at h
    unfold find
    rw [if_neg (by omega)]
    exact ih (by omega)

/-- the flat list has as many elements as the sizes say -/
theorem length_flatMap {content : α → List β} {pages : List α}
    (h : ∀ page ∈ pages, (content page).length = size page) :
    (pages.flatMap content).length = (pages.map size).sum := by
  rw [List.length_flatMap]
  exact congrArg List.sum (List.map_congr_left h)

/-- more pages at the end leave the flat list as it was, and add to it -/
theorem flatMap_prefix {content content' : α → List β} {pages pages' : List α} (h : pages <+: pages')
    (hsame : ∀ page ∈ pages, content' page = content page) :
    pages.flatMap content <+: pages'.flatMap content' := by
  obtain ⟨more, rfl⟩ := h
  rw [List.flatMap_append, List.flatMap_congr hsame]
  exact List.prefix_append _ _

end Pages
