import Mathlib.Data.Set.Card
import Mathlib.Data.List.Dedup
import Mathlib.Tactic.Common

/-!
# Records filed under keys

Records are filed one after another, and a record covers an earlier one with its key.

* `file key as`        the files after the records `as`;
* `file_eq`            under each key is the last record that has it;
* `ncard_file_iff`     there are as many files as records if and only if no two records have one key.
-/

set_option linter.unusedVariables false

namespace Files
open Function
variable {K A : Type} [DecidableEq K] (key : A → K)

def file (as : List A) : K → Option A := as.foldl (fun f a => update f (key a) (some a)) fun _ => none

/-- a record that there may be -/
def put (f : K → Option A) : Option A → K → Option A
  | some a => update f (key a) (some a)
  | none => f

theorem file_snoc (as : List A) (a : A) :
    file key (as ++ [a]) = update (file key as) (key a) (some a) := by
  unfold file
  rw [List.foldl_append]
  rfl

theorem file_put (as : List A) (x : Option A) : file key (as ++ x.toList) = put key (file key as) x := by
  cases x with
  | none => exact congrArg _ (List.append_nil _)
  | some a => exact file_snoc key as a

/-- the last record of a key -/
theorem file_eq (as : List A) (k : K) : file key as k = (as.filter fun a => key a = k).getLast? := by
  induction as using List.reverseRecOn with
  | nil => rfl
  | append_singleton as a ih =>
    rw [file_snoc, List.filter_append]
    by_cases e : k = key a
    · subst e
      rw [update_self, List.filter_singleton]
      simp
    · have hne : ¬ key a = k := fun h => e h.symm
      rw [update_of_ne e, ih, List.filter_singleton]
      simp [hne]

theorem file_isSome {as : List A} {k : K} : (file key as k).isSome = true ↔ k ∈ as.map key := by
  rw [file_eq, List.getLast?_isSome]
  simp [List.filter_eq_nil_iff]

/-- the files that are not empty -/
theorem setOf_file (as : List A) :
    {k | (file key as k).isSome = true} = ((as.map key).toFinset : Set K) := by
  ext k
  simp [file_isSome]

theorem ncard_file (as : List A) :
    ({k | (file key as k).isSome = true} : Set K).ncard = (as.map key).dedup.length := by
  rw [setOf_file, Set.ncard_coe_finset, List.card_toFinset]

theorem dedup_length_eq_iff (ks : List K) : ks.dedup.length = ks.length ↔ ks.Nodup := by
  constructor
  · intro h
    rw [← List.dedup_eq_self]
    exact (List.dedup_sublist ks).eq_of_length h
  · intro h
    rw [List.dedup_eq_self.mpr h]

/-- **As many files as records**, if and only if no two records have one key. -/
theorem ncard_file_iff (as : List A) :
    ({k | (file key as k).isSome = true} : Set K).ncard = as.length ↔ (as.map key).Nodup := by
  rw [ncard_file, ← dedup_length_eq_iff, List.length_map]

end Files
