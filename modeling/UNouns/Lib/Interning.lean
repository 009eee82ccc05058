import Mathlib.Data.List.Induction
import Mathlib.Data.List.Nodup
import Mathlib.Tactic.Common

/-!
# Interning

Keys are numbered in the order in which they first occur, so the number of a key is its place in
`ks.eraseDups`, where `ks` are the keys so far.

* `eraseDups_concat`    one more key is put behind the others, if it is new;
* `eraseDups_append_eq` the places of the old keys stay;
* `mem_take_iff`        a key is among the first `n` if its place is below `n`.
-/

set_option linter.unusedVariables false

namespace Interning
variable {α : Type}

/-! ## places -/

theorem mem_take_iff {ks : List α} {n : Nat} {k : α} : k ∈ ks.take n ↔ ∃ i < n, ks[i]? = some k := by
  rw [List.mem_take_iff_getElem]
  constructor
  · rintro ⟨i, hi, rfl⟩
    exact ⟨i, by omega, List.getElem?_eq_getElem (by omega)⟩
  · rintro ⟨i, hi, hk⟩
    obtain ⟨hlt, rfl⟩ := List.getElem?_eq_some_iff.mp hk
    exact ⟨i, by omega, rfl⟩

/-- keys at two places differ -/
theorem place_inj {ks : List α} (h : ks.Nodup) {i j : Nat} {k : α} (hi : ks[i]? = some k)
    (hj : ks[j]? = some k) : i = j := by
  obtain ⟨hi, rfl⟩ := List.getElem?_eq_some_iff.mp hi
  obtain ⟨hj, he⟩ := List.getElem?_eq_some_iff.mp hj
  exact ((h.getElem_inj_iff).mp he).symm

/-! ## first occurrences -/

variable [BEq α] [LawfulBEq α]

theorem eraseDups_concat (ks : List α) (k : α) :
    (ks ++ [k]).eraseDups = if k ∈ ks then ks.eraseDups else ks.eraseDups ++ [k] := by
  rw [List.eraseDups_append]
  unfold List.removeAll
  split_ifs with h
  · simp [h]
  · have hone : [k].removeAll ks = [k] := by simp [List.removeAll, h]
    unfold List.removeAll at hone
    rw [hone, List.eraseDups_cons]
    rfl

theorem nodup_eraseDups (ks : List α) : ks.eraseDups.Nodup := by
  induction ks using List.reverseRecOn with
  | nil => exact List.nodup_nil
  | append_singleton ks k ih =>
    rw [eraseDups_concat]
    split_ifs with h
    · exact ih
    · refine List.nodup_append.mpr ⟨ih, List.nodup_singleton k, fun a ha b hb => ?_⟩
      rintro rfl
      rw [List.mem_singleton.mp hb] at ha
      exact h (List.mem_eraseDups.mp ha)

theorem eraseDups_of_nodup {ks : List α} (h : ks.Nodup) : ks.eraseDups = ks := by
  induction ks using List.reverseRecOn with
  | nil => rfl
  | append_singleton ks k ih =>
    obtain ⟨hks, _, hk⟩ := List.nodup_append.mp h
    rw [eraseDups_concat, if_neg fun hmem => hk k hmem k List.mem_cons_self rfl, ih hks]

theorem eraseDups_append_eq (ks ls : List α) : ∃ new, (ks ++ ls).eraseDups = ks.eraseDups ++ new :=
  ⟨_, List.eraseDups_append⟩

end Interning
