import Mathlib.Data.List.Induction
import Mathlib.Data.Nat.Basic
import Mathlib.Tactic.Common

/-!
# Checkpoint lists

A value that changes over time is kept as a list of checkpoints `⟨fromBlock, val⟩`, one for each
block in which it was written (`write`).

* `valueAt cps b`    the value at the end of block `b`: the last checkpoint not after `b`;
* `prior cps b`      the same, found the way contracts do: last, first, then binary search;
* `prior_eq`         the two agree on the lists that writing produces (`UpTo`);
* `valueAt_write`    writing in a later block leaves the value at `b` alone.
-/

set_option linter.unusedVariables false

structure Checkpoint (α : Type) where
  fromBlock : Nat
  val : α
  deriving DecidableEq, Repr

namespace Checkpoints
variable {α : Type}

/-- the value at the end of block `b`, `none` before the first checkpoint -/
def valueAt : List (Checkpoint α) → Nat → Option α
  | [], _ => none
  | cp :: cps, b => if cp.fromBlock ≤ b then (valueAt cps b).or (some cp.val) else none

/-- the value now -/
def latest (cps : List (Checkpoint α)) : Option α := cps.getLast?.map Checkpoint.val

/-- the block of the first checkpoint -/
def start (cps : List (Checkpoint α)) : Option Nat := cps.head?.map Checkpoint.fromBlock

/-- `lower` and `upper` close in on the last checkpoint not after `b` -/
def search (cps : List (Checkpoint α)) (b lower upper : Nat) : Option α :=
  if lower < upper then
    let center := upper - (upper - lower) / 2
    match cps[center]? with
    | none => none
    | some cp =>
      if cp.fromBlock = b then some cp.val
      else if cp.fromBlock < b then search cps b center upper
      else search cps b lower (center - 1)
  else (cps[lower]?).map Checkpoint.val
termination_by upper - lower

/-- the value at the end of block `b`: most recent checkpoint, then implicit default, then search -/
def prior (cps : List (Checkpoint α)) (b : Nat) : Option α :=
  match cps.getLast?, cps.head? with
  | some last, some first =>
    if last.fromBlock ≤ b then some last.val
    else if first.fromBlock > b then none
    else search cps b 0 (cps.length - 1)
  | _, _ => none

/-- overwrite the checkpoint of this block, or start one -/
def write (cps : List (Checkpoint α)) (b : Nat) (v : α) : List (Checkpoint α) :=
  match cps.getLast? with
  | some last => if last.fromBlock = b then cps.dropLast ++ [⟨b, v⟩] else cps ++ [⟨b, v⟩]
  | none => cps ++ [⟨b, v⟩]

/-- one checkpoint for each block, oldest first, none after `b` -/
structure UpTo (cps : List (Checkpoint α)) (b : Nat) : Prop where
  sorted : cps.Pairwise (fun x y => x.fromBlock < y.fromBlock)
  le : ∀ cp ∈ cps, cp.fromBlock ≤ b

theorem UpTo.nil (b : Nat) : UpTo ([] : List (Checkpoint α)) b :=
  ⟨List.Pairwise.nil, fun cp h => absurd h List.not_mem_nil⟩

theorem UpTo.mono {cps : List (Checkpoint α)} {b b' : Nat} (h : UpTo cps b) (hb : b ≤ b') :
    UpTo cps b' := ⟨h.sorted, fun cp hcp => Nat.le_trans (h.le cp hcp) hb⟩

/-! ## the value at a block -/

@[simp] theorem valueAt_nil (b : Nat) : valueAt ([] : List (Checkpoint α)) b = none := rfl

theorem valueAt_cons (cp : Checkpoint α) (cps : List (Checkpoint α)) (b : Nat) :
    valueAt (cp :: cps) b
      = if cp.fromBlock ≤ b then (valueAt cps b).or (some cp.val) else none := rfl

theorem valueAt_concat_of_lt (cps : List (Checkpoint α)) (cp : Checkpoint α) {b : Nat}
    (h : b < cp.fromBlock) : valueAt (cps ++ [cp]) b = valueAt cps b := by
  induction cps with
  | nil => simp [valueAt_cons, Nat.not_le.mpr h]
  | cons x cps ih => rw [List.cons_append, valueAt_cons, valueAt_cons, ih]

theorem valueAt_concat_of_le (cps : List (Checkpoint α)) (cp : Checkpoint α) {b : Nat}
    (hcps : ∀ x ∈ cps, x.fromBlock ≤ b) (h : cp.fromBlock ≤ b) :
    valueAt (cps ++ [cp]) b = some cp.val := by
  induction cps with
  | nil => simp [valueAt_cons, h]
  | cons x cps ih =>
    rw [List.cons_append, valueAt_cons, if_pos (hcps x List.mem_cons_self),
      ih (fun y hy => hcps y (List.mem_cons_of_mem _ hy))]
    rfl

theorem valueAt_eq_latest (cps : List (Checkpoint α)) {b : Nat}
    (h : ∀ x ∈ cps, x.fromBlock ≤ b) : valueAt cps b = latest cps := by
  induction cps using List.reverseRecOn with
  | nil => rfl
  | append_singleton cps cp _ =>
    rw [valueAt_concat_of_le cps cp (fun x hx => h x (List.mem_append_left _ hx))
      (h cp (by simp))]
    simp [latest]

theorem valueAt_mem {cps : List (Checkpoint α)} {b : Nat} {v : α} (h : valueAt cps b = some v) :
    ∃ cp ∈ cps, cp.val = v := by
  induction cps with
  | nil => cases h
  | cons x cps ih =>
    rw [valueAt_cons] at h
    split_ifs at h with hle
    rcases Option.or_eq_some_iff.mp h with h' | ⟨_, h'⟩
    · obtain ⟨cp, hcp, hv⟩ := ih h'
      exact ⟨cp, List.mem_cons_of_mem _ hcp, hv⟩
    · exact ⟨x, List.mem_cons_self, Option.some.inj h'⟩

/-- the checkpoint at position `i` is the one in force at `b` if it is not after `b` and all later
ones are -/
theorem valueAt_eq_getElem (cps : List (Checkpoint α)) (b : Nat)
    (hs : cps.Pairwise (fun x y => x.fromBlock < y.fromBlock)) :
    ∀ (i : Nat) (hi : i < cps.length), cps[i].fromBlock ≤ b →
      (∀ j (hj : j < cps.length), i < j → b < cps[j].fromBlock) →
      valueAt cps b = some cps[i].val := by
  induction cps with
  | nil => intro i hi; exact absurd hi (Nat.not_lt_zero _)
  | cons x cps ih =>
    obtain ⟨hx, hs'⟩ := List.pairwise_cons.mp hs
    intro i hi hle hgt
    cases i with
    | zero =>
      have hnone : valueAt cps b = none := by
        cases cps with
        | nil => rfl
        | cons y cps =>
          have hy : b < y.fromBlock := hgt 1 (by simp) (by omega)
          rw [valueAt_cons, if_neg (Nat.not_le.mpr hy)]
      have hle' : x.fromBlock ≤ b := hle
      rw [valueAt_cons, if_pos hle', hnone]
      rfl
    | succ i =>
      have hi' : i < cps.length := by simpa using hi
      have hle' : cps[i].fromBlock ≤ b := hle
      have hxb : x.fromBlock ≤ b := Nat.le_trans (Nat.le_of_lt (hx _ (List.getElem_mem hi'))) hle'
      have := ih hs' i hi' hle' (fun j hj hij => hgt (j + 1) (by simpa using hj) (by omega))
      rw [valueAt_cons, if_pos hxb, this]
      rfl

/-! ## the search finds it -/

theorem getElem_le_getElem {cps : List (Checkpoint α)}
    (hs : cps.Pairwise (fun x y => x.fromBlock < y.fromBlock)) {i j : Nat} (hj : j < cps.length)
    (hij : i < j) : cps[i].fromBlock < cps[j].fromBlock :=
  List.pairwise_iff_getElem.mp hs i j (by omega) hj hij

/-- the invariant of the loop: `lower` is not after `b`, everything beyond `upper` is -/
theorem search_eq (cps : List (Checkpoint α)) (b : Nat)
    (hs : cps.Pairwise (fun x y => x.fromBlock < y.fromBlock)) (lower upper : Nat) :
    ∀ (hu : upper < cps.length) (hlu : lower ≤ upper), cps[lower].fromBlock ≤ b →
      (∀ j (hj : j < cps.length), upper < j → b < cps[j].fromBlock) →
      search cps b lower upper = valueAt cps b := by
  fun_induction search cps b lower upper with
  | case1 lower upper h center hnone =>
    intro hu _ _ _
    have : center < cps.length := by omega
    rw [List.getElem?_eq_getElem this] at hnone
    cases hnone
  | case2 lower upper h center cp hcp heq =>
    intro hu _ _ hgt
    have hc : center < cps.length := by omega
    rw [List.getElem?_eq_getElem hc, Option.some.injEq] at hcp
    subst hcp
    refine (valueAt_eq_getElem cps b hs center hc (Nat.le_of_eq heq) (fun j hj hij => ?_)).symm
    rw [← heq]
    exact getElem_le_getElem hs hj hij
  | case3 lower upper h center cp hcp hne hlt ih =>
    intro hu _ _ hgt
    have hc : center < cps.length := by omega
    rw [List.getElem?_eq_getElem hc, Option.some.injEq] at hcp
    subst hcp
    exact ih hu (by omega) (Nat.le_of_lt hlt) hgt
  | case4 lower upper h center cp hcp hne hnlt ih =>
    intro hu _ hle hgt
    have hc : center < cps.length := by omega
    rw [List.getElem?_eq_getElem hc, Option.some.injEq] at hcp
    subst hcp
    refine ih (by omega) (by omega) hle (fun j hj hij => ?_)
    rcases Nat.lt_or_ge upper j with h' | h'
    · exact hgt j hj h'
    · rcases Nat.eq_or_lt_of_le (show center ≤ j by omega) with e | e
      · subst e; omega
      · have := getElem_le_getElem hs hj e
        omega
  | case5 lower upper h =>
    intro hu hlu hle hgt
    have e : lower = upper := by omega
    subst e
    rw [List.getElem?_eq_getElem hu, valueAt_eq_getElem cps b hs lower hu hle hgt]
    rfl

/-- **the contracts' lookup finds the value at the end of block `b`** -/
theorem prior_eq (cps : List (Checkpoint α)) (b : Nat)
    (hs : cps.Pairwise (fun x y => x.fromBlock < y.fromBlock)) : prior cps b = valueAt cps b := by
  cases cps with
  | nil => rfl
  | cons x cps =>
    have hlast : (x :: cps).getLast? = some ((x :: cps).get ⟨cps.length, by simp⟩) := by
      rw [List.getLast?_eq_getElem?, List.getElem?_eq_getElem (by simp)]
      rfl
    unfold prior
    rw [hlast]
    show (if _ ≤ b then _ else if x.fromBlock > b then _ else _) = _
    split_ifs with h1 h2
    · refine (valueAt_eq_getElem _ b hs cps.length (by simp) h1 (fun j hj hij => ?_)).symm
      simp at hj
      omega
    · rw [valueAt_cons, if_neg (Nat.not_le.mpr h2)]
    · refine search_eq _ b hs 0 _ (by simp) (Nat.zero_le _) (Nat.le_of_not_lt h2) (fun j hj hij => ?_)
      simp at hj hij
      omega

/-! ## writing -/

theorem write_cases (cps : List (Checkpoint α)) (b : Nat) (v : α) :
    (∃ u, cps = cps.dropLast ++ [⟨b, u⟩] ∧ write cps b v = cps.dropLast ++ [⟨b, v⟩]) ∨
      write cps b v = cps ++ [⟨b, v⟩] := by
  unfold write
  cases h : cps.getLast? with
  | none => exact .inr rfl
  | some last =>
    by_cases e : last.fromBlock = b
    · refine .inl ⟨last.val, ?_, by simp [e]⟩
      obtain ⟨ys, rfl⟩ := List.getLast?_eq_some_iff.mp h
      simp [← e]
    · exact .inr (by simp [e])

@[simp] theorem latest_write (cps : List (Checkpoint α)) (b : Nat) (v : α) :
    latest (write cps b v) = some v := by
  rcases write_cases cps b v with ⟨u, _, h⟩ | h <;> simp [h, latest]

theorem start_concat (cps : List (Checkpoint α)) (cp : Checkpoint α) :
    start (cps ++ [cp]) = some ((start cps).getD cp.fromBlock) := by
  cases cps <;> rfl

theorem start_write (cps : List (Checkpoint α)) (b : Nat) (v : α) :
    start (write cps b v) = some ((start cps).getD b) := by
  rcases write_cases cps b v with ⟨u, hc, hw⟩ | hw
  · rw [hw, start_concat]
    conv_rhs => rw [hc, start_concat]
    rfl
  · rw [hw, start_concat]

theorem start_le {cps : List (Checkpoint α)} {b n : Nat} (h : ∀ x ∈ cps, x.fromBlock ≤ b)
    (hn : start cps = some n) : n ≤ b := by
  cases cps with
  | nil => cases hn
  | cons cp cps => exact Option.some.inj hn ▸ h cp List.mem_cons_self

theorem latest_isSome (cps : List (Checkpoint α)) : (latest cps).isSome = (start cps).isSome := by
  cases cps with
  | nil => rfl
  | cons cp cps => simp [latest, start]

theorem valueAt_write (cps : List (Checkpoint α)) {b b' : Nat} (v : α) (h : b' < b) :
    valueAt (write cps b v) b' = valueAt cps b' := by
  rcases write_cases cps b v with ⟨u, hc, hw⟩ | hw
  · rw [hw, valueAt_concat_of_lt cps.dropLast ⟨b, v⟩ h]
    conv_rhs => rw [hc]
    rw [valueAt_concat_of_lt cps.dropLast ⟨b, u⟩ h]
  · rw [hw, valueAt_concat_of_lt cps ⟨b, v⟩ h]

theorem mem_write {cps : List (Checkpoint α)} {b : Nat} {v : α} {cp : Checkpoint α}
    (h : cp ∈ write cps b v) : cp ∈ cps ∨ cp = ⟨b, v⟩ := by
  rcases write_cases cps b v with ⟨u, _, hw⟩ | hw
  · rw [hw] at h
    rcases List.mem_append.mp h with h' | h'
    · exact .inl (List.dropLast_subset _ h')
    · exact .inr (List.mem_singleton.mp h')
  · rw [hw] at h
    rcases List.mem_append.mp h with h' | h'
    · exact .inl h'
    · exact .inr (List.mem_singleton.mp h')

theorem UpTo.write {cps : List (Checkpoint α)} {b : Nat} (h : UpTo cps b) (v : α) :
    UpTo (write cps b v) b := by
  refine ⟨?_, fun cp hcp => ?_⟩
  · rcases write_cases cps b v with ⟨u, hc, hw⟩ | hw
    · rw [hw]
      have hs := h.sorted
      rw [hc] at hs
      rw [List.pairwise_append] at hs ⊢
      exact ⟨hs.1, List.pairwise_singleton _ _, fun x hx y hy => by
        rw [List.mem_singleton.mp hy]
        exact hs.2.2 x hx ⟨b, u⟩ (by simp)⟩
    · -- the last checkpoint is of an earlier block, or the first case would apply
      by_cases hlt : ∀ x ∈ cps, x.fromBlock < b
      · rw [hw, List.pairwise_append]
        exact ⟨h.sorted, List.pairwise_singleton _ _, fun x hx y hy => by
          rw [List.mem_singleton.mp hy]
          exact hlt x hx⟩
      · exfalso
        push Not at hlt
        obtain ⟨x, hx, hbx⟩ := hlt
        obtain ⟨ys, last, rfl⟩ : ∃ ys last, cps = ys ++ [last] :=
          ⟨_, _, (List.dropLast_concat_getLast (List.ne_nil_of_mem hx)).symm⟩
        have hl : last.fromBlock = b := by
          have h1 := h.le last (by simp)
          rcases List.mem_append.mp hx with h' | h'
          · have := (List.pairwise_append.mp h.sorted).2.2 x h' last (by simp)
            omega
          · rw [List.mem_singleton.mp h'] at hbx
            omega
        simp [Checkpoints.write, hl] at hw
  · rcases mem_write hcp with h' | rfl
    · exact h.le cp h'
    · exact Nat.le_refl b

/-- one checkpoint for each block at most -/
theorem UpTo.length_le {cps : List (Checkpoint α)} {b : Nat} (h : UpTo cps b) :
    cps.length ≤ b + 1 := by
  have hindex : ∀ i (hi : i < cps.length), i ≤ cps[i].fromBlock := by
    intro i
    induction i with
    | zero => exact fun _ => Nat.zero_le _
    | succ i ih =>
      intro hi
      have h1 := ih (by omega)
      have h2 := List.pairwise_iff_getElem.mp h.sorted i (i + 1) (by omega) hi (Nat.lt_succ_self i)
      omega
  rcases Nat.eq_zero_or_pos cps.length with h0 | hpos
  · omega
  · have h1 := hindex (cps.length - 1) (by omega)
    have h2 := h.le cps[cps.length - 1] (List.getElem_mem _)
    omega

/-- what is written stays in force -/
theorem valueAt_write_of_le {cps : List (Checkpoint α)} {b b' : Nat} (h : UpTo cps b) (v : α)
    (hb : b ≤ b') : valueAt (write cps b v) b' = some v := by
  rw [valueAt_eq_latest _ ((h.write v).mono hb).le, latest_write]

end Checkpoints
