import UNouns.Lib.Checkpoints

/-!
# The lookup in a list of checkpoints, cell by cell

Contracts keep checkpoints in numbered cells and count the cells that they have written.

* `lookup cells n b`   the value at the end of block `b`, and the numbers of the cells that are read
                       to find it;
* `lookup_eq`          the value is that of `prior`;
* `lookup_lt`          only cells that have been written are read;
* `valueAt_writes`     what is found after any writes is the last one not after `b`.
-/

set_option linter.unusedVariables false

namespace Checkpoints
variable {α : Type}

/-! ## the cells -/

/-- the loop of the lookup: `lower` and `upper` are numbers of cells -/
def loop (cells : Nat → Checkpoint α) (b lower upper : Nat) : α × List Nat :=
  if lower < upper then
    let center := upper - (upper - lower) / 2
    if (cells center).fromBlock = b then ((cells center).val, [center])
    else if (cells center).fromBlock < b then
      let (v, is) := loop cells b center upper
      (v, center :: is)
    else
      let (v, is) := loop cells b lower (center - 1)
      (v, center :: is)
  else ((cells lower).val, [lower])
termination_by upper - lower

/-- most recent cell, then first cell, then the loop -/
def lookup (cells : Nat → Checkpoint α) (n b : Nat) : Option α × List Nat :=
  if n = 0 then (none, [])
  else if (cells (n - 1)).fromBlock ≤ b then (some (cells (n - 1)).val, [n - 1])
  else if (cells 0).fromBlock > b then (none, [n - 1, 0])
  else
    let (v, is) := loop cells b 0 (n - 1)
    (some v, (n - 1) :: 0 :: is)

variable {cells : Nat → Checkpoint α} {cps : List (Checkpoint α)} {n b : Nat}

theorem loop_lt (lower upper : Nat) : lower ≤ upper → upper < n →
    ∀ i ∈ (loop cells b lower upper).2, i < n := by
  fun_induction loop cells b lower upper with
  | case1 lower upper h center heq =>
    intro hle hu i hi
    rw [List.mem_singleton.mp hi]
    omega
  | case2 lower upper h center hne hlt v is hrec ih =>
    intro hle hu i hi
    rw [hrec] at ih
    rcases List.mem_cons.mp hi with rfl | hi
    · omega
    · exact ih (by omega) hu i hi
  | case3 lower upper h center hne hge v is hrec ih =>
    intro hle hu i hi
    rw [hrec] at ih
    rcases List.mem_cons.mp hi with rfl | hi
    · omega
    · exact ih (by omega) (by omega) i hi
  | case4 lower upper h =>
    intro hle hu i hi
    rw [List.mem_singleton.mp hi]
    omega

/-- **The lookup reads only cells that have been written.** -/
theorem lookup_lt (cells : Nat → Checkpoint α) (n b : Nat) : ∀ i ∈ (lookup cells n b).2, i < n := by
  intro i hi
  unfold lookup at hi
  split_ifs at hi with h0 h1 h2
  · exact absurd hi List.not_mem_nil
  · rw [List.mem_singleton.mp hi]
    omega
  · rcases List.mem_cons.mp hi with rfl | hi
    · omega
    · rw [List.mem_singleton.mp hi]
      omega
  · rcases List.mem_cons.mp hi with rfl | hi
    · omega
    · rcases List.mem_cons.mp hi with rfl | hi
      · omega
      · exact loop_lt 0 (n - 1) (Nat.zero_le _) (by omega) i hi

theorem loop_eq (hcells : ∀ i < cps.length, cps[i]? = some (cells i)) (lower upper : Nat) :
    lower ≤ upper → upper < cps.length →
      search cps b lower upper = some (loop cells b lower upper).1 := by
  fun_induction loop cells b lower upper with
  | case1 lower upper h center heq =>
    intro hle hu
    rw [search, if_pos h]
    simp only [hcells _ (show upper - (upper - lower) / 2 < cps.length by omega)]
    exact if_pos heq
  | case2 lower upper h center hne hlt v is hrec ih =>
    intro hle hu
    rw [hrec] at ih
    rw [search, if_pos h]
    simp only [hcells _ (show upper - (upper - lower) / 2 < cps.length by omega)]
    exact (if_neg hne).trans ((if_pos hlt).trans (ih (by omega) hu))
  | case3 lower upper h center hne hge v is hrec ih =>
    intro hle hu
    rw [hrec] at ih
    rw [search, if_pos h]
    simp only [hcells _ (show upper - (upper - lower) / 2 < cps.length by omega)]
    exact (if_neg hne).trans ((if_neg hge).trans (ih (by omega) (by omega)))
  | case4 lower upper h =>
    intro hle hu
    rw [search, if_neg h, hcells lower (by omega)]
    rfl

/-- what the cells hold is what the list holds -/
theorem lookup_eq (hcells : ∀ i < cps.length, cps[i]? = some (cells i)) (b : Nat) :
    (lookup cells cps.length b).1 = prior cps b := by
  cases cps with
  | nil => rfl
  | cons x xs =>
    have hlast : (x :: xs).getLast? = some (cells xs.length) := by
      rw [List.getLast?_eq_getElem?]
      exact hcells xs.length (Nat.lt_succ_self _)
    have hfirst : x = cells 0 := Option.some.inj (hcells 0 (Nat.succ_pos _))
    unfold lookup prior
    rw [hlast, if_neg (show (x :: xs).length ≠ 0 from Nat.succ_ne_zero _)]
    show _ = if (cells xs.length).fromBlock ≤ b then some (cells xs.length).val
      else if x.fromBlock > b then none else search (x :: xs) b 0 xs.length
    rw [loop_eq hcells 0 xs.length (Nat.zero_le _) (Nat.lt_succ_self _), hfirst]
    show (if (cells xs.length).fromBlock ≤ b then _ else _ : Option α × List Nat).1 = _
    split_ifs <;> rfl

/-! ## histories of writes -/

/-- the checkpoints after the writes `ws`, each with its block -/
def writes (ws : List (Checkpoint α)) : List (Checkpoint α) :=
  ws.foldl (fun cps w => write cps w.fromBlock w.val) []

/-- the last write not after block `b` -/
def lastWrite (ws : List (Checkpoint α)) (b : Nat) : Option α :=
  (ws.filter fun w => w.fromBlock ≤ b).getLast?.map Checkpoint.val

theorem writes_concat (ws : List (Checkpoint α)) (w : Checkpoint α) :
    writes (ws ++ [w]) = write (writes ws) w.fromBlock w.val := by
  unfold writes
  rw [List.foldl_append]
  rfl

theorem lastWrite_concat_of_le (ws : List (Checkpoint α)) {w : Checkpoint α} (h : w.fromBlock ≤ b) :
    lastWrite (ws ++ [w]) b = some w.val := by
  simp [lastWrite, List.filter_append, h]

theorem lastWrite_concat_of_lt (ws : List (Checkpoint α)) {w : Checkpoint α} (h : b < w.fromBlock) :
    lastWrite (ws ++ [w]) b = lastWrite ws b := by
  simp [lastWrite, List.filter_append, Nat.not_le.mpr h]

/-- one after the other, in blocks that do not decrease -/
def InOrder (ws : List (Checkpoint α)) : Prop := ws.Pairwise fun x y => x.fromBlock ≤ y.fromBlock

theorem writes_upTo (ws : List (Checkpoint α)) : InOrder ws → ∀ m, (∀ w ∈ ws, w.fromBlock ≤ m) →
    UpTo (writes ws) m := by
  induction ws using List.reverseRecOn with
  | nil => exact fun _ m _ => UpTo.nil m
  | append_singleton ws w ih =>
    intro hord m hm
    obtain ⟨h1, -, h2⟩ := List.pairwise_append.mp hord
    rw [writes_concat]
    exact ((ih h1 _ fun x hx => h2 x hx w (List.mem_singleton_self w)).write w.val).mono
      (hm w (List.mem_append_right _ (List.mem_singleton_self w)))

/-- **What is found is the last write not after the block.** -/
theorem valueAt_writes (ws : List (Checkpoint α)) (b : Nat) : InOrder ws →
    valueAt (writes ws) b = lastWrite ws b := by
  induction ws using List.reverseRecOn with
  | nil => exact fun _ => rfl
  | append_singleton ws w ih =>
    intro hord
    obtain ⟨h1, -, h2⟩ := List.pairwise_append.mp hord
    have hup : UpTo (writes ws) w.fromBlock :=
      writes_upTo ws h1 _ fun x hx => h2 x hx w (List.mem_singleton_self w)
    rw [writes_concat]
    by_cases hb : w.fromBlock ≤ b
    · rw [lastWrite_concat_of_le ws hb, valueAt_write_of_le hup w.val hb]
    · have hlt : b < w.fromBlock := Nat.lt_of_not_le hb
      rw [lastWrite_concat_of_lt ws hlt, valueAt_write _ w.val hlt, ih h1]

end Checkpoints
