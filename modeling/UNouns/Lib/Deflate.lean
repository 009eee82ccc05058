import Mathlib.Tactic.Common
import UNouns.Lib.HuffmanCode

/-!
# The DEFLATE format

RFC 1951 as relations between the bits still to be read, the bytes written so far, and both of
them afterwards.

* `Items`    literals and copies, to the end of a block;
* `Lengths`  the code lengths in the header of a dynamic block, and `Header` around them;
* `Block`    a stored, fixed or dynamic block;
* `Blocks`   blocks up to the one marked as the last.

`Q` says which sets of distance lengths a header may have, `D` which words such a set stands for.
`Proper` and `HuffmanCode.IsWord` are those of the format: `Decompresses`.
-/

set_option linter.unusedVariables false

namespace Deflate

open Bits HuffmanCode

/-- which words stand for a symbol -/
abbrev Words := Nat → List Bool → Prop

def maxBits : Nat := 15

/-! ## literals and copies -/

/-- the length codes from 257 on: the least length and the number of extra bits -/
def lengthCodes : List (Nat × Nat) :=
  [(3, 0), (4, 0), (5, 0), (6, 0), (7, 0), (8, 0), (9, 0), (10, 0),
   (11, 1), (13, 1), (15, 1), (17, 1), (19, 2), (23, 2), (27, 2), (31, 2),
   (35, 3), (43, 3), (51, 3), (59, 3), (67, 4), (83, 4), (99, 4), (115, 4),
   (131, 5), (163, 5), (195, 5), (227, 5), (258, 0)]

/-- the distance codes: the least distance and the number of extra bits -/
def distanceCodes : List (Nat × Nat) :=
  [(1, 0), (2, 0), (3, 0), (4, 0), (5, 1), (7, 1), (9, 2), (13, 2), (17, 3), (25, 3),
   (33, 4), (49, 4), (65, 5), (97, 5), (129, 6), (193, 6), (257, 7), (385, 7), (513, 8), (769, 8),
   (1025, 9), (1537, 9), (2049, 10), (3073, 10), (4097, 11), (6145, 11), (8193, 12), (12289, 12),
   (16385, 13), (24577, 13)]

/-- `n` bytes more, each the one `distance` back; a copy may reach into itself -/
def copied (distance : Nat) : Nat → List UInt8 → List UInt8
  | 0, out => out
  | n + 1, out => copied distance n (out ++ [out.getD (out.length - distance) 0])

inductive Items (L D : Words) : List Bool → List UInt8 → List Bool → List UInt8 → Prop
  | stop {w rest out} : L 256 w → Items L D (w ++ rest) out rest out
  | literal {w rest rest' out out'} {x : UInt8} : L x.toNat w →
      Items L D rest (out ++ [x]) rest' out' → Items L D (w ++ rest) out rest' out'
  | copy {wl x wd y rest rest' out out'} {i j length distance : Nat} : L (257 + i) wl →
      lengthCodes[i]? = some (length, x.length) → D j wd →
      distanceCodes[j]? = some (distance, y.length) → distance + value y ≤ out.length →
      Items L D rest (copied (distance + value y) (length + value x) out) rest' out' →
      Items L D (wl ++ (x ++ (wd ++ (y ++ rest)))) out rest' out'

/-! ## the header of a dynamic block -/

/-- what a code length symbol with its extra bits appends to the lengths so far -/
inductive Appends (acc : List Nat) : Nat → List Bool → List Nat → Prop
  | length {l} : l < 16 → Appends acc l [] [l]
  | previous {l x} : acc.getLast? = some l → x.length = 2 →
      Appends acc 16 x (List.replicate (3 + value x) l)
  | zeros {x} : x.length = 3 → Appends acc 17 x (List.replicate (3 + value x) 0)
  | moreZeros {x} : x.length = 7 → Appends acc 18 x (List.replicate (11 + value x) 0)

/-- code lengths, up to `n` of them -/
inductive Lengths (C : Words) (n : Nat) : List Bool → List Nat → List Bool → List Nat → Prop
  | done {rest acc} : acc.length = n → Lengths C n rest acc rest acc
  | more {w x rest rest' acc acc' ls} {s : Nat} : C s w → Appends acc s x ls →
      acc.length + ls.length ≤ n → Lengths C n rest (acc ++ ls) rest' acc' →
      Lengths C n (w ++ (x ++ rest)) acc rest' acc'

/-- the order in which the lengths of the code length code come -/
def order : List Nat := [16, 17, 18, 0, 8, 7, 9, 6, 10, 5, 11, 4, 12, 3, 13, 2, 14, 1, 15]

/-- the lengths `vs` in that order, those that are left out zero -/
def Ordered (cs vs : List Nat) : Prop :=
  cs.length = 19 ∧ ∀ i s, order[i]? = some s → cs[s]? = some (vs.getD i 0)

/-- the literal/length and distance lengths `ls` and `ds` of a dynamic block -/
inductive Header (Q : List Nat → Prop) : List Bool → List Nat → List Nat → List Bool → Prop
  | mk {hlit hdist hclen : List Bool} {xs : List (List Bool)} {cs ls ds : List Nat}
      {rest rest' : List Bool} :
      hlit.length = 5 → hdist.length = 5 → hclen.length = 4 →
      ls.length = value hlit + 257 → ds.length = value hdist + 1 → xs.length = value hclen + 4 →
      ls.length ≤ 286 → ds.length ≤ 30 →
      (∀ x ∈ xs, x.length = 3) → Ordered cs (xs.map value) → Complete cs maxBits →
      Lengths (IsWord cs) (ls.length + ds.length) rest [] rest' (ls ++ ds) →
      Complete ls maxBits ∨ Single ls → Q ds →
      Header Q (hlit ++ (hdist ++ (hclen ++ (xs.flatten ++ rest)))) ls ds rest'

/-! ## blocks -/

def fixedLengths : List Nat :=
  List.replicate 144 8 ++ List.replicate 112 9 ++ List.replicate 24 7 ++ List.replicate 8 8

def fixedDistances : List Nat := List.replicate 32 5

variable (Q : List Nat → Prop) (D : List Nat → Words)

/-- a block from its type on, the first argument the distance lengths in its header.
The bits to be read end with a byte, so that `rest.length % 8` of them are left in this one. -/
inductive Block : List (List Nat) → List Bool → List UInt8 → List Bool → List UInt8 → Prop
  | stored {rest rest' out data} {lo hi : UInt8} : data.length = lo.toNat + 256 * hi.toNat →
      rest.drop (rest.length % 8) = ofBytes (lo :: hi :: ~~~lo :: ~~~hi :: data) ++ rest' →
      Block [] (false :: false :: rest) out rest' (out ++ data)
  | fixed {rest rest' out out'} :
      Items (IsWord fixedLengths) (IsWord fixedDistances) rest out rest' out' →
      Block [] (true :: false :: rest) out rest' out'
  | dynamic {rest rest1 rest' out out' ls ds} : Header Q rest ls ds rest1 →
      Items (IsWord ls) (D ds) rest1 out rest' out' →
      Block [ds] (false :: true :: rest) out rest' out'

inductive Blocks : List (List Nat) → List Bool → List UInt8 → List Bool → List UInt8 → Prop
  | last {rest rest' out out' sets} : Block Q D sets rest out rest' out' →
      Blocks sets (true :: rest) out rest' out'
  | more {rest rest1 rest' out out1 out' sets sets'} : Block Q D sets rest out rest1 out1 →
      Blocks sets' rest1 out1 rest' out' → Blocks (sets ++ sets') (false :: rest) out rest' out'

/-- the sets of distance lengths that the format has -/
def Proper (ds : List Nat) : Prop := Complete ds maxBits ∨ Single ds ∨ NoWord ds

instance (ds : List Nat) : Decidable (Proper ds) := inferInstanceAs (Decidable (_ ∨ _ ∨ _))

/-- `source` begins with a valid stream, and `out` is what that stream stands for -/
def Decompresses (source out : List UInt8) : Prop :=
  ∃ sets rest, Blocks Proper IsWord sets (ofBytes source) [] rest out

theorem Proper.kraft_le {ds : List Nat} (h : Proper ds) : kraft ds maxBits ≤ 2 ^ maxBits := by
  rcases h with h | h | h
  · exact Nat.le_of_eq h
  · exact h.kraft_le 14
  · rw [h.kraft_eq]
    exact Nat.zero_le _

theorem Proper.count_one_le {ds : List Nat} (h : Proper ds) : ds.count 1 ≤ 2 := by
  have h1 : 2 ^ 14 * kraft ds 1 ≤ kraft ds maxBits := two_pow_mul_kraft_le ds 1 14
  have h2 : kraft ds maxBits ≤ 2 ^ 15 := h.kraft_le
  have h3 : kraft ds 1 = ds.count 1 := by
    rw [kraft_succ, kraft_zero, number_of_pos ds Nat.one_pos]
    exact Nat.zero_add _
  omega

theorem Proper.not_flooded {ds : List Nat} (h : Proper ds) : ¬ Flooded ds := fun hf =>
  absurd h.count_one_le (Nat.not_le_of_lt hf.2)

/-! ## what every stream has -/

theorem Ordered.unique {cs cs' vs : List Nat} (h : Ordered cs vs) (h' : Ordered cs' vs) : cs = cs' := by
  have hall : ∀ s < 19, ∃ i < 19, order[i]? = some s := by decide
  apply List.ext_getElem?
  intro s
  by_cases hs : s < 19
  · obtain ⟨i, -, hi⟩ := hall s hs
    rw [h.2 i s hi, h'.2 i s hi]
  · rw [List.getElem?_eq_none (by rw [h.1]; omega), List.getElem?_eq_none (by rw [h'.1]; omega)]

variable {L L' D₁ D₂ : Words} {rest rest' : List Bool} {out out' : List UInt8}

theorem Ordered.le {cs vs : List Nat} (h : Ordered cs vs) {m : Nat} (hm : ∀ v ∈ vs, v ≤ m) :
    ∀ l ∈ cs, l ≤ m := by
  have hall : ∀ s < 19, ∃ i < 19, order[i]? = some s := by decide
  intro l hl
  obtain ⟨s, hs, rfl⟩ := List.getElem_of_mem hl
  obtain ⟨i, -, hi⟩ := hall s (h.1 ▸ hs)
  have hget := h.2 i s hi
  rw [List.getElem?_eq_getElem hs, Option.some.injEq] at hget
  rw [hget, List.getD_eq_getElem?_getD]
  cases hv : vs[i]? with
  | none => exact Nat.zero_le _
  | some v => exact hm v (List.mem_of_getElem? hv)

theorem Lengths.length {C : Words} {n : Nat} {rest rest' : List Bool} {acc acc' : List Nat}
    (h : Lengths C n rest acc rest' acc') : acc'.length = n := by
  induction h with
  | done h1 => exact h1
  | more h1 h2 h3 h4 ih => exact ih

theorem Lengths.suffix {C : Words} {n : Nat} {rest rest' : List Bool} {acc acc' : List Nat}
    (h : Lengths C n rest acc rest' acc') : rest' <:+ rest := by
  induction h with
  | done h1 => exact List.suffix_rfl
  | more h1 h2 h3 h4 ih => exact ih.trans ((List.suffix_append _ _).trans (List.suffix_append _ _))

theorem Lengths.exists_word {C : Words} {n : Nat} {rest rest' : List Bool} {acc' : List Nat}
    (h : Lengths C n rest [] rest' acc') (hn : n ≠ 0) : ∃ s w, C s w := by
  cases h with
  | done h1 => exact absurd h1.symm hn
  | more h1 h2 h3 h4 => exact ⟨_, _, h1⟩

theorem Lengths.lt {C : Words} {n : Nat} {rest rest' : List Bool} {acc acc' : List Nat}
    (h : Lengths C n rest acc rest' acc') : (∀ l ∈ acc, l < 16) → ∀ l ∈ acc', l < 16 := by
  induction h with
  | done h1 => exact id
  | more h1 h2 h3 h4 ih =>
    intro hacc
    refine ih (List.forall_mem_append.mpr ⟨hacc, ?_⟩)
    intro l hl
    cases h2 with
    | length h5 => rwa [List.mem_singleton.mp hl]
    | previous h5 h6 => exact hacc l (List.eq_of_mem_replicate hl ▸ List.mem_of_getLast? h5)
    | zeros h5 =>
      rw [List.eq_of_mem_replicate hl]
      omega
    | moreZeros h5 =>
      rw [List.eq_of_mem_replicate hl]
      omega

theorem copied_length (distance n : Nat) : ∀ out, (copied distance n out).length = out.length + n := by
  induction n with
  | zero => exact fun out => rfl
  | succ n ih =>
    intro out
    rw [copied, ih, List.length_append, List.length_singleton]
    omega

theorem Items.length_le (h : Items L D₁ rest out rest' out') : out.length ≤ out'.length := by
  induction h with
  | stop => exact Nat.le_refl _
  | literal h1 h2 ih =>
    rw [List.length_append] at ih
    omega
  | copy h1 h2 h3 h4 h5 h6 ih =>
    rw [copied_length] at ih
    omega

theorem Items.suffix (h : Items L D₁ rest out rest' out') : rest' <:+ rest := by
  induction h with
  | stop => exact List.suffix_append _ _
  | literal h1 h2 ih => exact ih.trans (List.suffix_append _ _)
  | @copy wl x wd y rest rest' out out' i j length distance h1 h2 h3 h4 h5 h6 ih =>
    refine ih.trans ⟨wl ++ (x ++ (wd ++ y)), ?_⟩
    simp only [List.append_assoc]

/-- a block ends with a word for 256 -/
theorem Items.exists_stop (h : Items L D₁ rest out rest' out') : ∃ w, L 256 w := by
  induction h with
  | stop h1 => exact ⟨_, h1⟩
  | literal h1 h2 ih => exact ih
  | copy h1 h2 h3 h4 h5 h6 ih => exact ih

theorem Items.imp (hL : ∀ s w, L s w → L' s w) (hD : ∀ s w, s < distanceCodes.length → D₁ s w → D₂ s w)
    (h : Items L D₁ rest out rest' out') : Items L' D₂ rest out rest' out' := by
  induction h with
  | stop h1 => exact .stop (hL _ _ h1)
  | literal h1 h2 ih => exact .literal (hL _ _ h1) ih
  | copy h1 h2 h3 h4 h5 h6 ih =>
    obtain ⟨hj, _⟩ := List.getElem?_eq_some_iff.mp h4
    exact .copy (hL _ _ h1) h2 (hD _ _ hj h3) h4 h5 ih

section
variable {Q Q' : List Nat → Prop} {D D' : List Nat → Words} {ls ds : List Nat} {sets : List (List Nat)}

theorem Header.imp (hQ : Q ds → Q' ds) (h : Header Q rest ls ds rest') : Header Q' rest ls ds rest' := by
  cases h with
  | mk h1 h2 h3 h4 h5 h6 h7 h8 h9 h10 h11 h12 h13 h14 =>
    exact .mk h1 h2 h3 h4 h5 h6 h7 h8 h9 h10 h11 h12 h13 (hQ h14)

theorem Header.proper (h : Header Q rest ls ds rest') : Q ds := by
  cases h with
  | mk h1 h2 h3 h4 h5 h6 h7 h8 h9 h10 h11 h12 h13 h14 => exact h14

theorem Header.suffix (h : Header Q rest ls ds rest') : rest' <:+ rest := by
  cases h with
  | @mk hlit hdist hclen xs _ _ _ rest _ h1 h2 h3 h4 h5 h6 h7 h8 h9 h10 h11 h12 h13 h14 =>
    refine h12.suffix.trans ⟨hlit ++ (hdist ++ (hclen ++ xs.flatten)), ?_⟩
    simp only [List.append_assoc]

theorem Block.imp (h : Block Q D sets rest out rest' out')
    (hQ : ∀ ds ∈ sets, Q ds → Q' ds ∧ ∀ s w, D ds s w → D' ds s w) : Block Q' D' sets rest out rest' out' := by
  cases h with
  | stored h1 h2 => exact .stored h1 h2
  | fixed h1 => exact .fixed h1
  | dynamic h1 h2 =>
    obtain ⟨hq, hd⟩ := hQ _ List.mem_cons_self h1.proper
    exact .dynamic (h1.imp fun _ => hq) (h2.imp (fun _ _ => id) fun s w _ => hd s w)

theorem Block.suffix (h : Block Q D sets rest out rest' out') : rest' <:+ rest := by
  cases h with
  | @stored rest _ _ data lo hi h1 h2 =>
    refine List.IsSuffix.trans ?_ (List.suffix_append [false, false] rest)
    exact List.IsSuffix.trans ⟨_, h2.symm⟩ (List.drop_suffix _ rest)
  | @fixed rest _ _ _ h1 => exact h1.suffix.trans (List.suffix_append [true, false] rest)
  | @dynamic rest _ _ _ _ _ _ h1 h2 =>
    exact h2.suffix.trans (h1.suffix.trans (List.suffix_append [false, true] rest))

theorem Block.length_le (h : Block Q D sets rest out rest' out') : out.length ≤ out'.length := by
  cases h with
  | stored h1 h2 =>
    rw [List.length_append]
    omega
  | fixed h1 => exact h1.length_le
  | dynamic h1 h2 => exact h2.length_le

theorem Blocks.imp (h : Blocks Q D sets rest out rest' out')
    (hQ : ∀ ds ∈ sets, Q ds → Q' ds ∧ ∀ s w, D ds s w → D' ds s w) : Blocks Q' D' sets rest out rest' out' := by
  induction h with
  | last h1 => exact .last (h1.imp hQ)
  | more h1 h2 ih =>
    rw [List.forall_mem_append] at hQ
    exact .more (h1.imp hQ.1) (ih hQ.2)

theorem Blocks.length_le (h : Blocks Q D sets rest out rest' out') : out.length ≤ out'.length := by
  induction h with
  | last h1 => exact h1.length_le
  | more h1 h2 ih => exact Nat.le_trans h1.length_le ih

theorem Block.forall_mem (h : Block Q D sets rest out rest' out') : ∀ ds ∈ sets, Q ds := by
  intro ds hds
  cases h with
  | stored h1 h2 => exact absurd hds List.not_mem_nil
  | fixed h1 => exact absurd hds List.not_mem_nil
  | dynamic h1 h2 => exact List.mem_singleton.mp hds ▸ h1.proper

theorem Blocks.forall_mem (h : Blocks Q D sets rest out rest' out') : ∀ ds ∈ sets, Q ds := by
  induction h with
  | last h1 => exact h1.forall_mem
  | more h1 h2 ih => exact List.forall_mem_append.mpr ⟨h1.forall_mem, ih⟩

end

end Deflate
