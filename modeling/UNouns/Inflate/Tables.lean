import UNouns.Inflate.Cursor

/-!
# Inflate: decoding tables

* `Table`            the counts and symbols of a set of lengths, `construct_eq` builds them;
* `Table.decodes`    `_decode` then reads the words of the canonical code;
* `decodes_flooded`  and one bit where more than two words have one.
-/

set_option linter.unusedVariables false

namespace UNouns.Inflate

open Bits HuffmanCode

/-- what a table must have for the lengths `ls` -/
structure Table (h : Huffman) (ls : List Nat) : Prop where
  le : ∀ l ∈ ls, l ≤ MAXBITS
  counts : ∀ l, l ≤ MAXBITS → h.counts[l]? = some (ls.count l)
  symbols : ∀ s l, ls[s]? = some l → 0 < l → h.symbols[offset ls l + rank ls s l]? = some s

/-- `_decode` reads the words `W` -/
structure Decodes (h : Huffman) (W : Deflate.Words) : Prop where
  ok : ∀ {c : Setting} {rest : List Bool} {out : Bytes} {v : Nat} {s' : State}, c.Left rest →
    (decode h (c.at rest out) = .ok v s' ↔
      ∃ w rest', rest = w ++ rest' ∧ W v w ∧ s' = c.at rest' out)
  ne_nil : ∀ v w, W v w → w ≠ []

variable {c : Setting} {rest : List Bool} {out : Bytes} {s' : State} {h : Huffman} {ls : List Nat} {v : Nat}

/-! ## decoding -/

/-- the first word with as many bits as have been read, if they are one -/
theorem Table.symbols_eq (T : Table h ls) {u : List Bool} (hu : u ≠ []) (hlen : u.length ≤ MAXBITS)
    (h1 : first ls u.length ≤ code u) (h2 : code u < kraft ls u.length) :
    h.symbols[offset ls u.length + (code u - first ls u.length)]? = some v ↔ IsWord ls v u := by
  have hpos := List.length_pos_of_ne_nil hu
  rw [kraft_eq, number_of_pos ls hpos] at h2
  obtain ⟨s, hs, hrank⟩ := exists_rank ls (show code u - first ls u.length < ls.count u.length by omega)
  have hget := T.symbols s _ hs hpos
  rw [hrank] at hget
  rw [hget, Option.some.injEq]
  constructor
  · rintro rfl
    exact ⟨hs, hu, by omega⟩
  · intro hw
    have hv := T.symbols v _ hw.length hpos
    rw [show rank ls v u.length = code u - first ls u.length by have := hw.code; omega, hget] at hv
    exact Option.some.inj hv

theorem exists_cons_append {b : Bool} {P : List Bool → List Bool → Prop} :
    (∃ w rest', b :: rest = w ++ rest' ∧ w ≠ [] ∧ P w rest') ↔
      ∃ w rest', rest = w ++ rest' ∧ P (b :: w) rest' := by
  constructor
  · rintro ⟨w, rest', heq, hw, hP⟩
    cases w with
    | nil => exact absurd rfl hw
    | cons x w =>
      obtain ⟨rfl, htail⟩ := List.cons.inj heq
      exact ⟨w, rest', htail, hP⟩
  · rintro ⟨w, rest', rfl, hP⟩
    exact ⟨b :: w, rest', rfl, List.cons_ne_nil _ _, hP⟩

/-- a word that goes on after the bits `u` -/
theorem kraft_le_code_of_isWord {u w : List Bool} (hw : w ≠ []) (h : IsWord ls v (u ++ w)) :
    kraft ls u.length ≤ code u :=
  kraft_le_code ls hw (h.code ▸ Nat.le_add_right _ _)

/-- a word that ends here -/
theorem code_lt_kraft_of_isWord {u : List Bool} (h : IsWord ls v u) : code u < kraft ls u.length := by
  have hrank := rank_lt ls h.length
  rw [kraft_eq, number_of_pos ls (List.length_pos_of_ne_nil h.ne_nil), h.code]
  omega

variable (out) (v) (s') in
/-- the bits `u` have been read, and no word begins them -/
theorem Table.decodeFrom_ok (T : Table h ls) (k : Nat) : ∀ u rest, u.length + k = MAXBITS →
    kraft ls u.length ≤ code u → c.Left rest →
    (decodeFrom h (List.range' (u.length + 1) k) (code u <<< 1) (first ls (u.length + 1))
        (offset ls (u.length + 1)) (c.at rest out) = .ok v s' ↔
      ∃ w rest', rest = w ++ rest' ∧ w ≠ [] ∧ IsWord ls v (u ++ w) ∧ s' = c.at rest' out) := by
  induction k with
  | zero =>
    intro u rest hlen hu hleft
    refine ⟨fun h' => (nomatch h'), ?_⟩
    rintro ⟨w, rest', -, hw, hword, -⟩
    have h1 := T.le _ (List.mem_of_getElem? hword.length)
    have h2 := List.length_pos_of_ne_nil hw
    rw [List.length_append] at h1
    omega
  | succ k ih =>
    intro u rest hlen hu hleft
    rw [List.range'_succ]
    cases rest with
    | nil =>
      obtain ⟨s, hs⟩ := bits_short out hleft (Nat.succ_pos 0)
      rw [decodeFrom, bind_of_err hs]
      refine ⟨fun h' => (nomatch h'), ?_⟩
      rintro ⟨w, rest', hnil, hw, -, -⟩
      exact absurd (List.append_eq_nil_iff.mp hnil.symm).1 hw
    | cons b rest =>
      have hone : (u ++ [b]).length = u.length + 1 := by rw [List.length_append, List.length_singleton]
      have hcount : fetch h.counts (u.length + 1) (c.at rest out)
          = .ok (ls.count (u.length + 1)) (c.at rest out) :=
        fetch_ok.mpr ⟨T.counts _ (by omega), rfl⟩
      have hnumber : number ls (u.length + 1) = ls.count (u.length + 1) :=
        number_of_pos ls (Nat.succ_pos u.length)
      have hkraft : first ls (u.length + 1) + ls.count (u.length + 1) = kraft ls (u.length + 1) := by
        rw [kraft_eq, hnumber]
      have hfirst : first ls (u.length + 1) ≤ code (u ++ [b]) := by
        rw [first_succ, code_append]
        show 2 * kraft ls u.length ≤ 2 * code u + code [b]
        omega
      have hstep : decodeFrom h ((u.length + 1) :: List.range' (u.length + 1 + 1) k) (code u <<< 1)
            (first ls (u.length + 1)) (offset ls (u.length + 1)) (c.at (b :: rest) out)
          = (if code (u ++ [b]) < kraft ls (u.length + 1) then
              fetch h.symbols (offset ls (u.length + 1) + (code (u ++ [b]) - first ls (u.length + 1)))
            else decodeFrom h (List.range' (u.length + 1 + 1) k) (code (u ++ [b]) <<< 1)
              (kraft ls (u.length + 1) <<< 1) (offset ls (u.length + 1) + ls.count (u.length + 1)))
            (c.at rest out) := by
        rw [decodeFrom, bind_of_ok (bits_one hleft)]
        simp only [code_or]
        rw [bind_of_ok hcount, hkraft]
      rw [hstep, exists_cons_append]
      show _ ↔ ∃ w rest', rest = w ++ rest' ∧ IsWord ls v (u ++ ([b] ++ w)) ∧ s' = c.at rest' out
      simp only [← List.append_assoc]
      rw [← hone] at hfirst ⊢
      by_cases hlt : code (u ++ [b]) < kraft ls (u ++ [b]).length
      · rw [if_pos hlt, fetch_ok, T.symbols_eq (by simp) (by omega) hfirst hlt]
        constructor
        · rintro ⟨hword, rfl⟩
          exact ⟨[], rest, rfl, by rwa [List.append_nil], rfl⟩
        · rintro ⟨w, rest', rfl, hword, rfl⟩
          cases w with
          | nil => exact ⟨by rwa [List.append_nil] at hword, rfl⟩
          | cons x w =>
            have := kraft_le_code_of_isWord (List.cons_ne_nil x w) hword
            omega
      · have hge := Nat.le_of_not_lt hlt
        have hnext : offset ls (u.length + 1) + ls.count (u.length + 1) = offset ls ((u ++ [b]).length + 1) := by
          rw [offset_succ ls (u ++ [b]).length, hone, ← hnumber]
        rw [if_neg hlt, hone, hnext, ← hone, show kraft ls (u ++ [b]).length <<< 1
          = first ls ((u ++ [b]).length + 1) by rw [first_succ, Nat.shiftLeft_eq, Nat.mul_comm],
          ih (u ++ [b]) rest (by omega) hge (hleft.of_append (w := [b]))]
        constructor
        · rintro ⟨w, rest', heq, hw, hword, hs⟩
          exact ⟨w, rest', heq, hword, hs⟩
        · rintro ⟨w, rest', heq, hword, hs⟩
          refine ⟨w, rest', heq, ?_, hword, hs⟩
          rintro rfl
          have := code_lt_kraft_of_isWord (by rwa [List.append_nil] at hword)
          omega

/-- **`_decode`.** -/
theorem Table.decodes (T : Table h ls) : Decodes h (IsWord ls) where
  ok := by
    intro c rest out v s' hleft
    have hd := T.decodeFrom_ok out s' v MAXBITS [] rest rfl
      (Nat.le_of_eq (kraft_zero ls)) hleft
    rw [List.length_nil, offset_one] at hd
    refine Iff.trans hd ?_
    constructor
    · rintro ⟨w, rest', heq, -, hword, hs⟩
      exact ⟨w, rest', heq, hword, hs⟩
    · rintro ⟨w, rest', heq, hword, hs⟩
      exact ⟨w, rest', heq, hword.ne_nil, hword, hs⟩
  ne_nil := fun v w hw => hw.ne_nil

/-- either bit is a word, where more than two words have one bit -/
theorem decodes_flooded {n : Nat} (hc : h.counts[1]? = some n) (hn : 2 ≤ n) :
    Decodes h fun v w => ∃ b : Bool, w = [b] ∧ h.symbols[b.toNat]? = some v where
  ok := by
    intro c rest out v s' hleft
    show decodeFrom h (1 :: List.range' 2 14) 0 0 0 (c.at rest out) = _ ↔ _
    cases rest with
    | nil =>
      obtain ⟨s, hs⟩ := bits_short out hleft (Nat.succ_pos 0)
      rw [decodeFrom, bind_of_err hs]
      refine ⟨fun h' => (nomatch h'), ?_⟩
      rintro ⟨_, rest', hnil, ⟨b, rfl, -⟩, -⟩
      cases hnil
    | cons b rest =>
      have hlt := Bool.toNat_lt b
      rw [decodeFrom, bind_of_ok (bits_one hleft), bind_of_ok (fetch_ok.mpr ⟨hc, rfl⟩)]
      simp only [Nat.zero_or, Nat.zero_add, Nat.sub_zero]
      rw [if_pos (by omega), fetch_ok]
      constructor
      · rintro ⟨hs, rfl⟩
        exact ⟨[b], rest, rfl, ⟨b, rfl, hs⟩, rfl⟩
      · rintro ⟨_, rest', heq, ⟨b', rfl, hs⟩, rfl⟩
        cases heq
        exact ⟨hs, rfl⟩
  ne_nil := by
    rintro v _ ⟨b, rfl, -⟩
    exact List.cons_ne_nil _ _

end UNouns.Inflate
