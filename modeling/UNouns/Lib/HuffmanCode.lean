import Mathlib.Algebra.BigOperators.Group.List.Basic
import Mathlib.Tactic.Common
import Mathlib.Tactic.Ring
import UNouns.Lib.Bits

/-!
# Canonical Huffman codes

A code is given by the list of its lengths, one for each symbol, zero for a symbol without one.

* `first`, `IsWord`   the word of a symbol: the first code of its length, plus its rank;
* `kraft`             how much of the words of a length the code takes up;
* `kraft_le_code`     a decoder that reads bit after bit does not stop before the word's end;
* `exists_rank`       and then finds the symbol by the rank;
* `isWord_word`       each symbol with a length has a word;
* `offset`            the place of a length among all the words, shorter ones first.
-/

set_option linter.unusedVariables false

namespace HuffmanCode

variable (ls : List Nat)

/-! ## words -/

/-- the number of words with `l` bits -/
def number (l : Nat) : Nat := if l = 0 then 0 else ls.count l

/-- the first word of `l` bits -/
def first : Nat → Nat
  | 0 => 0
  | l + 1 => 2 * (first l + number ls l)

/-- the symbols before `s` with words of `l` bits -/
def rank (s l : Nat) : Nat := (ls.take s).count l

/-- `w` is the word of the symbol `s` -/
structure IsWord (s : Nat) (w : List Bool) : Prop where
  length : ls[s]? = some w.length
  ne_nil : w ≠ []
  code : Bits.code w = first ls w.length + rank ls s w.length

/-! ## the Kraft sum -/

/-- how many words of `m` bits begin with a word of the code -/
def kraft (m : Nat) : Nat := (ls.map fun l => if 0 < l ∧ l ≤ m then 2 ^ (m - l) else 0).sum

/-- the words of the code cover those of `m` bits, without overlap -/
def Complete (m : Nat) : Prop := kraft ls m = 2 ^ m

/-- no word has more than one bit -/
def Short : Prop := ∀ l ∈ ls, l ≤ 1

/-- one word, of one bit -/
def Single : Prop := Short ls ∧ ls.count 1 = 1

def NoWord : Prop := ∀ l ∈ ls, l = 0

/-- three or more words, all of one bit -/
def Flooded : Prop := Short ls ∧ 3 ≤ ls.count 1

instance (m : Nat) : Decidable (Complete ls m) := inferInstanceAs (Decidable (_ = _))
instance : Decidable (Short ls) := inferInstanceAs (Decidable (∀ l ∈ ls, l ≤ 1))
instance : Decidable (Single ls) := inferInstanceAs (Decidable (_ ∧ _))
instance : Decidable (NoWord ls) := inferInstanceAs (Decidable (∀ l ∈ ls, l = 0))
instance : Decidable (Flooded ls) := inferInstanceAs (Decidable (_ ∧ _))

theorem number_of_pos {l : Nat} (hl : 0 < l) : number ls l = ls.count l := if_neg (by omega)

theorem number_cons (l m : Nat) :
    number (l :: ls) (m + 1) = (if l = m + 1 then 1 else 0) + number ls (m + 1) := by
  unfold number
  rw [if_neg (Nat.succ_ne_zero m), if_neg (Nat.succ_ne_zero m), List.count_cons, Nat.add_comm]
  by_cases h : l = m + 1 <;> simp [h]

theorem kraft_succ (m : Nat) : kraft ls (m + 1) = 2 * kraft ls m + number ls (m + 1) := by
  induction ls with
  | nil => rfl
  | cons l ls ih =>
    rw [number_cons]
    unfold kraft at ih ⊢
    rw [List.map_cons, List.map_cons, List.sum_cons, List.sum_cons, ih]
    rcases Nat.lt_trichotomy l (m + 1) with h | h | h
    · by_cases h0 : 0 < l
      · have hp : 2 ^ (m + 1 - l) = 2 * 2 ^ (m - l) := by
          rw [← Nat.pow_succ']
          congr 1
          omega
        rw [if_pos ⟨h0, by omega⟩, if_pos ⟨h0, by omega⟩, if_neg (by omega), hp]
        ring
      · rw [if_neg (by omega), if_neg (by omega), if_neg (by omega)]
        ring
    · rw [if_pos ⟨by omega, by omega⟩, if_neg (by omega), if_pos h, h, Nat.sub_self, Nat.pow_zero]
      ring
    · rw [if_neg (by omega), if_neg (by omega), if_neg (by omega)]
      ring

theorem kraft_eq (m : Nat) : kraft ls m = first ls m + number ls m := by
  induction m with
  | zero =>
    refine List.sum_eq_zero fun x hx => ?_
    obtain ⟨l, hl, rfl⟩ := List.mem_map.mp hx
    exact if_neg (by omega)
  | succ m ih => rw [kraft_succ, ih, first]

theorem kraft_zero : kraft ls 0 = 0 := by
  rw [kraft_eq]
  rfl

theorem first_succ (m : Nat) : first ls (m + 1) = 2 * kraft ls m := by
  rw [kraft_eq]
  rfl

theorem two_pow_mul_kraft_le (l k : Nat) : 2 ^ k * kraft ls l ≤ kraft ls (l + k) := by
  induction k with
  | zero => rw [Nat.pow_zero, Nat.one_mul, Nat.add_zero]
  | succ k ih =>
    calc 2 ^ (k + 1) * kraft ls l = 2 * (2 ^ k * kraft ls l) := by ring
      _ ≤ 2 * kraft ls (l + k) := Nat.mul_le_mul_left 2 ih
      _ ≤ kraft ls (l + k + 1) := by
        rw [kraft_succ]
        exact Nat.le_add_right _ _

/-- **A word has no shorter word in front.** -/
theorem kraft_le_code {u v : List Bool} (hv : v ≠ [])
    (h : first ls (u ++ v).length ≤ Bits.code (u ++ v)) : kraft ls u.length ≤ Bits.code u := by
  obtain ⟨k, hk⟩ : ∃ k, v.length = k + 1 := ⟨v.length - 1, by
    have := List.length_pos_of_ne_nil hv
    omega⟩
  have hlt := Bits.code_lt v
  have h1 : 2 ^ v.length * kraft ls u.length ≤ first ls (u ++ v).length := by
    rw [List.length_append, hk, ← Nat.add_assoc, first_succ, Nat.pow_succ']
    have := two_pow_mul_kraft_le ls u.length k
    calc 2 * 2 ^ k * kraft ls u.length = 2 * (2 ^ k * kraft ls u.length) := by ring
      _ ≤ 2 * kraft ls (u.length + k) := Nat.mul_le_mul_left 2 this
  rw [Bits.code_append] at h
  have h2 : 2 ^ v.length * kraft ls u.length < 2 ^ v.length * (Bits.code u + 1) := by
    rw [Nat.mul_add, Nat.mul_one]
    omega
  exact Nat.lt_succ_iff.mp (Nat.lt_of_mul_lt_mul_left h2)

/-! ## ranks -/

theorem rank_succ {s l : Nat} (h : ls[s]? = some l) : rank ls (s + 1) l = rank ls s l + 1 := by
  unfold rank
  rw [List.take_add_one, h, List.count_append]
  simp

theorem rank_succ_of_ne {s k l : Nat} (h : ls[s]? = some k) (hne : k ≠ l) :
    rank ls (s + 1) l = rank ls s l := by
  unfold rank
  rw [List.take_add_one, h, List.count_append]
  simp [hne]

theorem rank_mono (l : Nat) {s t : Nat} (h : s ≤ t) : rank ls s l ≤ rank ls t l :=
  (List.take_sublist_take_left h).count_le l

theorem rank_lt {s l : Nat} (h : ls[s]? = some l) : rank ls s l < ls.count l := by
  have h1 := rank_succ ls h
  have h2 : rank ls (s + 1) l ≤ ls.count l := (List.take_sublist (s + 1) ls).count_le l
  omega

/-- every rank below the number of words is that of a symbol -/
theorem exists_rank {l : Nat} : ∀ {r : Nat}, r < ls.count l → ∃ s, ls[s]? = some l ∧ rank ls s l = r := by
  induction ls with
  | nil =>
    intro r hr
    exact absurd hr (Nat.not_lt_zero r)
  | cons k ls ih =>
    intro r hr
    by_cases hk : k = l
    · cases r with
      | zero => exact ⟨0, by rw [hk]; rfl, rfl⟩
      | succ r =>
        rw [hk, List.count_cons_self] at hr
        obtain ⟨s, hs, hrank⟩ := ih (Nat.lt_of_succ_lt_succ hr)
        refine ⟨s + 1, hs, ?_⟩
        show ((k :: ls).take (s + 1)).count l = r + 1
        rw [List.take_succ_cons, hk, List.count_cons_self, ← hrank]
        rfl
    · rw [List.count_cons_of_ne hk] at hr
      obtain ⟨s, hs, hrank⟩ := ih hr
      refine ⟨s + 1, hs, ?_⟩
      show ((k :: ls).take (s + 1)).count l = r
      rw [List.take_succ_cons, List.count_cons_of_ne hk, ← hrank]
      rfl

/-! ## the words -/

/-- the canonical word of a symbol, the highest bit first -/
def word (s : Nat) : List Bool :=
  (Bits.ofNat (ls.getD s 0) (first ls (ls.getD s 0) + rank ls s (ls.getD s 0))).reverse

theorem kraft_le_of_le {l m : Nat} (h : l ≤ m) (hm : kraft ls m ≤ 2 ^ m) : kraft ls l ≤ 2 ^ l := by
  obtain ⟨k, rfl⟩ := Nat.exists_eq_add_of_le h
  have h1 := two_pow_mul_kraft_le ls l k
  rw [Nat.pow_add, Nat.mul_comm (2 ^ l)] at hm
  exact Nat.le_of_mul_le_mul_left (Nat.le_trans h1 hm) (Nat.two_pow_pos k)

/-- **Every symbol with a length has a word**, unless the set is over-subscribed. -/
theorem isWord_word {s l : Nat} (hs : ls[s]? = some l) (hl : 0 < l) (hk : kraft ls l ≤ 2 ^ l) :
    (word ls s).length = l ∧ IsWord ls s (word ls s) := by
  have hgetD : ls.getD s 0 = l := by rw [List.getD_eq_getElem?_getD, hs, Option.getD_some]
  have hlength : (word ls s).length = l := by
    unfold word
    rw [hgetD, List.length_reverse, Bits.ofNat_length]
  refine ⟨hlength, hlength.symm ▸ hs, List.ne_nil_of_length_pos (hlength.symm ▸ hl), ?_⟩
  have hlt : first ls l + rank ls s l < 2 ^ l := by
    have h1 := rank_lt ls hs
    rw [kraft_eq, number_of_pos ls hl] at hk
    omega
  rw [hlength]
  unfold Bits.code word
  rw [hgetD, List.reverse_reverse, Bits.value_ofNat l _ hlt]

/-! ## places -/

/-- where the words of `l` bits begin when the words stand by length -/
def offset (l : Nat) : Nat := ls.countP fun k => 0 < k ∧ k < l

theorem offset_one : offset ls 1 = 0 := List.countP_eq_zero.mpr fun l hl => by
  rw [decide_eq_true_iff]
  omega

theorem offset_succ (l : Nat) : offset ls (l + 1) = offset ls l + number ls l := by
  cases l with
  | zero =>
    unfold offset number
    rw [if_pos rfl, Nat.add_zero]
    exact List.countP_congr fun k hk => by simp; omega
  | succ l =>
    induction ls with
    | nil => rfl
    | cons k ls ih =>
      unfold offset at ih ⊢
      rw [List.countP_cons, List.countP_cons, ih, number_cons]
      rcases Nat.lt_trichotomy k (l + 1) with h | h | h
      · by_cases h0 : 0 < k
        · simp [h0, h, show k < l + 1 + 1 by omega, show k ≠ l + 1 by omega]
          ring
        · simp [show k = 0 by omega]
      · simp [h]
        ring
      · simp [show ¬ k < l + 1 + 1 by omega, show ¬ k < l + 1 by omega, show k ≠ l + 1 by omega]

theorem offset_mono {l m : Nat} (h : l ≤ m) : offset ls l ≤ offset ls m :=
  List.countP_mono_left fun k hk h1 => by
    simp only [decide_eq_true_eq] at h1 ⊢
    omega

theorem offset_le_length (l : Nat) : offset ls l ≤ ls.length := List.countP_le_length

/-- the words of one length stand before those of a greater one -/
theorem offset_add_rank_lt {s l m : Nat} (hs : ls[s]? = some l) (h0 : 0 < l) (h : l < m) :
    offset ls l + rank ls s l < offset ls m := by
  have h1 := rank_lt ls hs
  have h2 := offset_succ ls l
  have h3 := offset_mono ls (show l + 1 ≤ m from h)
  rw [number_of_pos ls h0] at h2
  omega

theorem offset_add_rank_ne {s t l m : Nat} (hs : ls[s]? = some l) (ht : ls[t]? = some m) (hl : 0 < l)
    (hm : 0 < m) (h : s < t) : offset ls l + rank ls s l ≠ offset ls m + rank ls t m := by
  rcases Nat.lt_trichotomy l m with h1 | rfl | h1
  · have := offset_add_rank_lt ls hs hl h1
    omega
  · have h2 := rank_succ ls hs
    have h3 := rank_mono ls l (show s + 1 ≤ t from h)
    omega
  · have := offset_add_rank_lt ls ht hm h1
    omega

/-! ## codes of one bit -/

theorem count_zero_add_count_one : ls.count 0 + ls.count 1 = ls.countP fun l => l ≤ 1 := by
  induction ls with
  | nil => rfl
  | cons l ls ih =>
    rw [List.count_cons, List.count_cons, List.countP_cons, ← ih]
    rcases l with _ | _ | l <;> simp <;> ring

theorem short_iff : Short ls ↔ ls.length = ls.count 0 + ls.count 1 := by
  rw [count_zero_add_count_one, eq_comm, List.countP_eq_length]
  exact forall₂_congr fun l hl => decide_eq_true_iff.symm

theorem Short.number_eq {ls : List Nat} (h : Short ls) {m : Nat} : number ls (m + 2) = 0 := by
  rw [number_of_pos ls (by omega)]
  exact List.count_eq_zero.mpr fun hm => by
    have := h _ hm
    omega

theorem Short.kraft_eq {ls : List Nat} (h : Short ls) (m : Nat) :
    kraft ls (m + 1) = 2 ^ m * ls.count 1 := by
  induction m with
  | zero =>
    rw [HuffmanCode.kraft_eq, number_of_pos ls (by omega), Nat.pow_zero, Nat.one_mul]
    exact Nat.zero_add _
  | succ m ih =>
    rw [kraft_succ, ih, h.number_eq]
    ring

theorem NoWord.kraft_eq {ls : List Nat} (h : NoWord ls) (m : Nat) : kraft ls m = 0 := by
  refine List.sum_eq_zero fun x hx => ?_
  obtain ⟨l, hl, rfl⟩ := List.mem_map.mp hx
  rw [h l hl]
  exact if_neg (by omega)

/-- a set of one-bit words is of one of these kinds -/
theorem Short.cases {ls : List Nat} (h : Short ls) (m : Nat) :
    NoWord ls ∨ Single ls ∨ Complete ls (m + 1) ∨ Flooded ls := by
  rcases Nat.lt_trichotomy (ls.count 1) 1 with h1 | h1 | h1
  · left
    intro l hl
    have hle := h l hl
    have hne : l ≠ 1 := fun he => List.count_eq_zero.mp (show ls.count 1 = 0 by omega) (he ▸ hl)
    omega
  · exact .inr (.inl ⟨h, h1⟩)
  · by_cases h2 : ls.count 1 = 2
    · refine .inr (.inr (.inl ?_))
      unfold Complete
      rw [h.kraft_eq, h2, Nat.pow_succ]
    · exact .inr (.inr (.inr ⟨h, by omega⟩))

theorem Single.kraft_le {ls : List Nat} (h : Single ls) (m : Nat) : kraft ls (m + 1) ≤ 2 ^ (m + 1) := by
  rw [h.1.kraft_eq, h.2, Nat.mul_one]
  exact Nat.pow_le_pow_right (by omega) (Nat.le_succ m)

theorem Flooded.lt_kraft {ls : List Nat} (h : Flooded ls) (m : Nat) : 2 ^ (m + 1) < kraft ls (m + 1) := by
  rw [h.1.kraft_eq, Nat.pow_succ]
  exact Nat.mul_lt_mul_of_pos_left (by have := h.2; omega) (Nat.two_pow_pos m)

end HuffmanCode
