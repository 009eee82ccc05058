import Mathlib.Data.Nat.Digits.Lemmas
import Mathlib.Tactic.Common

/-!
# Hex strings

Digits are written most significant first, as in a string.

* `value`            the number that digits stand for;
* `value_suffix`     the last `k` digits stand for the remainder modulo `16 ^ k`;
* `byteDigits`       the shortest digits of a number that make up whole bytes;
* `read_write`       characters, and back.
-/

set_option linter.unusedVariables false

namespace HexString

/-- digits base 16 -/
def Digits (ds : List Nat) : Prop := ∀ d ∈ ds, d < 16

def value (ds : List Nat) : Nat := Nat.ofDigits 16 ds.reverse

/-! ## values -/

theorem Digits.drop {ds : List Nat} (h : Digits ds) (n : Nat) : Digits (ds.drop n) :=
  fun d hd => h d (List.mem_of_mem_drop hd)

theorem value_lt {ds : List Nat} (h : Digits ds) : value ds < 16 ^ ds.length := by
  have hr : ∀ d ∈ ds.reverse, d < 16 := fun d hd => h d (List.mem_reverse.mp hd)
  have := Nat.ofDigits_lt_base_pow_length (by omega : 1 < 16) hr
  rwa [List.length_reverse] at this

theorem value_suffix {ds : List Nat} (h : Digits ds) {k : Nat} (hk : k ≤ ds.length) :
    value (ds.drop (ds.length - k)) = value ds % 16 ^ k := by
  have hr : ∀ d ∈ ds.reverse, d < 16 := fun d hd => h d (List.mem_reverse.mp hd)
  have hrev : (ds.drop (ds.length - k)).reverse = ds.reverse.take k := by
    rw [List.reverse_drop]
    congr 1
    omega
  rw [value, value, hrev, Nat.ofDigits_mod_pow_eq_ofDigits_take k (by omega) _ hr]

/-! ## the digits of a number -/

/-- most significant first, none for zero -/
def digits (n : Nat) : List Nat := (Nat.digits 16 n).reverse

theorem digits_digits (n : Nat) : Digits (digits n) :=
  fun d hd => Nat.digits_lt_base (by omega) (List.mem_reverse.mp hd)

theorem value_digits (n : Nat) : value (digits n) = n := by
  rw [value, digits, List.reverse_reverse, Nat.ofDigits_digits]

theorem digits_length_le (n k : Nat) : (digits n).length ≤ k ↔ n < 16 ^ k := by
  rw [digits, List.length_reverse]
  exact Nat.digits_length_le_iff (by omega) n

theorem value_zero_cons (ds : List Nat) : value (0 :: ds) = value ds := by
  rw [value, List.reverse_cons, Nat.ofDigits_append]
  simp [value]

/-- whole bytes, at least one, no more than needed -/
def byteDigits (n : Nat) : List Nat :=
  if digits n = [] then [0, 0] else if (digits n).length % 2 = 1 then 0 :: digits n else digits n

theorem byteDigits_cases (n : Nat) :
    (digits n = [] ∧ byteDigits n = [0, 0]) ∨
    ((digits n).length % 2 = 1 ∧ byteDigits n = 0 :: digits n) ∨
    (digits n ≠ [] ∧ (digits n).length % 2 = 0 ∧ byteDigits n = digits n) := by
  unfold byteDigits
  split_ifs with h1 h2
  · exact .inl ⟨h1, rfl⟩
  · exact .inr (.inl ⟨h2, rfl⟩)
  · exact .inr (.inr ⟨h1, by omega, rfl⟩)

theorem byteDigits_digits (n : Nat) : Digits (byteDigits n) := by
  intro d hd
  rcases byteDigits_cases n with ⟨_, h⟩ | ⟨_, h⟩ | ⟨_, _, h⟩
  · rw [h] at hd
    simp at hd
    omega
  · rw [h] at hd
    rcases List.mem_cons.mp hd with rfl | hd
    · omega
    · exact digits_digits n d hd
  · exact digits_digits n d (h ▸ hd)

theorem value_byteDigits (n : Nat) : value (byteDigits n) = n := by
  rcases byteDigits_cases n with ⟨h0, h⟩ | ⟨_, h⟩ | ⟨_, _, h⟩
  · rw [h, ← value_digits n, h0]
    rfl
  · rw [h, value_zero_cons, value_digits]
  · rw [h, value_digits]

/-- `k` bytes are enough for the numbers below `256 ^ k` -/
theorem byteDigits_length_le {n k : Nat} (hk : 1 ≤ k) :
    (byteDigits n).length ≤ 2 * k ↔ n < 16 ^ (2 * k) := by
  rw [← digits_length_le]
  rcases byteDigits_cases n with ⟨h0, h⟩ | ⟨hodd, h⟩ | ⟨_, _, h⟩
  · rw [h, h0]
    simp only [List.length_cons, List.length_nil]
    omega
  · rw [h, List.length_cons]
    omega
  · rw [h]

theorem byteDigits_even (n : Nat) : (byteDigits n).length % 2 = 0 := by
  rcases byteDigits_cases n with ⟨_, h⟩ | ⟨hodd, h⟩ | ⟨_, heven, h⟩
  · rw [h]
    rfl
  · rw [h, List.length_cons]
    omega
  · rw [h, heven]

/-- one byte is always there -/
theorem le_byteDigits_length {n k : Nat} (hk : 1 ≤ k) :
    2 * k ≤ (byteDigits n).length ↔ k = 1 ∨ 16 ^ (2 * (k - 1)) ≤ n := by
  have heven := byteDigits_even n
  by_cases h1 : k = 1
  · have hpos : 0 < (byteDigits n).length := by
      rcases byteDigits_cases n with ⟨_, h⟩ | ⟨_, h⟩ | ⟨hne, _, h⟩
      · rw [h]
        decide
      · rw [h]
        exact Nat.succ_pos _
      · rw [h]
        exact List.length_pos_of_ne_nil hne
    exact ⟨fun _ => .inl h1, fun _ => by omega⟩
  · have hle := byteDigits_length_le (n := n) (k := k - 1) (by omega)
    constructor
    · intro h
      refine .inr (Nat.not_lt.mp fun hlt => ?_)
      have := hle.mpr hlt
      omega
    · rintro (h | h)
      · exact absurd h h1
      · have : ¬ (byteDigits n).length ≤ 2 * (k - 1) := fun hlen => Nat.not_lt.mpr h (hle.mp hlen)
        omega

theorem byteDigits_ne_nil (n : Nat) : byteDigits n ≠ [] := by
  rcases byteDigits_cases n with ⟨_, h⟩ | ⟨_, h⟩ | ⟨hne, _, h⟩
  · simp [h]
  · simp [h]
  · rwa [h]

theorem value_zeros (k : Nat) (ds : List Nat) : value (List.replicate k 0 ++ ds) = value ds := by
  rw [value, value, List.reverse_append, List.reverse_replicate, Nat.ofDigits_append_replicate_zero]

/-! ## characters -/

/-- both cases are read -/
def charDigit (c : Char) : Option Nat :=
  if '0' ≤ c ∧ c ≤ '9' then some (c.toNat - '0'.toNat)
  else if 'a' ≤ c ∧ c ≤ 'f' then some (c.toNat - 'a'.toNat + 10)
  else if 'A' ≤ c ∧ c ≤ 'F' then some (c.toNat - 'A'.toNat + 10)
  else none

def read (s : List Char) : Option (List Nat) := s.mapM charDigit

/-- lower case is written -/
def write (ds : List Nat) : List Char := ds.map Nat.digitChar

theorem charDigit_digitChar {d : Nat} (h : d < 16) : charDigit d.digitChar = some d := by
  interval_cases d <;> rfl

theorem read_write {ds : List Nat} (h : Digits ds) : read (write ds) = some ds := by
  induction ds with
  | nil => rfl
  | cons d ds ih =>
    have hd := charDigit_digitChar (h d List.mem_cons_self)
    have htail : (write ds).mapM charDigit = some ds :=
      ih fun x hx => h x (List.mem_cons_of_mem _ hx)
    show (d.digitChar :: write ds).mapM charDigit = _
    rw [List.mapM_cons, hd, htail]
    rfl

theorem charDigit_lt {c : Char} {d : Nat} (h : charDigit c = some d) : d < 16 := by
  unfold charDigit at h
  have hle : ∀ {a b : Char}, a ≤ b → a.toNat ≤ b.toNat := fun hab => hab
  have h9 : '9'.toNat = '0'.toNat + 9 := rfl
  have hf : 'f'.toNat = 'a'.toNat + 5 := rfl
  have hF : 'F'.toNat = 'A'.toNat + 5 := rfl
  split_ifs at h with h1 h2 h3
  · have := hle h1.2
    cases h
    omega
  · have := hle h2.2
    cases h
    omega
  · have := hle h3.2
    cases h
    omega

/-- a digit is read for each character -/
theorem read_some {s : List Char} : ∀ {ds : List Nat}, read s = some ds →
    Digits ds ∧ ds.length = s.length := by
  induction s with
  | nil =>
    intro ds h
    cases h
    exact ⟨fun d hd => absurd hd List.not_mem_nil, rfl⟩
  | cons c s ih =>
    intro ds h
    have h' : (c :: s).mapM charDigit = some ds := h
    rw [List.mapM_cons] at h'
    obtain ⟨d, hd, h'⟩ := Option.bind_eq_some_iff.mp h'
    obtain ⟨rest, hrest, h'⟩ := Option.bind_eq_some_iff.mp h'
    cases h'
    obtain ⟨hdigits, hlength⟩ := ih hrest
    refine ⟨fun e he => ?_, by rw [List.length_cons, List.length_cons, hlength]⟩
    rcases List.mem_cons.mp he with rfl | he
    · exact charDigit_lt hd
    · exact hdigits e he

theorem read_eq_nil {s : List Char} (h : read s = some []) : s = [] :=
  List.length_eq_zero_iff.mp (read_some h).2.symm

theorem write_length (ds : List Nat) : (write ds).length = ds.length := List.length_map _

theorem write_drop (ds : List Nat) (n : Nat) : (write ds).drop n = write (ds.drop n) :=
  List.map_drop.symm

/-- `0x` and the digits -/
def prefixed (s : List Char) : List Char := '0' :: 'x' :: s

/-- no digit is an `x` -/
theorem read_prefixed (s : List Char) : read (prefixed s) = none := by
  have hx : charDigit 'x' = none := by decide
  show ('0' :: 'x' :: s).mapM charDigit = none
  rw [List.mapM_cons, List.mapM_cons, hx]
  rfl

end HexString
