import Mathlib.Algebra.GroupWithZero.Nat
import Mathlib.Data.List.GetD
import Mathlib.Tactic.Common

/-!
# Base64

Three bytes are four characters; one or two bytes at the end are filled up with `=`.

* `encode`, `decode`   bytes in characters, and back where the text is one that `encode` could write;
* `decode_encode`      what was written is read;
* `Spelled`            the characters that are written.
-/

set_option linter.unusedVariables false

namespace Base64

def alphabet : List Char := "ABCDEFGHIJKLMNOPQRSTUVWXYZabcdefghijklmnopqrstuvwxyz0123456789+/".toList

def digit (n : Nat) : Char := alphabet.getD n '='

/-- of a character of the alphabet -/
def value (c : Char) : Option Nat := alphabet.findIdx? (· == c)

def encode : List UInt8 → List Char
  | [] => []
  | [a] =>
    let n := a.toNat * 2^4
    [digit (n / 2^6), digit (n % 2^6), '=', '=']
  | [a, b] =>
    let n := (a.toNat * 2^8 + b.toNat) * 2^2
    [digit (n / 2^12), digit (n / 2^6 % 2^6), digit (n % 2^6), '=']
  | a :: b :: c :: rest =>
    let n := (a.toNat * 2^8 + b.toNat) * 2^8 + c.toNat
    digit (n / 2^18) :: digit (n / 2^12 % 2^6) :: digit (n / 2^6 % 2^6) :: digit (n % 2^6) :: encode rest

def decode : List Char → Option (List UInt8)
  | [] => some []
  | c1 :: c2 :: c3 :: c4 :: rest => do
    let x1 ← value c1
    let x2 ← value c2
    let n := x1 * 2^6 + x2
    if c3 = '=' then
      if c4 = '=' ∧ rest = [] then some [UInt8.ofNat (n / 2^4)] else none
    else do
      let x3 ← value c3
      let n := n * 2^6 + x3
      if c4 = '=' then
        if rest = [] then some [UInt8.ofNat (n / 2^10), UInt8.ofNat (n / 2^2)] else none
      else do
        let x4 ← value c4
        let n := n * 2^6 + x4
        let bytes ← decode rest
        some (UInt8.ofNat (n / 2^16) :: UInt8.ofNat (n / 2^8) :: UInt8.ofNat n :: bytes)
  | _ => none

/-! ## digits -/

theorem value_digit {n : Nat} (h : n < 64) : value (digit n) = some n := by
  have hall : ∀ n : Fin 64, value (digit n) = some n.val := by
    unfold value digit alphabet
    rw [String.toList_ofList]
    decide +kernel
  exact hall ⟨n, h⟩

theorem digit_ne {n : Nat} (h : n < 64) : digit n ≠ '=' := by
  have hall : ∀ n : Fin 64, digit n ≠ '=' := by
    unfold digit alphabet
    rw [String.toList_ofList]
    decide +kernel
  exact hall ⟨n, h⟩

theorem ofNat_eq {a : UInt8} {n : Nat} (h : n % 2^8 = a.toNat) : UInt8.ofNat n = a :=
  UInt8.toNat_inj.mp (by rw [← h]; rfl)

/-! ## what is read -/

/-- **What was written is read.** -/
theorem decode_encode (bs : List UInt8) : decode (encode bs) = some bs := by
  induction bs using encode.induct with
  | case1 => rfl
  | case2 a =>
    have ha := a.toNat_lt
    have h1 : a.toNat * 2^4 / 2^6 < 64 := by omega
    have h2 : a.toNat * 2^4 % 2^6 < 64 := by omega
    simp only [encode, decode, value_digit h1, value_digit h2, Option.bind_eq_bind, Option.bind_some,
      if_true, and_self]
    rw [@ofNat_eq a _ (by omega)]
  | case3 a b =>
    have ha := a.toNat_lt
    have hb := b.toNat_lt
    have h1 : (a.toNat * 2^8 + b.toNat) * 2^2 / 2^12 < 64 := by omega
    have h2 : (a.toNat * 2^8 + b.toNat) * 2^2 / 2^6 % 2^6 < 64 := by omega
    have h3 : (a.toNat * 2^8 + b.toNat) * 2^2 % 2^6 < 64 := by omega
    simp only [encode, decode, value_digit h1, value_digit h2, value_digit h3, digit_ne h3,
      Option.bind_eq_bind, Option.bind_some, if_true, if_false]
    rw [@ofNat_eq a _ (by omega), @ofNat_eq b _ (by omega)]
  | case4 a b c rest ih =>
    have ha := a.toNat_lt
    have hb := b.toNat_lt
    have hc := c.toNat_lt
    have h1 : ((a.toNat * 2^8 + b.toNat) * 2^8 + c.toNat) / 2^18 < 64 := by omega
    have h2 : ((a.toNat * 2^8 + b.toNat) * 2^8 + c.toNat) / 2^12 % 2^6 < 64 := by omega
    have h3 : ((a.toNat * 2^8 + b.toNat) * 2^8 + c.toNat) / 2^6 % 2^6 < 64 := by omega
    have h4 : ((a.toNat * 2^8 + b.toNat) * 2^8 + c.toNat) % 2^6 < 64 := by omega
    simp only [encode, decode, value_digit h1, value_digit h2, value_digit h3, value_digit h4,
      digit_ne h3, digit_ne h4, ih, Option.bind_eq_bind, Option.bind_some, if_false]
    rw [@ofNat_eq a _ (by omega), @ofNat_eq b _ (by omega), @ofNat_eq c _ (by omega)]

example : encode [77, 97] = "TWE=".toList ∧ decode "TWE=".toList = some [77, 97] := by decide +kernel

/-! ## what is written -/

/-- a character of base64 -/
def Spelled (c : Char) : Prop := c ∈ alphabet ∨ c = '='

theorem digit_spelled {n : Nat} : Spelled (digit n) := by
  unfold Spelled digit
  by_cases h : n < alphabet.length
  · rw [List.getD_eq_getElem _ _ h]
    exact .inl (List.getElem_mem h)
  · rw [List.getD_eq_default _ _ (by omega)]
    exact .inr rfl

theorem encode_spelled (bs : List UInt8) : ∀ c ∈ encode bs, Spelled c := by
  have hfill : Spelled '=' := .inr rfl
  induction bs using encode.induct with
  | case1 => exact fun c h => absurd h List.not_mem_nil
  | case2 a => simp [encode, digit_spelled, hfill]
  | case3 a b => simp [encode, digit_spelled, hfill]
  | case4 a b c rest ih => simpa [encode, digit_spelled] using ih

end Base64
