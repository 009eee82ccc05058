import Mathlib.Data.Nat.Digits.Defs
import Mathlib.Tactic.Common

/-!
# Bit lists

* `value`, `ofNat`   the number a list of bits spells, the lowest bit first, and back;
* `code`             the same with the highest bit first, as Huffman codes are packed;
* `ofBytes`          the bits of a byte string, each byte from its lowest bit on;
* `ofBytes_append_eq` a byte string whose bits begin with those of another one begins with it.
-/

set_option linter.unusedVariables false

namespace Bits

/-! ## lowest bit first -/

def value (w : List Bool) : Nat := Nat.ofDigits 2 (w.map Bool.toNat)

/-- the `k` lowest bits of `n` -/
def ofNat : Nat → Nat → List Bool
  | 0, _ => []
  | k + 1, n => n.testBit 0 :: ofNat k (n / 2)

@[simp] theorem value_nil : value [] = 0 := rfl

@[simp] theorem value_cons (b : Bool) (w : List Bool) : value (b :: w) = b.toNat + 2 * value w := rfl

theorem value_append (u w : List Bool) : value (u ++ w) = value u + 2 ^ u.length * value w := by
  unfold value
  rw [List.map_append, Nat.ofDigits_append, List.length_map]

theorem value_lt (w : List Bool) : value w < 2 ^ w.length := by
  have h : Nat.ofDigits 2 (w.map Bool.toNat) < 2 ^ (w.map Bool.toNat).length := by
    refine Nat.ofDigits_lt_base_pow_length (by omega) fun x hx => ?_
    obtain ⟨b, hb, rfl⟩ := List.mem_map.mp hx
    exact Bool.toNat_lt b
  rwa [List.length_map] at h

@[simp] theorem ofNat_length (k : Nat) : ∀ n, (ofNat k n).length = k := by
  induction k with
  | zero => exact fun n => rfl
  | succ k ih =>
    intro n
    rw [ofNat, List.length_cons, ih]

theorem value_ofNat (k : Nat) : ∀ n, n < 2 ^ k → value (ofNat k n) = n := by
  induction k with
  | zero =>
    intro n hn
    rw [Nat.lt_one_iff.mp hn]
    rfl
  | succ k ih =>
    intro n hn
    rw [ofNat, value_cons, ih (n / 2) (by rw [Nat.pow_succ] at hn; omega), Nat.testBit_zero]
    rcases Nat.mod_two_eq_zero_or_one n with h | h <;> simp [h] <;> omega

theorem value_take_add (k : Nat) (w : List Bool) :
    value (w.take k) + 2 ^ (w.take k).length * value (w.drop k) = value w := by
  rw [← value_append, List.take_append_drop]

/-- the low bits of a number, as a mask takes them -/
theorem value_and_mask {k : Nat} {w : List Bool} (h : k ≤ w.length) :
    value w &&& ((1 <<< k) - 1) = value (w.take k) := by
  have hlen : (w.take k).length = k := List.length_take_of_le h
  have hlt := value_lt (w.take k)
  rw [Nat.one_shiftLeft, Nat.and_two_pow_sub_one_eq_mod, ← value_take_add k w]
  rw [hlen] at hlt ⊢
  rw [Nat.add_mul_mod_self_left, Nat.mod_eq_of_lt hlt]

/-- what stays when the low bits are shifted out -/
theorem value_shiftRight {k : Nat} {w : List Bool} (h : k ≤ w.length) :
    value w >>> k = value (w.drop k) := by
  have hlen : (w.take k).length = k := List.length_take_of_le h
  have hlt := value_lt (w.take k)
  rw [Nat.shiftRight_eq_div_pow, ← value_take_add k w]
  rw [hlen] at hlt ⊢
  rw [Nat.add_mul_div_left _ _ (Nat.two_pow_pos k), Nat.div_eq_of_lt hlt, Nat.zero_add]

/-- bits put above those of a number -/
theorem value_or_shiftLeft (u w : List Bool) : value u ||| value w <<< u.length = value (u ++ w) := by
  rw [value_append, Nat.or_comm, Nat.shiftLeft_eq, Nat.mul_comm,
    ← Nat.two_pow_add_eq_or_of_lt (value_lt u), Nat.add_comm]

/-! ## highest bit first -/

def code (w : List Bool) : Nat := value w.reverse

@[simp] theorem code_nil : code [] = 0 := rfl

theorem code_append (u w : List Bool) : code (u ++ w) = 2 ^ w.length * code u + code w := by
  unfold code
  rw [List.reverse_append, value_append, List.length_reverse, Nat.add_comm]

theorem code_lt (w : List Bool) : code w < 2 ^ w.length := by
  have h := value_lt w.reverse
  rwa [List.length_reverse] at h

/-- one bit more, as a decoder that reads bit after bit takes it in -/
theorem code_or (u : List Bool) (b : Bool) : code u <<< 1 ||| b.toNat = code (u ++ [b]) := by
  rw [code_append, Nat.shiftLeft_eq, Nat.mul_comm,
    ← Nat.two_pow_add_eq_or_of_lt (i := 1) (Bool.toNat_lt b)]
  cases b <;> rfl

/-! ## bytes -/

def ofByte (x : UInt8) : List Bool := ofNat 8 x.toNat

def ofBytes (xs : List UInt8) : List Bool := xs.flatMap ofByte

@[simp] theorem ofByte_length (x : UInt8) : (ofByte x).length = 8 := ofNat_length 8 _

theorem value_ofByte (x : UInt8) : value (ofByte x) = x.toNat := value_ofNat 8 _ x.toNat_lt

theorem ofByte_injective : Function.Injective ofByte := by
  intro x y h
  apply UInt8.toNat_inj.mp
  rw [← value_ofByte x, h, value_ofByte]

@[simp] theorem ofBytes_nil : ofBytes [] = [] := rfl

@[simp] theorem ofBytes_cons (x : UInt8) (xs : List UInt8) :
    ofBytes (x :: xs) = ofByte x ++ ofBytes xs := List.flatMap_cons

theorem ofBytes_append (xs ys : List UInt8) : ofBytes (xs ++ ys) = ofBytes xs ++ ofBytes ys :=
  List.flatMap_append

@[simp] theorem ofBytes_length (xs : List UInt8) : (ofBytes xs).length = 8 * xs.length := by
  induction xs with
  | nil => rfl
  | cons x xs ih =>
    rw [ofBytes_cons, List.length_append, ofByte_length, ih, List.length_cons]
    omega

theorem ofBytes_drop (xs : List UInt8) : ∀ k, (ofBytes xs).drop (8 * k) = ofBytes (xs.drop k) := by
  induction xs with
  | nil =>
    intro k
    rw [List.drop_nil, ofBytes_nil, List.drop_nil]
  | cons x xs ih =>
    intro k
    cases k with
    | zero => rfl
    | succ k =>
      rw [ofBytes_cons, List.drop_succ_cons, ← ih k, show 8 * (k + 1) = (ofByte x).length + 8 * k by
        rw [ofByte_length]
        omega]
      exact List.drop_length_add_append ..

theorem ofBytes_append_eq (xs : List UInt8) : ∀ {ys : List UInt8} {rest : List Bool},
    ofBytes xs ++ rest = ofBytes ys → ∃ zs, ys = xs ++ zs ∧ rest = ofBytes zs := by
  induction xs with
  | nil => exact fun h => ⟨_, rfl, h⟩
  | cons x xs ih =>
    intro ys rest h
    cases ys with
    | nil =>
      have := congrArg List.length h
      simp at this
    | cons y ys =>
      rw [ofBytes_cons, ofBytes_cons, List.append_assoc] at h
      obtain ⟨hx, hrest⟩ := List.append_inj h (by rw [ofByte_length, ofByte_length])
      obtain ⟨zs, rfl, hzs⟩ := ih hrest
      exact ⟨zs, by rw [ofByte_injective hx]; rfl, hzs⟩

theorem ofBytes_injective : Function.Injective ofBytes := by
  intro xs ys h
  obtain ⟨zs, hys, hzs⟩ := ofBytes_append_eq xs ((List.append_nil _).trans h)
  have hlen := congrArg List.length hzs
  rw [ofBytes_length, List.length_nil] at hlen
  rw [hys, List.length_eq_zero_iff.mp (show zs.length = 0 by omega), List.append_nil]

end Bits
