import Mathlib.Data.List.Basic
import Mathlib.Algebra.BigOperators.Group.List.Basic
import Mathlib.Tactic.Common
import Mathlib.Tactic.Ring

/-!
# Words, and arrays of byte strings

The encoding of a dynamic array of byte strings: a word with its offset, a word with its length, a word
with the offset of each string, and the strings, each after its length and filled up to a whole word.

* `bytes`, `number`   a number in bytes, big end first, and back;
* `Holds`             a word at a place in data;
* `encode`            the encoding of an array;
* `encode_item`       where each item is found in it.
-/

set_option linter.unusedVariables false

namespace Abi

/-! ## words -/

def number (bs : List UInt8) : Nat := bs.foldl (fun n b => n * 256 + b.toNat) 0

/-- the last `k` bytes of a number -/
def bytes : Nat → Nat → List UInt8
  | 0, _ => []
  | k + 1, n => bytes k (n / 256) ++ [UInt8.ofNat n]

def word (n : Nat) : List UInt8 := bytes 32 n

theorem bytes_length (k : Nat) : ∀ n, (bytes k n).length = k := by
  induction k with
  | zero => exact fun n => rfl
  | succ k ih =>
    intro n
    rw [bytes, List.length_append, ih]
    rfl

theorem word_length (n : Nat) : (word n).length = 32 := bytes_length 32 n

theorem number_append (bs : List UInt8) (b : UInt8) : number (bs ++ [b]) = number bs * 256 + b.toNat := by
  unfold number
  rw [List.foldl_append]
  rfl

/-- a number that fits is read back -/
theorem number_bytes (k : Nat) : ∀ {n : Nat}, n < 256 ^ k → number (bytes k n) = n := by
  induction k with
  | zero =>
    intro n h
    have h0 : n = 0 := by omega
    rw [h0]
    rfl
  | succ k ih =>
    intro n h
    rw [Nat.pow_succ] at h
    have hb : (UInt8.ofNat n).toNat = n % 256 := rfl
    rw [bytes, number_append, ih (Nat.div_lt_of_lt_mul (by rwa [Nat.mul_comm])), hb]
    omega

/-- there is a word at a place, and its number is `n` -/
structure Holds (data : List UInt8) (place n : Nat) : Prop where
  inside : place + 32 ≤ data.length
  number : number ((data.drop place).take 32) = n

/-- a word that was written is read -/
theorem holds_word {data rest : List UInt8} {place n : Nat} (h : data.drop place = word n ++ rest)
    (hn : n < 256 ^ 32) : Holds data place n := by
  have hlen := congrArg List.length h
  rw [List.length_drop, List.length_append, word_length] at hlen
  refine ⟨by omega, ?_⟩
  rw [h, List.take_left' (word_length n)]
  exact number_bytes 32 hn

/-! ## byte strings -/

/-- the zeros after `n` bytes -/
def padding (n : Nat) : List UInt8 := List.replicate ((32 - n % 32) % 32) 0

def encodeBytes (b : List UInt8) : List UInt8 := word b.length ++ (b ++ padding b.length)

theorem encodeBytes_length (b : List UInt8) : 32 + b.length ≤ (encodeBytes b).length := by
  rw [encodeBytes, List.length_append, word_length, List.length_append]
  omega

/-! ## arrays -/

/-- the offsets of the tails, of which the first is at `place` -/
def offsets : Nat → List (List UInt8) → List UInt8
  | _, [] => []
  | place, tail :: tails => word place ++ offsets (place + tail.length) tails

def encodeItems (items : List (List UInt8)) : List UInt8 :=
  offsets (32 * items.length) (items.map encodeBytes) ++ (items.map encodeBytes).flatten

def encode (items : List (List UInt8)) : List UInt8 :=
  word 32 ++ (word items.length ++ encodeItems items)

theorem offsets_length (tails : List (List UInt8)) : ∀ place,
    (offsets place tails).length = 32 * tails.length := by
  induction tails with
  | nil => exact fun place => rfl
  | cons tail tails ih =>
    intro place
    rw [offsets, List.length_append, word_length, ih, List.length_cons]
    ring

/-- the offset of a tail is past the tails before it -/
theorem offsets_drop {before after : List (List UInt8)} {tail : List UInt8} : ∀ place,
    (offsets place (before ++ tail :: after)).drop (32 * before.length)
      = word (place + before.flatten.length)
        ++ offsets (place + before.flatten.length + tail.length) after := by
  induction before with
  | nil => exact fun place => rfl
  | cons b before ih =>
    intro place
    have hsplit : 32 * (b :: before).length = 32 + 32 * before.length := by
      rw [List.length_cons]
      ring
    rw [List.cons_append, offsets, hsplit, ← List.drop_drop, List.drop_left' (word_length place), ih,
      List.flatten_cons, List.length_append, Nat.add_assoc place]

theorem encode_length (items : List (List UInt8)) : (encode items).length
    = 64 + (32 * items.length + (items.map encodeBytes).flatten.length) := by
  rw [encode, encodeItems, List.length_append, List.length_append, List.length_append, word_length,
    word_length, offsets_length, List.length_map]
  omega

/-- the array is after one word, and its items after two -/
theorem encode_drop (items : List (List UInt8)) :
    (encode items).drop 32 = word items.length ++ encodeItems items ∧
      (encode items).drop 64 = encodeItems items := by
  have h32 : (encode items).drop 32 = word items.length ++ encodeItems items :=
    List.drop_left' (word_length 32)
  refine ⟨h32, ?_⟩
  rw [show 64 = 32 + 32 from rfl, ← List.drop_drop, h32]
  exact List.drop_left' (word_length _)

section
variable {items before after : List (List UInt8)} {b : List UInt8}

/-- where the bytes of an item begin, from the word after the length on -/
def offset (items before : List (List UInt8)) : Nat :=
  32 * items.length + (before.map encodeBytes).flatten.length

theorem map_encodeBytes (h : items = before ++ b :: after) :
    items.map encodeBytes = before.map encodeBytes ++ encodeBytes b :: after.map encodeBytes := by
  rw [h, List.map_append, List.map_cons]

theorem offset_drop (h : items = before ++ b :: after) :
    ∃ rest, (encode items).drop (64 + 32 * before.length) = word (offset items before) ++ rest := by
  have hd := @offsets_drop (before.map encodeBytes) (after.map encodeBytes) (encodeBytes b)
    (32 * items.length)
  rw [List.length_map, ← map_encodeBytes h] at hd
  have hle : 32 * before.length ≤ (offsets (32 * items.length) (items.map encodeBytes)).length := by
    rw [offsets_length, List.length_map, h, List.length_append]
    omega
  rw [← List.drop_drop, (encode_drop items).2, encodeItems, List.drop_append_of_le_length hle, hd,
    List.append_assoc]
  exact ⟨_, rfl⟩

theorem item_drop (h : items = before ++ b :: after) :
    ∃ rest, (encode items).drop (64 + offset items before) = word b.length ++ (b ++ rest) := by
  have hoffsets := offsets_length (items.map encodeBytes) (32 * items.length)
  rw [List.length_map] at hoffsets
  rw [offset, ← List.drop_drop, (encode_drop items).2, encodeItems, ← List.drop_drop,
    List.drop_left' hoffsets, map_encodeBytes h, List.flatten_append, List.drop_left' rfl,
    List.flatten_cons, encodeBytes, List.append_assoc, List.append_assoc]
  exact ⟨_, rfl⟩

/-- **Where an item is found.**  Its offset is among the words after the length, and counts from
there; at that place are its length and its bytes. -/
theorem encode_item (h : items = before ++ b :: after) (hsize : (encode items).length < 256 ^ 32) :
    offset items before ≤ (encode items).length ∧
      Holds (encode items) (64 + 32 * before.length) (offset items before) ∧
      Holds (encode items) (64 + offset items before) b.length ∧
      64 + offset items before + 32 + b.length ≤ (encode items).length ∧
      ((encode items).drop (64 + offset items before + 32)).take b.length = b := by
  obtain ⟨r, hr⟩ := offset_drop h
  obtain ⟨r', hr'⟩ := item_drop h
  have hend := congrArg List.length hr'
  rw [List.length_drop, List.length_append, List.length_append, word_length] at hend
  refine ⟨by omega, holds_word hr (by omega), holds_word hr' (by omega), by omega, ?_⟩
  rw [← List.drop_drop, hr', List.drop_left' (word_length _), List.take_left' rfl]

end

end Abi
