import Mathlib.Data.List.Basic
import Mathlib.Tactic.Common
import UNouns.Inflate.Puff
import UNouns.Lib.Deflate

/-!
# Inflate: the bits that are left

`Setting.at` is the state in which the bits `rest` are still to be read and the bytes `out` have
been written. Every function of the decoder goes from such a state to another.

* `bits_ok`    the bits that are read are the first of `rest`;
* `put_at`     a byte that is written is appended to `out`.
-/

set_option linter.unusedVariables false

namespace UNouns.Inflate

open Bits

/-! ## successful results -/

section
variable {α β : Type} {s s' : State} {a b : α}

@[simp] theorem bind_ok {m : Puff α} {f : α → Puff β} {b : β} :
    (m >>= f) s = .ok b s' ↔ ∃ a s1, m s = .ok a s1 ∧ f a s1 = .ok b s' := by
  simp only [bind]
  cases m s with
  | ok a s1 => simp
  | err e h s1 => simp
  | panic => simp
  | running => simp

theorem bind_of_ok {m : Puff α} {f : α → Puff β} {s1 : State} (h : m s = .ok a s1) :
    (m >>= f) s = f a s1 := by
  simp only [bind, h]

theorem bind_of_err {m : Puff α} {f : α → Puff β} {e : ErrorCode} {he : e ≠ .errNone} {s1 : State}
    (h : m s = .err e he s1) : (m >>= f) s = .err e he s1 := by
  simp only [bind, h]

@[simp] theorem pure_ok : (pure a : Puff α) s = .ok b s' ↔ a = b ∧ s = s' :=
  ⟨fun h => by cases h; exact ⟨rfl, rfl⟩, fun ⟨h, h'⟩ => h ▸ h' ▸ rfl⟩

@[simp] theorem fail_ok {e : ErrorCode} {h : e ≠ .errNone} : (fail e h : Puff α) s = .ok b s' ↔ False :=
  ⟨fun h => (nomatch h), False.elim⟩

@[simp] theorem state_bind {f : State → Puff β} : (state >>= f) s = f s s := rfl

@[simp] theorem ite_ok {c : Prop} [Decidable c] {m n : Puff α} :
    (if c then m else n) s = .ok b s' ↔ c ∧ m s = .ok b s' ∨ ¬ c ∧ n s = .ok b s' := by
  by_cases h : c
  · rw [if_pos h]
    exact ⟨fun h' => .inl ⟨h, h'⟩, fun h' => h'.elim And.right fun h'' => absurd h h''.1⟩
  · rw [if_neg h]
    exact ⟨fun h' => .inr ⟨h, h'⟩, fun h' => h'.elim (fun h'' => absurd h''.1 h) And.right⟩

@[simp] theorem fetch_ok {xs : List α} {i : Nat} : fetch xs i s = .ok b s' ↔ xs[i]? = some b ∧ s = s' := by
  unfold fetch
  cases xs[i]? with
  | none => exact ⟨fun h => (nomatch h), fun h => (nomatch h.1)⟩
  | some x =>
    exact ⟨fun h => by cases h; exact ⟨rfl, rfl⟩, fun ⟨h, h'⟩ => by cases h; cases h'; rfl⟩

end

/-! ## states -/

/-- what stays the same while the blocks are read -/
structure Setting where
  source : Bytes
  size : Nat
  lencode : Huffman
  distcode : Huffman

namespace Setting

/-- the bits `rest` are left to be read, the bytes `out` are written -/
def «at» (c : Setting) (rest : List Bool) (out : Bytes) : State where
  output := out ++ List.replicate (c.size - out.length) 0
  outcnt := out.length
  input := c.source
  incnt := c.source.length - rest.length / 8
  bitbuf := value (rest.take (rest.length % 8))
  bitcnt := rest.length % 8
  lencode := c.lencode
  distcode := c.distcode

/-- `rest` is what is left of the source's bits -/
def Left (c : Setting) (rest : List Bool) : Prop := rest <:+ ofBytes c.source

variable {c : Setting} {rest rest' w : List Bool}

theorem Left.of_append (h : c.Left (w ++ rest)) : c.Left rest := (List.suffix_append w rest).trans h

theorem Left.drop (h : c.Left rest) (n : Nat) : c.Left (rest.drop n) := (List.drop_suffix n rest).trans h

theorem Left.length_le (h : c.Left rest) : rest.length ≤ 8 * c.source.length := by
  have := List.IsSuffix.length_le h
  rwa [ofBytes_length] at this

/-- from the next byte on -/
theorem Left.aligned (h : c.Left rest) :
    rest.drop (rest.length % 8) = ofBytes (c.source.drop (c.source.length - rest.length / 8)) := by
  have hl := h.length_le
  obtain ⟨u, hu⟩ := h
  have hlen := congrArg List.length hu
  rw [List.length_append, ofBytes_length] at hlen
  rw [← ofBytes_drop, ← hu, show 8 * (c.source.length - rest.length / 8) = u.length + rest.length % 8 by omega]
  exact (List.drop_length_add_append _).symm

end Setting

variable {c : Setting} {rest rest' : List Bool} {out : Bytes} {s' : State} {need v : Nat}

/-! ## bits -/

/-- the state while bits are loaded: `k` bits at hand, the bytes from `i` on not yet read -/
def Setting.loading (c : Setting) (rest : List Bool) (out : Bytes) (k i : Nat) : State :=
  { c.at rest out with bitcnt := k, incnt := i }

theorem load_succ_of_lt (n : Nat) {k i : Nat} {x : UInt8} {xs : Bytes} (hk : k < need)
    (hx : c.source.drop i = x :: xs) (val : Nat) :
    load need (n + 1) val (c.loading rest out k i)
      = load need n (val ||| x.toNat <<< k) (c.loading rest out (k + 8) (i + 1)) := by
  have hget : c.source[i]? = some x := by
    rw [← List.head?_drop, hx]
    rfl
  have hi : i ≠ c.source.length := by
    rintro rfl
    rw [List.drop_length] at hx
    cases hx
  show (if k < need then _ else _ : Puff Nat) (c.loading rest out k i) = _
  rw [if_pos hk]
  show (if i = c.source.length then _ else _ : Puff Nat) (c.loading rest out k i) = _
  rw [if_neg hi]
  have hn : next (c.loading rest out k i) = .ok x (c.loading rest out k (i + 1)) := by
    have hf : fetch c.source i (c.loading rest out k i) = .ok x (c.loading rest out k i) :=
      fetch_ok.mpr ⟨hget, rfl⟩
    exact bind_of_ok hf
  exact bind_of_ok hn

theorem load_of_le (n : Nat) {k i : Nat} (hk : need ≤ k) (val : Nat) :
    load need n val (c.loading rest out k i) = .ok val (c.loading rest out k i) := by
  cases n with
  | zero => rfl
  | succ n =>
    show (if k < need then _ else _ : Puff Nat) (c.loading rest out k i) = _
    rw [if_neg (by omega)]
    rfl

variable (c) (out) in
theorem load_eq (hneed : need ≤ rest.length) (n : Nat) : ∀ k i, need ≤ k + n → k < need + 8 →
    k ≤ rest.length → i ≤ c.source.length → rest.drop k = ofBytes (c.source.drop i) →
    ∃ k' i', load need n (value (rest.take k)) (c.loading rest out k i)
        = .ok (value (rest.take k')) (c.loading rest out k' i') ∧
      need ≤ k' ∧ k' < need + 8 ∧ k' ≤ rest.length ∧ i' ≤ c.source.length ∧
      rest.drop k' = ofBytes (c.source.drop i') := by
  induction n with
  | zero => exact fun k i h1 h2 h3 h4 h5 => ⟨k, i, rfl, h1, h2, h3, h4, h5⟩
  | succ n ih =>
    intro k i h1 h2 h3 h4 h5
    by_cases hk : need ≤ k
    · exact ⟨k, i, load_of_le _ hk _, hk, h2, h3, h4, h5⟩
    · cases hx : c.source.drop i with
      | nil =>
        have hlen := congrArg List.length h5
        rw [hx, List.length_drop, ofBytes_nil, List.length_nil] at hlen
        exact absurd (show need ≤ k by omega) hk
      | cons x xs =>
        have hi := congrArg List.length hx
        rw [List.length_drop, List.length_cons] at hi
        rw [hx, ofBytes_cons] at h5
        have hlen := congrArg List.length h5
        rw [List.length_drop, List.length_append, ofByte_length] at hlen
        have hdrop : rest.drop (k + 8) = ofBytes (c.source.drop (i + 1)) := by
          rw [← List.drop_drop, h5, ← List.drop_drop, hx]
          exact List.drop_left' (ofByte_length x)
        have htake : value (rest.take k) ||| x.toNat <<< k = value (rest.take (k + 8)) := by
          have := value_or_shiftLeft (rest.take k) (ofByte x)
          rw [List.length_take_of_le h3, value_ofByte] at this
          rw [this, List.take_add, h5, List.take_left' (ofByte_length x)]
        rw [load_succ_of_lt n (by omega) hx, htake]
        exact ih (k + 8) (i + 1) (by omega) (by omega) (by omega) (by omega) hdrop

variable (c) (out) in
theorem load_short (hneed : rest.length < need) (n : Nat) : ∀ k i val, need ≤ k + n →
    k ≤ rest.length → i ≤ c.source.length → rest.drop k = ofBytes (c.source.drop i) →
    ∃ s, load need n val (c.loading rest out k i) = .err .errNotTerminated (by decide) s := by
  induction n with
  | zero => exact fun k i val h1 h2 h3 h4 => absurd h1 (by omega)
  | succ n ih =>
    intro k i val h1 h2 h3 h4
    cases hx : c.source.drop i with
    | nil =>
      have hi : i = c.source.length := Nat.le_antisymm h3 (List.drop_eq_nil_iff.mp hx)
      refine ⟨c.loading rest out k i, ?_⟩
      show (if k < need then _ else _ : Puff Nat) (c.loading rest out k i) = _
      rw [if_pos (by omega)]
      show (if i = c.source.length then _ else _ : Puff Nat) (c.loading rest out k i) = _
      rw [if_pos hi]
      rfl
    | cons x xs =>
      have hlen := congrArg List.length h4
      rw [hx, List.length_drop, ofBytes_length, List.length_cons] at hlen
      have hi := congrArg List.length hx
      rw [List.length_drop, List.length_cons] at hi
      rw [load_succ_of_lt n (by omega) hx]
      refine ih (k + 8) (i + 1) _ (by omega) (by omega) (by omega) ?_
      rw [← List.drop_drop, h4, ← List.drop_drop, hx, ofBytes_cons]
      exact List.drop_left' (ofByte_length x)

theorem bits_at (h : c.Left rest) (hneed : need ≤ rest.length) :
    bits need (c.at rest out) = .ok (value (rest.take need)) (c.at (rest.drop need) out) := by
  obtain ⟨k, i, hload, h1, h2, h3, h4, h5⟩ := load_eq c out hneed need
    (rest.length % 8) (c.source.length - rest.length / 8) (by omega) (by omega) (by omega) (by omega)
    h.aligned
  have hb : bits need (c.at rest out)
      = .ok (value (rest.take k) &&& ((1 <<< need) - 1)) { c.loading rest out k i with
          bitbuf := value (rest.take k) >>> need, bitcnt := k - need } := bind_of_ok hload
  have hlen : (rest.take k).length = k := List.length_take_of_le h3
  have hl := h.length_le
  have hi := congrArg List.length h5
  rw [List.length_drop, ofBytes_length, List.length_drop] at hi
  have hcnt : k - need = (rest.drop need).length % 8 := by
    rw [List.length_drop]
    omega
  have hinc : i = c.source.length - (rest.drop need).length / 8 := by
    rw [List.length_drop]
    omega
  rw [hb, value_and_mask (by omega), value_shiftRight (by omega), List.take_take,
    Nat.min_eq_left h1, List.drop_take, hcnt]
  show Outcome.ok _ (State.mk _ _ _ i _ _ _ _) = _
  rw [hinc]
  rfl

variable (out) in
theorem bits_short (h : c.Left rest) (hneed : rest.length < need) :
    ∃ s, bits need (c.at rest out) = .err .errNotTerminated (by decide) s := by
  obtain ⟨s, hs⟩ := load_short c out hneed need (rest.length % 8)
    (c.source.length - rest.length / 8) (value (rest.take (rest.length % 8))) (by omega) (by omega)
    (by omega) h.aligned
  exact ⟨s, by
    show (load need need _ >>= _) (c.at rest out) = _
    exact bind_of_err hs⟩

/-- **`bits`.** The bits that are read are the first ones left. -/
theorem bits_ok (h : c.Left rest) : bits need (c.at rest out) = .ok v s' ↔
    ∃ w rest', rest = w ++ rest' ∧ w.length = need ∧ v = value w ∧ s' = c.at rest' out := by
  by_cases hneed : need ≤ rest.length
  · rw [bits_at h hneed]
    constructor
    · intro h'
      cases h'
      exact ⟨_, _, (List.take_append_drop need rest).symm, List.length_take_of_le hneed, rfl, rfl⟩
    · rintro ⟨w, rest', rfl, rfl, rfl, rfl⟩
      rw [List.take_left, List.drop_left]
  · obtain ⟨s, hs⟩ := bits_short out h (Nat.lt_of_not_le hneed)
    rw [hs]
    refine ⟨fun h' => (nomatch h'), ?_⟩
    rintro ⟨w, rest', rfl, rfl, -, -⟩
    rw [List.length_append] at hneed
    omega

theorem bits_one {b : Bool} (h : c.Left (b :: rest)) :
    bits 1 (c.at (b :: rest) out) = .ok b.toNat (c.at rest out) :=
  bits_at h (Nat.succ_le_succ (Nat.zero_le _))

/-! ## bytes out -/

theorem put_at (x : UInt8) (h : out.length < c.size) :
    put x (c.at rest out) = .ok () (c.at rest (out ++ [x])) := by
  have hset : (out ++ List.replicate (c.size - out.length) 0).set out.length x
      = out ++ [x] ++ List.replicate (c.size - (out ++ [x]).length) 0 := by
    rw [List.set_append_right _ _ (Nat.le_refl _), Nat.sub_self, List.append_assoc, List.length_append,
      List.length_singleton, show c.size - out.length = c.size - (out.length + 1) + 1 by omega,
      List.replicate_succ]
    rfl
  show (if out.length < (out ++ List.replicate (c.size - out.length) 0).length then _ else _) = _
  rw [if_pos (by rw [List.length_append, List.length_replicate]; omega)]
  show Outcome.ok () (State.mk (List.set _ _ _) (out.length + 1) _ _ _ _ _ _) = _
  unfold Setting.at
  rw [← hset, List.length_append, List.length_singleton]

theorem output_length (h : out.length ≤ c.size) : (c.at rest out).output.length = c.size := by
  show (out ++ List.replicate (c.size - out.length) 0).length = c.size
  rw [List.length_append, List.length_replicate]
  omega

end UNouns.Inflate
