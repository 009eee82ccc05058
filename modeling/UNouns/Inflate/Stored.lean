import UNouns.Inflate.Cursor

/-!
# Inflate: stored blocks

* `next_at`, `copyInput_at`  bytes in, from a byte's beginning on;
* `stored_ok`                a stored block is read as the format has it.
-/

set_option linter.unusedVariables false

namespace UNouns.Inflate

open Bits

variable {c : Setting} {rest rest' : List Bool} {out : Bytes} {s' : State}

/-- the state at the beginning of a byte -/
def Setting.aligned (c : Setting) (xs : Bytes) (out : Bytes) : State := c.at (ofBytes xs) out

theorem aligned_mk (xs out : Bytes) : c.aligned xs out =
    { output := out ++ List.replicate (c.size - out.length) 0
      outcnt := out.length
      input := c.source
      incnt := c.source.length - xs.length
      bitbuf := 0
      bitcnt := 0
      lencode := c.lencode
      distcode := c.distcode } := by
  unfold Setting.aligned Setting.at
  rw [ofBytes_length, Nat.mul_mod_right, Nat.mul_div_cancel_left _ (by omega : 0 < 8)]
  rfl

theorem Setting.Left.source_drop {xs : Bytes} (h : c.Left (ofBytes xs)) :
    xs.length ≤ c.source.length ∧ c.source.drop (c.source.length - xs.length) = xs := by
  have hl := h.length_le
  have ha := h.aligned
  rw [ofBytes_length] at hl ha
  rw [Nat.mul_mod_right, Nat.mul_div_cancel_left _ (by omega : 0 < 8)] at ha
  exact ⟨by omega, (ofBytes_injective ha).symm⟩

theorem next_at {x : UInt8} {xs : Bytes} (h : c.Left (ofBytes (x :: xs))) :
    next (c.aligned (x :: xs) out) = .ok x (c.aligned xs out) := by
  obtain ⟨hl, hd⟩ := h.source_drop
  have hget : c.source[c.source.length - (x :: xs).length]? = some x := by
    rw [← List.head?_drop, hd]
    rfl
  rw [List.length_cons] at hl
  rw [aligned_mk, aligned_mk]
  refine (bind_of_ok (fetch_ok.mpr ⟨hget, rfl⟩)).trans ?_
  show Outcome.ok x (State.mk _ _ _ (c.source.length - (xs.length + 1) + 1) _ _ _ _) = _
  rw [show c.source.length - (xs.length + 1) + 1 = c.source.length - xs.length by omega]

theorem Setting.Left.tail {x : UInt8} {xs : Bytes} (h : c.Left (ofBytes (x :: xs))) : c.Left (ofBytes xs) := by
  rw [ofBytes_cons] at h
  exact h.of_append

theorem copyInput_at (data : Bytes) : ∀ {xs out : Bytes}, c.Left (ofBytes (data ++ xs)) →
    out.length + data.length ≤ c.size →
    copyInput data.length (c.aligned (data ++ xs) out) = .ok () (c.aligned xs (out ++ data)) := by
  induction data with
  | nil =>
    intro xs out h hroom
    rw [List.append_nil]
    rfl
  | cons x data ih =>
    intro xs out h hroom
    rw [List.length_cons] at hroom
    have hput : put x (c.aligned (data ++ xs) out) = .ok () (c.aligned (data ++ xs) (out ++ [x])) :=
      put_at x (by omega)
    refine (bind_of_ok (next_at h)).trans ((bind_of_ok hput).trans ?_)
    rw [ih h.tail (by rw [List.length_append, List.length_singleton]; omega), List.append_assoc]
    rfl

/-! ## the length and its complement -/

theorem lor_shiftLeft_eq (lo hi : UInt8) : lo.toNat ||| hi.toNat <<< 8 = lo.toNat + 256 * hi.toNat := by
  rw [Nat.or_comm, Nat.shiftLeft_eq, Nat.mul_comm, ← Nat.two_pow_add_eq_or_of_lt lo.toNat_lt, Nat.add_comm]

theorem complement_lo (lo hi : UInt8) :
    complement (lo.toNat + 256 * hi.toNat) &&& 0xFF = (~~~lo).toNat := by
  have h1 := lo.toNat_lt
  have h2 := hi.toNat_lt
  rw [show 0xFF = 2 ^ 8 - 1 by rfl, Nat.and_two_pow_sub_one_eq_mod, UInt8.toNat_not,
    show UInt8.size = 256 from rfl]
  unfold complement
  omega

theorem complement_hi (lo hi : UInt8) :
    (complement (lo.toNat + 256 * hi.toNat) >>> 8) &&& 0xFF = (~~~hi).toNat := by
  have h1 := lo.toNat_lt
  have h2 := hi.toNat_lt
  rw [show 0xFF = 2 ^ 8 - 1 by rfl, Nat.and_two_pow_sub_one_eq_mod, UInt8.toNat_not,
    Nat.shiftRight_eq_div_pow, show UInt8.size = 256 from rfl]
  unfold complement
  omega

/-! ## the block -/

variable (out) in
theorem aligned_of_at (h : c.Left rest) :
    ∃ xs, rest.drop (rest.length % 8) = ofBytes xs ∧ c.Left (ofBytes xs) ∧
      { c.at rest out with bitbuf := 0, bitcnt := 0 } = c.aligned xs out := by
  refine ⟨_, h.aligned, h.aligned ▸ h.drop _, ?_⟩
  have hl := h.length_le
  rw [aligned_mk, List.length_drop, show c.source.length - (c.source.length -
    (c.source.length - rest.length / 8)) = c.source.length - rest.length / 8 by omega]
  rfl

/-- the end of a stored block: `len` bytes, where the input has them and the output has room -/
theorem copyInput_ok {xs : Bytes} (h : c.Left (ofBytes xs)) (hout : out.length ≤ c.size) (len : Nat) :
    (if (c.aligned xs out).incnt + len > (c.aligned xs out).input.length then fail .errNotTerminated
      else if (c.aligned xs out).outcnt + len > (c.aligned xs out).output.length then
        fail .errOutputExhausted
      else copyInput len) (c.aligned xs out) = .ok () s' ↔
    ∃ data zs, data.length = len ∧ xs = data ++ zs ∧ out.length + len ≤ c.size ∧
      s' = c.aligned zs (out ++ data) := by
  have hlen : (c.aligned xs out).output.length = c.size := output_length hout
  have hinput : (c.aligned xs out).input = c.source := rfl
  have hcnt : (c.aligned xs out).outcnt = out.length := rfl
  have hincnt : (c.aligned xs out).incnt = c.source.length - xs.length := by rw [aligned_mk]
  have hle := h.source_drop.1
  rw [hlen, hinput, hcnt, hincnt, ite_ok, ite_ok, fail_ok, fail_ok]
  constructor
  · rintro (⟨-, h'⟩ | ⟨h1, ⟨-, h'⟩ | ⟨h2, h3⟩⟩)
    · exact h'.elim
    · exact h'.elim
    · obtain ⟨data, zs, rfl, rfl⟩ : ∃ data zs, data.length = len ∧ xs = data ++ zs :=
        ⟨xs.take len, xs.drop len, List.length_take_of_le (by omega), (List.take_append_drop len xs).symm⟩
      rw [copyInput_at data h (by omega)] at h3
      cases h3
      exact ⟨data, zs, rfl, rfl, by omega, rfl⟩
  · rintro ⟨data, zs, rfl, rfl, h2, rfl⟩
    rw [List.length_append] at hle ⊢
    exact .inr ⟨by omega, .inr ⟨by omega, copyInput_at data h h2⟩⟩

/-- **Stored blocks.** -/
theorem stored_ok (h : c.Left rest) (hout : out.length ≤ c.size) : stored (c.at rest out) = .ok () s' ↔
    ∃ lo hi data rest', data.length = lo.toNat + 256 * hi.toNat ∧
      rest.drop (rest.length % 8) = ofBytes (lo :: hi :: ~~~lo :: ~~~hi :: data) ++ rest' ∧
      out.length + data.length ≤ c.size ∧ s' = c.at rest' (out ++ data) := by
  obtain ⟨xs, hxs, hleft, hreset⟩ := aligned_of_at out h
  have hinput : (c.aligned xs out).input = c.source := rfl
  have hincnt : (c.aligned xs out).incnt = c.source.length - xs.length := by rw [aligned_mk]
  have hle := hleft.source_drop.1
  have hstored : stored (c.at rest out) = _ := bind_of_ok (congrArg (Outcome.ok ()) hreset)
  rw [hstored, state_bind, hinput, hincnt, hxs]
  by_cases hshort : xs.length < 4
  · rw [if_pos (by omega), fail_ok]
    refine ⟨False.elim, ?_⟩
    rintro ⟨lo, hi, data, rest', -, hrest, -⟩
    have hlen := congrArg List.length hrest
    simp only [List.length_append, ofBytes_length, List.length_cons] at hlen
    omega
  rw [if_neg (by omega)]
  obtain ⟨lo, hi, x, y, xs, rfl⟩ : ∃ lo hi x y zs, xs = lo :: hi :: x :: y :: zs := by
    rcases xs with _ | ⟨lo, _ | ⟨hi, _ | ⟨x, _ | ⟨y, zs⟩⟩⟩⟩
    · exact absurd (by simp) hshort
    · exact absurd (by simp) hshort
    · exact absurd (by simp) hshort
    · exact absurd (by simp) hshort
    · exact ⟨lo, hi, x, y, zs, rfl⟩
  have hleft4 := hleft.tail.tail.tail.tail
  -- the second complement is read only where the first is right
  rw [bind_of_ok (next_at hleft), bind_of_ok (next_at hleft.tail), bind_of_ok (next_at hleft.tail.tail),
    lor_shiftLeft_eq, complement_lo, complement_hi, ite_ok, bind_of_ok (next_at hleft.tail.tail.tail),
    ite_ok, state_bind, copyInput_ok hleft4 hout]
  constructor
  · rintro (⟨-, h'⟩ | ⟨hx, ⟨-, h'⟩ | ⟨hy, data, zs, hlen, rfl, hroom, rfl⟩⟩)
    · exact (nomatch h')
    · exact (nomatch h')
    · have hx := UInt8.toNat_inj.mp (not_not.mp hx)
      have hy := UInt8.toNat_inj.mp (not_not.mp hy)
      refine ⟨lo, hi, data, ofBytes zs, hlen, ?_, by omega, rfl⟩
      rw [hx, hy, ← ofBytes_append]
      rfl
  · rintro ⟨lo', hi', data, rest', hlen, hrest, hroom, rfl⟩
    obtain ⟨zs, heq, rfl⟩ := ofBytes_append_eq _ hrest.symm
    simp only [List.cons_append, List.cons.injEq] at heq
    obtain ⟨rfl, rfl, rfl, rfl, rfl⟩ := heq
    exact .inr ⟨not_not.mpr rfl, .inr ⟨not_not.mpr rfl, data, zs, hlen, rfl, by omega, rfl⟩⟩

end UNouns.Inflate
