import UNouns.Inflate.Cursor

/-!
# Inflate: words that do not wrap

`Meets` says of a function on machine words that it does what the exact one does, and that it ends:
with a result, or with an error code, within the bounds of the arrays.

* `add_eq`, `sub_eq`, `shl_eq`   the unchecked operations in range;
* `Meets.bind`                   one call after another;
* `Setting.Sound`                what holds of the state between two calls of `bits`;
* `bits_meets`                   the bits that are read are fewer bits left.
-/

set_option linter.unusedVariables false

namespace UNouns.Inflate

/-! ## words -/

namespace Machine

theorem add_eq {a b : Nat} (h : a + b < 2 ^ 256) : add a b = a + b := Nat.mod_eq_of_lt h

theorem sub_eq {a b : Nat} (h : b ≤ a) : sub a b = a - b := if_pos h

theorem shl_eq {a k : Nat} (h : a <<< k < 2 ^ 256) : shl a k = a <<< k := Nat.mod_eq_of_lt h

/-- a few bits, shifted by a few places -/
theorem shl_small {a k n : Nat} (ha : a < 2 ^ n) (hk : n + k ≤ 256) : shl a k = a <<< k := by
  refine shl_eq ?_
  rw [Nat.shiftLeft_eq]
  have h1 : a * 2 ^ k < 2 ^ n * 2 ^ k := Nat.mul_lt_mul_of_pos_right ha (Nat.two_pow_pos k)
  rw [← Nat.pow_add] at h1
  exact Nat.lt_of_lt_of_le h1 (Nat.pow_le_pow_right (by omega) hk)

end Machine

/-! ## functions that end -/

/-- with `Q` where a value is returned, and with `E` where an error is -/
def Outcome.Ends {α : Type} (E : State → Prop) (Q : α → State → Prop) : Outcome α → Prop
  | .ok a s => Q a s
  | .err _ _ s => E s
  | .panic => False
  | .running => False

/-- from `s`, `m` does what `f` does, and ends -/
structure Meets {α : Type} (E : State → Prop) (m f : Puff α) (s : State) (Q : α → State → Prop) : Prop where
  same : m s = f s
  ends : (f s).Ends E Q

namespace Meets

variable {α β : Type} {E : State → Prop} {m f m' f' : Puff α} {g k : α → Puff β} {s t : State}
  {Q Q' : α → State → Prop} {R : β → State → Prop} {a : α}

theorem of_ok (hm : m s = .ok a t) (hf : f s = .ok a t) (h : Q a t) : Meets E m f s Q :=
  ⟨hm.trans hf.symm, by rw [hf]; exact h⟩

theorem step (hm : m s = m' t) (hf : f s = f' t) (h : Meets E m' f' t Q) : Meets E m f s Q :=
  ⟨hm.trans (h.same.trans hf.symm), by rw [hf]; exact h.ends⟩

theorem of_err {e : ErrorCode} {he : e ≠ .errNone} (hm : m s = .err e he t) (hf : f s = .err e he t)
    (h : E t) : Meets E m f s Q := ⟨hm.trans hf.symm, by rw [hf]; exact h⟩

/-- both return the same value, or the same error -/
theorem cases (h : Meets E m f s Q) : (∃ a s', m s = .ok a s' ∧ f s = .ok a s' ∧ Q a s') ∨
    ∃ e he s', m s = .err e he s' ∧ f s = .err e he s' ∧ E s' := by
  obtain ⟨hs, he⟩ := h
  cases hf : f s with
  | ok a s' =>
    rw [hf] at hs he
    exact .inl ⟨a, s', hs, rfl, he⟩
  | err e hne s' =>
    rw [hf] at hs he
    exact .inr ⟨e, hne, s', hs, rfl, he⟩
  | panic =>
    rw [hf] at he
    exact he.elim
  | running =>
    rw [hf] at he
    exact he.elim

theorem pure (h : Q a s) : Meets E (pure a) (pure a) s Q := of_ok rfl rfl h

theorem fail {e : ErrorCode} {he : e ≠ .errNone} (h : E s) : Meets E (fail e he) (fail e he) s Q := ⟨rfl, h⟩

theorem mono (h : Meets E m f s Q) (hQ : ∀ a s', Q a s' → Q' a s') : Meets E m f s Q' := by
  rcases h.cases with ⟨a, s', hm, hf, h⟩ | ⟨e, he, s', hm, hf, h⟩
  · exact of_ok hm hf (hQ a s' h)
  · exact of_err hm hf h

theorem bind (h : Meets E m f s Q) (hk : ∀ a s', Q a s' → Meets E (g a) (k a) s' R) :
    Meets E (m >>= g) (f >>= k) s R := by
  rcases h.cases with ⟨a, s', hm, hf, h⟩ | ⟨e, he, s', hm, hf, h⟩
  · exact step (bind_of_ok hm) (bind_of_ok hf) (hk a s' h)
  · exact of_err (bind_of_err hm) (bind_of_err hf) h

theorem state {g k : State → Puff β} (h : Meets E (g s) (k s) s R) :
    Meets E (state >>= g) (state >>= k) s R := ⟨h.same, h.ends⟩

/-- an element within the array -/
theorem get {xs : List α} {i : Nat} (hi : i < xs.length) (hQ : ∀ x, xs[i]? = some x → Q x s) :
    Meets E (fetch xs i) (fetch xs i) s Q := by
  have hget : xs[i]? = some xs[i] := List.getElem?_eq_getElem hi
  exact of_ok (fetch_ok.mpr ⟨hget, rfl⟩) (fetch_ok.mpr ⟨hget, rfl⟩) (hQ _ hget)

theorem fetch {xs : List α} {i : Nat} (hi : i < xs.length)
    (hk : ∀ x, xs[i]? = some x → Meets E (g x) (k x) s R) :
    Meets E (fetch xs i >>= g) (fetch xs i >>= k) s R := by
  refine bind (Q := fun x s' => xs[i]? = some x ∧ s' = s) (get hi fun x hx => ⟨hx, rfl⟩) fun x s' h => ?_
  rw [h.2]
  exact hk x h.1

theorem ite {p : Prop} [Decidable p] (h : p → Meets E m f s Q) (h' : ¬ p → Meets E m' f' s Q) :
    Meets E (if p then m else m') (if p then f else f') s Q := by
  by_cases hp : p
  · rw [if_pos hp, if_pos hp]
    exact h hp
  · rw [if_neg hp, if_neg hp]
    exact h' hp

/-- a test that is made by another function -/
theorem decided {p : Prop} [Decidable p] {r : Puff Bool} (hr : r s = .ok (decide p) s)
    (h : p → Meets E m f s Q) (h' : ¬ p → Meets E m' f' s Q) :
    Meets E (r >>= fun b => if b then m else m') (if p then f else f') s Q := by
  by_cases hp : p
  · rw [decide_eq_true hp] at hr
    exact step (bind_of_ok hr) (congrFun (if_pos hp) s) (h hp)
  · rw [decide_eq_false hp] at hr
    exact step (bind_of_ok hr) (congrFun (if_neg hp) s) (h' hp)

end Meets

/-! ## states within bounds -/

/-- the bits that are still to be read -/
def State.left (s : State) : Nat := 8 * (s.input.length - s.incnt) + s.bitcnt

namespace Setting

/-- an array in memory has fewer than `2 ^ 64` elements -/
structure Small (c : Setting) : Prop where
  source : c.source.length < 2 ^ 64
  size : c.size < 2 ^ 64

/-- what holds of the output, also after an error -/
structure Written (c : Setting) (s : State) : Prop where
  output : s.output.length = c.size
  outcnt : s.outcnt ≤ c.size

/-- the counters are within the arrays -/
structure Within (c : Setting) (s : State) : Prop extends c.Written s where
  input : s.input = c.source
  incnt : s.incnt ≤ c.source.length
  lencode : s.lencode = c.lencode
  distcode : s.distcode = c.distcode
  left_le : s.left ≤ 8 * c.source.length

/-- a state between two calls of `bits` -/
structure Sound (c : Setting) (s : State) : Prop extends c.Within s where
  bitcnt : s.bitcnt < 8
  bitbuf : s.bitbuf < 2 ^ s.bitcnt

end Setting

variable {c : Setting} {s : State}

/-! ## bytes -/

theorem next_meets (hc : c.Small) (h : c.Within s) (hlt : s.incnt < c.source.length) :
    Meets c.Written Machine.next next s fun x s' => s' = { s with incnt := s.incnt + 1 } := by
  have hadd : Machine.add s.incnt 1 = s.incnt + 1 := Machine.add_eq (by have := hc.source; omega)
  refine Meets.state (Meets.fetch (by rwa [h.input]) fun x hx => Meets.of_ok ?_ rfl rfl)
  show Outcome.ok x { s with incnt := Machine.add s.incnt 1 } = _
  rw [hadd]

theorem put_meets (hc : c.Small) (h : c.Written s) (hlt : s.outcnt < c.size) (x : UInt8) :
    Meets c.Written (Machine.put x) (put x) s fun _ s' =>
      s' = { s with output := s.output.set s.outcnt x, outcnt := s.outcnt + 1 } := by
  have hadd : Machine.add s.outcnt 1 = s.outcnt + 1 := Machine.add_eq (by have := hc.size; omega)
  have hlen : s.outcnt < s.output.length := by rwa [h.output]
  refine Meets.of_ok ?_ (if_pos hlen) rfl
  show (if s.outcnt < s.output.length then
    Outcome.ok () { s with output := s.output.set s.outcnt x, outcnt := Machine.add s.outcnt 1 }
    else .panic) = _
  rw [hadd, if_pos hlen]

/-! ## bits -/

/-- a byte is loaded -/
theorem Setting.Within.load (h : c.Within s) (hlt : s.incnt < c.source.length) :
    c.Within { s with incnt := s.incnt + 1, bitcnt := s.bitcnt + 8 } ∧
      State.left { s with incnt := s.incnt + 1, bitcnt := s.bitcnt + 8 } = s.left := by
  have hleft : State.left { s with incnt := s.incnt + 1, bitcnt := s.bitcnt + 8 } = s.left := by
    have hin := congrArg List.length h.input
    show 8 * (s.input.length - (s.incnt + 1)) + (s.bitcnt + 8) = 8 * (s.input.length - s.incnt) + s.bitcnt
    omega
  exact ⟨⟨⟨h.output, h.outcnt⟩, h.input, hlt, h.lencode, h.distcode, hleft.trans_le h.left_le⟩, hleft⟩

theorem load_meets (hc : c.Small) {need : Nat} (hneed : need ≤ 16) (n : Nat) : ∀ val s, c.Within s →
    s.bitcnt < need + 8 → need ≤ s.bitcnt + n → val < 2 ^ s.bitcnt →
    Meets c.Written (Machine.load need (n + 1) val) (load need n val) s fun val' s' =>
      c.Within s' ∧ need ≤ s'.bitcnt ∧ s'.bitcnt < need + 8 ∧ val' < 2 ^ s'.bitcnt ∧ s'.left = s.left := by
  induction n with
  | zero =>
    intro val s h hcnt hn hval
    have hm : Machine.load need 1 val s = .ok val s := by
      show (if s.bitcnt < need then _ else _ : Puff Nat) s = _
      rw [if_neg (by omega)]
      rfl
    exact Meets.of_ok hm rfl ⟨h, by omega, hcnt, hval, rfl⟩
  | succ n ih =>
    intro val s h hcnt hn hval
    refine Meets.state (Meets.ite (fun hk => Meets.ite (fun _ => Meets.fail h.toWritten) fun hne => ?_) fun hk =>
      Meets.pure ⟨h, by omega, hcnt, hval, rfl⟩)
    have hlt : s.incnt < c.source.length := by
      rw [h.input] at hne
      exact Nat.lt_of_le_of_ne h.incnt hne
    refine Meets.bind (next_meets hc h hlt) fun x s' hs' => ?_
    have hx : x.toNat < 2 ^ 8 := x.toNat_lt
    rw [hs', Machine.add_eq (a := s.bitcnt) (by omega), Machine.shl_small hx (by omega)]
    obtain ⟨hwithin, hleft⟩ := h.load hlt
    have hval' : val ||| x.toNat <<< s.bitcnt < 2 ^ (s.bitcnt + 8) := by
      refine Nat.or_lt_two_pow (Nat.lt_of_lt_of_le hval (Nat.pow_le_pow_right (by omega) (by omega))) ?_
      rw [Nat.shiftLeft_eq, Nat.add_comm, Nat.pow_add]
      exact Nat.mul_lt_mul_of_pos_right hx (Nat.two_pow_pos _)
    have hrest := ih _ _ hwithin (show s.bitcnt + 8 < need + 8 by omega)
      (show need ≤ s.bitcnt + 8 + n by omega) hval'
    rw [hleft] at hrest
    exact ⟨hrest.same, hrest.ends⟩

/-- **`bits`.**  It ends, with a number of so many bits, and so many are gone. -/
theorem bits_meets (hc : c.Small) (h : c.Sound s) {need : Nat} (hneed : need ≤ 16) :
    Meets c.Written (Machine.bits need) (bits need) s fun v s' =>
      c.Sound s' ∧ v < 2 ^ need ∧ s'.left + need = s.left := by
  refine Meets.state (Meets.bind (load_meets hc hneed need _ s h.toWithin (by have := h.bitcnt; omega)
    (by omega) h.bitbuf) ?_)
  rintro val s' ⟨hw, h1, h2, h3, h4⟩
  have hmask : Machine.sub (Machine.shl 1 need) 1 = 1 <<< need - 1 := by
    have hone : 1 <<< need = 2 ^ need := Nat.one_shiftLeft need
    have hpow : 2 ^ need ≤ 2 ^ 16 := Nat.pow_le_pow_right (by omega) hneed
    have hpos := Nat.two_pow_pos need
    rw [Machine.shl_small (n := 1) (by omega) (by omega), Machine.sub_eq (by omega)]
  have hleft : State.left { s' with bitbuf := val >>> need, bitcnt := s'.bitcnt - need } + need = s.left := by
    rw [← h4]
    show 8 * (s'.input.length - s'.incnt) + (s'.bitcnt - need) + need = 8 * (s'.input.length - s'.incnt) + s'.bitcnt
    omega
  have hle : State.left { s' with bitbuf := val >>> need, bitcnt := s'.bitcnt - need }
      ≤ 8 * c.source.length := by
    have := h.left_le
    omega
  have hbuf : val >>> need < 2 ^ (s'.bitcnt - need) := by
    rw [Nat.shiftRight_eq_div_pow]
    refine Nat.div_lt_of_lt_mul ?_
    rwa [← Nat.pow_add, Nat.add_sub_cancel' h1]
  rw [hmask]
  refine Meets.of_ok (t := { s' with bitbuf := val >>> need, bitcnt := s'.bitcnt - need }) ?_ rfl
    ⟨⟨⟨⟨hw.output, hw.outcnt⟩, hw.input, hw.incnt, hw.lencode, hw.distcode, hle⟩,
      show s'.bitcnt - need < 8 by omega, hbuf⟩, ?_, hleft⟩
  · rw [Machine.sub_eq h1]
  · rw [Nat.one_shiftLeft, Nat.and_two_pow_sub_one_eq_mod]
    exact Nat.mod_lt _ (Nat.two_pow_pos need)

end UNouns.Inflate
