import UNouns.Inflate.Codes
import UNouns.Inflate.Construct

/-!
# Inflate: dynamic blocks

* `readLengths_ok`, `readCodes_sound`, `readCodes_complete`  the lengths in a header;
* `buildDynamic_sound`, `buildDynamic_complete`              the header around them.
-/

set_option linter.unusedVariables false

namespace UNouns.Inflate

open Bits HuffmanCode Deflate

variable {c : Setting} {rest rest' : List Bool} {out : Bytes} {s' : State}

/-! ## the lengths of the code length code -/

/-- the values `vs` at the indices `os` -/
def setAll : List Nat → List Nat → List Nat → List Nat
  | o :: os, v :: vs, l => setAll os vs (l.set o v)
  | _, _, l => l

theorem setAll_length (os : List Nat) : ∀ vs l, (setAll os vs l).length = l.length := by
  induction os with
  | nil => exact fun vs l => rfl
  | cons o os ih =>
    intro vs l
    cases vs with
    | nil => rfl
    | cons v vs => exact (ih vs _).trans List.length_set

theorem setAll_of_notMem {k : Nat} (os : List Nat) : ∀ vs l, k ∉ os → (setAll os vs l)[k]? = l[k]? := by
  induction os with
  | nil => exact fun vs l hk => rfl
  | cons o os ih =>
    intro vs l hk
    cases vs with
    | nil => rfl
    | cons v vs =>
      rw [List.mem_cons, not_or] at hk
      exact (ih vs _ hk.2).trans (List.getElem?_set_ne (Ne.symm hk.1))

theorem setAll_getElem? (os : List Nat) : ∀ {vs l : List Nat} {i o : Nat}, os.Nodup → (∀ k ∈ os, k < l.length) →
    os.length = vs.length → os[i]? = some o → (setAll os vs l)[o]? = vs[i]? := by
  induction os with
  | nil => exact fun hnd hlt hlen ho => (nomatch ho)
  | cons k os ih =>
    intro vs l i o hnd hlt hlen ho
    cases vs with
    | nil => cases hlen
    | cons v vs =>
      have hnd' := List.nodup_cons.mp hnd
      cases i with
      | zero =>
        cases ho
        show (setAll os vs (l.set k v))[k]? = some v
        rw [setAll_of_notMem os vs _ hnd'.1, List.getElem?_set_self (hlt k List.mem_cons_self)]
      | succ i =>
        refine ih hnd'.2 (fun m hm => ?_) (Nat.succ.inj hlen) ho
        rw [List.length_set]
        exact hlt m (List.mem_cons_of_mem k hm)

theorem setAll_append (os os' : List Nat) : ∀ vs vs' l, os.length = vs.length →
    setAll (os ++ os') (vs ++ vs') l = setAll os' vs' (setAll os vs l) := by
  induction os with
  | nil =>
    intro vs vs' l h
    rw [List.length_eq_zero_iff.mp h.symm]
    rfl
  | cons o os ih =>
    intro vs vs' l h
    cases vs with
    | nil => cases h
    | cons v vs => exact ih vs vs' _ (Nat.succ.inj h)

theorem setAll_replicate (os : List Nat) : ∀ l,
    os.foldl (fun lengths o => lengths.set o 0) l = setAll os (List.replicate os.length 0) l := by
  induction os with
  | nil => exact fun l => rfl
  | cons o os ih => exact fun l => ih _

theorem readLengths_ok (os : List Nat) : ∀ {lengths rest l'}, c.Left rest →
    (readLengths os lengths (c.at rest out) = .ok l' s' ↔
      ∃ (xs : List (List Bool)) (rest' : List Bool), rest = xs.flatten ++ rest' ∧
        xs.length = os.length ∧ (∀ x ∈ xs, x.length = 3) ∧
        l' = setAll os (xs.map value) lengths ∧ s' = c.at rest' out) := by
  induction os with
  | nil =>
    intro lengths rest l' hleft
    constructor
    · intro h
      cases h
      exact ⟨[], rest, rfl, rfl, fun x hx => absurd hx List.not_mem_nil, rfl, rfl⟩
    · rintro ⟨xs, rest', rfl, hxs, -, rfl, rfl⟩
      obtain rfl := List.length_eq_zero_iff.mp hxs
      rfl
  | cons o os ih =>
    intro lengths rest l' hleft
    constructor
    · intro h
      obtain ⟨v, s1, h1, h⟩ := bind_ok.mp h
      obtain ⟨x, rest1, rfl, hx, rfl, rfl⟩ := (bits_ok hleft).mp h1
      obtain ⟨xs, rest', rfl, hlen, hxs, rfl, rfl⟩ := (ih hleft.of_append).mp h
      exact ⟨x :: xs, rest', by rw [List.flatten_cons, List.append_assoc], congrArg (· + 1) hlen,
        List.forall_mem_cons.mpr ⟨hx, hxs⟩, rfl, rfl⟩
    · rintro ⟨xs, rest', rfl, hlen, hxs, rfl, rfl⟩
      cases xs with
      | nil => cases hlen
      | cons x xs =>
        rw [List.forall_mem_cons] at hxs
        rw [List.flatten_cons, List.append_assoc] at hleft ⊢
        refine (bind_of_ok ((bits_ok hleft).mpr ⟨x, _, rfl, hxs.1, rfl, rfl⟩)).trans ?_
        exact (ih hleft.of_append).mpr ⟨xs, rest', rfl, Nat.succ.inj hlen, hxs.2, rfl, rfl⟩

theorem ordered_setAll {vs zeros : List Nat} (hvs : vs.length ≤ 19) (hzeros : 19 ≤ zeros.length) :
    Ordered ((setAll order (vs ++ List.replicate (19 - vs.length) 0) zeros).take 19) vs := by
  have hlen : (vs ++ List.replicate (19 - vs.length) 0).length = 19 := by
    rw [List.length_append, List.length_replicate]
    omega
  refine ⟨by rw [List.length_take_of_le (by rwa [setAll_length])], fun i s hs => ?_⟩
  have hall : ∀ k ∈ order, k < 19 := by decide
  have hs19 := hall s (List.mem_of_getElem? hs)
  have hi : i < 19 := (List.getElem?_eq_some_iff.mp hs).1
  rw [List.getElem?_take_of_lt hs19, setAll_getElem? order (by decide)
    (fun k hk => Nat.lt_of_lt_of_le (hall k hk) hzeros) hlen.symm hs, List.getD_eq_getElem?_getD,
    List.getElem?_append]
  by_cases hi' : i < vs.length
  · rw [if_pos hi', List.getElem?_eq_getElem hi']
    rfl
  · rw [if_neg hi', List.getElem?_replicate, if_pos (by omega), List.getElem?_eq_none (by omega)]
    rfl

/-- the array of lengths after `_build_dynamic_lengths` -/
def codeLengths (vs : List Nat) : List Nat :=
  setAll order (vs ++ List.replicate (19 - vs.length) 0) (List.replicate MAXCODES 0)

theorem codeLengths_length (vs : List Nat) : (codeLengths vs).length = MAXCODES := by
  unfold codeLengths
  rw [setAll_length, List.length_replicate]

theorem buildDynamicLengths_ok {lengths : List Nat} (hleft : c.Left rest) :
    buildDynamicLengths (c.at rest out) = .ok lengths s' ↔
      ∃ (hclen : List Bool) (xs : List (List Bool)) (rest' : List Bool),
        rest = hclen ++ (xs.flatten ++ rest') ∧ hclen.length = 4 ∧ xs.length = value hclen + 4 ∧
        (∀ x ∈ xs, x.length = 3) ∧ lengths = codeLengths (xs.map value) ∧ s' = c.at rest' out := by
  have hfold : ∀ (n : Nat) (vs : List Nat), vs.length = n → n ≤ 19 →
      (order.drop n).foldl (fun lengths o => lengths.set o 0)
        (setAll (order.take n) vs (List.replicate MAXCODES 0)) = codeLengths vs := by
    intro n vs hvs hn
    have htake : (order.take n).length = vs.length := by
      rw [hvs, List.length_take_of_le hn]
    have hdrop : (order.drop n).length = 19 - vs.length := by
      rw [hvs, List.length_drop]
      rfl
    rw [setAll_replicate, ← setAll_append _ _ _ _ _ htake, List.take_append_drop, hdrop]
    rfl
  constructor
  · intro h
    obtain ⟨_, s1, h1, h⟩ := bind_ok.mp h
    obtain ⟨hclen, rest1, rfl, hlen, rfl, rfl⟩ := (bits_ok hleft).mp h1
    obtain ⟨l', s2, h2, h⟩ := bind_ok.mp h
    obtain ⟨xs, rest', rfl, hxs, hall, rfl, rfl⟩ := (readLengths_ok _ hleft.of_append).mp h2
    obtain ⟨rfl, rfl⟩ := pure_ok.mp h
    have hlt := value_lt hclen
    rw [hlen] at hlt
    rw [List.length_take_of_le (show value hclen + 4 ≤ 19 by omega)] at hxs
    exact ⟨hclen, xs, rest', rfl, hlen, hxs, hall,
      hfold _ _ (by rw [List.length_map, hxs]) (by omega), rfl⟩
  · rintro ⟨hclen, xs, rest', rfl, hlen, hxs, hall, rfl, rfl⟩
    have hlt := value_lt hclen
    rw [hlen] at hlt
    refine (bind_of_ok ((bits_ok hleft).mpr ⟨hclen, _, rfl, hlen, rfl, rfl⟩)).trans ?_
    refine (bind_of_ok ((readLengths_ok _ hleft.of_append).mpr ⟨xs, rest', rfl, ?_, hall, rfl, rfl⟩)).trans ?_
    · rw [hxs, List.length_take_of_le (show value hclen + 4 ≤ 19 by omega)]
    · exact pure_ok.mpr ⟨hfold _ _ (by rw [List.length_map, hxs]) (by omega), rfl⟩

/-! ## the lengths of the other two codes -/

/-- `acc` written over the first entries of `lengths` -/
def overlay (acc lengths : List Nat) : List Nat := acc ++ lengths.drop acc.length

theorem over_set {acc lengths : List Nat} (h : acc.length < lengths.length) (v : Nat) :
    (overlay acc lengths).set acc.length v = overlay (acc ++ [v]) lengths := by
  unfold overlay
  rw [List.set_append_right _ _ (Nat.le_refl _), Nat.sub_self, List.drop_eq_getElem_cons h,
    List.length_append, List.append_assoc]
  rfl

theorem over_length {acc lengths : List Nat} (h : acc.length ≤ lengths.length) :
    (overlay acc lengths).length = lengths.length := by
  unfold overlay
  rw [List.length_append, List.length_drop]
  omega

theorem store_at (len : Nat) {lengths : List Nat} {s : State} (count : Nat) : ∀ acc : List Nat,
    acc.length + count ≤ lengths.length → store len count acc.length (overlay acc lengths) s
      = .ok (overlay (acc ++ List.replicate count len) lengths) s := by
  induction count with
  | zero =>
    intro acc h
    rw [List.replicate_zero, List.append_nil]
    rfl
  | succ count ih =>
    intro acc h
    have hlen : (acc ++ [len]).length = acc.length + 1 := by
      rw [List.length_append, List.length_singleton]
    have ih := ih (acc ++ [len]) (by omega)
    rw [hlen, List.append_assoc] at ih
    show (if acc.length < (overlay acc lengths).length then _ else _) = _
    rw [if_pos (by rw [over_length (by omega)]; omega), over_set (by omega)]
    exact ih

theorem over_getLast {acc lengths : List Nat} (h : acc.length ≠ 0) :
    (overlay acc lengths)[acc.length - 1]? = acc.getLast? := by
  unfold overlay
  rw [List.getElem?_append_left (by omega), List.getLast?_eq_getElem?]

theorem length_pos_of_appends {acc : List Nat} {s : Nat} {x : List Bool} {ls : List Nat} (h : Appends acc s x ls) :
    0 < ls.length := by
  cases h with
  | length => exact Nat.one_pos
  | previous h1 h2 => rw [List.length_replicate]; omega
  | zeros h1 => rw [List.length_replicate]; omega
  | moreZeros h1 => rw [List.length_replicate]; omega

theorem repetition_sound {acc lengths : List Nat} {symbol len k : Nat} (h16 : 16 ≤ symbol) (h19 : symbol < 19)
    (hleft : c.Left rest)
    (hrep : repetition (overlay acc lengths) acc.length symbol (c.at rest out) = .ok (len, k) s') :
    ∃ x rest', rest = x ++ rest' ∧ Appends acc symbol x (List.replicate k len) ∧ s' = c.at rest' out := by
  rcases ite_ok.mp hrep with ⟨rfl, h⟩ | ⟨hne, hrep⟩
  · clear hrep
    rcases ite_ok.mp h with ⟨-, h⟩ | ⟨hacc, h⟩
    · exact (nomatch h)
    obtain ⟨_, s1, h1, h⟩ := bind_ok.mp h
    obtain ⟨hlast, rfl⟩ := fetch_ok.mp h1
    rw [over_getLast hacc] at hlast
    obtain ⟨_, s2, h2, h⟩ := bind_ok.mp h
    obtain ⟨x, rest', rfl, hx, rfl, rfl⟩ := (bits_ok hleft).mp h2
    cases h
    exact ⟨x, rest', rfl, .previous hlast hx, rfl⟩
  rcases ite_ok.mp hrep with ⟨rfl, h⟩ | ⟨hne', h⟩
  · obtain ⟨_, s2, h2, h⟩ := bind_ok.mp h
    obtain ⟨x, rest', rfl, hx, rfl, rfl⟩ := (bits_ok hleft).mp h2
    cases h
    exact ⟨x, rest', rfl, .zeros hx, rfl⟩
  · obtain rfl : symbol = 18 := by omega
    obtain ⟨_, s2, h2, h⟩ := bind_ok.mp h
    obtain ⟨x, rest', rfl, hx, rfl, rfl⟩ := (bits_ok hleft).mp h2
    cases h
    exact ⟨x, rest', rfl, .moreZeros hx, rfl⟩

variable (out) in
theorem repetition_complete (lengths : List Nat) {acc ls : List Nat} {symbol : Nat} {x : List Bool}
    (h : Appends acc symbol x ls) (h16 : 16 ≤ symbol) (hleft : c.Left (x ++ rest)) :
    ∃ len k, ls = List.replicate k len ∧
      repetition (overlay acc lengths) acc.length symbol (c.at (x ++ rest) out) = .ok (len, k) (c.at rest out) := by
  cases h with
  | length hl => omega
  | @previous l _ hlast hx =>
    have hacc : acc.length ≠ 0 := by
      intro h0
      rw [List.length_eq_zero_iff.mp h0] at hlast
      cases hlast
    refine ⟨l, _, rfl, ite_ok.mpr (.inl ⟨rfl, ite_ok.mpr (.inr ⟨hacc, ?_⟩)⟩)⟩
    refine (bind_of_ok (fetch_ok.mpr ⟨(over_getLast hacc).trans hlast, rfl⟩)).trans ?_
    exact bind_of_ok ((bits_ok hleft).mpr ⟨x, rest, rfl, hx, rfl, rfl⟩)
  | zeros hx =>
    refine ⟨0, _, rfl, ite_ok.mpr (.inr ⟨by omega, ite_ok.mpr (.inl ⟨rfl, ?_⟩)⟩)⟩
    exact bind_of_ok ((bits_ok hleft).mpr ⟨x, rest, rfl, hx, rfl, rfl⟩)
  | moreZeros hx =>
    refine ⟨0, _, rfl, ite_ok.mpr (.inr ⟨by omega, ite_ok.mpr (.inr ⟨by omega, ?_⟩)⟩)⟩
    exact bind_of_ok ((bits_ok hleft).mpr ⟨x, rest, rfl, hx, rfl, rfl⟩)

section
variable {C : Words} {l : Huffman} {total : Nat} {lengths : List Nat}

theorem readCodes_sound (hl : Decodes l C) (hC : ∀ v w, C v w → v < 19) (hroom : total ≤ lengths.length)
    (n : Nat) : ∀ acc {rest ls}, acc.length ≤ total → c.Left rest →
    readCodes l total n acc.length (overlay acc lengths) (c.at rest out) = .ok ls s' →
    ∃ rest' acc', Lengths C total rest acc rest' acc' ∧ ls = overlay acc' lengths ∧ s' = c.at rest' out := by
  induction n with
  | zero => exact fun _ _ _ _ _ h => (nomatch h)
  | succ n ih =>
    intro acc rest ls hacc hleft h
    rcases ite_ok.mp h with ⟨hlt, h⟩ | ⟨hge, h⟩
    · obtain ⟨v, s1, h1, h⟩ := bind_ok.mp h
      obtain ⟨w, rest1, rfl, hw, rfl⟩ := (hl.ok hleft).mp h1
      rcases ite_ok.mp h with ⟨hv, h⟩ | ⟨hv, h⟩
      · have hlen : (acc ++ [v]).length = acc.length + 1 := by
          rw [List.length_append, List.length_singleton]
        rw [bind_of_ok (store_at v 1 acc (by omega)), List.replicate_one, ← hlen] at h
        obtain ⟨rest', acc', hls, rfl, rfl⟩ := ih _ (by omega) hleft.of_append h
        have hmore := Lengths.more (x := []) hw (.length hv) (show acc.length + 1 ≤ total by omega) hls
        exact ⟨rest', acc', hmore, rfl, rfl⟩
      · obtain ⟨⟨len, k⟩, s2, h2, h⟩ := bind_ok.mp h
        obtain ⟨x, rest2, rfl, happ, rfl⟩ :=
          repetition_sound (by omega) (hC v w hw) hleft.of_append h2
        rcases ite_ok.mp h with ⟨-, h⟩ | ⟨hk, h⟩
        · exact (nomatch h)
        have hlen : (acc ++ List.replicate k len).length = acc.length + k := by
          rw [List.length_append, List.length_replicate]
        rw [bind_of_ok (store_at len k acc (by omega)), ← hlen] at h
        obtain ⟨rest', acc', hls, rfl, rfl⟩ := ih _ (by omega) hleft.of_append.of_append h
        refine ⟨rest', acc', .more hw happ ?_ hls, rfl, rfl⟩
        rw [List.length_replicate]
        omega
    · obtain ⟨rfl, rfl⟩ := pure_ok.mp h
      exact ⟨rest, acc, .done (by omega), rfl, rfl⟩

variable (out) in
theorem readCodes_complete (hl : Decodes l C) (hroom : total ≤ lengths.length) {acc acc' : List Nat}
    (h : Lengths C total rest acc rest' acc') : ∀ n, c.Left rest → total < acc.length + n →
    readCodes l total n acc.length (overlay acc lengths) (c.at rest out)
      = .ok (overlay acc' lengths) (c.at rest' out) := by
  induction h with
  | done hacc =>
    intro n hleft hn
    obtain ⟨n, rfl⟩ := Nat.exists_eq_add_one_of_ne_zero (show n ≠ 0 by omega)
    exact ite_ok.mpr (.inr ⟨by omega, rfl⟩)
  | @more w x rest rest' acc acc' ls s hw happ hle hls ih =>
    intro n hleft hn
    obtain ⟨n, rfl⟩ := Nat.exists_eq_add_one_of_ne_zero (show n ≠ 0 by omega)
    have hpos := length_pos_of_appends happ
    have hlen : (acc ++ ls).length = acc.length + ls.length := List.length_append
    have ih := ih n hleft.of_append.of_append (by omega)
    refine ite_ok.mpr (.inl ⟨by omega, ?_⟩)
    refine (bind_of_ok ((hl.ok hleft).mpr ⟨w, _, rfl, hw, rfl⟩)).trans ?_
    by_cases h16 : s < 16
    · have happ' : x = [] ∧ ls = [s] := by
        cases happ with
        | length h1 => exact ⟨rfl, rfl⟩
        | previous h1 h2 => omega
        | zeros h1 => omega
        | moreZeros h1 => omega
      obtain ⟨rfl, rfl⟩ := happ'
      rw [hlen] at ih
      refine ite_ok.mpr (.inl ⟨h16, ?_⟩)
      rw [bind_of_ok (store_at s 1 acc (by rw [List.length_singleton] at hle; omega))]
      exact ih
    · obtain ⟨len, k, rfl, hrep⟩ :=
        repetition_complete out lengths happ (by omega) hleft.of_append
      rw [List.length_replicate] at hle hlen
      rw [hlen] at ih
      refine ite_ok.mpr (.inr ⟨h16, (bind_of_ok hrep).trans (ite_ok.mpr (.inr ⟨by omega, ?_⟩))⟩)
      rw [bind_of_ok (store_at len k acc (by omega))]
      exact ih

end

end UNouns.Inflate
