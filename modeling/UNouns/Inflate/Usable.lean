import UNouns.Inflate.Blocks
import UNouns.Inflate.Words

/-!
# Inflate: tables within bounds

* `Huffman.Usable`     no symbol is looked up behind the table, and each is below a limit;
* `decode_meets`       such a table decodes a symbol, or fails;
* `construct_exact`    `_construct` on machine words;
* `constructed_meets`  what it makes of a usable table is usable, with an error too.
-/

set_option linter.unusedVariables false

namespace UNouns.Inflate

open HuffmanCode

/-! ## decoding -/

/-- as many symbols as the counts say, all below `limit` -/
structure Huffman.Usable (h : Huffman) (limit : Nat) : Prop where
  counts : h.counts.length = MAXBITS + 1
  room : (h.counts.drop 1).sum ≤ h.symbols.length
  few : h.symbols.length ≤ FIXLCODES
  symbols : ∀ x ∈ h.symbols, x < limit

section
variable {c : Setting} {s : State} {h : Huffman} {limit : Nat}

/-- the next count is part of the sum -/
theorem sum_drop {counts : List Nat} {k count : Nat} (h : counts[k]? = some count) :
    (counts.drop k).sum = count + (counts.drop (k + 1)).sum := by
  obtain ⟨hk, hget⟩ := List.getElem?_eq_some_iff.mp h
  rw [List.drop_eq_getElem_cons hk, List.sum_cons, hget]

/-- `first` never exceeds `code`, and the counts that are left have their symbols behind `index` -/
theorem decodeFrom_meets (hc : c.Small) (hu : h.Usable limit) (j : Nat) : ∀ k code first index s,
    k + j = MAXBITS + 1 → 1 ≤ k → c.Sound s → first ≤ code → code < 2 ^ k →
    index + (h.counts.drop k).sum ≤ h.symbols.length →
    Meets c.Written (Machine.decodeFrom h (List.range' k j) code first index)
      (decodeFrom h (List.range' k j) code first index) s fun v s' =>
        c.Sound s' ∧ v < limit ∧ s'.left < s.left := by
  induction j with
  | zero => exact fun k code first index s hk hpos hs hfirst hcode hindex => Meets.fail hs.toWritten
  | succ j ih =>
    intro k code first index s hk hpos hs hfirst hcode hindex
    have h15 : MAXBITS = 15 := rfl
    have h288 : FIXLCODES = 288 := rfl
    have hfew := hu.few
    rw [List.range'_succ]
    refine Meets.bind (bits_meets hc hs (show 1 ≤ 16 by omega)) ?_
    rintro b s1 ⟨hs1, hb, hleft⟩
    refine Meets.fetch (by rw [hu.counts]; omega) fun count hcount => ?_
    have hsum := sum_drop hcount
    have hpow : 2 ^ k ≤ 2 ^ 15 := Nat.pow_le_pow_right (by omega) (by omega)
    have hle : code ≤ code ||| b := Nat.left_le_or
    have hlt : code ||| b < 2 ^ k :=
      Nat.or_lt_two_pow hcode (Nat.lt_of_lt_of_le hb (Nat.pow_le_pow_right (by omega) hpos))
    rw [Machine.add_eq (a := first) (by omega)]
    refine Meets.ite (fun hin => ?_) fun hout => ?_
    · have hsub : (code ||| b) - first < count := by omega
      rw [Machine.sub_eq (by omega), Machine.add_eq (by omega)]
      refine Meets.get (by omega) fun x hx => ⟨hs1, hu.symbols x (List.mem_of_getElem? hx), by omega⟩
    · have hshl : ∀ a, a ≤ (code ||| b) → Machine.shl a 1 = a <<< 1 := fun a ha =>
        Machine.shl_small (n := 15) (by omega) (by omega)
      rw [hshl _ (Nat.le_refl _), hshl _ (by omega), Machine.add_eq (a := index) (by omega)]
      refine (ih (k + 1) _ _ _ s1 (by omega) (by omega) hs1 ?_ ?_ (by omega)).mono ?_
      · rw [Nat.shiftLeft_eq, Nat.shiftLeft_eq]
        omega
      · rw [Nat.shiftLeft_eq, Nat.pow_succ]
        omega
      · rintro v s2 ⟨hs2, hv, hl⟩
        exact ⟨hs2, hv, by omega⟩

/-- **`_decode`.**  Bits are gone, and the symbol is one of the table. -/
theorem decode_meets (hc : c.Small) (hu : h.Usable limit) (hs : c.Sound s) :
    Meets c.Written (Machine.decode h) (decode h) s fun v s' =>
      c.Sound s' ∧ v < limit ∧ s'.left < s.left :=
  decodeFrom_meets hc hu MAXBITS 1 0 0 0 s rfl (Nat.le_refl 1) hs (Nat.le_refl 0) (by decide)
    (by rw [Nat.zero_add]; exact hu.room)

end

/-! ## `_construct` on machine words -/

section
variable {h : Huffman} {lengths ls : List Nat} {n start : Nat}

/-- elements are set one after the other, all of them there -/
theorem foldlM_set (v : Nat) (is : List Nat) : ∀ xs : List Nat, (∀ i ∈ is, i < xs.length) →
    is.foldlM (fun xs i => if i < xs.length then some (xs.set i v) else none) xs
      = some (is.foldl (fun xs i => xs.set i v) xs) := by
  induction is with
  | nil => exact fun xs h => rfl
  | cons i is ih =>
    intro xs h
    have hi := h i List.mem_cons_self
    have hrest : ∀ k ∈ is, k < (xs.set i v).length := fun k hk => by
      rw [List.length_set]
      exact h k (List.mem_cons_of_mem _ hk)
    rw [List.foldlM_cons, if_pos hi]
    exact ih _ hrest

theorem clear_eq {counts : List Nat} (h : counts.length = MAXBITS + 1) :
    Machine.clear counts = some (List.replicate (MAXBITS + 1) 0) := by
  have hfill : fill (overlay [] counts) 0 (MAXBITS + 1) 0 = overlay (List.replicate (MAXBITS + 1) 0) counts :=
    fill_eq 0 rfl (Nat.zero_le (MAXBITS + 1)) (Nat.le_of_eq h.symm)
  have hover : overlay (List.replicate (MAXBITS + 1) 0) counts = List.replicate (MAXBITS + 1) 0 := by
    unfold overlay
    rw [List.length_replicate, ← h, List.drop_length, List.append_nil, h]
  unfold Machine.clear
  rw [foldlM_set 0 _ _ fun i hi => by rw [h]; exact List.mem_range.mp hi, List.range_eq_range']
  exact congrArg some (hfill.trans hover)

/-- the lengths that are counted and those that are placed -/
theorem drop_take_succ {i j l : Nat} (h : lengths[i]? = some l) :
    (lengths.drop i).take (j + 1) = l :: (lengths.drop (i + 1)).take j := by
  obtain ⟨hi, hget⟩ := List.getElem?_eq_some_iff.mp h
  rw [List.drop_eq_getElem_cons hi, hget, List.take_succ_cons]

theorem countAll_exact (hlen : lengths.length < 2 ^ 64) (j : Nat) : ∀ i counts,
    start + i + j ≤ lengths.length → (∀ x ∈ counts, x ≤ i) →
    Machine.countAll lengths start (List.range' i j) counts
      = countAll ((lengths.drop (start + i)).take j) counts := by
  induction j with
  | zero => exact fun i counts _ _ => rfl
  | succ j ih =>
    intro i counts hroom hcounts
    have hget : lengths[start + i]? = some lengths[start + i] := List.getElem?_eq_getElem (by omega)
    rw [List.range'_succ, drop_take_succ hget, Machine.countAll, countAll, Machine.add_eq (by omega), hget]
    show (counts[lengths[start + i]]?).bind _ = (counts[lengths[start + i]]?).bind _
    cases hcount : counts[lengths[start + i]]? with
    | none => rfl
    | some count =>
      have hle := hcounts count (List.mem_of_getElem? hcount)
      show Machine.countAll lengths start _ (counts.set _ (Machine.add count 1)) = _
      rw [Machine.add_eq (by omega)]
      refine ih (i + 1) _ (by omega) fun x hx => ?_
      rcases List.mem_or_eq_of_mem_set hx with hx | rfl
      · have := hcounts x hx
        omega
      · omega

theorem getElem?_getD {xs : List Nat} {i : Nat} (h : i < xs.length) : xs[i]? = some (xs.getD i 0) := by
  rw [List.getD_eq_getElem?_getD, List.getElem?_eq_getElem h, Option.getD_some]

theorem leftOver_exact {counts : List Nat} (hlen : counts.length = MAXBITS + 1) (j : Nat) : ∀ k left,
    k + 1 + j = MAXBITS + 1 → left ≤ 2 ^ k →
    Machine.leftOver counts (List.range' (k + 1) j) left
      = some (leftOver counts (List.range' (k + 1) j) left) := by
  induction j with
  | zero => exact fun k left _ _ => rfl
  | succ j ih =>
    intro k left hk hleft
    have h15 : MAXBITS = 15 := rfl
    have hpow : 2 ^ k ≤ 2 ^ 15 := Nat.pow_le_pow_right (by omega) (by omega)
    have hget : counts[k + 1]? = some (counts.getD (k + 1) 0) := getElem?_getD (by omega)
    have hdouble : left <<< 1 = left * 2 := Nat.shiftLeft_eq left 1
    rw [List.range'_succ, Machine.leftOver, leftOver, hget]
    show (if Machine.shl left 1 < _ then _ else _) = _
    rw [Machine.shl_small (n := 16) (by omega) (by omega)]
    by_cases hover : left <<< 1 < counts.getD (k + 1) 0
    · rw [if_pos hover, if_pos hover]
    · rw [if_neg hover, if_neg hover, Machine.sub_eq (by omega)]
      exact ih (k + 1) _ (by omega) (by rw [Nat.pow_succ]; omega)

theorem offsetsFrom_exact {counts : List Nat} {m : Nat} (hlen : counts.length = MAXBITS + 1)
    (hm : ∀ x ∈ counts, x ≤ m) (hsmall : m < 2 ^ 64) (j : Nat) : ∀ k offs, k + j = MAXBITS →
    offs.length = MAXBITS + 1 → (∀ x ∈ offs, x ≤ k * m) →
    Machine.offsetsFrom counts (List.range' k j) offs
      = some ((List.range' k j).foldl
          (fun offs len => offs.set (len + 1) (offs.getD len 0 + counts.getD len 0)) offs) := by
  induction j with
  | zero => exact fun k offs _ _ _ => rfl
  | succ j ih =>
    intro k offs hk hoffs hle
    have h15 : MAXBITS = 15 := rfl
    have hkm : k * m ≤ 15 * m := Nat.mul_le_mul_right m (by omega)
    have hget : counts[k]? = some (counts.getD k 0) := getElem?_getD (by omega)
    have hoff : offs[k]? = some (offs.getD k 0) := getElem?_getD (by omega)
    have h1 := hle _ (List.mem_of_getElem? hoff)
    have h2 := hm _ (List.mem_of_getElem? hget)
    rw [List.range'_succ, Machine.offsetsFrom, hoff, hget]
    show (if k + 1 < offs.length then _ else _) = _
    rw [if_pos (by omega), Machine.add_eq (by omega)]
    refine ih (k + 1) _ (by omega) (by rw [List.length_set, hoffs]) fun x hx => ?_
    rw [Nat.succ_mul]
    rcases List.mem_or_eq_of_mem_set hx with hx | rfl
    · have := hle x hx
      omega
    · omega

theorem place_exact (hlen : lengths.length < 2 ^ 64) (j : Nat) : ∀ i offs symbols,
    start + i + j ≤ lengths.length → symbols.length < 2 ^ 64 →
    Machine.place lengths start (List.range' i j) offs symbols
      = place ((lengths.drop (start + i)).take j) i offs symbols := by
  induction j with
  | zero => exact fun i offs symbols _ _ => rfl
  | succ j ih =>
    intro i offs symbols hroom hsymbols
    have hget : lengths[start + i]? = some lengths[start + i] := List.getElem?_eq_getElem (by omega)
    rw [List.range'_succ, drop_take_succ hget, Machine.place, place, Machine.add_eq (by omega), hget]
    show (if lengths[start + i] ≠ 0 then _ else _) = _
    by_cases h0 : lengths[start + i] ≠ 0
    · rw [if_pos h0, if_pos h0]
      cases hoff : offs[lengths[start + i]]? with
      | none => rfl
      | some off =>
        show (if off < symbols.length then _ else _) = (if off < symbols.length then _ else _)
        by_cases hlt : off < symbols.length
        · rw [if_pos hlt, if_pos hlt, Machine.add_eq (by omega)]
          exact ih (i + 1) _ _ (by omega) (by rwa [List.length_set])
        · rw [if_neg hlt, if_neg hlt]
    · rw [if_neg h0, if_neg h0]
      exact ih (i + 1) _ _ (by omega) hsymbols

theorem countsOf_length : (countsOf ls).length = MAXBITS + 1 := by
  unfold countsOf
  rw [List.length_map, List.length_range]

theorem countsOf_le : ∀ x ∈ countsOf ls, x ≤ ls.length := by
  intro x hx
  obtain ⟨l, _, rfl⟩ := List.mem_map.mp hx
  exact List.count_le_length

/-- **`_construct`.**  Nothing wraps, and every index is in bounds. -/
theorem construct_exact (hcounts : h.counts.length = MAXBITS + 1) (hsymbols : h.symbols.length < 2 ^ 64)
    (hlen : lengths.length < 2 ^ 64) (hs : slice lengths n start = some ls) (hle : ∀ l ∈ ls, l ≤ MAXBITS) :
    Machine.construct h lengths n start = construct h lengths n start := by
  have hn := slice_some hs
  have hroom : start + n ≤ lengths.length := by
    unfold slice at hs
    split_ifs at hs with hroom
    exact hroom
  have hls : (lengths.drop start).take n = ls := by
    unfold slice at hs
    rw [if_pos hroom] at hs
    exact Option.some.inj hs
  have hzero : ∀ x ∈ List.replicate (MAXBITS + 1) 0, x ≤ 0 := fun x hx => Nat.le_of_eq (List.eq_of_mem_replicate hx)
  have hcount : Machine.countAll lengths start (List.range n) (List.replicate (MAXBITS + 1) 0)
      = some (countsOf ls) := by
    rw [List.range_eq_range', countAll_exact hlen n 0 _ (by omega) hzero, Nat.add_zero, hls, countAll_eq hle]
  have hleft : Machine.leftOver (countsOf ls) lensByFive 1 = some (leftOver (countsOf ls) lensByFive 1) :=
    leftOver_exact countsOf_length MAXBITS 0 1 (by omega) (Nat.le_refl 1)
  have hoffs : Machine.offsets (countsOf ls) = some (offsets (countsOf ls)) :=
    offsetsFrom_exact countsOf_length countsOf_le (by omega) (MAXBITS - 1) 1 _ rfl List.length_replicate
      fun x hx => by rw [List.eq_of_mem_replicate hx]; exact Nat.zero_le _
  have hplace : Machine.place lengths start (List.range n) (offsets (countsOf ls)) h.symbols
      = place ls 0 (offsets (countsOf ls)) h.symbols := by
    rw [List.range_eq_range', place_exact hlen n 0 _ _ (by omega) hsymbols, Nat.add_zero, hls]
  have hget : (countsOf ls)[0]? = some ((countsOf ls).getD 0 0) :=
    getElem?_getD (by rw [countsOf_length]; exact Nat.succ_pos _)
  unfold Machine.construct construct
  rw [clear_eq hcounts, hs]
  show (Machine.countAll lengths start _ _).bind _ = (countAll ls _).bind _
  rw [hcount, countAll_eq hle, Option.bind_some, Option.bind_some, hget]
  show (if (countsOf ls).getD 0 0 = n then _ else _) = (if (countsOf ls).getD 0 0 = n then _ else _)
  by_cases h0 : (countsOf ls).getD 0 0 = n
  · rw [if_pos h0, if_pos h0]
  · rw [if_neg h0, if_neg h0, hleft, Option.bind_eq_bind, Option.bind_some]
    cases leftOver (countsOf ls) lensByFive 1 with
    | none => rfl
    | some left =>
      show (Machine.offsets _).bind _ = _
      rw [hoffs]
      show (Machine.place _ _ _ _ _).bind _ = _
      rw [hplace]
      rfl

/-! ## what `_construct` makes of a usable table -/

theorem sum_counts (ls : List Nat) (m : Nat) : ((List.range' 1 m).map ls.count).sum = offset ls (m + 1) := by
  induction m with
  | zero => exact (offset_one ls).symm
  | succ m ih =>
    rw [List.range'_1_concat, List.map_append, List.sum_append, ih, offset_succ ls (m + 1), Nat.add_comm 1 m]
    rfl

/-- the lengths but zero -/
theorem sum_countsOf_le (ls : List Nat) : ((countsOf ls).drop 1).sum ≤ ls.length := by
  have h := sum_counts ls MAXBITS
  have hdrop : (countsOf ls).drop 1 = (List.range' 1 MAXBITS).map ls.count := rfl
  rw [hdrop, h]
  exact offset_le_length ls _

/-- also where the set is over-subscribed -/
theorem Built.usable {limit : Nat} {h' : Huffman} (hb : Built h ls h')
    (hroom : ls.length ≤ h.symbols.length) (hu : h.Usable limit) (hlimit : ls.length ≤ limit) :
    h'.Usable limit where
  counts := by rw [hb.counts, countsOf_length]
  room := by
    rw [hb.counts, hb.length]
    exact Nat.le_trans (sum_countsOf_le ls) hroom
  few := by rw [hb.length]; exact hu.few
  symbols := fun x hx => (hb.mem x hx).elim (hu.symbols x) fun h => Nat.lt_of_lt_of_le h hlimit

theorem new_usable {limit : Nat} (hn : n ≤ FIXLCODES) (hpos : 0 < limit) : (Huffman.new n).Usable limit where
  counts := List.length_replicate
  room := by
    have hzero : ((Huffman.new n).counts.drop 1).sum = 0 := rfl
    rw [hzero]
    exact Nat.zero_le _
  few := by rw [new_symbols_length]; exact hn
  symbols := fun x hx => by rw [List.eq_of_mem_replicate hx]; exact hpos

theorem constructed_meets {E : State → Prop} {s : State} {limit : Nat} (hu : h.Usable limit)
    (hlen : lengths.length < 2 ^ 64) (hslice : slice lengths n start = some ls)
    (hle : ∀ l ∈ ls, l ≤ MAXBITS) (hroom : n ≤ h.symbols.length) (hlimit : n ≤ limit) :
    Meets E (Machine.constructed h lengths n start) (constructed h lengths n start) s
      fun r s' => s' = s ∧ r.1 = verdict ls ∧ Built h ls r.2 ∧ r.2.Usable limit := by
  have hn := slice_some hslice
  obtain ⟨h', hconstruct, hb⟩ := construct_eq hslice hn hle hroom
  have hexact := construct_exact hu.counts (by have h288 : FIXLCODES = 288 := rfl; have := hu.few; omega)
    hlen hslice hle
  refine Meets.of_ok (a := (verdict ls, h')) (t := s) ?_ (constructed_ok.mpr ⟨hconstruct, rfl⟩)
    ⟨rfl, rfl, hb, hb.usable (by omega) hu (by omega)⟩
  unfold Machine.constructed
  rw [hexact, hconstruct]

end

end UNouns.Inflate
