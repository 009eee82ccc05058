import UNouns.Inflate.Tables

/-!
# Inflate: how tables are built

`_construct` counts the lengths, checks them against the Kraft sum and puts the symbols in place.

* `construct_eq`           its error code, and the table where the set is not over-subscribed;
* `Built.not_rejected_iff` the sets that a header may have: three one-bit words pass where one does.
-/

set_option linter.unusedVariables false

namespace UNouns.Inflate

open Bits HuffmanCode Deflate

variable {ls lengths : List Nat} {h h' : Huffman} {n start : Nat}

/-! ## counting -/

def countsOf (ls : List Nat) : List Nat := (List.range (MAXBITS + 1)).map ls.count

theorem countsOf_getElem? {l : Nat} (hl : l ≤ MAXBITS) : (countsOf ls)[l]? = some (ls.count l) := by
  unfold countsOf
  rw [List.getElem?_map, List.getElem?_range (Nat.lt_succ_of_le hl)]
  rfl

theorem countsOf_getD {l : Nat} (hl : l ≤ MAXBITS) : (countsOf ls).getD l 0 = ls.count l := by
  rw [List.getD_eq_getElem?_getD, countsOf_getElem? hl]
  rfl

theorem countAll_map (ls : List Nat) : ∀ f : Nat → Nat, (∀ l ∈ ls, l ≤ MAXBITS) →
    countAll ls ((List.range (MAXBITS + 1)).map f)
      = some ((List.range (MAXBITS + 1)).map fun l => f l + ls.count l) := by
  induction ls with
  | nil => exact fun f hle => rfl
  | cons l ls ih =>
    intro f hle
    have hl : l < MAXBITS + 1 := Nat.lt_succ_of_le (hle l List.mem_cons_self)
    have hget : ((List.range (MAXBITS + 1)).map f)[l]? = some (f l) := by
      rw [List.getElem?_map, List.getElem?_range hl]
      rfl
    have hset : ((List.range (MAXBITS + 1)).map f).set l (f l + 1)
        = (List.range (MAXBITS + 1)).map fun k => f k + if l = k then 1 else 0 := by
      apply List.ext_getElem?
      intro i
      rw [List.getElem?_set, List.length_map, List.length_range, List.getElem?_map, List.getElem?_map]
      by_cases hi : i < MAXBITS + 1
      · rw [List.getElem?_range hi, Option.map_some, Option.map_some]
        by_cases hli : l = i
        · rw [if_pos hli, if_pos hl, if_pos hli, hli]
        · rw [if_neg hli, if_neg hli]
          rfl
      · rw [if_neg (by omega), List.getElem?_eq_none (by rw [List.length_range]; omega)]
        rfl
    rw [countAll, hget]
    show countAll ls (((List.range (MAXBITS + 1)).map f).set l (f l + 1)) = _
    rw [hset, ih _ fun k hk => hle k (List.mem_cons_of_mem _ hk)]
    congr 2
    funext k
    rw [List.count_cons, Nat.add_assoc, Nat.add_comm (ls.count k)]
    simp

theorem countAll_eq (hle : ∀ l ∈ ls, l ≤ MAXBITS) :
    countAll ls (List.replicate (MAXBITS + 1) 0) = some (countsOf ls) := by
  have h := countAll_map ls (fun _ => 0) hle
  simp only [Nat.zero_add] at h
  exact h

/-! ## the Kraft sum -/

theorem leftOver_eq (k : Nat) : ∀ m, m + k = MAXBITS → kraft ls m ≤ 2 ^ m →
    leftOver (countsOf ls) (List.range' (m + 1) k) (2 ^ m - kraft ls m)
      = if kraft ls MAXBITS ≤ 2 ^ MAXBITS then some (2 ^ MAXBITS - kraft ls MAXBITS) else none := by
  induction k with
  | zero =>
    rintro m rfl h
    exact (if_pos h).symm
  | succ k ih =>
    intro m hm h
    have hnext : kraft ls (m + 1) = 2 * kraft ls m + ls.count (m + 1) := by
      rw [kraft_succ, number_of_pos ls (Nat.succ_pos m)]
    have hdouble : (2 ^ m - kraft ls m) <<< 1 = 2 ^ (m + 1) - 2 * kraft ls m := by
      rw [Nat.shiftLeft_eq, Nat.pow_succ, Nat.sub_mul, Nat.mul_comm (kraft ls m)]
      rfl
    have hp : 2 ^ (m + 1) = 2 * 2 ^ m := Nat.pow_succ'
    rw [List.range'_succ, leftOver, countsOf_getD (show m + 1 ≤ MAXBITS by omega), hdouble]
    by_cases hover : 2 ^ (m + 1) - 2 * kraft ls m < ls.count (m + 1)
    · have hlate := two_pow_mul_kraft_le ls (m + 1) k
      have hlt : 2 ^ k * 2 ^ (m + 1) < 2 ^ k * kraft ls (m + 1) :=
        Nat.mul_lt_mul_of_pos_left (by omega) (Nat.two_pow_pos k)
      rw [← Nat.pow_add, show k + (m + 1) = MAXBITS by omega] at hlt
      rw [show m + 1 + k = MAXBITS by omega] at hlate
      rw [if_pos hover, if_neg (by omega)]
    · rw [if_neg hover, show 2 ^ (m + 1) - 2 * kraft ls m - ls.count (m + 1)
        = 2 ^ (m + 1) - kraft ls (m + 1) by omega]
      exact ih (m + 1) (by omega) (by omega)

/-! ## symbols in place -/

theorem offsets_fold (k : Nat) : k + 1 ≤ MAXBITS →
    ∃ offs, (List.range' 1 k).foldl
        (fun offs len => offs.set (len + 1) (offs.getD len 0 + (countsOf ls).getD len 0))
        (List.replicate (MAXBITS + 1) 0) = offs ∧ offs.length = MAXBITS + 1 ∧
      ∀ l, 1 ≤ l → l ≤ k + 1 → offs[l]? = some (offset ls l) := by
  induction k with
  | zero =>
    refine fun h => ⟨_, rfl, rfl, fun l h1 h2 => ?_⟩
    rw [show l = 1 by omega, offset_one]
    rfl
  | succ k ih =>
    intro h
    obtain ⟨offs, hoffs, hlen, hget⟩ := ih (by omega)
    refine ⟨_, rfl, ?_⟩
    rw [List.range'_concat, List.foldl_append, hoffs, List.foldl_cons, List.foldl_nil,
      show 1 + 1 * k = k + 1 by omega, countsOf_getD (by omega), List.getD_eq_getElem?_getD,
      hget (k + 1) (by omega) (by omega), Option.getD_some, List.length_set]
    refine ⟨hlen, fun l h1 h2 => ?_⟩
    rw [List.getElem?_set]
    by_cases hl : k + 1 + 1 = l
    · rw [if_pos hl, if_pos (by omega), ← hl, offset_succ ls (k + 1), number_of_pos ls (Nat.succ_pos k)]
    · rw [if_neg hl]
      exact hget l h1 (by omega)

theorem offsets_eq : (offsets (countsOf ls)).length = MAXBITS + 1 ∧
    ∀ l, 1 ≤ l → l ≤ MAXBITS → (offsets (countsOf ls))[l]? = some (offset ls l) := by
  obtain ⟨offs, hoffs, hlen, hget⟩ := @offsets_fold ls (MAXBITS - 1) (Nat.le_refl _)
  have h : offsets (countsOf ls) = offs := hoffs
  rw [h]
  exact ⟨hlen, hget⟩

/-- the symbols below `k` stand in their places -/
def Placed (ls : List Nat) (k : Nat) (symbols : List Nat) : Prop :=
  ∀ s < k, ∀ l, ls[s]? = some l → 0 < l → symbols[offset ls l + rank ls s l]? = some s

/-- the offsets after symbol `k` is placed -/
theorem offsets_set {k l : Nat} {offs : List Nat} (hget : ls[k]? = some l) (hl : l ≤ MAXBITS)
    (hlen : offs.length = MAXBITS + 1)
    (hoffs : ∀ m, 1 ≤ m → m ≤ MAXBITS → offs[m]? = some (offset ls m + rank ls k m)) :
    ∀ m, 1 ≤ m → m ≤ MAXBITS →
      (offs.set l (offset ls l + rank ls k l + 1))[m]? = some (offset ls m + rank ls (k + 1) m) := by
  intro m h1 h2
  rw [List.getElem?_set]
  by_cases hm : l = m
  · subst hm
    rw [if_pos rfl, if_pos (by omega), rank_succ ls hget, Nat.add_assoc]
  · rw [if_neg hm, rank_succ_of_ne ls hget hm]
    exact hoffs m h1 h2

/-- a symbol in its place, behind those before it -/
theorem Placed.set {k l : Nat} {symbols : List Nat} (h : Placed ls k symbols) (hget : ls[k]? = some l)
    (hpos : 0 < l) (hlt : offset ls l + rank ls k l < symbols.length) :
    Placed ls (k + 1) (symbols.set (offset ls l + rank ls k l) k) := by
  intro s hs m hm hmpos
  rw [List.getElem?_set]
  rcases Nat.lt_succ_iff_lt_or_eq.mp hs with hs | rfl
  · rw [if_neg (offset_add_rank_ne ls hm hget hmpos hpos hs).symm]
    exact h s hs m hm hmpos
  · rw [hget] at hm
    cases hm
    rw [if_pos rfl, if_pos hlt]

/-- a symbol without a length is passed over -/
theorem Placed.skip {k : Nat} {symbols : List Nat} (h : Placed ls k symbols) (hget : ls[k]? = some 0) :
    Placed ls (k + 1) symbols := by
  intro s hs m hm hpos
  have hne : s ≠ k := by
    rintro rfl
    rw [hget] at hm
    cases hm
    omega
  exact h s (by omega) m hm hpos

/-- **The symbols are put in their places**, if there is room for each. -/
theorem place_placed (hle : ∀ l ∈ ls, l ≤ MAXBITS) (ls' : List Nat) : ∀ k {offs symbols symbols'},
    ls.drop k = ls' → offs.length = MAXBITS + 1 →
    (∀ l, 1 ≤ l → l ≤ MAXBITS → offs[l]? = some (offset ls l + rank ls k l)) →
    Placed ls k symbols → place ls' k offs symbols = some symbols' →
    symbols'.length = symbols.length ∧ Placed ls ls.length symbols' := by
  induction ls' with
  | nil =>
    intro k offs symbols symbols' hdrop hlen hoffs hplaced h
    cases h
    exact ⟨rfl, fun s hs => hplaced s (by
      have := List.drop_eq_nil_iff.mp hdrop
      omega)⟩
  | cons l ls' ih =>
    intro k offs symbols symbols' hdrop hlen hoffs hplaced h
    have hget : ls[k]? = some l := by
      rw [← List.head?_drop, hdrop]
      rfl
    have hnext : ls.drop (k + 1) = ls' := by
      rw [← List.drop_drop, hdrop]
      rfl
    have hl15 := hle l (List.mem_of_getElem? hget)
    by_cases hl : l = 0
    · subst hl
      rw [place, if_neg (not_not.mpr rfl)] at h
      refine ih (k + 1) hnext hlen (fun m h1 h2 => ?_) (hplaced.skip hget) h
      rw [rank_succ_of_ne ls hget (by omega)]
      exact hoffs m h1 h2
    · have hpos : 0 < l := Nat.pos_of_ne_zero hl
      rw [place, if_pos hl, hoffs l hpos hl15] at h
      have hset := offsets_set hget hl15 hlen hoffs
      by_cases hlt : offset ls l + rank ls k l < symbols.length
      · have hstep : place ls' (k + 1) (offs.set l (offset ls l + rank ls k l + 1))
            (symbols.set (offset ls l + rank ls k l) k) = some symbols' := (if_pos hlt).symm.trans h
        have hrest := ih (k + 1) hnext (by rw [List.length_set, hlen]) hset (hplaced.set hget hpos hlt) hstep
        rwa [List.length_set] at hrest
      · exact absurd ((if_neg hlt).symm.trans h) (by simp)

/-- there is room for each symbol if there is for all -/
theorem place_some (hle : ∀ l ∈ ls, l ≤ MAXBITS) (ls' : List Nat) : ∀ k {offs symbols},
    ls.drop k = ls' → offs.length = MAXBITS + 1 →
    (∀ l, 1 ≤ l → l ≤ MAXBITS → offs[l]? = some (offset ls l + rank ls k l)) →
    ls.length ≤ symbols.length → ∃ symbols', place ls' k offs symbols = some symbols' := by
  induction ls' with
  | nil => exact fun k offs symbols _ _ _ _ => ⟨symbols, rfl⟩
  | cons l ls' ih =>
    intro k offs symbols hdrop hlen hoffs hroom
    have hget : ls[k]? = some l := by
      rw [← List.head?_drop, hdrop]
      rfl
    have hnext : ls.drop (k + 1) = ls' := by
      rw [← List.drop_drop, hdrop]
      rfl
    have hl15 := hle l (List.mem_of_getElem? hget)
    by_cases hl : l = 0
    · subst hl
      rw [place, if_neg (not_not.mpr rfl)]
      refine ih (k + 1) hnext hlen (fun m h1 h2 => ?_) hroom
      rw [rank_succ_of_ne ls hget (by omega)]
      exact hoffs m h1 h2
    · have hpos : 0 < l := Nat.pos_of_ne_zero hl
      have hlt : offset ls l + rank ls k l < symbols.length := by
        have h1 := offset_add_rank_lt ls hget hpos (show l < l + 1 by omega)
        have h2 := offset_le_length ls (l + 1)
        omega
      rw [place, if_pos hl, hoffs l hpos hl15]
      show ∃ symbols', (if _ < _ then _ else _) = _
      rw [if_pos hlt]
      exact ih (k + 1) hnext (by rw [List.length_set, hlen]) (offsets_set hget hl15 hlen hoffs)
        (by rwa [List.length_set])

/-- what is in the table is a symbol, or was there before -/
theorem place_mem (ls : List Nat) : ∀ {k offs symbols symbols'}, place ls k offs symbols = some symbols' →
    ∀ x ∈ symbols', x ∈ symbols ∨ x < k + ls.length := by
  induction ls with
  | nil =>
    intro k offs symbols symbols' h x hx
    cases h
    exact .inl hx
  | cons l ls ih =>
    intro k offs symbols symbols' h x hx
    rw [List.length_cons]
    by_cases hl : l = 0
    · rw [place, if_neg (not_not.mpr hl)] at h
      rcases ih h x hx with hx | hx
      · exact .inl hx
      · exact .inr (by omega)
    · rw [place, if_pos hl] at h
      obtain ⟨off, hoff, h⟩ := Option.bind_eq_some_iff.mp h
      by_cases hlt : off < symbols.length
      · rw [if_pos hlt] at h
        rcases ih h x hx with hx | hx
        · rcases List.mem_or_eq_of_mem_set hx with hx | rfl
          · exact .inl hx
          · exact .inr (by omega)
        · exact .inr (by omega)
      · rw [if_neg hlt] at h
        cases h

/-! ## the table -/

/-- the error code for a set of lengths -/
def verdict (ls : List Nat) : ErrorCode :=
  if NoWord ls ∨ Complete ls MAXBITS then .errNone else .errConstruct

theorem count_zero_eq : ls.count 0 = ls.length ↔ NoWord ls := by
  rw [List.count_eq_length]
  exact forall₂_congr fun l hl => eq_comm

/-- `h'` is what `_construct` makes of `h` for the lengths `ls` -/
structure Built (h : Huffman) (ls : List Nat) (h' : Huffman) : Prop where
  counts : h'.counts = countsOf ls
  length : h'.symbols.length = h.symbols.length
  table : kraft ls MAXBITS ≤ 2 ^ MAXBITS → Table h' ls
  /-- an over-subscribed set leaves the symbols as they are -/
  stale : 2 ^ MAXBITS < kraft ls MAXBITS → h'.symbols = h.symbols
  mem : ∀ x ∈ h'.symbols, x ∈ h.symbols ∨ x < ls.length

theorem built_stale (hle : ∀ l ∈ ls, l ≤ MAXBITS) (h1 : kraft ls MAXBITS ≤ 2 ^ MAXBITS → NoWord ls) :
    Built h ls ⟨countsOf ls, h.symbols⟩ where
  counts := rfl
  length := rfl
  table := fun h2 => ⟨hle, fun l => countsOf_getElem?, fun s l hl hpos => by
    have := h1 h2 l (List.mem_of_getElem? hl)
    omega⟩
  stale := fun _ => rfl
  mem := fun x => .inl

/-- **`_construct`.** -/
theorem construct_eq (hs : slice lengths n start = some ls) (hn : ls.length = n)
    (hle : ∀ l ∈ ls, l ≤ MAXBITS) (hroom : n ≤ h.symbols.length) :
    ∃ h', construct h lengths n start = some (verdict ls, h') ∧ Built h ls h' := by
  subst hn
  have hconstruct : construct h lengths ls.length start = if (countsOf ls).getD 0 0 = ls.length then
      some (.errNone, ⟨countsOf ls, h.symbols⟩)
    else (leftOver (countsOf ls) lensByFive 1).elim (some (.errConstruct, ⟨countsOf ls, h.symbols⟩))
      fun left => (place ls 0 (offsets (countsOf ls)) h.symbols).bind fun symbols =>
        some (if left > 0 then .errConstruct else .errNone, ⟨countsOf ls, symbols⟩) := by
    unfold construct
    rw [hs]
    show (countAll ls _).bind _ = _
    rw [countAll_eq hle, Option.bind_some]
    cases leftOver (countsOf ls) lensByFive 1 with
    | none => rfl
    | some left => rfl
  have hkraft0 : kraft ls 0 ≤ 2 ^ 0 := by
    rw [kraft_zero]
    exact Nat.zero_le _
  have hleft := leftOver_eq MAXBITS 0 (Nat.zero_add _) hkraft0
  rw [kraft_zero] at hleft
  have hleft : leftOver (countsOf ls) lensByFive 1 = _ := hleft
  rw [hconstruct, countsOf_getD (Nat.zero_le _), hleft]
  unfold verdict
  by_cases hempty : NoWord ls
  · rw [if_pos (count_zero_eq.mpr hempty), if_pos (.inl hempty)]
    exact ⟨_, rfl, built_stale hle fun h1 => hempty⟩
  rw [if_neg (mt count_zero_eq.mp hempty)]
  by_cases hkraft : kraft ls MAXBITS ≤ 2 ^ MAXBITS
  · obtain ⟨symbols, hplace⟩ := place_some hle ls 0 rfl offsets_eq.1 offsets_eq.2 hroom
    obtain ⟨hlen, hplaced⟩ := place_placed hle ls 0 rfl offsets_eq.1 offsets_eq.2
      (fun s hs => absurd hs (Nat.not_lt_zero s)) hplace
    have hmem := place_mem ls hplace
    rw [Nat.zero_add] at hmem
    have hbuilt : Built h ls ⟨countsOf ls, symbols⟩ :=
      ⟨rfl, hlen, fun h1 => ⟨hle, fun l => countsOf_getElem?, fun s l hl hpos =>
        hplaced s (List.getElem?_eq_some_iff.mp hl).1 l hl hpos⟩, fun h1 => absurd hkraft (by omega), hmem⟩
    rw [if_pos hkraft]
    refine ⟨⟨countsOf ls, symbols⟩, ?_, hbuilt⟩
    show (place ls 0 (offsets (countsOf ls)) h.symbols).bind _ = _
    rw [hplace]
    show some (_, _) = some (_, _)
    by_cases hcomplete : Complete ls MAXBITS
    · have hnone : ¬ 2 ^ MAXBITS - kraft ls MAXBITS > 0 :=
        Nat.not_lt_of_le (Nat.sub_le_of_le_add (Nat.le_trans (Nat.le_of_eq hcomplete.symm) (Nat.le_add_left _ _)))
      rw [if_neg hnone, if_pos (show NoWord ls ∨ Complete ls MAXBITS from .inr hcomplete)]
    · rw [if_pos (Nat.sub_pos_of_lt (Nat.lt_of_le_of_ne hkraft hcomplete)),
        if_neg (not_or.mpr ⟨hempty, hcomplete⟩)]
  · have hincomplete : ¬ Complete ls MAXBITS := fun h1 => hkraft (Nat.le_of_eq h1)
    rw [if_neg hkraft, if_neg (not_or.mpr ⟨hempty, hincomplete⟩)]
    exact ⟨_, rfl, built_stale hle fun h1 => absurd h1 hkraft⟩

/-! ## tables without error -/

theorem slice_some {ls : List Nat} (h : slice lengths n start = some ls) : ls.length = n := by
  unfold slice at h
  split_ifs at h with hle
  cases h
  rw [List.length_take, List.length_drop]
  omega

/-- counting reads no length above the table -/
theorem countAll_lt (ls : List Nat) : ∀ {counts counts' : List Nat}, countAll ls counts = some counts' →
    ∀ l ∈ ls, l < counts.length := by
  induction ls with
  | nil => exact fun _ l hl => absurd hl List.not_mem_nil
  | cons k ls ih =>
    intro counts counts' h l hl
    obtain ⟨count, hcount, h⟩ := Option.bind_eq_some_iff.mp h
    have hrest := ih h
    rw [List.length_set] at hrest
    rcases List.mem_cons.mp hl with rfl | hl
    · exact (List.getElem?_eq_some_iff.mp hcount).1
    · exact hrest l hl

/-- what it says of the lengths that `_construct` returns no error -/
theorem construct_none (hs : slice lengths n start = some ls)
    (h1 : construct h lengths n start = some (.errNone, h')) (h0 : ∃ l ∈ ls, l ≠ 0) :
    Table h' ls ∧ Complete ls MAXBITS := by
  obtain ⟨_, hs', h1⟩ := Option.bind_eq_some_iff.mp h1
  cases hs.symm.trans hs'
  obtain ⟨counts, hcounts, h1⟩ := Option.bind_eq_some_iff.mp h1
  have hle : ∀ l ∈ ls, l ≤ MAXBITS := fun l hl => by
    have := countAll_lt ls hcounts l hl
    rw [List.length_replicate] at this
    omega
  cases hcounts.symm.trans (countAll_eq hle)
  rw [countsOf_getD (Nat.zero_le _)] at h1
  split_ifs at h1 with hempty
  · rw [← slice_some hs] at hempty
    obtain ⟨l, hl, hne⟩ := h0
    exact absurd (count_zero_eq.mp hempty l hl) hne
  have hkraft0 : kraft ls 0 ≤ 2 ^ 0 := by
    rw [kraft_zero]
    exact Nat.zero_le _
  have hleft := leftOver_eq MAXBITS 0 (Nat.zero_add _) hkraft0
  rw [kraft_zero] at hleft
  have hleft : leftOver (countsOf ls) lensByFive 1 = _ := hleft
  rw [hleft] at h1
  by_cases hkraft : kraft ls MAXBITS ≤ 2 ^ MAXBITS
  · rw [if_pos hkraft] at h1
    obtain ⟨symbols, hplace, h1⟩ := Option.bind_eq_some_iff.mp h1
    obtain ⟨_, hplaced⟩ := place_placed hle ls 0 rfl offsets_eq.1 offsets_eq.2
      (fun s hs => absurd hs (Nat.not_lt_zero s)) hplace
    obtain ⟨hcode, rfl⟩ := Prod.mk.inj (Option.some.inj h1)
    refine ⟨⟨hle, fun l => countsOf_getElem?, fun s l hl hpos =>
      hplaced s (List.getElem?_eq_some_iff.mp hl).1 l hl hpos⟩, ?_⟩
    -- nothing is left over
    split_ifs at hcode with hmore
    exact Nat.le_antisymm hkraft (by omega)
  · rw [if_neg hkraft] at h1
    cases (Prod.mk.inj (Option.some.inj h1)).1

/-- **Canonical decoding.**  Where `_construct` returns no error for lengths that are not all zero, the
canonical word of every symbol with a length is as long as that, and is decoded to this symbol wherever
it stands in the input, with no bit more; and no bits are decoded to a symbol of length zero. -/
theorem decode_canonical (hs : slice lengths n start = some ls)
    (h1 : construct h lengths n start = some (.errNone, h')) (h0 : ∃ l ∈ ls, l ≠ 0) :
    (∀ s l, ls[s]? = some l → l ≠ 0 → (word ls s).length = l ∧
      code (word ls s) = first ls l + rank ls s l ∧
      ∀ (c : Setting) (rest : List Bool) (out : Bytes), c.Left (word ls s ++ rest) →
        decode h' (c.at (word ls s ++ rest) out) = .ok s (c.at rest out)) ∧
    ∀ (c : Setting) (rest : List Bool) (out : Bytes) (v : Nat) (s' : State), c.Left rest →
      decode h' (c.at rest out) = .ok v s' → ∃ l, ls[v]? = some l ∧ l ≠ 0 := by
  obtain ⟨T, hcomplete⟩ := construct_none hs h1 h0
  refine ⟨fun s l hl hne => ?_, fun c rest out v s' hleft hdecode => ?_⟩
  · have hkraft := kraft_le_of_le ls (T.le l (List.mem_of_getElem? hl)) (Nat.le_of_eq hcomplete)
    obtain ⟨hlength, hword⟩ := isWord_word ls hl (Nat.pos_of_ne_zero hne) hkraft
    have hcode := hword.code
    rw [hlength] at hcode
    exact ⟨hlength, hcode, fun c rest out hleft => (T.decodes.ok hleft).mpr ⟨_, rest, rfl, hword, rfl⟩⟩
  · obtain ⟨w, _, _, hword, _⟩ := (T.decodes.ok hleft).mp hdecode
    exact ⟨_, hword.length, Nat.ne_of_gt (List.length_pos_of_ne_nil hword.ne_nil)⟩

/-- the words `0`, `10` and `11` -/
theorem decode_canonical_run :
    let c : Setting := ⟨[1], 0, .new 0, .new 0⟩
    let h : Huffman := ⟨[0, 1, 2, 0, 0, 0, 0, 0, 0, 0, 0, 0, 0, 0, 0, 0], [0, 1, 2]⟩
    word [1, 2, 2] 1 = [true, false] ∧
    decode h (c.at ([true, false] ++ List.replicate 6 false) []) = .ok 1 (c.at (List.replicate 6 false) []) := by
  have hs : slice [1, 2, 2] 3 0 = some [1, 2, 2] := rfl
  have h1 : construct (.new 3) [1, 2, 2] 3 0
      = some (.errNone, ⟨[0, 1, 2, 0, 0, 0, 0, 0, 0, 0, 0, 0, 0, 0, 0, 0], [0, 1, 2]⟩) := rfl
  have hleft : Setting.Left ⟨[1], 0, .new 0, .new 0⟩ (word [1, 2, 2] 1 ++ List.replicate 6 false) :=
    ⟨[], rfl⟩
  exact ⟨rfl, ((decode_canonical hs h1 ⟨1, by decide, by decide⟩).1 1 2 rfl (by decide)).2.2 _ _ [] hleft⟩

/-! ## the sets of a header -/

/-- the sets of distance lengths that `_build_dynamic` lets pass -/
def Tolerated (ds : List Nat) : Prop := Proper ds ∨ Flooded ds

theorem verdict_eq : verdict ls = .errNone ↔ NoWord ls ∨ Complete ls MAXBITS := by
  unfold verdict
  by_cases h : NoWord ls ∨ Complete ls MAXBITS
  · rw [if_pos h]
    exact ⟨fun _ => h, fun _ => rfl⟩
  · rw [if_neg h]
    exact ⟨fun h' => (nomatch h'), fun h' => absurd h' h⟩

/-- **Three one-bit words pass for one.** -/
theorem Built.not_rejected_iff (hb : Built h ls h') :
    ¬ Rejected (verdict ls) ls.length h' ↔ Tolerated ls := by
  have hcounts : h'.counts.getD 0 0 + h'.counts.getD 1 0 = ls.count 0 + ls.count 1 := by
    rw [hb.counts, countsOf_getD (Nat.zero_le _), countsOf_getD (by decide)]
  have hverdict : verdict ls ≠ .errNotTerminated ∧ verdict ls ≠ .errOutputExhausted := by
    unfold verdict
    by_cases h : NoWord ls ∨ Complete ls MAXBITS
    · rw [if_pos h]
      exact ⟨ErrorCode.noConfusion, ErrorCode.noConfusion⟩
    · rw [if_neg h]
      exact ⟨ErrorCode.noConfusion, ErrorCode.noConfusion⟩
  unfold Rejected
  rw [hcounts, or_iff_right hverdict.1, or_iff_right hverdict.2, not_and_or, not_not, not_not, ← short_iff,
    verdict_eq]
  constructor
  · rintro ((h | h) | h)
    · exact .inl (.inr (.inr h))
    · exact .inl (.inl h)
    · rcases h.cases 14 with h | h | h | h
      · exact .inl (.inr (.inr h))
      · exact .inl (.inr (.inl h))
      · exact .inl (.inl h)
      · exact .inr h
  · rintro ((h | h | h) | h)
    · exact .inl (.inr h)
    · exact .inr h.1
    · exact .inl (.inl h)
    · exact .inr h.1

end UNouns.Inflate
