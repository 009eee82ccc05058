import UNouns.Inflate.Dynamic

/-!
# Inflate: the header of a dynamic block

* `buildTables_ok`           the two tables at the end of a header;
* `buildDynamic_sound`, `buildDynamic_complete`  headers as the format has them, but for sets of
  three or more one-bit words: such a set of distances reads either bit as the first symbol.
-/

set_option linter.unusedVariables false

namespace UNouns.Inflate

open Bits HuffmanCode Deflate

variable {c : Setting} {rest rest' : List Bool} {out : Bytes} {s' : State} {ls ds : List Nat} {h h' : Huffman}

/-- the words of a set of distance lengths, as the table has them -/
def distanceWords (ds : List Nat) : Words := fun v w =>
  if Flooded ds then v = 0 ∧ w.length = 1 else IsWord ds v w

theorem distanceWords_of_not (h : ¬ Flooded ds) : distanceWords ds = IsWord ds := by
  funext v w
  exact if_neg h

theorem distanceWords_of_flooded (h : Flooded ds) (v : Nat) (w : List Bool) :
    distanceWords ds v w = (v = 0 ∧ w.length = 1) := if_pos h

/-! ## tables -/

@[simp] theorem constructed_ok {lengths : List Nat} {n start : Nat} {r : ErrorCode × Huffman} {s : State} :
    constructed h lengths n start s = .ok r s' ↔ construct h lengths n start = some r ∧ s = s' := by
  unfold constructed
  cases construct h lengths n start with
  | none => exact ⟨fun h => (nomatch h), fun h => (nomatch h.1)⟩
  | some x => exact ⟨fun h => by cases h; exact ⟨rfl, rfl⟩, fun ⟨h, h'⟩ => by cases h; cases h'; rfl⟩

theorem slice_append (a b t : List Nat) : slice (a ++ (b ++ t)) b.length a.length = some b := by
  unfold slice
  rw [if_pos (by simp only [List.length_append]; omega), List.drop_left, List.take_left]

theorem slice_zero (b t : List Nat) : slice (b ++ t) b.length 0 = some b := slice_append [] b t

theorem Built.decodes_flooded (hb : Built h ls h') (hf : Flooded ls) :
    Decodes h' fun v w => ∃ b : Bool, w = [b] ∧ h.symbols[b.toNat]? = some v := by
  have hcount : h'.counts[1]? = some (ls.count 1) := by
    rw [hb.counts]
    exact countsOf_getElem? (by decide)
  have hd := UNouns.Inflate.decodes_flooded hcount (Nat.le_of_succ_le hf.2)
  rwa [hb.stale (hf.lt_kraft 14)] at hd

/-- the distance table -/
theorem Built.decodes (hb : Built (Huffman.new MAXDCODES) ds h) (ht : Tolerated ds) :
    Decodes h (distanceWords ds) := by
  by_cases hf : Flooded ds
  · have hd := hb.decodes_flooded hf
    have hwords : (fun (v : Nat) (w : List Bool) =>
        ∃ b : Bool, w = [b] ∧ (Huffman.new MAXDCODES).symbols[b.toNat]? = some v) = distanceWords ds := by
      funext v w
      have hzero : ∀ b : Bool, (Huffman.new MAXDCODES).symbols[b.toNat]? = some 0 := by decide
      rw [distanceWords_of_flooded hf]
      apply propext
      constructor
      · rintro ⟨b, rfl, hv⟩
        rw [hzero b] at hv
        cases hv
        exact ⟨rfl, rfl⟩
      · rintro ⟨rfl, hw⟩
        obtain ⟨b, rfl⟩ := List.length_eq_one_iff.mp hw
        exact ⟨b, rfl, hzero b⟩
    rwa [hwords] at hd
  · rw [distanceWords_of_not hf]
    exact (hb.table (ht.resolve_right hf).kraft_le).decodes

/-- **The two tables.** -/
theorem buildTables_ok {t : List Nat} (hls : ∀ l ∈ ls, l ≤ MAXBITS) (hds : ∀ l ∈ ds, l ≤ MAXBITS)
    (hlen : 257 ≤ ls.length) (hroom : ls.length ≤ h.symbols.length) (hroom' : ds.length ≤ MAXDCODES) :
    ∃ l d, Built h ls l ∧ Built (Huffman.new MAXDCODES) ds d ∧ ∀ r s s',
      buildTables h (ls ++ (ds ++ t)) ls.length ds.length s = .ok r s' ↔
        ls.getD 256 0 ≠ 0 ∧ Tolerated ls ∧ Tolerated ds ∧ r = (l, d) ∧ s = s' := by
  obtain ⟨l, hl, hbl⟩ := construct_eq (h := h) (slice_zero ls (ds ++ t)) rfl hls hroom
  obtain ⟨d, hd, hbd⟩ := construct_eq (h := Huffman.new MAXDCODES) (slice_append ls ds t) rfl hds hroom'
  have h256 : (ls ++ (ds ++ t)).getD 256 0 = ls.getD 256 0 := by
    rw [List.getD_eq_getElem?_getD, List.getElem?_append_left hlen, ← List.getD_eq_getElem?_getD]
  refine ⟨l, d, hbl, hbd, fun r s s' => ?_⟩
  unfold buildTables
  rw [h256]
  constructor
  · intro h
    rcases ite_ok.mp h with ⟨-, h⟩ | ⟨hne, h⟩
    · exact (nomatch h)
    rw [bind_of_ok (constructed_ok.mpr ⟨hl, rfl⟩)] at h
    rcases ite_ok.mp h with ⟨-, h⟩ | ⟨hrl, h⟩
    · exact (nomatch h)
    rw [bind_of_ok (constructed_ok.mpr ⟨hd, rfl⟩)] at h
    rcases ite_ok.mp h with ⟨-, h⟩ | ⟨hrd, h⟩
    · exact (nomatch h)
    obtain ⟨rfl, rfl⟩ := pure_ok.mp h
    exact ⟨hne, hbl.not_rejected_iff.mp hrl, hbd.not_rejected_iff.mp hrd, rfl, rfl⟩
  · rintro ⟨hne, htl, htd, rfl, rfl⟩
    refine ite_ok.mpr (.inr ⟨hne, (bind_of_ok (constructed_ok.mpr ⟨hl, rfl⟩)).trans ?_⟩)
    refine ite_ok.mpr (.inr ⟨hbl.not_rejected_iff.mpr htl,
      (bind_of_ok (constructed_ok.mpr ⟨hd, rfl⟩)).trans ?_⟩)
    exact ite_ok.mpr (.inr ⟨hbd.not_rejected_iff.mpr htd, rfl⟩)

theorem new_symbols_length (n : Nat) : (Huffman.new n).symbols.length = n := List.length_replicate

/-- the table of the code length code -/
theorem codeLengths_table {xs : List (List Bool)} (hall : ∀ x ∈ xs, x.length = 3) (hlen : xs.length ≤ 19) :
    ∃ cs l, Ordered cs (xs.map value) ∧
      construct (Huffman.new MAXLCODES) (codeLengths (xs.map value)) 19 0 = some (verdict cs, l) ∧
      Built (Huffman.new MAXLCODES) cs l := by
  have hord : Ordered ((codeLengths (xs.map value)).take 19) (xs.map value) :=
    ordered_setAll (by rwa [List.length_map]) (by rw [List.length_replicate]; decide)
  have hslice := slice_zero ((codeLengths (xs.map value)).take 19) ((codeLengths (xs.map value)).drop 19)
  rw [List.take_append_drop, hord.1] at hslice
  have hle : ∀ l ∈ (codeLengths (xs.map value)).take 19, l ≤ MAXBITS := by
    refine hord.le fun v hv => ?_
    obtain ⟨x, hx, rfl⟩ := List.mem_map.mp hv
    have hlt := value_lt x
    rw [hall x hx] at hlt
    exact Nat.le_trans (Nat.le_of_lt hlt) (by decide)
  have hroom : 19 ≤ (Huffman.new MAXLCODES).symbols.length := by
    rw [new_symbols_length]
    decide
  obtain ⟨l, hl, hb⟩ := construct_eq hslice hord.1 hle hroom
  exact ⟨_, l, hord, hl, hb⟩

/-- a literal/length table of three or more one-bit words still has symbols of the code length code -/
theorem Built.lt_of_flooded {cs : List Nat} {l0 l : Huffman} (hb0 : Built (Huffman.new MAXLCODES) cs l0)
    (hcs : cs.length = 19) (hb : Built l0 ls l) (hf : Flooded ls) :
    ∃ W : Words, Decodes l W ∧ ∀ v w, W v w → v < 256 := by
  refine ⟨_, hb.decodes_flooded hf, ?_⟩
  rintro v w ⟨b, rfl, hv⟩
  rcases hb0.mem v (List.mem_of_getElem? hv) with hmem | hlt
  · rw [List.eq_of_mem_replicate hmem]
    omega
  · omega

/-- the literal/length sets that are left when there is a word for 256 -/
theorem complete_or_single (ht : Tolerated ls) (hf : ¬ Flooded ls) (hne : ls.getD 256 0 ≠ 0) :
    Complete ls maxBits ∨ Single ls := by
  rcases ht.resolve_right hf with h1 | h1 | h1
  · exact .inl h1
  · exact .inr h1
  · rw [List.getD_eq_getElem?_getD] at hne
    cases hv : ls[256]? with
    | none =>
      rw [hv] at hne
      exact absurd rfl hne
    | some l =>
      rw [hv, Option.getD_some, h1 l (List.mem_of_getElem? hv)] at hne
      exact absurd rfl hne

/-! ## headers -/

/-- **The header of a dynamic block is as the format has it.** A literal/length set of three or more
one-bit words passes too, but its table has no symbol from 256 on. -/
theorem buildDynamic_sound {l d : Huffman} (hleft : c.Left rest)
    (h : buildDynamic (c.at rest out) = .ok (l, d) s') : ∃ ls ds rest', s' = c.at rest' out ∧
      c.Left rest' ∧ Decodes d (distanceWords ds) ∧
      (Header Tolerated rest ls ds rest' ∧ Decodes l (IsWord ls) ∨
        ∃ W : Words, Decodes l W ∧ ∀ v w, W v w → v < 256) := by
  obtain ⟨_, s1, h1, h⟩ := bind_ok.mp h
  obtain ⟨hlit, rest1, rfl, hlen1, rfl, rfl⟩ := (bits_ok hleft).mp h1
  obtain ⟨_, s2, h2, h⟩ := bind_ok.mp h
  obtain ⟨hdist, rest2, rfl, hlen2, rfl, rfl⟩ := (bits_ok hleft.of_append).mp h2
  rcases ite_ok.mp h with ⟨-, h⟩ | ⟨hmax, h⟩
  · exact (nomatch h)
  obtain ⟨_, s3, h3, h⟩ := bind_ok.mp h
  obtain ⟨hclen, xs, rest3, rfl, hlen3, hxs, hall, rfl, rfl⟩ :=
    (buildDynamicLengths_ok hleft.of_append.of_append).mp h3
  have hlt3 := value_lt hclen
  rw [hlen3] at hlt3
  obtain ⟨cs, l0, hord, hconstruct, hb0⟩ := codeLengths_table hall (by omega)
  rw [bind_of_ok (constructed_ok.mpr ⟨hconstruct, rfl⟩)] at h
  rcases ite_ok.mp h with ⟨-, h⟩ | ⟨hverdict, h⟩
  · exact (nomatch h)
  have hleft3 := hleft.of_append.of_append.of_append.of_append
  have hroom : value hlit + 257 + (value hdist + 1) ≤ (codeLengths (xs.map value)).length := by
    rw [codeLengths_length]
    unfold MAXCODES
    omega
  have hwords := verdict_eq.mp (not_not.mp hverdict)
  have htable := hb0.table (by
    rcases hwords with h1 | h1
    · rw [h1.kraft_eq]
      exact Nat.zero_le _
    · exact Nat.le_of_eq h1)
  have hC : ∀ v w, IsWord cs v w → v < 19 := fun v w hw => by
    rw [← hord.1]
    exact (List.getElem?_eq_some_iff.mp hw.length).1
  obtain ⟨_, s4, h4, h⟩ := bind_ok.mp h
  obtain ⟨rest', acc', hlengths, rfl, rfl⟩ :=
    readCodes_sound htable.decodes hC hroom _ [] (Nat.zero_le _) hleft3 h4
  have hcomplete : Complete cs maxBits := by
    rcases hwords with h1 | h1
    · obtain ⟨v, w, hw⟩ := hlengths.exists_word (by omega)
      have hzero := h1 _ (List.mem_of_getElem? hw.length)
      exact absurd (List.length_eq_zero_iff.mp hzero) hw.ne_nil
    · exact h1
  have hlen := hlengths.length
  have hlt := hlengths.lt fun l hl => absurd hl List.not_mem_nil
  obtain ⟨ls, ds, rfl, hls⟩ : ∃ ls ds, acc' = ls ++ ds ∧ ls.length = value hlit + 257 :=
    ⟨_, _, (List.take_append_drop (value hlit + 257) acc').symm, List.length_take_of_le (by omega)⟩
  rw [List.length_append] at hlen
  rw [List.forall_mem_append] at hlt
  have hds : ds.length = value hdist + 1 := by omega
  have hroom0 : ls.length ≤ l0.symbols.length := by
    rw [hb0.length, new_symbols_length]
    omega
  obtain ⟨l', d', hbl, hbd, htables⟩ := buildTables_ok
    (t := (codeLengths (xs.map value)).drop (ls ++ ds).length) (h := l0)
    (fun l hl => Nat.le_of_lt_succ (hlt.1 l hl)) (fun l hl => Nat.le_of_lt_succ (hlt.2 l hl)) (by omega)
    hroom0 (by omega)
  rw [overlay, List.append_assoc, ← hls, ← hds] at h
  obtain ⟨hne, htl, htd, heq, rfl⟩ := (htables _ _ _).mp h
  obtain ⟨rfl, rfl⟩ := Prod.mk.inj heq
  obtain ⟨u, hu⟩ := hlengths.suffix
  refine ⟨ls, ds, rest', rfl, (hu ▸ hleft3 : c.Left (u ++ rest')).of_append, hbd.decodes htd, ?_⟩
  by_cases hf : Flooded ls
  · exact .inr (hb0.lt_of_flooded hord.1 hbl hf)
  · have hproper := htl.resolve_right hf
    have hmax : ls.length ≤ 286 ∧ ds.length ≤ 30 := by
      unfold MAXLCODES MAXDCODES at hmax
      omega
    refine .inl ⟨.mk hlen1 hlen2 hlen3 hls hds hxs hmax.1 hmax.2 hall hord hcomplete ?_
      (complete_or_single htl hf hne) htd, (hbl.table hproper.kraft_le).decodes⟩
    rw [hls, hds]
    exact hlengths

variable (out) in
/-- every header of the format is read, with distance sets of one-bit words besides -/
theorem buildDynamic_complete (hleft : c.Left rest) (hheader : Header Tolerated rest ls ds rest')
    (hne : ls.getD 256 0 ≠ 0) : ∃ l d, buildDynamic (c.at rest out) = .ok (l, d) (c.at rest' out) ∧
      Decodes l (IsWord ls) ∧ Decodes d (distanceWords ds) ∧ d.counts = countsOf ds := by
  obtain ⟨hlen1, hlen2, hlen3, hls, hds, hxs, hls286, hds30, hall, hord, hcomplete, hlengths, hproper, htd⟩ :=
    hheader
  rename_i hlit hdist hclen xs cs rest
  have hlt3 := value_lt hclen
  rw [hlen3] at hlt3
  have hleft3 := hleft.of_append.of_append.of_append.of_append
  obtain ⟨cs', l0, hord', hconstruct, hb0⟩ := codeLengths_table hall (by omega)
  obtain rfl := hord.unique hord'
  have htable := hb0.table (Nat.le_of_eq hcomplete)
  have hroom : ls.length + ds.length ≤ (codeLengths (xs.map value)).length := by
    rw [codeLengths_length]
    unfold MAXCODES MAXLCODES MAXDCODES
    omega
  have hread := readCodes_complete out htable.decodes hroom hlengths (ls.length + ds.length + 1)
    hleft3 (by omega)
  have hlt := hlengths.lt fun l hl => absurd hl List.not_mem_nil
  rw [List.forall_mem_append] at hlt
  have hroom0 : ls.length ≤ l0.symbols.length := by
    rw [hb0.length, new_symbols_length]
    exact hls286
  obtain ⟨l, d, hbl, hbd, htables⟩ := buildTables_ok
    (t := (codeLengths (xs.map value)).drop (ls ++ ds).length) (h := l0)
    (fun l hl => Nat.le_of_lt_succ (hlt.1 l hl)) (fun l hl => Nat.le_of_lt_succ (hlt.2 l hl)) (by omega)
    hroom0 hds30
  have hkraft : kraft ls MAXBITS ≤ 2 ^ MAXBITS := by
    rcases hproper with h1 | h1
    · exact Nat.le_of_eq h1
    · exact h1.kraft_le 14
  have htl : Tolerated ls := .inl (hproper.imp_right .inl)
  refine ⟨l, d, ?_, (hbl.table hkraft).decodes, hbd.decodes htd, hbd.counts⟩
  refine (bind_of_ok ((bits_ok hleft).mpr ⟨hlit, _, rfl, hlen1, rfl, rfl⟩)).trans ?_
  refine (bind_of_ok ((bits_ok hleft.of_append).mpr ⟨hdist, _, rfl, hlen2, rfl, rfl⟩)).trans ?_
  rw [← hls, ← hds]
  refine ite_ok.mpr (.inr ⟨fun h1 => ?_, ?_⟩)
  · unfold MAXLCODES MAXDCODES at h1
    omega
  refine (bind_of_ok ((buildDynamicLengths_ok hleft.of_append.of_append).mpr
    ⟨hclen, xs, _, rfl, hlen3, hxs, hall, rfl, rfl⟩)).trans ?_
  refine (bind_of_ok (constructed_ok.mpr ⟨hconstruct, rfl⟩)).trans ?_
  refine ite_ok.mpr (.inr ⟨not_not.mpr (verdict_eq.mpr (.inr hcomplete)), (bind_of_ok hread).trans ?_⟩)
  rw [overlay, List.append_assoc]
  exact (htables _ _ _).mpr ⟨hne, htl, htd, rfl, rfl⟩

end UNouns.Inflate
