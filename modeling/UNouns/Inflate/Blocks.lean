import UNouns.Inflate.Header
import UNouns.Inflate.Stored

/-!
# Inflate: blocks

* `fixed_ok`, `dynamic_sound`, `dynamic_complete`  the blocks with codes;
* `blocks_sound`, `blocks_complete`                 all blocks, up to the last one;
* `puff_eq`                                         what `puff` returns without an error.
-/

set_option linter.unusedVariables false

namespace UNouns.Inflate

open Bits HuffmanCode Deflate

variable {c : Setting} {rest rest' : List Bool} {out out' : Bytes} {s' : State}

/-! ## fixed codes -/

/-- the tables of the fixed codes are in place -/
structure Setting.Ready (c : Setting) : Prop where
  lencode : Decodes c.lencode (IsWord fixedLengths)
  distcode : Decodes c.distcode (IsWord (List.replicate MAXDCODES 5))

theorem number_replicate (n : Nat) {l : Nat} (hl : l < 5) : number (List.replicate n 5) l = 0 := by
  unfold number
  rw [List.count_replicate]
  by_cases h0 : l = 0
  · rw [if_pos h0]
  · rw [if_neg h0]
    simp only [beq_iff_eq]
    rw [if_neg (by omega)]

/-- words of five bits each stand for themselves -/
theorem isWord_replicate {n v : Nat} {w : List Bool} :
    IsWord (List.replicate n 5) v w ↔ v < n ∧ w.length = 5 ∧ code w = v := by
  have hfirst : first (List.replicate n 5) 5 = 0 := by
    simp [first, number_replicate n]
  have hrank : v < n → rank (List.replicate n 5) v 5 = v := fun hv => by
    unfold rank
    rw [List.take_replicate, List.count_replicate_self, Nat.min_eq_left (Nat.le_of_lt hv)]
  constructor
  · intro h
    have hlen := h.length
    rw [List.getElem?_replicate] at hlen
    by_cases hv : v < n
    · rw [if_pos hv, Option.some.injEq] at hlen
      have hcode := h.code
      rw [← hlen, hfirst, hrank hv, Nat.zero_add] at hcode
      exact ⟨hv, hlen.symm, hcode⟩
    · rw [if_neg hv] at hlen
      cases hlen
  · rintro ⟨hv, hlen, hcode⟩
    refine ⟨?_, ?_, ?_⟩
    · rw [List.getElem?_replicate, if_pos hv, hlen]
    · rintro rfl
      cases hlen
    · rw [hlen, hfirst, hrank hv, hcode, Nat.zero_add]

theorem isWord_distances {v : Nat} {w : List Bool} (hv : v < distanceCodes.length) :
    IsWord (List.replicate MAXDCODES 5) v w ↔ IsWord fixedDistances v w := by
  unfold fixedDistances
  rw [isWord_replicate, isWord_replicate]
  exact and_congr_left fun h => ⟨fun h1 => Nat.lt_of_lt_of_le h1 (by decide), fun h1 => hv⟩

theorem fixed_ok (hc : c.Ready) (hleft : c.Left rest) (hout : out.length ≤ c.size) :
    fixed (c.at rest out) = .ok () s' ↔ ∃ rest' out',
      Items (IsWord fixedLengths) (IsWord fixedDistances) rest out rest' out' ∧ out'.length ≤ c.size ∧
        s' = c.at rest' out' := by
  refine Iff.trans (codes_ok hc.lencode hc.distcode hleft hout) ?_
  constructor
  · rintro ⟨rest', out', h, hs⟩
    exact ⟨rest', out', h.imp (fun _ _ => id) fun s w hv => (isWord_distances hv).mp, hs⟩
  · rintro ⟨rest', out', h, hs⟩
    exact ⟨rest', out', h.imp (fun _ _ => id) fun s w hv => (isWord_distances hv).mpr, hs⟩

theorem fill_over (lengths : List Nat) (value : Nat) (k : Nat) : ∀ acc : List Nat,
    acc.length + k ≤ lengths.length → (List.range' acc.length k).foldl (fun l s => l.set s value)
      (overlay acc lengths) = overlay (acc ++ List.replicate k value) lengths := by
  induction k with
  | zero =>
    intro acc h
    rw [List.replicate_zero, List.append_nil]
    rfl
  | succ k ih =>
    intro acc h
    have hlen : (acc ++ [value]).length = acc.length + 1 := by
      rw [List.length_append, List.length_singleton]
    have ih := ih (acc ++ [value]) (by omega)
    rw [hlen, List.append_assoc] at ih
    rw [List.range'_succ, List.foldl_cons, over_set (by omega)]
    exact ih

theorem fill_eq {acc lengths : List Nat} {symbol stop : Nat} (value : Nat) (hs : acc.length = symbol)
    (hle : symbol ≤ stop) (h : stop ≤ lengths.length) : fill (overlay acc lengths) symbol stop value
      = overlay (acc ++ List.replicate (stop - symbol) value) lengths := by
  subst hs
  exact fill_over lengths value _ acc (by omega)

theorem fixedLengths_length : fixedLengths.length = FIXLCODES := by
  unfold fixedLengths
  simp only [List.length_append, List.length_replicate]
  rfl

theorem fixedLencodeLengths_eq : fixedLencodeLengths = fixedLengths := by
  have hlen : (List.replicate FIXLCODES 0).length = FIXLCODES := List.length_replicate
  have h288 : FIXLCODES = 288 := rfl
  have hnil : ([] : List Nat).length = 0 := rfl
  have hzero : List.replicate FIXLCODES 0 = overlay [] (List.replicate FIXLCODES 0) := rfl
  unfold fixedLencodeLengths
  rw [hzero, fill_eq 8 hnil (by omega) (by omega),
    fill_eq 9 (by simp only [List.length_append, List.length_replicate, hnil]) (by omega) (by omega),
    fill_eq 7 (by simp only [List.length_append, List.length_replicate, hnil]) (by omega) (by omega),
    fill_eq 8 (by simp only [List.length_append, List.length_replicate, hnil]) (by omega)
      (Nat.le_of_eq hlen.symm)]
  unfold overlay
  rw [List.drop_of_length_le (by
    rw [hlen]
    simp only [List.length_append, List.length_replicate, hnil]
    decide), List.append_nil]
  rfl

theorem fixedDistcodeLengths_eq :
    fixedDistcodeLengths = List.replicate MAXDCODES 5 ++ fixedLengths.drop MAXDCODES := by
  have hroom : MAXDCODES ≤ fixedLengths.length := by
    rw [fixedLengths_length]
    decide
  unfold fixedDistcodeLengths
  rw [fixedLencodeLengths_eq]
  exact @fill_eq [] _ _ _ 5 rfl (by decide) hroom

theorem slice_fixedLencode : slice fixedLencodeLengths FIXLCODES 0 = some fixedLengths := by
  have hs := slice_zero fixedLengths []
  rw [List.append_nil, fixedLengths_length] at hs
  rw [fixedLencodeLengths_eq, hs]

theorem slice_fixedDistcode :
    slice fixedDistcodeLengths MAXDCODES 0 = some (List.replicate MAXDCODES 5) := by
  have hs := slice_zero (List.replicate MAXDCODES 5) (fixedLengths.drop MAXDCODES)
  rw [List.length_replicate] at hs
  rw [fixedDistcodeLengths_eq, hs]

theorem fixedLengths_le : ∀ l ∈ fixedLengths, l ≤ MAXBITS := by decide +kernel

theorem fixedDistances_le : ∀ l ∈ List.replicate MAXDCODES 5, l ≤ MAXBITS := by decide

/-- the tables of the fixed codes -/
theorem built_fixed : ∃ l d,
    construct (Huffman.new FIXLCODES) fixedLencodeLengths FIXLCODES 0 = some (verdict fixedLengths, l) ∧
    construct (Huffman.new MAXDCODES) fixedDistcodeLengths MAXDCODES 0
      = some (verdict (List.replicate MAXDCODES 5), d) ∧
    Built (Huffman.new FIXLCODES) fixedLengths l ∧
    Built (Huffman.new MAXDCODES) (List.replicate MAXDCODES 5) d := by
  obtain ⟨l, hl, hbl⟩ := construct_eq (h := Huffman.new FIXLCODES) slice_fixedLencode fixedLengths_length
    fixedLengths_le (Nat.le_of_eq (new_symbols_length _).symm)
  obtain ⟨d, hd, hbd⟩ := construct_eq (h := Huffman.new MAXDCODES) slice_fixedDistcode
    List.length_replicate fixedDistances_le (Nat.le_of_eq (new_symbols_length _).symm)
  exact ⟨l, d, hl, hd, hbl, hbd⟩

theorem construct_fixed : ∃ e l e' d,
    construct (Huffman.new FIXLCODES) fixedLencodeLengths FIXLCODES 0 = some (e, l) ∧
    construct (Huffman.new MAXDCODES) fixedDistcodeLengths MAXDCODES 0 = some (e', d) ∧
    Decodes l (IsWord fixedLengths) ∧ Decodes d (IsWord (List.replicate MAXDCODES 5)) := by
  obtain ⟨l, d, hl, hd, hbl, hbd⟩ := built_fixed
  exact ⟨_, l, _, d, hl, hd, (hbl.table (by decide +kernel)).decodes, (hbd.table (by decide +kernel)).decodes⟩

theorem buildFixedFrom_eq {s : State} {lengths lengths' : List Nat} {e e' : ErrorCode} {l d : Huffman}
    (hl : construct s.lencode lengths FIXLCODES 0 = some (e, l))
    (hd : construct s.distcode lengths' MAXDCODES 0 = some (e', d)) :
    buildFixedFrom lengths lengths' s = .ok () { s with lencode := l, distcode := d } := by
  unfold buildFixedFrom
  rw [state_bind, bind_of_ok (constructed_ok.mpr ⟨hl, rfl⟩)]
  exact bind_of_ok (constructed_ok.mpr ⟨hd, rfl⟩)

/-- the settings in which the blocks of a source are read -/
theorem exists_setting (source : Bytes) (destlen : Nat) : ∃ c : Setting, c.source = source ∧
    c.size = destlen ∧ c.Ready ∧
    buildFixed (State.start source destlen) = .ok () (c.at (ofBytes source) []) := by
  obtain ⟨e, l, e', d, hl, hd, hdl, hdd⟩ := construct_fixed
  refine ⟨⟨source, destlen, l, d⟩, rfl, rfl, ⟨hdl, hdd⟩, ?_⟩
  have hmod : (8 * source.length) % 8 = 0 := Nat.mul_mod_right 8 _
  have hdiv : (8 * source.length) / 8 = source.length := Nat.mul_div_cancel_left _ (by omega)
  rw [buildFixed, buildFixedFrom_eq (s := State.start source destlen) hl hd]
  unfold Setting.at
  rw [ofBytes_length, hmod, hdiv, Nat.sub_self]
  rfl

/-! ## dynamic codes -/

theorem getD_ne_zero {ls : List Nat} {w : List Bool} (h : IsWord ls 256 w) : ls.getD 256 0 ≠ 0 := by
  rw [List.getD_eq_getElem?_getD, h.length]
  exact mt List.length_eq_zero_iff.mp h.ne_nil

theorem dynamic_sound (hleft : c.Left rest) (hout : out.length ≤ c.size)
    (h : dynamic (c.at rest out) = .ok () s') : ∃ ls ds rest1 rest' out',
      Header Tolerated rest ls ds rest1 ∧ Items (IsWord ls) (distanceWords ds) rest1 out rest' out' ∧
      out'.length ≤ c.size ∧ s' = c.at rest' out' := by
  obtain ⟨⟨l, d⟩, s1, h1, h⟩ := bind_ok.mp h
  obtain ⟨ls, ds, rest1, rfl, hleft1, hd, ⟨hheader, hl⟩ | ⟨W, hl, hW⟩⟩ := buildDynamic_sound hleft h1
  · obtain ⟨rest', out', hitems, hs⟩ := (codes_ok hl hd hleft1 hout).mp h
    exact ⟨ls, ds, rest1, rest', out', hheader, hitems, hs⟩
  · obtain ⟨rest', out', hitems, -⟩ := (codes_ok hl hd hleft1 hout).mp h
    obtain ⟨w, hw⟩ := hitems.exists_stop
    exact absurd (hW 256 w hw) (Nat.lt_irrefl 256)

theorem dynamic_complete {ls ds : List Nat} {rest1 : List Bool} (hleft : c.Left rest)
    (hheader : Header Tolerated rest ls ds rest1)
    (hitems : Items (IsWord ls) (distanceWords ds) rest1 out rest' out') (hsize : out'.length ≤ c.size) :
    dynamic (c.at rest out) = .ok () (c.at rest' out') := by
  obtain ⟨w, hw⟩ := hitems.exists_stop
  obtain ⟨l, d, hbuild, hl, hd, -⟩ := buildDynamic_complete out hleft hheader (getD_ne_zero hw)
  have hout := Nat.le_trans hitems.length_le hsize
  exact (bind_of_ok hbuild).trans ((codes_ok hl hd (hheader.suffix.trans hleft) hout).mpr
    ⟨rest', out', hitems, hsize, rfl⟩)

/-! ## one block -/

/-- a block and the two bits of its type -/
theorem block_sound (hc : c.Ready) {x y : Bool} (hleft : c.Left rest) (hout : out.length ≤ c.size)
    (h : block (value [x, y]) (c.at rest out) = .ok () s') : ∃ sets rest' out',
      Block Tolerated distanceWords sets (x :: y :: rest) out rest' out' ∧ out'.length ≤ c.size ∧
      s' = c.at rest' out' := by
  cases x <;> cases y
  · obtain ⟨lo, hi, data, rest', hdata, hrest, hsize, rfl⟩ := (stored_ok hleft hout).mp h
    exact ⟨[], rest', out ++ data, .stored hdata hrest, by rwa [List.length_append], rfl⟩
  · obtain ⟨ls, ds, rest1, rest', out', hheader, hitems, hs⟩ := dynamic_sound hleft hout h
    exact ⟨[ds], rest', out', .dynamic hheader hitems, hs⟩
  · obtain ⟨rest', out', hitems, hs⟩ := (fixed_ok hc hleft hout).mp h
    exact ⟨[], rest', out', .fixed hitems, hs⟩
  · exact (nomatch h)

theorem block_complete (hc : c.Ready) {x y : Bool} {sets : List (List Nat)} (hleft : c.Left rest)
    (h : Block Tolerated distanceWords sets (x :: y :: rest) out rest' out') (hsize : out'.length ≤ c.size) :
    block (value [x, y]) (c.at rest out) = .ok () (c.at rest' out') := by
  have hout := Nat.le_trans h.length_le hsize
  cases h with
  | stored hdata hrest =>
    rw [List.length_append] at hsize
    exact (stored_ok hleft hout).mpr ⟨_, _, _, _, hdata, hrest, hsize, rfl⟩
  | fixed hitems => exact (fixed_ok hc hleft hout).mpr ⟨_, _, hitems, hsize, rfl⟩
  | dynamic hheader hitems => exact dynamic_complete hleft hheader hitems hsize

/-! ## all blocks -/

/-- a block with its mark and its type -/
theorem blocks_eq {x y b : Bool} (hleft : c.Left (b :: x :: y :: rest)) (n : Nat) :
    blocks (n + 1) (c.at (b :: x :: y :: rest) out)
      = (block (value [x, y]) >>= fun _ => if b.toNat = 0 then blocks n else pure ()) (c.at rest out) := by
  refine (bind_of_ok (bits_one hleft)).trans ?_
  have htype : bits 2 (c.at (x :: y :: rest) out) = .ok (value [x, y]) (c.at rest out) :=
    bits_at (hleft.of_append (w := [b])) (by simp)
  exact bind_of_ok htype

theorem exists_three (hleft : c.Left rest) {n : Nat} {s' : State}
    (h : blocks (n + 1) (c.at rest out) = .ok () s') : ∃ b x y rest1, rest = b :: x :: y :: rest1 := by
  obtain ⟨_, s1, h1, h⟩ := bind_ok.mp h
  obtain ⟨u, rest1, rfl, hu, -, rfl⟩ := (bits_ok hleft).mp h1
  obtain ⟨_, s2, h2, -⟩ := bind_ok.mp h
  obtain ⟨w, rest2, rfl, hw, -, -⟩ := (bits_ok hleft.of_append).mp h2
  obtain ⟨b, rfl⟩ := List.length_eq_one_iff.mp hu
  obtain ⟨x, y, rfl⟩ := List.length_eq_two.mp hw
  exact ⟨b, x, y, rest2, rfl⟩

theorem blocks_sound (hc : c.Ready) (n : Nat) : ∀ {rest out s'}, c.Left rest → out.length ≤ c.size →
    blocks n (c.at rest out) = .ok () s' → ∃ sets rest' out',
      Blocks Tolerated distanceWords sets rest out rest' out' ∧ out'.length ≤ c.size ∧
      s' = c.at rest' out' := by
  induction n with
  | zero => exact fun _ _ h => (nomatch h)
  | succ n ih =>
    intro rest out s' hleft hout h
    obtain ⟨b, x, y, rest, rfl⟩ := exists_three hleft h
    have hleft1 : c.Left rest := hleft.of_append (w := [b, x, y])
    rw [blocks_eq hleft] at h
    obtain ⟨⟨⟩, s1, h1, h⟩ := bind_ok.mp h
    obtain ⟨sets, rest1, out1, hblock, hsize, rfl⟩ := block_sound hc hleft1 hout h1
    cases b with
    | false =>
      have hleft2 : c.Left rest1 := hblock.suffix.trans (hleft.of_append (w := [false]))
      obtain ⟨sets', rest', out', hblocks, hs⟩ := ih hleft2 hsize h
      exact ⟨sets ++ sets', rest', out', .more hblock hblocks, hs⟩
    | true =>
      obtain ⟨-, rfl⟩ := pure_ok.mp h
      exact ⟨sets, rest1, out1, .last hblock, hsize, rfl⟩

theorem block_cons {Q : List Nat → Prop} {D : List Nat → Words} {sets : List (List Nat)}
    (h : Block Q D sets rest out rest' out') : ∃ x y rest1, rest = x :: y :: rest1 := by
  cases h with
  | stored h1 h2 => exact ⟨_, _, _, rfl⟩
  | fixed h1 => exact ⟨_, _, _, rfl⟩
  | dynamic h1 h2 => exact ⟨_, _, _, rfl⟩

theorem blocks_complete (hc : c.Ready) {sets : List (List Nat)}
    (h : Blocks Tolerated distanceWords sets rest out rest' out') (hsize : out'.length ≤ c.size) :
    ∀ n, c.Left rest → rest.length < n → blocks n (c.at rest out) = .ok () (c.at rest' out') := by
  induction h with
  | last hblock =>
    intro n hleft hn
    obtain ⟨n, rfl⟩ := Nat.exists_eq_add_one_of_ne_zero (show n ≠ 0 by omega)
    obtain ⟨x, y, rest1, rfl⟩ := block_cons hblock
    rw [blocks_eq hleft, bind_of_ok (block_complete hc (hleft.of_append (w := [true, x, y])) hblock hsize)]
    rfl
  | @more rest rest1 rest' out out1 out' sets sets' hblock hblocks ih =>
    intro n hleft hn
    obtain ⟨n, rfl⟩ := Nat.exists_eq_add_one_of_ne_zero (show n ≠ 0 by omega)
    obtain ⟨x, y, rest2, rfl⟩ := block_cons hblock
    have hle := hblock.suffix.length_le
    have hsize1 := Nat.le_trans hblocks.length_le hsize
    have hleft1 : c.Left rest1 := hblock.suffix.trans (hleft.of_append (w := [false]))
    rw [blocks_eq hleft, bind_of_ok (block_complete hc (hleft.of_append (w := [false, x, y])) hblock hsize1)]
    exact ih hsize n hleft1 (by rw [List.length_cons] at hn; omega)

theorem blocksAfter_eq {build : Puff Unit} {s s1 : State} (h : build s = .ok () s1) :
    blocksAfter build s = blocks (rounds s1) s1 := by
  unfold blocksAfter
  rw [bind_of_ok h, state_bind]

theorem returned_eq {o : Outcome Unit} {output : Bytes} :
    o.returned = some (.errNone, output) ↔ ∃ s, o = .ok () s ∧ s.output = output := by
  cases o with
  | ok a s =>
    constructor
    · intro h
      cases h
      exact ⟨s, rfl, rfl⟩
    · rintro ⟨_, heq, rfl⟩
      cases heq
      rfl
  | err e he s =>
    exact ⟨fun h => absurd (Prod.mk.inj (Option.some.inj h)).1 he, fun ⟨_, h, _⟩ => (nomatch h)⟩
  | panic => exact ⟨fun h => (nomatch h), fun ⟨_, h, _⟩ => (nomatch h)⟩
  | running => exact ⟨fun h => (nomatch h), fun ⟨_, h, _⟩ => (nomatch h)⟩

/-- **What `puff` returns without an error**: the bytes of a stream of blocks, and zeros after them. -/
theorem puff_eq (source : Bytes) (destlen : Nat) (output : Bytes) :
    puff source destlen = some (.errNone, output) ↔ ∃ sets rest out,
      Blocks Tolerated distanceWords sets (ofBytes source) [] rest out ∧ out.length ≤ destlen ∧
      output = out ++ List.replicate (destlen - out.length) 0 := by
  obtain ⟨c, rfl, rfl, hc, hbuild⟩ := exists_setting source destlen
  have hleft : c.Left (ofBytes c.source) := List.suffix_rfl
  have hrounds : rounds (c.at (ofBytes c.source) []) = 8 * c.source.length + 1 := rfl
  show (blocksAfter buildFixed (State.start c.source c.size)).returned = _ ↔ _
  rw [returned_eq, blocksAfter_eq hbuild, hrounds]
  constructor
  · rintro ⟨s, hblocks, rfl⟩
    obtain ⟨sets, rest', out', h1, h2, rfl⟩ := blocks_sound hc _ hleft (Nat.zero_le _) hblocks
    exact ⟨sets, rest', out', h1, h2, rfl⟩
  · rintro ⟨sets, rest, out, h1, h2, rfl⟩
    have hlen := ofBytes_length c.source
    exact ⟨_, blocks_complete hc h1 h2 _ hleft (by omega), rfl⟩

end UNouns.Inflate
