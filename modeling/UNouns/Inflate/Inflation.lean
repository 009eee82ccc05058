import UNouns.Inflate.Blocks

/-!
# Inflate: completeness and soundness

* `puff_decompresses`  every valid stream is decompressed;
* `blocks_unique`      a source has one reading as blocks;
* `puff_sound_iff`     what is decompressed without an error is a valid stream, but for a set of
  three or more one-bit distance words, which passes for a set of one.
-/

set_option linter.unusedVariables false

namespace UNouns.Inflate

open Bits HuffmanCode Deflate

variable {c : Setting} {rest r r' : List Bool} {out o o' : Bytes} {sets sets' : List (List Nat)}

/-! ## completeness -/

theorem tolerated_of_proper {ds : List Nat} (h : Proper ds) :
    Tolerated ds ∧ ∀ v w, IsWord ds v w → distanceWords ds v w := by
  rw [distanceWords_of_not h.not_flooded]
  exact ⟨.inl h, fun v w => id⟩

theorem blocks_of_proper (h : Blocks Proper IsWord sets rest out r o) :
    Blocks Tolerated distanceWords sets rest out r o :=
  h.imp fun ds hds hp => tolerated_of_proper hp

/-- a stream of the size that is said -/
theorem puff_blocks {source out : Bytes} (h : Blocks Tolerated distanceWords sets (ofBytes source) [] rest out) :
    puff source out.length = some (.errNone, out) := by
  refine (puff_eq source out.length out).mpr ⟨sets, rest, out, h, Nat.le_refl _, ?_⟩
  rw [Nat.sub_self, List.replicate_zero, List.append_nil]

/-- **Every valid stream is decompressed.** -/
theorem puff_decompresses {source out : Bytes} (h : Decompresses source out) :
    puff source out.length = some (.errNone, out) := by
  obtain ⟨sets, rest, hblocks⟩ := h
  exact puff_blocks (blocks_of_proper hblocks)

/-- a fixed block: a literal, and three copies of it -/
theorem copies_decompresses : Decompresses [75, 4, 2, 0] [97, 97, 97, 97] := by
  have hbits : ofBytes [75, 4, 2, 0] = true :: true :: false ::
      ([true, false, false, true, false, false, false, true] ++
        ([false, false, false, false, false, false, true] ++ ([] ++ ([false, false, false, false, false] ++
          ([] ++ ([false, false, false, false, false, false, false] ++ [false, false])))))) := by decide
  have hstop : IsWord fixedLengths 256 [false, false, false, false, false, false, false] :=
    ⟨by decide +kernel, by decide, by decide +kernel⟩
  have hlit : IsWord fixedLengths (97 : UInt8).toNat [true, false, false, true, false, false, false, true] :=
    ⟨by decide +kernel, by decide, by decide +kernel⟩
  have hlen : IsWord fixedLengths (257 + 0) [false, false, false, false, false, false, true] :=
    ⟨by decide +kernel, by decide, by decide +kernel⟩
  have hdist : IsWord fixedDistances 0 [false, false, false, false, false] :=
    ⟨by decide +kernel, by decide, by decide +kernel⟩
  have hcopied : copied (1 + value []) (3 + value []) ([] ++ [97]) = [97, 97, 97, 97] := by decide
  have hcode : lengthCodes[0]? = some (3, ([] : List Bool).length) := rfl
  have hcode' : distanceCodes[0]? = some (1, ([] : List Bool).length) := rfl
  have hback : 1 + value [] ≤ ([] ++ [97] : Bytes).length := by decide
  have h1 : Items (IsWord fixedLengths) (IsWord fixedDistances) _ (copied (1 + value []) (3 + value []) ([] ++ [97]))
      [false, false] _ := Items.stop hstop
  have h2 := Items.copy hlen hcode hdist hcode' hback h1
  have h3 := Blocks.last (Block.fixed (Q := Proper) (D := IsWord) (Items.literal hlit h2))
  rw [hcopied] at h3
  exact ⟨[], [false, false], hbits ▸ h3⟩

theorem puff_decompresses_run : Decompresses [75, 4, 2, 0] [97, 97, 97, 97] ∧
    puff [75, 4, 2, 0] ([97, 97, 97, 97] : Bytes).length = some (.errNone, [97, 97, 97, 97]) :=
  ⟨copies_decompresses, puff_decompresses copies_decompresses⟩

/-! ## soundness -/

theorem at_injective (h : c.Left r) (h' : c.Left r') (heq : c.at r o = c.at r' o') : r = r' ∧ o = o' := by
  have hcnt : o.length = o'.length := congrArg State.outcnt heq
  have hout : o ++ _ = o' ++ _ := congrArg State.output heq
  have hinc : c.source.length - r.length / 8 = c.source.length - r'.length / 8 := congrArg State.incnt heq
  have hbit : r.length % 8 = r'.length % 8 := congrArg State.bitcnt heq
  have hl := h.length_le
  have hl' := h'.length_le
  have hlen : r.length = r'.length := by omega
  exact ⟨(List.suffix_of_suffix_length_le h h' (Nat.le_of_eq hlen)).eq_of_length hlen,
    (List.append_inj hout hcnt).1⟩

theorem not_flooded_of_counts {ds ds' : List Nat} (h : countsOf ds = countsOf ds') (hf : Flooded ds) :
    ¬ Proper ds' := by
  intro hp
  have hcount : ds.count 1 = ds'.count 1 := by
    have h1 : (countsOf ds)[1]? = _ := countsOf_getElem? (by decide)
    have h2 : (countsOf ds')[1]? = _ := countsOf_getElem? (by decide)
    rw [h, h2, Option.some.injEq] at h1
    exact h1.symm
  have h3 := hp.count_one_le
  have h4 := hf.2
  omega

/-- two readings of one block end together, and have the same kind of distance lengths -/
theorem block_unique (hc : c.Ready) {x y : Bool} (hleft : c.Left (x :: y :: rest))
    (h : Block Tolerated distanceWords sets (x :: y :: rest) out r o)
    (h' : Block Tolerated distanceWords sets' (x :: y :: rest) out r' o') (ho : o.length ≤ c.size)
    (ho' : o'.length ≤ c.size) :
    r = r' ∧ o = o' ∧ ((∃ ds ∈ sets, Flooded ds) → ∃ ds ∈ sets', ¬ Proper ds) := by
  have hleft1 : c.Left rest := hleft.of_append (w := [x, y])
  have heq := (block_complete hc hleft1 h ho).symm.trans (block_complete hc hleft1 h' ho')
  injection heq with _ heq
  obtain ⟨rfl, rfl⟩ := at_injective (h.suffix.trans hleft) (h'.suffix.trans hleft) heq
  refine ⟨rfl, rfl, ?_⟩
  rintro ⟨ds, hds, hf⟩
  cases h with
  | stored h1 h2 => exact absurd hds List.not_mem_nil
  | fixed h1 => exact absurd hds List.not_mem_nil
  | dynamic h1 h2 =>
    obtain rfl := List.mem_singleton.mp hds
    cases h' with
    | dynamic h3 h4 =>
      obtain ⟨w, hw⟩ := h2.exists_stop
      obtain ⟨w', hw'⟩ := h4.exists_stop
      obtain ⟨l, d, hbuild, -, -, hcounts⟩ :=
        buildDynamic_complete out hleft1 h1 (getD_ne_zero hw)
      obtain ⟨l', d', hbuild', -, -, hcounts'⟩ :=
        buildDynamic_complete out hleft1 h3 (getD_ne_zero hw')
      have hld := hbuild.symm.trans hbuild'
      injection hld with hld _
      obtain ⟨rfl, rfl⟩ := Prod.mk.inj hld
      exact ⟨_, List.mem_singleton_self _, not_flooded_of_counts (hcounts.symm.trans hcounts') hf⟩

theorem blocks_unique (hc : c.Ready) (h : Blocks Tolerated distanceWords sets rest out r o)
    (ho : o.length ≤ c.size) : ∀ {sets' r' o'}, c.Left rest →
    Blocks Tolerated distanceWords sets' rest out r' o' → o'.length ≤ c.size →
    (∃ ds ∈ sets, Flooded ds) → ∃ ds ∈ sets', ¬ Proper ds := by
  induction h with
  | last hblock =>
    intro sets' r' o' hleft h' ho' hf
    obtain ⟨x, y, rest1, rfl⟩ := block_cons hblock
    cases h' with
    | last hblock' =>
      exact (block_unique hc (hleft.of_append (w := [true])) hblock hblock' ho ho').2.2 hf
  | @more rest rest1 rest' out out1 out' sets1 sets2 hblock hblocks ih =>
    intro sets' r' o' hleft h' ho' hf
    obtain ⟨x, y, rest2, rfl⟩ := block_cons hblock
    cases h' with
    | more hblock' hblocks' =>
      have ho1 := Nat.le_trans hblocks.length_le ho
      have ho1' := Nat.le_trans hblocks'.length_le ho'
      obtain ⟨rfl, rfl, hflooded⟩ :=
        block_unique hc (hleft.of_append (w := [false])) hblock hblock' ho1 ho1'
      obtain ⟨ds, hds, hds'⟩ := hf
      rcases List.mem_append.mp hds with hds | hds
      · obtain ⟨ds', hmem, hp⟩ := hflooded ⟨ds, hds, hds'⟩
        exact ⟨ds', List.mem_append_left _ hmem, hp⟩
      · have hleft1 := hblock.suffix.trans (hleft.of_append (w := [false]))
        obtain ⟨ds', hmem, hp⟩ := ih ho hleft1 hblocks' ho' ⟨ds, hds, hds'⟩
        exact ⟨ds', List.mem_append_right _ hmem, hp⟩

/-- without an error, what is written is the decompression of a valid stream -/
def SoundAt (source : Bytes) (destlen : Nat) : Prop :=
  ∀ output, puff source destlen = some (.errNone, output) → ∃ out, Decompresses source out ∧
    out.length ≤ destlen ∧ output = out ++ List.replicate (destlen - out.length) 0

theorem not_soundAt {source : Bytes} {destlen : Nat}
    (hblocks : Blocks Tolerated distanceWords sets (ofBytes source) [] rest out) (hsize : out.length ≤ destlen)
    (hf : ∃ ds ∈ sets, Flooded ds) : ¬ SoundAt source destlen := by
  intro hsound
  obtain ⟨out', ⟨sets', rest', hblocks'⟩, hsize', -⟩ :=
    hsound _ ((puff_eq source destlen _).mpr ⟨sets, rest, out, hblocks, hsize, rfl⟩)
  obtain ⟨c, rfl, rfl, hc, -⟩ := exists_setting source destlen
  obtain ⟨ds, hds, hnot⟩ :=
    blocks_unique hc hblocks hsize List.suffix_rfl (blocks_of_proper hblocks') hsize' hf
  exact hnot (hblocks'.forall_mem ds hds)

/-- **What is decompressed without an error is a valid stream** unless a dynamic block has three or more
distance words, all of one bit. -/
theorem puff_sound_iff (source : Bytes) (destlen : Nat) : SoundAt source destlen ↔
    ¬ ∃ sets rest out, Blocks Tolerated distanceWords sets (ofBytes source) [] rest out ∧
      out.length ≤ destlen ∧ ∃ ds ∈ sets, Flooded ds := by
  constructor
  · rintro hsound ⟨sets, rest, out, hblocks, hsize, hf⟩
    exact not_soundAt hblocks hsize hf hsound
  · intro hnone output houtput
    obtain ⟨sets, rest, out, hblocks, hsize, rfl⟩ := (puff_eq source destlen output).mp houtput
    refine ⟨out, ⟨sets, rest, hblocks.imp fun ds hds ht => ?_⟩, hsize, rfl⟩
    have hf : ¬ Flooded ds := fun hf => hnone ⟨sets, rest, out, hblocks, hsize, ds, hds, hf⟩
    rw [distanceWords_of_not hf]
    exact ⟨ht.resolve_right hf, fun v w => id⟩

/-- the words 97 for a literal, 256 and 257, and the distances 0, 1 and 2 with one bit each -/
def floodedSource : Bytes := [13, 194, 129, 0, 0, 0, 0, 128, 32, 214, 252, 37, 190, 242, 0]

/-- the lengths of its literal/length code -/
def floodedLengths : List Nat :=
  [] ++ List.replicate (11 + value [false, true, true, false, true, false, true]) 0 ++ [1]
    ++ List.replicate (11 + value [true, true, true, true, true, true, true]) 0
    ++ List.replicate (11 + value [true, false, false, true, false, false, false]) 0 ++ [2] ++ [2]

theorem flooded_header (rest : List Bool) : Header Tolerated
    ([true, false, false, false, false] ++ ([false, true, false, false, false] ++ ([false, true, true, true] ++
      ([[false, false, false], [false, false, false], [true, false, false], [false, false, false],
        [false, false, false], [false, false, false], [false, false, false], [false, false, false],
        [false, false, false], [false, false, false], [false, false, false], [false, false, false],
        [false, false, false], [false, false, false], [false, false, false], [false, true, false],
        [false, false, false], [false, true, false]].flatten ++
      ([false] ++ ([false, true, true, false, true, false, true] ++ ([true, false] ++ ([] ++
      ([false] ++ ([true, true, true, true, true, true, true] ++ ([false] ++ ([true, false, false, true, false, false, false] ++
      ([true, true] ++ ([] ++ ([true, true] ++ ([] ++ ([true, false] ++ ([] ++ ([true, false] ++ ([] ++
      ([true, false] ++ ([] ++ rest)))))))))))))))))))))) floodedLengths [1, 1, 1] rest := by
  have h1 : IsWord [0, 2, 2, 0, 0, 0, 0, 0, 0, 0, 0, 0, 0, 0, 0, 0, 0, 0, 1] 1 [true, false] :=
    ⟨rfl, by decide, by decide⟩
  have h2 : IsWord [0, 2, 2, 0, 0, 0, 0, 0, 0, 0, 0, 0, 0, 0, 0, 0, 0, 0, 1] 2 [true, true] :=
    ⟨rfl, by decide, by decide⟩
  have h18 : IsWord [0, 2, 2, 0, 0, 0, 0, 0, 0, 0, 0, 0, 0, 0, 0, 0, 0, 0, 1] 18 [false] :=
    ⟨rfl, by decide, by decide⟩
  refine .mk rfl rfl rfl (by decide +kernel) (by decide) rfl (by decide +kernel) (by decide) (by decide)
    (?_ : Ordered [0, 2, 2, 0, 0, 0, 0, 0, 0, 0, 0, 0, 0, 0, 0, 0, 0, 0, 1] _) (by decide) ?_ (.inl (by decide +kernel)) (.inr (by decide))
  · refine ⟨rfl, fun i s hs => ?_⟩
    have hi : i < 19 := (List.getElem?_eq_some_iff.mp hs).1
    have hall : ∀ i < 19, [0, 2, 2, 0, 0, 0, 0, 0, 0, 0, 0, 0, 0, 0, 0, 0, 0, 0, 1][Deflate.order.getD i 0]?
        = some (([0, 0, 1, 0, 0, 0, 0, 0, 0, 0, 0, 0, 0, 0, 0, 2, 0, 2] : List Nat).getD i 0) := by decide
    have hget := hall i hi
    rw [List.getD_eq_getElem?_getD, hs] at hget
    exact hget
  · refine .more h18 (.moreZeros rfl) (by decide +kernel) ?_
    refine .more h1 (.length (by decide)) (by decide +kernel) ?_
    refine .more h18 (.moreZeros rfl) (by decide +kernel) ?_
    refine .more h18 (.moreZeros rfl) (by decide +kernel) ?_
    refine .more h2 (.length (by decide)) (by decide +kernel) ?_
    refine .more h2 (.length (by decide)) (by decide +kernel) ?_
    refine .more h1 (.length (by decide)) (by decide +kernel) ?_
    refine .more h1 (.length (by decide)) (by decide +kernel) ?_
    refine .more h1 (.length (by decide)) (by decide +kernel) ?_
    have hdone : floodedLengths ++ [1] ++ [1] ++ [1] = floodedLengths ++ [1, 1, 1] := by
      simp only [List.append_assoc, List.cons_append, List.nil_append]
    show Lengths _ _ rest (floodedLengths ++ [1] ++ [1] ++ [1]) rest (floodedLengths ++ [1, 1, 1])
    rw [hdone]
    exact .done (by decide +kernel)

/-- a literal, and a copy whose distance word `1` stands for 2 in the set, but is read as a 1 -/
theorem flooded_blocks : Blocks Tolerated distanceWords [[1, 1, 1]] (ofBytes floodedSource) []
    [false, false, false, false, false, false, false] [97, 97, 97, 97] := by
  have hf : Flooded [1, 1, 1] := by decide
  have hdist : distanceWords [1, 1, 1] 0 [true] := by
    rw [distanceWords_of_flooded hf]
    exact ⟨rfl, rfl⟩
  have hlit : IsWord floodedLengths (97 : UInt8).toNat [false] :=
    ⟨by decide +kernel, by decide, by decide +kernel⟩
  have hstop : IsWord floodedLengths 256 [true, false] := ⟨by decide +kernel, by decide, by decide +kernel⟩
  have hlen : IsWord floodedLengths (257 + 0) [true, true] :=
    ⟨by decide +kernel, by decide, by decide +kernel⟩
  have hcode : lengthCodes[0]? = some (3, ([] : List Bool).length) := rfl
  have hcode' : distanceCodes[0]? = some (1, ([] : List Bool).length) := rfl
  have hback : 1 + value [] ≤ ([] ++ [97] : Bytes).length := by decide
  have hcopied : copied (1 + value []) (3 + value []) ([] ++ [97]) = [97, 97, 97, 97] := by decide
  have h1 : Items (IsWord floodedLengths) (distanceWords [1, 1, 1]) _
      (copied (1 + value []) (3 + value []) ([] ++ [97])) [false, false, false, false, false, false, false] _ :=
    Items.stop hstop
  have h2 := Items.copy hlen hcode hdist hcode' hback h1
  have h3 := Blocks.last (Block.dynamic (D := distanceWords) (flooded_header _) (Items.literal hlit h2))
  rw [hcopied] at h3
  convert h3 using 1
  decide

theorem puff_sound_failing : ¬ SoundAt floodedSource 4 ∧
    puff floodedSource 4 = some (.errNone, [97, 97, 97, 97]) :=
  ⟨not_soundAt flooded_blocks (by decide) ⟨[1, 1, 1], List.mem_singleton_self _, by decide⟩,
    (puff_eq _ _ _).mpr ⟨_, _, _, flooded_blocks, by decide, rfl⟩⟩

end UNouns.Inflate
