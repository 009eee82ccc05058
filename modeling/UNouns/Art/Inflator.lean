import UNouns.Art.Paging
import UNouns.Inflate.Inflation
import UNouns.Inflate.Totality

/-!
# `NounsArt`: pages that do not inflate

The art drops the error code of the inflator, and decodes the buffer of `decompressedLength` bytes
that it leaves, whatever has been written into it.

* `inflate`, `abiDecode`         the inflator with its library, and the decoder of the language;
* `Inflated`                     without an error, and to the last byte;
* `inflated_iff`                 the streams that are;
* `imageByIndex_inflated`        an image of a page that is a stream comes from all of it;
* `not_imageByIndex_inflated`    an image of another page comes from what is in the buffer.
-/

set_option linter.unusedVariables false

namespace UNouns.Art
open Bits Deflate Inflate NounsArt

/-! ## the inflator -/

/-- the number of an error code -/
def errorNumber : ErrorCode → Nat
  | .errNone => 0
  | .errNotTerminated => 1
  | .errOutputExhausted => 2
  | .errInvalidBlockType => 3
  | .errStoredLengthNoMatch => 4
  | .errTooManyLengthOrDistanceCodes => 5
  | .errCodeLengthsCodesIncomplete => 6
  | .errRepeatNoFirstLength => 7
  | .errRepeatMore => 8
  | .errInvalidLiteralLengthCodeLengths => 9
  | .errInvalidDistanceCodeLengths => 10
  | .errMissingEndOfBlock => 11
  | .errInvalidLengthOrDistanceCode => 12
  | .errDistanceTooFar => 13
  | .errConstruct => 14

/-- `puff` of the inflator; it reverts where the buffer cannot be had -/
def inflate (source : Bytes) (destlen : Nat) : Result (Nat × Bytes) :=
  match Machine.puff source destlen with
  | none => .error (.panic 0x41)
  | some (e, output) => .ok (errorNumber e, output)

/-- without an error, and with exactly `length` bytes -/
def Inflated (data : Bytes) (length : Nat) : Prop :=
  ∃ s, Machine.run data length = .ok () s ∧ s.outcnt = length

/-! ## the decoder of the language -/

/-- `mload`, of the bytes that there are -/
def mload (data : Bytes) (i : Nat) : Nat :=
  ((data.drop i).take 32).foldl (fun n b => n * 256 + b.toNat) 0

/-- a length that has its place, and memory for so many elements of `size` bytes, in whole words after
the length -/
def abiLength (data : Bytes) (offset size : Nat) : Result Nat := do
  revertUnless (offset + 31 < data.length) .empty
  let length := mload data offset
  revertUnless ((size * length + 31) / 32 * 32 + 32 < 2 ^ 64) (.panic 0x41)
  pure length

/-- a byte string -/
def abiBytes (data : Bytes) (offset : Nat) : Result Bytes := do
  let length ← abiLength data offset 1
  revertUnless (offset + 32 + length ≤ data.length) .empty
  pure ((data.drop (offset + 32)).take length)

/-- an offset -/
def abiOffset (data : Bytes) (i : Nat) : Result Nat := do
  let offset := mload data i
  revertUnless (offset < 2 ^ 64) .empty
  pure offset

/-- `abi.decode(data, (bytes[]))` -/
def abiDecode (data : Bytes) : Result (List Bytes) := do
  revertUnless (32 ≤ data.length) .empty
  let array ← abiOffset data 0
  let length ← abiLength data array 32
  let start := array + 32
  revertUnless (start + 32 * length ≤ data.length) .empty
  (List.range length).mapM fun i => do
    let offset ← abiOffset data (start + 32 * i)
    abiBytes data (start + offset)

/-! ## streams -/

/-- the streams that inflate to the last byte -/
theorem inflated_iff {data : Bytes} {length : Nat} (hdata : data.length < 2 ^ 64) (hlength : length < 2 ^ 64) :
    Inflated data length ↔ ∃ sets rest out,
      Blocks Tolerated distanceWords sets (ofBytes data) [] rest out ∧ out.length = length := by
  obtain ⟨_, _, _, hrun, _⟩ := run_exact hdata hlength
  obtain ⟨c, rfl, rfl, hc, hbuild⟩ := exists_setting data length
  have hleft : c.Left (ofBytes c.source) := List.suffix_rfl
  have hrounds : rounds (c.at (ofBytes c.source) []) = 8 * c.source.length + 1 := rfl
  unfold Inflated
  rw [hrun, blocksAfter_eq hbuild, hrounds]
  constructor
  · rintro ⟨s, hblocks, hcnt⟩
    obtain ⟨sets, rest, out, h, _, rfl⟩ := blocks_sound hc _ hleft (Nat.zero_le _) hblocks
    exact ⟨sets, rest, out, h, hcnt⟩
  · rintro ⟨sets, rest, out, h, hlen⟩
    have hbits := ofBytes_length c.source
    exact ⟨_, blocks_complete hc h (Nat.le_of_eq hlen) _ hleft (by omega), hlen⟩

/-- a stream of the size that is said is inflated -/
theorem inflate_blocks {sets : List (List Nat)} {rest : List Bool} {source out : Bytes}
    (h : Blocks Tolerated distanceWords sets (ofBytes source) [] rest out)
    (hsource : source.length < 2 ^ 64) (hout : out.length < 2 ^ 64) :
    inflate source out.length = .ok (0, out) := by
  obtain ⟨_, _, _, hrun, _⟩ := run_exact hsource hout
  have hmachine : Machine.puff source out.length = some (.errNone, out) := by
    rw [← puff_blocks h]
    unfold Machine.puff
    rw [if_neg (Nat.not_le_of_lt hout), hrun]
    rfl
  unfold inflate
  rw [hmachine]
  rfl

/-- nothing is left to be read -/
theorem bits_nil {c : Setting} {out : Bytes} {need : Nat} (hneed : 0 < need) :
    bits need (c.at [] out) = .err .errNotTerminated (by decide) (c.at [] out) := by
  obtain ⟨n, rfl⟩ := Nat.exists_eq_add_one_of_ne_zero (Nat.ne_of_gt hneed)
  have hcnt : (c.at [] out).bitcnt < n + 1 := Nat.succ_pos n
  have hend : (c.at [] out).incnt = (c.at [] out).input.length := Nat.sub_zero _
  unfold bits
  rw [state_bind]
  refine bind_of_err ?_
  rw [load, state_bind, if_pos hcnt, if_pos hend]
  rfl

/-- one stored block, after its mark -/
theorem block_stored {lo hi : UInt8} {data : Bytes} (hdata : data.length = lo.toNat + 256 * hi.toNat) :
    Block Tolerated distanceWords [] (false :: false :: ([false, false, false, false, false] ++
      ofBytes (lo :: hi :: ~~~lo :: ~~~hi :: data))) [] [] data := by
  have hmod : ([false, false, false, false, false] ++
      ofBytes (lo :: hi :: ~~~lo :: ~~~hi :: data)).length % 8 = 5 := by
    rw [List.length_append, ofBytes_length, Nat.add_mul_mod_self_left]
    rfl
  show Block _ _ _ _ [] [] ([] ++ data)
  refine .stored hdata ?_
  rw [hmod, List.append_nil]
  exact List.drop_left' rfl

/-- **A stream without an end.**  One stored block that is not the last is inflated whole, with an error. -/
theorem inflate_cut {lo hi : UInt8} {data : Bytes} (hdata : data.length = lo.toNat + 256 * hi.toNat) :
    inflate (0 :: lo :: hi :: ~~~lo :: ~~~hi :: data) data.length = .ok (1, data) := by
  have hlo := lo.toNat_lt
  have hhi := hi.toNat_lt
  have hlen : (0 :: lo :: hi :: ~~~lo :: ~~~hi :: data).length = data.length + 5 := rfl
  obtain ⟨_, _, _, hrun, _⟩ := run_exact
    (show (0 :: lo :: hi :: ~~~lo :: ~~~hi :: data).length < 2 ^ 64 by omega)
    (show data.length < 2 ^ 64 by omega)
  obtain ⟨c, hsource, hsize, hc, hbuild⟩ :=
    exists_setting (0 :: lo :: hi :: ~~~lo :: ~~~hi :: data) data.length
  have hbits : ofBytes (0 :: lo :: hi :: ~~~lo :: ~~~hi :: data)
      = false :: false :: false :: ([false, false, false, false, false] ++
        ofBytes (lo :: hi :: ~~~lo :: ~~~hi :: data)) := rfl
  have hleft : c.Left (false :: false :: false :: ([false, false, false, false, false] ++
      ofBytes (lo :: hi :: ~~~lo :: ~~~hi :: data))) := by
    rw [← hbits, ← hsource]
    exact List.suffix_rfl
  have hdone : block (value [false, false]) (c.at ([false, false, false, false, false] ++
      ofBytes (lo :: hi :: ~~~lo :: ~~~hi :: data)) []) = .ok () (c.at [] data) :=
    block_complete hc (hleft.of_append (w := [false, false, false])) (block_stored hdata)
      (Nat.le_of_eq hsize.symm)
  have hrest : blocks (8 * c.source.length) (c.at [] data)
      = .err .errNotTerminated (by decide) (c.at [] data) := by
    rw [hsource, show 8 * (0 :: lo :: hi :: ~~~lo :: ~~~hi :: data).length = 8 * data.length + 39 + 1 by omega]
    exact bind_of_err (bits_nil Nat.one_pos)
  have hrounds : rounds (c.at (ofBytes (0 :: lo :: hi :: ~~~lo :: ~~~hi :: data)) [])
      = 8 * c.source.length + 1 := rfl
  have hout : (c.at [] data).output = data := by
    show data ++ List.replicate (c.size - data.length) 0 = data
    rw [hsize, Nat.sub_self, List.replicate_zero, List.append_nil]
  have hend : Machine.run (0 :: lo :: hi :: ~~~lo :: ~~~hi :: data) data.length
      = .err .errNotTerminated (by decide) (c.at [] data) := by
    rw [hrun, blocksAfter_eq hbuild, hrounds, hbits, blocks_eq hleft, bind_of_ok hdone]
    exact hrest
  unfold inflate Machine.puff
  rw [if_neg (by omega), hend]
  show Except.ok (1, (c.at [] data).output) = _
  rw [hout]

/-! ## images -/

theorem inflate_ok {data buffer : Bytes} {length n : Nat} (h : inflate data length = .ok (n, buffer)) :
    ∃ e, Machine.puff data length = some (e, buffer) ∧ errorNumber e = n := by
  unfold inflate at h
  cases hp : Machine.puff data length with
  | none =>
    rw [hp] at h
    cases h
  | some r =>
    rw [hp] at h
    cases h
    exact ⟨r.1, rfl, rfl⟩

/-- the code of the inflator makes no difference -/
theorem imageByIndex_of_inflate {C : Chain} {code : Bytecode} {a : NounsArt} {kind : TraitKind}
    {index i n : Nat} {page : NounArtStoragePage} {data buffer image : Bytes} {images : List Bytes}
    (hC : ∀ inflator source destlen, C.puff inflator source destlen = inflate source destlen)
    (hpage : getPage (a.traits kind).storagePages index = .ok (page, i))
    (hdata : SSTORE2.read code page.pointer = .ok data)
    (hinflate : inflate data page.decompressedLength = .ok (n, buffer))
    (himages : C.decode buffer = .ok images) (hi : images[i]? = some image) :
    a.imageByIndex C code kind index = .ok image := by
  simp only [imageByIndex, decompressAndDecode, bind_eq_ok, Prod.exists, item_eq_ok]
  exact ⟨page, i, hpage, images, ⟨data, hdata, n, buffer, (hC _ _ _).trans hinflate, himages⟩, hi⟩

/-- a stream that inflates leaves no error -/
theorem inflate_of_inflated {data : Bytes} {length : Nat} (hlength : length < 2 ^ 64)
    (h : Inflated data length) : ∃ buffer, inflate data length = .ok (0, buffer) := by
  obtain ⟨s, hrun, _⟩ := h
  unfold inflate Machine.puff
  rw [if_neg (Nat.not_le.mpr hlength), hrun]
  exact ⟨_, rfl⟩

/-- **The images of streams that inflate.**  Where the page of an index, if it is found, is a stream of
`decompressedLength` bytes, an image is read only from a page that was inflated without an error, and to its
last byte. -/
theorem imageByIndex_inflated (C : Chain)
    (hC : ∀ inflator source destlen, C.puff inflator source destlen = inflate source destlen)
    (code : Bytecode) (hcode : ∀ pointer, (code pointer).length < 2 ^ 64) (a : NounsArt)
    (kind : TraitKind) (index : Nat)
    (hstream : ∀ page i data, getPage (a.traits kind).storagePages index = .ok (page, i) →
      SSTORE2.read code page.pointer = .ok data → ∃ sets rest out,
        Blocks Tolerated distanceWords sets (ofBytes data) [] rest out ∧ out.length = page.decompressedLength)
    (image : Bytes) (himage : a.imageByIndex C code kind index = .ok image) :
    ∃ page i data, getPage (a.traits kind).storagePages index = .ok (page, i) ∧
      SSTORE2.read code page.pointer = .ok data ∧ Inflated data page.decompressedLength ∧
      ∃ buffer, C.puff a.inflator data page.decompressedLength = .ok (0, buffer) := by
  simp only [imageByIndex, decompressAndDecode, bind_eq_ok, Prod.exists, item_eq_ok] at himage
  obtain ⟨page, i, hpage, images, ⟨data, hdata, n, buffer, hpuff, himages⟩, hi⟩ := himage
  rw [hC] at hpuff
  obtain ⟨e, hpuff, -⟩ := inflate_ok hpuff
  have hlength : page.decompressedLength < 2 ^ 64 := by
    refine Nat.not_le.mp fun hle => ?_
    cases (if_pos hle).symm.trans hpuff
  have hsmall : data.length < 2 ^ 64 := by
    obtain ⟨_, _, h⟩ := bind_eq_ok.mp hdata
    cases h
    rw [List.length_drop]
    exact Nat.lt_of_le_of_lt (Nat.sub_le _ _) (hcode page.pointer)
  have hinflated := (inflated_iff hsmall hlength).mpr (hstream page i data hpage hdata)
  refine ⟨page, i, data, hpage, hdata, hinflated, ?_⟩
  rw [hC]
  exact inflate_of_inflated hlength hinflated

/-! ## a page without an end -/

/-- with the inflator of the library -/
def inflatorChain : Chain := { sampleChain with puff := fun _ => inflate, decode := abiDecode }

/-- no memory is had for an array of `2^64 - 1` images -/
example : abiDecode (word 32 ++ List.replicate 24 0 ++ List.replicate 8 255) = .error (.panic 0x41) := by
  decide +kernel

/-- one image of two bytes -/
def sampleImages : Bytes := word 32 ++ word 1 ++ word 32 ++ word 2 ++ [7, 8] ++ List.replicate 30 0

/-- a stored block of it, the last one just where the mark is 1 -/
def storedPage (mark : UInt8) : Bytes := mark :: 160 :: 0 :: 95 :: 255 :: sampleImages

/-- the art, and the code, after it has been added as a page of bodies -/
def withPage (mark : UInt8) : NounsArt × Bytecode :=
  (runSteps [.call 20 (.addBodies (storedPage mark) 100 160 1)] (.deploy 20 30, fun _ => [])).2

theorem sampleImages_length : sampleImages.length = 160 := by decide +kernel

theorem sampleImages_decode : abiDecode sampleImages = .ok [[7, 8]] := by decide +kernel

theorem sampleImages_size : sampleImages.length = (160 : UInt8).toNat + 256 * (0 : UInt8).toNat :=
  sampleImages_length.trans (by decide)

theorem withPage_code (mark : UInt8) :
    (withPage mark).2 = Function.update (fun _ => []) 100 (0x00 :: storedPage mark) := rfl

theorem withPage_code_length (mark : UInt8) (pointer : Address) :
    ((withPage mark).2 pointer).length < 2 ^ 64 := by
  have hlen : (0x00 :: storedPage mark).length = sampleImages.length + 6 := rfl
  rw [withPage_code]
  by_cases hp : pointer = 100
  · rw [hp, Function.update_self, hlen, sampleImages_length]
    decide
  · rw [Function.update_of_ne hp]
    exact Nat.two_pow_pos 64

theorem withPage_page (mark : UInt8) :
    getPage ((withPage mark).1.traits .bodies).storagePages 0 = .ok (⟨1, 160, 100⟩, 0) := rfl

theorem withPage_data (mark : UInt8) : SSTORE2.read (withPage mark).2 100 = .ok (storedPage mark) := rfl

theorem imageByIndex_inflated_run :
    let r := withPage 1
    r.1.imageByIndex inflatorChain r.2 .bodies 0 = .ok [7, 8] ∧ ∃ page i data,
      getPage (r.1.traits .bodies).storagePages 0 = .ok (page, i) ∧
      SSTORE2.read r.2 page.pointer = .ok data ∧ Inflated data page.decompressedLength ∧
      ∃ buffer, inflate data page.decompressedLength = .ok (0, buffer) := by
  intro r
  have hblocks : Blocks Tolerated distanceWords [] (ofBytes (storedPage 1)) [] [] sampleImages :=
    Blocks.last (block_stored sampleImages_size)
  have hlen : (storedPage 1).length = sampleImages.length + 5 := rfl
  have hsize := sampleImages_length
  have hinflate := inflate_blocks hblocks (by omega) (by omega)
  rw [hsize] at hinflate
  have himage := imageByIndex_of_inflate (C := inflatorChain) (fun _ _ _ => rfl) (withPage_page 1)
    (withPage_data 1) hinflate sampleImages_decode (List.getElem?_cons_zero)
  refine ⟨himage, imageByIndex_inflated inflatorChain (fun _ _ _ => rfl) r.2
    (withPage_code_length 1) r.1 .bodies 0 (fun page i data hpage hdata => ?_) _ himage⟩
  obtain ⟨rfl, rfl⟩ := Prod.mk.inj (Except.ok.inj ((withPage_page 1).symm.trans hpage))
  obtain rfl := Except.ok.inj ((withPage_data 1).symm.trans hdata)
  exact ⟨[], [], sampleImages, hblocks, sampleImages_length⟩

/-- **An image from a page without an end.** -/
theorem not_imageByIndex_inflated :
    let r := withPage 0
    r.1.imageByIndex inflatorChain r.2 .bodies 0 = .ok [7, 8] ∧
      getPage (r.1.traits .bodies).storagePages 0 = .ok (⟨1, 160, 100⟩, 0) ∧
      SSTORE2.read r.2 100 = .ok (storedPage 0) ∧
      inflate (storedPage 0) 160 = .ok (1, sampleImages) ∧ ¬ Inflated (storedPage 0) 160 := by
  intro r
  have hcut : inflate (storedPage 0) 160 = .ok (1, sampleImages) := by
    have h := inflate_cut sampleImages_size
    rwa [sampleImages_length] at h
  have hread := imageByIndex_of_inflate (C := inflatorChain) (fun _ _ _ => rfl) (withPage_page 0)
    (withPage_data 0) hcut sampleImages_decode (List.getElem?_cons_zero)
  refine ⟨hread, withPage_page 0, withPage_data 0, hcut, ?_⟩
  rintro ⟨s, hrun, _⟩
  obtain ⟨e, hpuff, he⟩ := inflate_ok hcut
  unfold Machine.puff at hpuff
  rw [if_neg (by decide), hrun] at hpuff
  obtain ⟨rfl, -⟩ := Prod.mk.inj (Option.some.inj hpuff)
  cases he

end UNouns.Art
