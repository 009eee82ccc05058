import UNouns.Art.Inflator
import UNouns.Lib.Abi
import UNouns.Lib.HexString
import Mathlib.Data.List.GetD

/-!
# Pages of the deploy task

`dataToDescriptorInput` packs the images of a collection: their array is encoded and compressed, and
goes to the art as one page, with its length and its count.

* `abiDecode_encode`      the contract decodes what the task encodes;
* `dataToDescriptorInput` the task; `addPage` its call of the art;
* `runTask`               pages of the task, among other calls of the art;
* `populate_exact`        the art is read like the collections one after the other.
-/

set_option linter.unusedVariables false

namespace UNouns.Tasks
open Art Bits HuffmanCode Deflate Inflate HexString NounsArt Pages

/-! ## the array, encoded and decoded -/

section
variable {data : Bytes} {place n : Nat}

theorem abiLength_holds {size : Nat} (h : Abi.Holds data place n)
    (hn : (size * n + 31) / 32 * 32 + 32 < 2 ^ 64) : abiLength data place size = .ok n := by
  have hnum : mload data place = n := h.number
  have hin := h.inside
  unfold abiLength
  rw [hnum]
  exact bind_eq_ok.mpr ⟨(), revertUnless_eq_ok.mpr (by omega),
    bind_eq_ok.mpr ⟨(), revertUnless_eq_ok.mpr hn, rfl⟩⟩

theorem abiOffset_holds (h : Abi.Holds data place n) (hn : n < 2 ^ 64) : abiOffset data place = .ok n := by
  have hnum : mload data place = n := h.number
  unfold abiOffset
  rw [hnum]
  exact bind_eq_ok.mpr ⟨(), revertUnless_eq_ok.mpr hn, rfl⟩

theorem abiBytes_holds (h : Abi.Holds data place n) (hn : (1 * n + 31) / 32 * 32 + 32 < 2 ^ 64)
    (hin : place + 32 + n ≤ data.length) : abiBytes data place = .ok ((data.drop (place + 32)).take n) :=
  bind_eq_ok.mpr ⟨n, abiLength_holds h hn, bind_eq_ok.mpr ⟨(), revertUnless_eq_ok.mpr hin, rfl⟩⟩

end

/-- a loop that never reverts -/
theorem mapM_ok {α β : Type} {f : α → Result β} {g : α → β} {xs : List α} (h : ∀ x ∈ xs, f x = .ok (g x)) :
    xs.mapM f = .ok (xs.map g) := by
  induction xs with
  | nil => rfl
  | cons x xs ih =>
    rw [List.mapM_cons, h x List.mem_cons_self, ih fun y hy => h y (List.mem_cons_of_mem _ hy)]
    rfl

/-- **What is encoded is decoded.** -/
theorem abiDecode_encode {items : List Bytes} (hsize : (Abi.encode items).length < 2 ^ 64) :
    abiDecode (Abi.encode items) = .ok items := by
  have hlen := Abi.encode_length items
  have hbig : (2 : Nat) ^ 64 < 256 ^ 32 := by decide
  have harray : Abi.Holds (Abi.encode items) 0 32 := Abi.holds_word rfl (by decide)
  have hcount : Abi.Holds (Abi.encode items) 32 items.length :=
    Abi.holds_word (Abi.encode_drop items).1 (by omega)
  have hitem : ∀ i ∈ List.range items.length, (do
      let offset ← abiOffset (Abi.encode items) (32 + 32 + 32 * i)
      abiBytes (Abi.encode items) (32 + 32 + offset)) = Except.ok (items.getD i []) := by
    intro i hi
    have hi := List.mem_range.mp hi
    have hsplit : items = items.take i ++ items[i] :: items.drop (i + 1) := by
      rw [← List.drop_eq_getElem_cons hi, List.take_append_drop]
    have htake : (items.take i).length = i := List.length_take_of_le (Nat.le_of_lt hi)
    obtain ⟨hle, hoffset, hhead, hin, hbytes⟩ := Abi.encode_item hsplit (by omega)
    rw [htake] at hoffset
    refine bind_eq_ok.mpr ⟨_, abiOffset_holds hoffset (by omega), ?_⟩
    rw [abiBytes_holds hhead (by omega) hin, hbytes, List.getD_eq_getElem _ _ hi]
  have hall : (List.range items.length).map (fun i => items.getD i []) = items := by
    refine List.ext_getElem (by simp) fun i h1 h2 => ?_
    rw [List.getElem_map, List.getElem_range, List.getD_eq_getElem _ _ h2]
  unfold abiDecode
  refine bind_eq_ok.mpr ⟨(), revertUnless_eq_ok.mpr (by omega), bind_eq_ok.mpr
    ⟨32, abiOffset_holds harray (by decide), bind_eq_ok.mpr ⟨_, abiLength_holds hcount (by omega),
      bind_eq_ok.mpr ⟨(), revertUnless_eq_ok.mpr (by omega), ?_⟩⟩⟩⟩
  rw [mapM_ok hitem, hall]

/-! ## the task -/

/-- two digits for each byte -/
def pairs : List Nat → Option Bytes
  | [] => some []
  | [_] => none
  | high :: low :: digits => (pairs digits).map (UInt8.ofNat (16 * high + low) :: ·)

/-- the bytes of a text; it throws on what is no hex -/
def arrayify : List Char → Option Bytes
  | '0' :: 'x' :: s => (read s).bind pairs
  | _ => none

structure DescriptorInput where
  encodedCompressed : Bytes
  originalLength : Nat
  itemCount : Nat

/-- the texts in between, which are hex, are the bytes that they stand for -/
def dataToDescriptorInput (deflateRawSync : Bytes → Bytes) (data : List (List Char)) :
    Option DescriptorInput := do
  let items ← data.mapM arrayify
  let abiEncoded := Abi.encode items
  pure ⟨deflateRawSync abiEncoded, abiEncoded.length, data.length⟩

/-- `addBodies` and the others -/
def addPage : TraitKind → DescriptorInput → Address → ArtOp
  | .bodies, page, created => .addBodies page.encodedCompressed created page.originalLength page.itemCount
  | .accessories, page, created =>
    .addAccessories page.encodedCompressed created page.originalLength page.itemCount
  | .heads, page, created => .addHeads page.encodedCompressed created page.originalLength page.itemCount
  | .glasses, page, created =>
    .addGlasses page.encodedCompressed created page.originalLength page.itemCount

/-! ## runs -/

/-- a page of the task, or any call of the art that adds none -/
inductive TaskStep where
  | page (sender : Address) (kind : TraitKind) (data : List (List Char)) (created : Address)
  | other (step : ArtStep) (h : step.page = none)

/-- the art after a step; nothing is sent where the task throws, also at a number that is too large
for its type -/
def TaskStep.apply (deflateRawSync : Bytes → Bytes) (s : NounsArt × Bytecode) :
    TaskStep → Option (NounsArt × Bytecode)
  | .page sender kind data created => do
    let page ← dataToDescriptorInput deflateRawSync data
    guard (page.originalLength < 2 ^ 80 ∧ page.itemCount < 2 ^ 16)
    ((ArtStep.call sender (addPage kind page created)).apply s).toOption
  | .other step _ => (step.apply s).toOption

/-- the collection that a step adds -/
def TaskStep.collection : TaskStep → Option (TraitKind × List Bytes)
  | .page _ kind data _ => (data.mapM arrayify).map (kind, ·)
  | .other _ _ => none

/-- the collections that are added, and the art in the end -/
def runTask (deflateRawSync : Bytes → Bytes) : List TaskStep → NounsArt × Bytecode →
    List (TraitKind × List Bytes) × (NounsArt × Bytecode)
  | [], s => ([], s)
  | step :: steps, s =>
    match step.apply deflateRawSync s with
    | none => runTask deflateRawSync steps s
    | some s' => (step.collection.toList ++ (runTask deflateRawSync steps s').1,
        (runTask deflateRawSync steps s').2)

/-- the images of the collections of one trait, in order -/
def imagesOf (kind : TraitKind) (added : List (TraitKind × List Bytes)) : List Bytes :=
  (added.filter fun c => c.1 = kind).flatMap (·.2)

theorem imagesOf_append (kind : TraitKind) (xs ys : List (TraitKind × List Bytes)) :
    imagesOf kind (xs ++ ys) = imagesOf kind xs ++ imagesOf kind ys := by
  unfold imagesOf
  rw [List.filter_append, List.flatMap_append]

theorem toOption_eq_some {α : Type} {x : Result α} {a : α} : x.toOption = some a ↔ x = .ok a := by
  cases x with
  | error e => exact ⟨fun h => (by cases h), fun h => (by cases h)⟩
  | ok b => exact ⟨fun h => congrArg _ (Option.some.inj h), fun h => congrArg _ (Except.ok.inj h)⟩

/-! ## one step -/

section
variable {C : Chain} {code code' : Bytecode} {a a' : NounsArt}

/-- the images of the pages that were there, and of the new ones after them -/
theorem images_adds (hext : a.Extends code code' a')
    (hsame : C.puff a'.inflator = C.puff a.inflator) (hi : a.Inflates C code)
    {page : Option (TraitKind × NounArtStoragePage)} (hadds : Adds page a a') (kind : TraitKind) :
    a'.images C code' kind
      = a.images C code kind ++ (pagesOf kind page.toList).flatMap (a'.pageImages C code') := by
  unfold images
  rw [hadds kind, List.flatMap_append]
  refine congrArg (· ++ _) (List.flatMap_congr fun p hp => ?_)
  obtain ⟨ims, him, _⟩ := hi kind p hp
  unfold pageImages
  rw [him, hext.decompressAndDecode hsame him]

/-- if the new pages inflate, all do -/
theorem inflates_adds (hext : a.Extends code code' a')
    (hsame : C.puff a'.inflator = C.puff a.inflator) (hi : a.Inflates C code)
    {page : Option (TraitKind × NounArtStoragePage)} (hadds : Adds page a a')
    (hnew : ∀ kind, ∀ p ∈ pagesOf kind page.toList, ∃ images,
      a'.decompressAndDecode C code' p = .ok images ∧ images.length = p.imageCount) :
    a'.Inflates C code' := by
  intro kind p hp
  rw [hadds kind] at hp
  rcases List.mem_append.mp hp with hp | hp
  · obtain ⟨images, him, hlen⟩ := hi kind p hp
    exact ⟨images, hext.decompressAndDecode hsame him, hlen⟩
  · exact hnew kind p hp

/-- the bytes of a page are where they were put -/
theorem addPage_code {kind : TraitKind} {data : Bytes} {created : Address} {length count : Nat}
    (h : a.addPage code kind data created length count = .ok (a', code')) :
    SSTORE2.read code' created = .ok data := by
  simp only [NounsArt.addPage, bind_eq_ok, pure_eq_ok, Prod.exists, Prod.mk.injEq] at h
  obtain ⟨_, _, pointer, code1, hw, _, _, _, rfl⟩ := h
  simp only [SSTORE2.write, bind_eq_ok, require_eq_ok, pure_eq_ok, Prod.mk.injEq] at hw
  obtain ⟨_, hne, rfl, rfl⟩ := hw
  have hpointer : (if code created = [] then created else 0) = created := by
    by_contra hne'
    split_ifs at hne hne' with h0
    · exact hne' rfl
    · exact hne rfl
  rw [hpointer]
  unfold SSTORE2.read
  rw [Function.update_self]
  rfl

end

/-! ## pages of the task -/

/-- what is asked of the compressor, and of the sizes, for one array -/
structure Compresses (deflateRawSync : Bytes → Bytes) (items : List Bytes) : Prop where
  stream : Decompresses (deflateRawSync (Abi.encode items)) (Abi.encode items)
  compressed : (deflateRawSync (Abi.encode items)).length < 2 ^ 64
  encoded : (Abi.encode items).length < 2 ^ 64

theorem mapM_forall₂ {α β : Type} {f : α → Option β} {xs : List α} : ∀ {ys : List β},
    xs.mapM f = some ys → List.Forall₂ (fun x y => f x = some y) xs ys := by
  induction xs with
  | nil =>
    intro ys h
    cases h
    exact .nil
  | cons x xs ih =>
    intro ys h
    rw [List.mapM_cons] at h
    obtain ⟨y, hy, h⟩ := Option.bind_eq_some_iff.mp h
    obtain ⟨rest, hrest, h⟩ := Option.bind_eq_some_iff.mp h
    cases h
    exact .cons hy (ih hrest)

theorem dataToDescriptorInput_some {deflateRawSync : Bytes → Bytes} {data : List (List Char)}
    {page : DescriptorInput} (h : dataToDescriptorInput deflateRawSync data = some page) :
    ∃ items, data.mapM arrayify = some items ∧ page = ⟨deflateRawSync (Abi.encode items),
      (Abi.encode items).length, items.length⟩ := by
  obtain ⟨items, hitems, h⟩ := Option.bind_eq_some_iff.mp h
  cases h
  exact ⟨items, hitems, by rw [(mapM_forall₂ hitems).length_eq]⟩

theorem addPage_page (kind : TraitKind) (page : DescriptorInput) (created : Address) :
    (addPage kind page created).page
      = some (kind, ⟨page.itemCount, page.originalLength, created⟩) := by
  cases kind <;> rfl

theorem addPage_effect (code : Bytecode) (a : NounsArt) (kind : TraitKind) (page : DescriptorInput)
    (created : Address) : (addPage kind page created).effect code a = a.addPage code kind
      page.encodedCompressed created page.originalLength page.itemCount := by
  cases kind <;> rfl

section
variable {C : Chain} (hpuff : ∀ inflator source destlen, C.puff inflator source destlen = inflate source destlen)
  (hdecode : ∀ data, C.decode data = abiDecode data)
include hpuff hdecode

/-- a page is decoded to the array that it was made of -/
theorem decompressAndDecode_page {code : Bytecode} {a : NounsArt} {deflateRawSync : Bytes → Bytes}
    {items : List Bytes} (h : Compresses deflateRawSync items) {created : Address} {count : Nat}
    (hcode : SSTORE2.read code created = .ok (deflateRawSync (Abi.encode items))) :
    a.decompressAndDecode C code ⟨count, (Abi.encode items).length, created⟩ = .ok items := by
  refine bind_eq_ok.mpr ⟨_, hcode, bind_eq_ok.mpr ⟨(0, Abi.encode items), ?_, ?_⟩⟩
  · rw [hpuff]
    obtain ⟨sets, rest, hblocks⟩ := h.stream
    exact inflate_blocks (blocks_of_proper hblocks) h.compressed h.encoded
  · exact (hdecode _).trans (abiDecode_encode h.encoded)

omit hdecode in
/-- all inflators do the same -/
theorem puff_same (a a' : NounsArt) : C.puff a'.inflator = C.puff a.inflator :=
  funext fun source => funext fun destlen => (hpuff _ source destlen).trans (hpuff _ source destlen).symm

/-- the collections that were added are what the art holds -/
structure Stocked (C : Chain) (s : NounsArt × Bytecode) (added : List (TraitKind × List Bytes)) : Prop where
  counted : s.1.Counted
  inflates : s.1.Inflates C s.2
  images : ∀ kind, s.1.images C s.2 kind = imagesOf kind added

/-- **A step adds its collection**, at the end of its trait. -/
theorem TaskStep.apply_stocked {deflateRawSync : Bytes → Bytes} {s s' : NounsArt × Bytecode}
    {added : List (TraitKind × List Bytes)} (hs : Stocked C s added) {step : TaskStep}
    (h : step.apply deflateRawSync s = some s')
    (hcollection' : ∀ c ∈ step.collection, Compresses deflateRawSync c.2) :
    Stocked C s' (added ++ step.collection.toList) := by
  have hsame := puff_same hpuff s.1 s'.1
  cases step with
  | other step hstep =>
    obtain ⟨hext, hcounted, hadds⟩ := ArtStep.apply_ok (toOption_eq_some.mp h) hs.counted
    rw [hstep] at hadds
    have himages := images_adds hext hsame hs.inflates hadds
    refine ⟨hcounted, inflates_adds hext hsame hs.inflates hadds fun _ p hp => absurd hp List.not_mem_nil,
      fun kind => ?_⟩
    rw [himages kind, hs.images kind]
    exact (List.append_nil _).trans (congrArg _ (List.append_nil _).symm)
  | page sender kind data created =>
    obtain ⟨page, hpage, h⟩ := Option.bind_eq_some_iff.mp h
    obtain ⟨_, _, h⟩ := Option.bind_eq_some_iff.mp h
    have h := toOption_eq_some.mp h
    obtain ⟨items, hitems, rfl⟩ := dataToDescriptorInput_some hpage
    have hcollection : TaskStep.collection (.page sender kind data created) = some (kind, items) :=
      congrArg (Option.map (kind, ·)) hitems
    have hitems := hcollection' _ hcollection
    obtain ⟨hext, hcounted, hadds⟩ := ArtStep.apply_ok h hs.counted
    rw [ArtStep.page, addPage_page] at hadds
    obtain ⟨_, _, heffect⟩ := bind_eq_ok.mp h
    rw [addPage_effect] at heffect
    have hdecoded : s'.1.decompressAndDecode C s'.2 ⟨items.length, (Abi.encode items).length, created⟩
        = .ok items := decompressAndDecode_page hpuff hdecode hitems (addPage_code heffect)
    have hself : pagesOf kind [(kind, ⟨items.length, (Abi.encode items).length, created⟩)]
        = [⟨items.length, (Abi.encode items).length, created⟩] := by simp [pagesOf]
    have hother : ∀ k ≠ kind, pagesOf k [(kind, (⟨items.length, (Abi.encode items).length, created⟩ :
        NounArtStoragePage))] = [] := fun k hk => by simp [pagesOf, Ne.symm hk]
    refine ⟨hcounted, inflates_adds hext hsame hs.inflates hadds fun k p hp => ?_, fun k => ?_⟩
    · by_cases hk : k = kind
      · rw [hk, Option.toList_some, hself, List.mem_singleton] at hp
        exact ⟨items, hp ▸ hdecoded, by rw [hp]⟩
      · rw [Option.toList_some, hother k hk] at hp
        cases hp
    · rw [images_adds hext hsame hs.inflates hadds, hs.images, imagesOf_append, hcollection]
      refine congrArg _ ?_
      by_cases hk : k = kind
      · rw [hk, Option.toList_some, Option.toList_some, hself, List.flatMap_singleton]
        unfold pageImages
        rw [hdecoded]
        simp [imagesOf, Except.toOption]
      · rw [Option.toList_some, Option.toList_some, hother k hk]
        simp [imagesOf, Ne.symm hk]

/-- a run adds its collections -/
theorem runTask_stocked {deflateRawSync : Bytes → Bytes} (steps : List TaskStep) :
    ∀ {s : NounsArt × Bytecode} {added : List (TraitKind × List Bytes)}, Stocked C s added →
      (∀ c ∈ (runTask deflateRawSync steps s).1, Compresses deflateRawSync c.2) →
      Stocked C (runTask deflateRawSync steps s).2 (added ++ (runTask deflateRawSync steps s).1) := by
  induction steps with
  | nil =>
    intro s added hs _
    rw [runTask, List.append_nil]
    exact hs
  | cons step steps ih =>
    intro s added hs hall
    unfold runTask at hall ⊢
    cases h : step.apply deflateRawSync s with
    | none =>
      rw [h] at hall
      exact ih hs hall
    | some s' =>
      rw [h] at hall
      have hs' := TaskStep.apply_stocked hpuff hdecode hs h fun c hc =>
        hall c (List.mem_append_left _ (Option.mem_toList.mpr hc))
      have hrest := ih hs' fun c hc => hall c (List.mem_append_right _ hc)
      rw [List.append_assoc] at hrest
      exact hrest

omit hpuff hdecode in
theorem deploy_stocked (code : Bytecode) (descriptor inflator : Address) :
    Stocked C (NounsArt.deploy descriptor inflator, code) [] :=
  ⟨deploy_counted _ _, fun _ _ hp => absurd hp List.not_mem_nil, fun _ => rfl⟩

omit hpuff hdecode in
/-- a stocked art is read like its collections -/
theorem Stocked.read {s : NounsArt × Bytecode} {added : List (TraitKind × List Bytes)}
    (hs : Stocked C s added) {kind : TraitKind} {index : Nat} {image : Bytes} :
    s.1.imageByIndex C s.2 kind index = .ok image ↔ (imagesOf kind added)[index]? = some image := by
  have hread : ∀ {image}, (imagesOf kind added)[index]? = some image →
      s.1.imageByIndex C s.2 kind index = .ok image := fun {image} hi =>
    imageByIndex_eq hs.inflates ((congrArg (·[index]?) (hs.images kind)).trans hi)
  refine ⟨fun h => ?_, hread⟩
  by_cases hi : index < (imagesOf kind added).length
  · have hget := List.getElem?_eq_getElem hi
    rw [hget, Except.ok.inj ((hread hget).symm.trans h)]
  · rw [← hs.images kind, hs.inflates.images_length hs.counted kind] at hi
    rw [imageByIndex_not_found C s.2 hs.counted (Nat.le_of_not_lt hi)] at h
    cases h

/-- **The art is the collections, one after the other.**  After pages of the task, and any other calls
of the art that add none, a trait is read like the concatenation of the collections that were added to
it, and there is no image beyond; each page is inflated and decoded to the images that it says. -/
theorem populate_exact (deflateRawSync : Bytes → Bytes) (code : Bytecode) (descriptor inflator : Address)
    (steps : List TaskStep)
    (hcompress : ∀ c ∈ (runTask deflateRawSync steps (.deploy descriptor inflator, code)).1,
      Compresses deflateRawSync c.2) :
    let r := runTask deflateRawSync steps (.deploy descriptor inflator, code)
    r.2.1.Inflates C r.2.2 ∧ ∀ kind,
      (r.2.1.traits kind).storedImagesCount = (imagesOf kind r.1).length ∧
      ∀ index image, r.2.1.imageByIndex C r.2.2 kind index = .ok image ↔
        (imagesOf kind r.1)[index]? = some image := by
  intro r
  have hs : Stocked C r.2 r.1 :=
    runTask_stocked hpuff hdecode steps (deploy_stocked code descriptor inflator) hcompress
  refine ⟨hs.inflates, fun kind => ⟨?_, fun index image => hs.read⟩⟩
  rw [← hs.images kind, hs.inflates.images_length hs.counted kind]

end

/-! ## a compressor that stores -/

/-- one stored block, which is the last -/
def storeRawSync (data : Bytes) : Bytes :=
  let lo := UInt8.ofNat data.length
  let hi := UInt8.ofNat (data.length / 256)
  1 :: lo :: hi :: ~~~lo :: ~~~hi :: data

theorem storeRawSync_decompresses {data : Bytes} (h : data.length < 2 ^ 16) :
    Decompresses (storeRawSync data) data := by
  have hlen : data.length = (UInt8.ofNat data.length).toNat + 256 * (UInt8.ofNat (data.length / 256)).toNat := by
    have hlo : (UInt8.ofNat data.length).toNat = data.length % 256 := rfl
    have hhi : (UInt8.ofNat (data.length / 256)).toNat = data.length / 256 % 256 := rfl
    omega
  refine ⟨[], [], ?_⟩
  show Blocks Proper IsWord [] (true :: false :: false :: ([false, false, false, false, false] ++
    ofBytes (_ :: _ :: _ :: _ :: data))) [] [] ([] ++ data)
  refine .last (.stored hlen ?_)
  rw [List.length_append, ofBytes_length, Nat.add_mul_mod_self_left, List.append_nil]
  exact List.drop_left' rfl

theorem storeRawSync_compresses {items : List Bytes} (h : (Abi.encode items).length < 2 ^ 16) :
    Compresses storeRawSync items := by
  have hlen : (storeRawSync (Abi.encode items)).length = (Abi.encode items).length + 5 := rfl
  exact ⟨storeRawSync_decompresses h, by omega, by omega⟩

/-- heads, a background, more heads -/
def populateSteps : List TaskStep :=
  [.page 20 .heads ["0x0708".toList, "0x".toList] 100,
    .other (.call 20 (.addBackground "d5d7e1")) rfl, .page 20 .heads ["0x09".toList] 101]

theorem populateSteps_added : (runTask storeRawSync populateSteps (.deploy 20 30, fun _ => [])).1
    = [(.heads, [[7, 8], []]), (.heads, [[9]])] := by decide +kernel

theorem populateSteps_compress {c : TraitKind × List Bytes}
    (hc : c ∈ (runTask storeRawSync populateSteps (.deploy 20 30, fun _ => [])).1) :
    Compresses storeRawSync c.2 := by
  have hsize : ∀ c ∈ [(TraitKind.heads, [[7, 8], []]), (.heads, [[(9 : UInt8)]])],
      (Abi.encode c.2).length < 2 ^ 16 := by decide +kernel
  rw [populateSteps_added] at hc
  exact storeRawSync_compresses (hsize c hc)

theorem populate_exact_run :
    let r := runTask storeRawSync populateSteps (.deploy 20 30, fun _ => [])
    r.2.1.imageByIndex inflatorChain r.2.2 .heads 2 = .ok [9] := by
  obtain ⟨-, h⟩ := populate_exact (C := inflatorChain) (fun _ _ _ => rfl) (fun _ => rfl) storeRawSync
    (fun _ => []) 20 30 populateSteps fun _ => populateSteps_compress
  refine ((h .heads).2 2 [9]).mpr ?_
  rw [populateSteps_added]
  decide

end UNouns.Tasks
