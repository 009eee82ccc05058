import UNouns.Art.Rects
import UNouns.Lib.Pages
import Mathlib.Data.Fintype.Card

/-!
# `NounsArt`: images in pages

Each trait is a list of pages, which are the code of contracts, compressed, and a count of all images.
Code stays as it is once it is there.

* `Chain`                  what the contracts use of the chain and of the inflator;
* `SSTORE2`                contracts whose code is data;
* `ArtOp.apply`            the functions that write;
* `imageByIndex`           the functions that read;
* `NounsArt.Extends`       what a write leaves as it is, the inflator apart;
* `imageByIndex_eq`        a trait is read like the flat list of its images.
-/

set_option linter.unusedVariables false

namespace UNouns.Art
open Function Pages

/-- the parts of the chain, and of contracts beside the art, that are called or looked at -/
structure Chain where
  /-- where the descriptor is -/
  descriptor : Address
  /-- of the two packed words -/
  keccak256 : BitVec 256 → BitVec 256 → BitVec 256
  blockhash : Nat → BitVec 256
  /-- `puff` of the inflator at an address, with its error code -/
  puff : Address → Bytes → Nat → Result (Nat × Bytes)
  /-- `abi.decode(data, (bytes[]))` -/
  decode : Bytes → Result (List Bytes)

/-- the code of all contracts -/
abbrev Bytecode := Address → Bytes

/-! ## storage in code -/

/-- `created` is where the contract would come to be; `0` if it cannot -/
def SSTORE2.write (code : Bytecode) (created : Address) (data : Bytes) : Result (Address × Bytecode) := do
  let pointer := if code created = [] then created else 0
  require (pointer ≠ 0) "DEPLOYMENT_FAILED"
  pure (pointer, update code pointer (0x00 :: data))

def SSTORE2.read (code : Bytecode) (pointer : Address) : Result Bytes := do
  let _ ← checkedSub (code pointer).length 1
  pure ((code pointer).drop 1)

/-! ## storage -/

structure NounArtStoragePage where
  imageCount : Nat
  decompressedLength : Nat
  pointer : Address
  deriving DecidableEq

structure Trait where
  storagePages : List NounArtStoragePage
  storedImagesCount : Nat

inductive TraitKind where
  | bodies
  | accessories
  | heads
  | glasses
  deriving DecidableEq

structure NounsArt where
  descriptor : Address
  inflator : Address
  palettesPointers : UInt8 → Address
  backgrounds : List String
  /-- `bodiesTrait`, `accessoriesTrait`, `headsTrait` and `glassesTrait` -/
  traits : TraitKind → Trait

namespace NounsArt

/-- the constructor -/
def deploy (descriptor inflator : Address) : NounsArt :=
  ⟨descriptor, inflator, fun _ => 0, [], fun _ => ⟨[], 0⟩⟩

/-! ## writing -/

def onlyDescriptor (a : NounsArt) (sender : Address) : Result Unit :=
  revertUnless (sender = a.descriptor) (.custom "SenderIsNotDescriptor")

/-- `addPage` of a pointer -/
def addPageAt (a : NounsArt) (kind : TraitKind) (pointer : Address)
    (decompressedLength imageCount : Nat) : Result NounsArt := do
  revertUnless (decompressedLength ≠ 0) (.custom "BadDecompressedLength")
  revertUnless (imageCount ≠ 0) (.custom "BadImageCount")
  let trait := a.traits kind
  let storedImagesCount ← checkedAdd trait.storedImagesCount imageCount
  pure { a with
    traits := update a.traits kind
      ⟨trait.storagePages ++ [⟨imageCount, decompressedLength, pointer⟩], storedImagesCount⟩ }

/-- `addPage` of bytes -/
def addPage (code : Bytecode) (a : NounsArt) (kind : TraitKind) (encodedCompressed : Bytes)
    (created : Address) (decompressedLength imageCount : Nat) : Result (NounsArt × Bytecode) := do
  revertUnless (encodedCompressed ≠ []) (.custom "EmptyBytes")
  let (pointer, code) ← SSTORE2.write code created encodedCompressed
  let a ← a.addPageAt kind pointer decompressedLength imageCount
  pure (a, code)

def setPalette (code : Bytecode) (a : NounsArt) (paletteIndex : UInt8) (palette : Bytes)
    (created : Address) : Result (NounsArt × Bytecode) := do
  revertUnless (palette.length ≠ 0) (.custom "EmptyPalette")
  revertUnless (¬ (palette.length % 3 ≠ 0 ∨ palette.length > 768)) (.custom "BadPaletteLength")
  let (pointer, code) ← SSTORE2.write code created palette
  pure ({ a with palettesPointers := update a.palettesPointers paletteIndex pointer }, code)

end NounsArt

/-- the functions that write; where they put bytes into a new contract, the address that it gets -/
inductive ArtOp where
  | addManyBackgrounds (backgrounds : List String)
  | addBackground (background : String)
  | setPalette (paletteIndex : UInt8) (palette : Bytes) (created : Address)
  | addBodies (encodedCompressed : Bytes) (created : Address) (decompressedLength imageCount : Nat)
  | addAccessories (encodedCompressed : Bytes) (created : Address) (decompressedLength imageCount : Nat)
  | addHeads (encodedCompressed : Bytes) (created : Address) (decompressedLength imageCount : Nat)
  | addGlasses (encodedCompressed : Bytes) (created : Address) (decompressedLength imageCount : Nat)
  | setPalettePointer (paletteIndex : UInt8) (pointer : Address)
  | addBodiesFromPointer (pointer : Address) (decompressedLength imageCount : Nat)
  | addAccessoriesFromPointer (pointer : Address) (decompressedLength imageCount : Nat)
  | addHeadsFromPointer (pointer : Address) (decompressedLength imageCount : Nat)
  | addGlassesFromPointer (pointer : Address) (decompressedLength imageCount : Nat)
  | setDescriptor (descriptor : Address)
  | setInflator (inflator : Address)

/-- the effect of a function that the descriptor is allowed to call -/
def ArtOp.effect (code : Bytecode) (a : NounsArt) : ArtOp → Result (NounsArt × Bytecode)
  | .addManyBackgrounds bs => .ok ({ a with backgrounds := a.backgrounds ++ bs }, code)
  | .addBackground b => .ok ({ a with backgrounds := a.backgrounds ++ [b] }, code)
  | .setPalette i palette created => a.setPalette code i palette created
  | .addBodies data created length count => a.addPage code .bodies data created length count
  | .addAccessories data created length count => a.addPage code .accessories data created length count
  | .addHeads data created length count => a.addPage code .heads data created length count
  | .addGlasses data created length count => a.addPage code .glasses data created length count
  | .setPalettePointer i pointer =>
    .ok ({ a with palettesPointers := update a.palettesPointers i pointer }, code)
  | .addBodiesFromPointer pointer length count =>
    (a.addPageAt .bodies pointer length count).map (·, code)
  | .addAccessoriesFromPointer pointer length count =>
    (a.addPageAt .accessories pointer length count).map (·, code)
  | .addHeadsFromPointer pointer length count =>
    (a.addPageAt .heads pointer length count).map (·, code)
  | .addGlassesFromPointer pointer length count =>
    (a.addPageAt .glasses pointer length count).map (·, code)
  | .setDescriptor d => .ok ({ a with descriptor := d }, code)
  | .setInflator i => .ok ({ a with inflator := i }, code)

def ArtOp.apply (code : Bytecode) (sender : Address) (a : NounsArt) (op : ArtOp) :
    Result (NounsArt × Bytecode) := do
  a.onlyDescriptor sender
  op.effect code a

/-- the inflator that a function sets -/
def ArtOp.inflator : ArtOp → Option Address
  | .setInflator i => some i
  | _ => none

/-! ## reading -/

namespace NounsArt

def getPage (pages : List NounArtStoragePage) (index : Nat) : Result (NounArtStoragePage × Nat) :=
  match find NounArtStoragePage.imageCount pages 0 index with
  | some r => .ok r
  | none => .error (.custom "ImageNotFound")

/-- the error code of the inflator is not looked at -/
def decompressAndDecode (C : Chain) (code : Bytecode) (a : NounsArt) (page : NounArtStoragePage) :
    Result (List Bytes) := do
  let compressedData ← SSTORE2.read code page.pointer
  let (_, decompressedData) ← C.puff a.inflator compressedData page.decompressedLength
  C.decode decompressedData

def imageByIndex (C : Chain) (code : Bytecode) (a : NounsArt) (kind : TraitKind) (index : Nat) :
    Result Bytes := do
  let (page, indexInPage) ← getPage (a.traits kind).storagePages index
  let decompressedImages ← decompressAndDecode C code a page
  item decompressedImages indexInPage

/-! ## what a write does -/

/-- `a'` has what `a` has, and perhaps more -/
structure Extends (code : Bytecode) (a : NounsArt) (code' : Bytecode) (a' : NounsArt) : Prop where
  backgrounds : a.backgrounds <+: a'.backgrounds
  pages : ∀ kind, (a.traits kind).storagePages <+: (a'.traits kind).storagePages
  code : ∀ pointer, code pointer ≠ [] → code' pointer = code pointer

/-- the counters are right -/
def Counted (a : NounsArt) : Prop := ∀ kind,
  (a.traits kind).storedImagesCount = ((a.traits kind).storagePages.map NounArtStoragePage.imageCount).sum

theorem deploy_counted (descriptor inflator : Address) : (deploy descriptor inflator).Counted :=
  fun _ => rfl

theorem Extends.refl (code : Bytecode) (a : NounsArt) : a.Extends code code a :=
  ⟨List.prefix_refl _, fun _ => List.prefix_refl _, fun _ _ => rfl⟩

theorem Extends.trans {code code' code'' : Bytecode} {a a' a'' : NounsArt} (h : a.Extends code code' a')
    (h' : a'.Extends code' code'' a'') : a.Extends code code'' a'' where
  backgrounds := h.backgrounds.trans h'.backgrounds
  pages kind := (h.pages kind).trans (h'.pages kind)
  code pointer hp := (h'.code pointer (by rwa [h.code pointer hp])).trans (h.code pointer hp)

end NounsArt

section
variable {code code' : Bytecode} {a a' : NounsArt}

/-- a new contract takes the place of none -/
theorem SSTORE2.write_ok {created pointer : Address} {data : Bytes}
    (h : SSTORE2.write code created data = .ok (pointer, code')) :
    ∀ p, code p ≠ [] → code' p = code p := by
  simp only [SSTORE2.write, bind_eq_ok, require_eq_ok, pure_eq_ok, Prod.mk.injEq] at h
  obtain ⟨_, hp, rfl, rfl⟩ := h
  intro p hcode
  split_ifs with h0
  · refine update_of_ne (fun e => hcode ?_) _ _
    rw [e]
    exact h0
  · exact absurd (if_neg h0) hp

theorem NounsArt.addPageAt_ok (code : Bytecode) {kind : TraitKind} {pointer : Address}
    {length count : Nat} (h : a.addPageAt kind pointer length count = .ok a') (hc : a.Counted) :
    a.Extends code code a' ∧ a'.Counted := by
  simp only [NounsArt.addPageAt, bind_eq_ok, revertUnless_eq_ok, checkedAdd_eq_ok, pure_eq_ok] at h
  obtain ⟨_, _, _, _, n, ⟨_, rfl⟩, rfl⟩ := h
  refine ⟨⟨List.prefix_refl _, fun k => ?_, fun _ _ => rfl⟩, fun k => ?_⟩
  · by_cases e : k = kind
    · subst e
      simp only [update_self]
      exact List.prefix_append _ _
    · simp only [update_of_ne e]
      exact List.prefix_refl _
  · by_cases e : k = kind
    · subst e
      simp only [update_self, List.map_append, List.sum_append, List.map_cons, List.map_nil,
        List.sum_cons, List.sum_nil, hc k]
      omega
    · simp only [update_of_ne e]
      exact hc k

theorem NounsArt.addPage_ok {kind : TraitKind} {data : Bytes} {created : Address} {length count : Nat}
    (h : a.addPage code kind data created length count = .ok (a', code')) (hc : a.Counted) :
    a.Extends code code' a' ∧ a'.Counted := by
  simp only [NounsArt.addPage, bind_eq_ok, pure_eq_ok, Prod.exists, Prod.mk.injEq] at h
  obtain ⟨_, _, pointer, code1, hw, a1, ha, rfl, rfl⟩ := h
  obtain ⟨h1, h2⟩ := NounsArt.addPageAt_ok code ha hc
  exact ⟨⟨h1.backgrounds, h1.pages, SSTORE2.write_ok hw⟩, h2⟩

/-- **Every write extends the art**, and keeps its counters right. -/
theorem ArtOp.apply_ok {sender : Address} {op : ArtOp} (h : op.apply code sender a = .ok (a', code'))
    (hc : a.Counted) : a.Extends code code' a' ∧ a'.Counted := by
  obtain ⟨_, _, h⟩ := bind_eq_ok.mp h
  have hsame : ∀ bs, a.backgrounds <+: bs → ∀ d i p code', (∀ q, code q ≠ [] → code' q = code q) →
      a.Extends code code' ⟨d, i, p, bs, a.traits⟩ ∧
        NounsArt.Counted ⟨d, i, p, bs, a.traits⟩ := fun bs hbs d i p code' hcode =>
    ⟨⟨hbs, fun _ => List.prefix_refl _, hcode⟩, hc⟩
  cases op with
  | addManyBackgrounds bs =>
    cases h
    exact hsame _ (List.prefix_append _ _) _ _ _ _ fun _ _ => rfl
  | addBackground b =>
    cases h
    exact hsame _ (List.prefix_append _ _) _ _ _ _ fun _ _ => rfl
  | setPalette i palette created =>
    simp only [ArtOp.effect, NounsArt.setPalette, bind_eq_ok, pure_eq_ok, Prod.exists,
      Prod.mk.injEq] at h
    obtain ⟨_, _, _, _, pointer, code1, hw, rfl, rfl⟩ := h
    exact hsame _ (List.prefix_refl _) _ _ _ _ (SSTORE2.write_ok hw)
  | addBodies data created length count => exact NounsArt.addPage_ok h hc
  | addAccessories data created length count => exact NounsArt.addPage_ok h hc
  | addHeads data created length count => exact NounsArt.addPage_ok h hc
  | addGlasses data created length count => exact NounsArt.addPage_ok h hc
  | setPalettePointer i pointer =>
    cases h
    exact hsame _ (List.prefix_refl _) _ _ _ _ fun _ _ => rfl
  | addBodiesFromPointer pointer length count =>
    obtain ⟨_, ha, h⟩ := map_eq_ok.mp h
    cases h
    exact NounsArt.addPageAt_ok code ha hc
  | addAccessoriesFromPointer pointer length count =>
    obtain ⟨_, ha, h⟩ := map_eq_ok.mp h
    cases h
    exact NounsArt.addPageAt_ok code ha hc
  | addHeadsFromPointer pointer length count =>
    obtain ⟨_, ha, h⟩ := map_eq_ok.mp h
    cases h
    exact NounsArt.addPageAt_ok code ha hc
  | addGlassesFromPointer pointer length count =>
    obtain ⟨_, ha, h⟩ := map_eq_ok.mp h
    cases h
    exact NounsArt.addPageAt_ok code ha hc
  | setDescriptor _ | setInflator _ =>
    cases h
    exact hsame _ (List.prefix_refl _) _ _ _ _ fun _ _ => rfl

theorem NounsArt.addPageAt_inflator {kind : TraitKind} {pointer : Address} {length count : Nat}
    (h : a.addPageAt kind pointer length count = .ok a') : a'.inflator = a.inflator := by
  simp only [NounsArt.addPageAt, bind_eq_ok, pure_eq_ok] at h
  obtain ⟨_, _, _, _, _, _, rfl⟩ := h
  rfl

theorem NounsArt.addPage_inflator {kind : TraitKind} {data : Bytes} {created : Address}
    {length count : Nat} (h : a.addPage code kind data created length count = .ok (a', code')) :
    a'.inflator = a.inflator := by
  simp only [NounsArt.addPage, bind_eq_ok, pure_eq_ok, Prod.exists, Prod.mk.injEq] at h
  obtain ⟨_, _, _, _, _, _, ha, rfl, _⟩ := h
  exact NounsArt.addPageAt_inflator ha

/-- one function sets the inflator, and the others leave it -/
theorem ArtOp.apply_inflator {sender : Address} {op : ArtOp}
    (h : op.apply code sender a = .ok (a', code')) : a'.inflator = op.inflator.getD a.inflator := by
  obtain ⟨_, _, h⟩ := bind_eq_ok.mp h
  cases op with
  | addManyBackgrounds _ | addBackground _ | setPalettePointer _ _ | setDescriptor _ | setInflator _ =>
    cases h
    rfl
  | setPalette i palette created =>
    simp only [ArtOp.effect, NounsArt.setPalette, bind_eq_ok, pure_eq_ok, Prod.exists,
      Prod.mk.injEq] at h
    obtain ⟨_, _, _, _, _, _, _, rfl, _⟩ := h
    rfl
  | addBodies | addAccessories | addHeads | addGlasses => exact NounsArt.addPage_inflator h
  | addBodiesFromPointer | addAccessoriesFromPointer | addHeadsFromPointer | addGlassesFromPointer =>
    obtain ⟨_, ha, h⟩ := map_eq_ok.mp h
    cases h
    exact NounsArt.addPageAt_inflator ha

end

/-! ## the flat list -/

namespace NounsArt

/-- the images of a page -/
def pageImages (C : Chain) (code : Bytecode) (a : NounsArt) (page : NounArtStoragePage) : List Bytes :=
  (decompressAndDecode C code a page).toOption.getD []

/-- all images of a trait, in order -/
def images (C : Chain) (code : Bytecode) (a : NounsArt) (kind : TraitKind) : List Bytes :=
  (a.traits kind).storagePages.flatMap (pageImages C code a)

/-- each page inflates and decodes to as many images as it says -/
def Inflates (C : Chain) (code : Bytecode) (a : NounsArt) : Prop :=
  ∀ kind, ∀ page ∈ (a.traits kind).storagePages, ∃ images,
    decompressAndDecode C code a page = .ok images ∧ images.length = page.imageCount

theorem inflates_iff (C : Chain) (code : Bytecode) (a : NounsArt) : a.Inflates C code ↔
    ∀ kind ∈ [TraitKind.bodies, .accessories, .heads, .glasses], ∀ page ∈ (a.traits kind).storagePages,
      (decompressAndDecode C code a page).toOption.map List.length = some page.imageCount := by
  have hall : ∀ kind, kind ∈ [TraitKind.bodies, .accessories, .heads, .glasses] := by
    intro kind
    cases kind <;> decide
  constructor
  · intro h kind _ page hp
    obtain ⟨images, him, hlen⟩ := h kind page hp
    rw [him, ← hlen]
    rfl
  · intro h kind page hp
    obtain ⟨images, him, hlen⟩ := Option.map_eq_some_iff.mp (h kind (hall kind) page hp)
    refine ⟨images, ?_, hlen⟩
    cases hd : decompressAndDecode C code a page with
    | error e =>
      rw [hd] at him
      cases him
    | ok ims =>
      rw [hd] at him
      rw [Option.some.inj him]

instance (C : Chain) (code : Bytecode) (a : NounsArt) : Decidable (a.Inflates C code) :=
  decidable_of_iff _ (inflates_iff C code a).symm

variable {C : Chain} {code code' : Bytecode} {a a' : NounsArt}

theorem Inflates.pageImages_length (h : a.Inflates C code) {kind : TraitKind} {page : NounArtStoragePage}
    (hp : page ∈ (a.traits kind).storagePages) :
    (pageImages C code a page).length = page.imageCount := by
  obtain ⟨images, him, hlen⟩ := h kind page hp
  unfold pageImages
  rw [him]
  exact hlen

theorem Inflates.images_length (h : a.Inflates C code) (hc : a.Counted) (kind : TraitKind) :
    (a.images C code kind).length = (a.traits kind).storedImagesCount := by
  rw [hc kind]
  exact length_flatMap fun page hp => h.pageImages_length hp

/-- **A trait is read like the flat list of its images.** -/
theorem imageByIndex_eq (h : a.Inflates C code) {kind : TraitKind} {index : Nat} {image : Bytes}
    (hi : (a.images C code kind)[index]? = some image) :
    a.imageByIndex C code kind index = .ok image := by
  have hsize : ∀ page ∈ (a.traits kind).storagePages, (pageImages C code a page).length
      = page.imageCount := fun page hp => h.pageImages_length hp
  have hfound : (find NounArtStoragePage.imageCount (a.traits kind).storagePages 0 index).bind
      (fun r => (pageImages C code a r.1)[r.2]?) = some image := by
    rw [find_flatMap hsize (Nat.zero_le index), Nat.sub_zero]
    exact hi
  unfold imageByIndex getPage
  cases hf : find NounArtStoragePage.imageCount (a.traits kind).storagePages 0 index with
  | none =>
    rw [hf] at hfound
    cases hfound
  | some r =>
    obtain ⟨page, i⟩ := r
    rw [hf] at hfound
    obtain ⟨hp, _⟩ := find_mem (Nat.zero_le index) hf
    obtain ⟨ims, him, _⟩ := h kind page hp
    have hget : (pageImages C code a page)[i]? = some image := hfound
    unfold pageImages at hget
    rw [him] at hget
    show (decompressAndDecode C code a page >>= fun ims => item ims i) = _
    rw [him]
    exact item_eq_ok.mpr hget

/-- a page that was there is decoded to what it was, if the inflator does the same -/
theorem Extends.decompressAndDecode (h : a.Extends code code' a')
    (hpuff : C.puff a'.inflator = C.puff a.inflator) {page : NounArtStoragePage} {images : List Bytes}
    (him : a.decompressAndDecode C code page = .ok images) :
    a'.decompressAndDecode C code' page = .ok images := by
  have hcode : code' page.pointer = code page.pointer := by
    refine h.code _ fun e => ?_
    obtain ⟨_, hr, _⟩ := bind_eq_ok.mp him
    obtain ⟨_, hsub, _⟩ := bind_eq_ok.mp hr
    rw [checkedSub_eq_ok, e] at hsub
    exact absurd hsub.1 (by decide)
  rw [← him]
  unfold NounsArt.decompressAndDecode SSTORE2.read
  rw [hcode, hpuff]

/-- what was there stays, at its index -/
theorem Extends.images (h : a.Extends code code' a') (hpuff : C.puff a'.inflator = C.puff a.inflator)
    (hi : a.Inflates C code) (kind : TraitKind) : a.images C code kind <+: a'.images C code' kind := by
  refine flatMap_prefix (h.pages kind) fun page hp => ?_
  obtain ⟨ims, him, _⟩ := hi kind page hp
  unfold pageImages
  rw [him, h.decompressAndDecode hpuff him]

end NounsArt

end UNouns.Art
