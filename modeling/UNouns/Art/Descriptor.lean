import UNouns.Art.Painting
import UNouns.Art.Paging

/-!
# `NounsDescriptorV2`: pictures and token URIs

The descriptor reads the parts of a seed and their palettes from the art, and has them rendered.

* `palettes`, `getPartsForSeed`        what is read for a seed;
* `generateSVGImage`, `tokenURI`       what is made of it;
* `generateSVG_total`                  parts that are rendered make a picture, over the background.
-/

set_option linter.unusedVariables false

namespace UNouns.Art
open Raster

/-! ## reading -/

namespace NounsArt

def palettes (code : Bytecode) (a : NounsArt) (paletteIndex : UInt8) : Result Bytes := do
  let pointer := a.palettesPointers paletteIndex
  revertUnless (pointer ≠ 0) (.custom "PaletteNotFound")
  SSTORE2.read code pointer

/-- `_getPalette`, of the descriptor -/
def getPalette (code : Bytecode) (a : NounsArt) (part : Bytes) : Result Bytes := do
  let paletteIndex ← item part 0
  a.palettes code paletteIndex

def getPartsForSeed (C : Chain) (code : Bytecode) (a : NounsArt) (seed : Seed) : Result (List Part) := do
  let body ← a.imageByIndex C code .bodies seed.body
  let accessory ← a.imageByIndex C code .accessories seed.accessory
  let head ← a.imageByIndex C code .heads seed.head
  let glasses ← a.imageByIndex C code .glasses seed.glasses
  [body, accessory, head, glasses].mapM fun part => do
    let palette ← a.getPalette code part
    pure ⟨part, palette⟩

/-- what the renderer is asked for -/
def svgParams (C : Chain) (code : Bytecode) (a : NounsArt) (seed : Seed) : Result SVGParams := do
  let parts ← a.getPartsForSeed C code seed
  let background ← item a.backgrounds seed.background
  pure ⟨parts, background⟩

end NounsArt

/-! ## pictures -/

section
variable (base64 : String → String) (C : Chain) (code : Bytecode) (a : NounsArt)

/-- of the descriptor, and of the library under the same name; `base64` is `Base64.encode` of bytes -/
def generateSVGImage (seed : Seed) : Result String := do
  let params ← a.svgParams C code seed
  let svg ← generateSVG params
  pure (base64 svg)

/-- with `constructTokenURI` of the library -/
def genericDataURI (name description : String) (seed : Seed) : Result String := do
  let image ← generateSVGImage base64 C code a seed
  pure ("data:application/json;base64," ++ base64 ("\x7b\"name\":\"" ++ name ++ "\", \"description\":\""
    ++ description ++ "\", \"image\": \"" ++ "data:image/svg+xml;base64," ++ image ++ "\"\x7d"))

def dataURI (tokenId : Nat) (seed : Seed) : Result String :=
  genericDataURI base64 C code a ("UNoun " ++ toString tokenId)
    ("UNoun " ++ toString tokenId ++ " is a member of the UNouns DAO") seed

def tokenURI (isDataURIEnabled : Bool) (baseURI : String) (tokenId : Nat) (seed : Seed) : Result String :=
  if isDataURIEnabled then dataURI base64 C code a tokenId seed
  else .ok (baseURI ++ toString tokenId)

end

/-! ## parts that are rendered -/

theorem eachPart_total {α : Type} {render : α → Result String} {parts : List α} {texts : List String}
    (h : List.Forall₂ (fun part text => render part = .ok text) parts texts) :
    ∀ {p : Nat} {rects : String}, p + parts.length < 2 ^ 8 →
      eachPart render p rects parts = .ok (rects ++ String.join texts) := by
  induction h with
  | nil => exact fun _ => congrArg _ String.append_empty.symm
  | cons hpart _ ih =>
    intro p rects hp
    rw [List.length_cons] at hp
    rw [eachPart, hpart, String.join_cons, ← String.append_assoc]
    show (increment8 p >>= _) = _
    rw [increment8, if_pos (by omega)]
    exact ih (by omega)

/-- the picture of parts that are rendered -/
theorem generateSVG_total {parts : List Part} {texts : List String}
    (h : List.Forall₂ (fun part text => part.render = .ok text) parts texts) (hlen : parts.length < 2 ^ 8)
    {background : String} (hbackground : background ≠ "") :
    generateSVG ⟨parts, background⟩ = .ok (svgStartTag ++ "<rect width=\"100%\" height=\"100%\" fill=\"#"
      ++ background ++ "\" />" ++ String.join texts ++ svgEndTag) := by
  refine bind_eq_ok.mpr ⟨_, eachPart_total h (by omega), ?_⟩
  rw [if_pos hbackground, String.empty_append]
  rfl

end UNouns.Art
