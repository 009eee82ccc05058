import UNouns.Sdk.Image
import UNouns.Art.SVGRenderer

/-!
# `buildSVG`: the renderer of the SDK

It reads parts in hex, and colours as strings.

* `drawRun`, `drawRun_eq`   the loop over one rectangle, and its strokes;
* `buildPart_eq`            a part is the picture of its runs;
* `Hex`                     the two ways to write a part in hex;
* `buildSVG_generateSVG`    what the chain renders, the SDK renders.
-/

set_option linter.unusedVariables false

namespace UNouns.Sdk
open HexString Raster

def svgStart : String :=
  "<svg width=\"320\" height=\"320\" viewBox=\"0 0 320 320\" xmlns=\"http://www.w3.org/2000/svg\" shape-rendering=\"crispEdges\">"

/-- a negative number to the right of the bound -/
def getRectLength (currentX drawLength rightBound : Nat) : Int :=
  let remainingPixelsInLine : Int := rightBound - currentX
  if drawLength ≤ remainingPixelsInLine then drawLength else remainingPixelsInLine

def svgRect (length : Nat) (pen : Pen) (hexColor : String) : String :=
  "<rect width=\"" ++ toString (length * 10) ++ "\" height=\"10\" x=\"" ++ toString (pen.x * 10)
    ++ "\" y=\"" ++ toString (pen.y * 10) ++ "\" fill=\"#" ++ hexColor ++ "\" />"

/-- the loop over what is left of a draw -/
def drawRun (bounds : ImageBounds) (colorIndex : Nat) (hexColor : String) :
    Nat → Pen × List String → Nat → Pen × List String
  | 0, s, _ => s
  | fuel + 1, (pen, svgRects), drawLength =>
    let length := getRectLength pen.x drawLength bounds.right
    if length > 0 then
      let svgRects := if colorIndex ≠ 0 then svgRects ++ [svgRect length.toNat pen hexColor] else svgRects
      drawRun bounds colorIndex hexColor fuel (pen.advance bounds.left bounds.right length.toNat, svgRects)
        (drawLength - length.toNat)
    else (pen, svgRects)

/-- an index behind the colours gives `undefined`, which is written as a text -/
def colorAt (paletteColors : List String) (colorIndex : Nat) : String :=
  paletteColors[colorIndex]?.getD "undefined"

/-- the callback of `reduce`; a draw takes at most as many turns as it has pixels, and one to see that
none is left -/
def buildPart (paletteColors : List String) (result : String) (data : List Char) : Option String := do
  let image ← decodeImage data
  let s := image.rects.foldl (fun s draw =>
    drawRun image.bounds draw.2 (colorAt paletteColors draw.2) (draw.1 + 1) s draw.1)
    (⟨image.bounds.left, image.bounds.top⟩, [])
  pure (result ++ String.join s.2)

def bgFill (bgColor : Option String) : String :=
  match bgColor with
  | some c => if c ≠ "" then "#" ++ c else "none"
  | none => "none"

def buildSVG (parts : List (List Char)) (paletteColors : List String) (bgColor : Option String) :
    Option String := do
  let svgWithoutEndTag ← parts.foldlM (buildPart paletteColors)
    (svgStart ++ "<rect width=\"100%\" height=\"100%\" fill=\"" ++ bgFill bgColor ++ "\" />")
  pure (svgWithoutEndTag ++ "</svg>")

/-! ## what is drawn -/

theorem getRectLength_eq (currentX drawLength rightBound : Nat) :
    (getRectLength currentX drawLength rightBound).toNat = min drawLength (rightBound - currentX) := by
  unfold getRectLength
  dsimp only
  split_ifs <;> omega

/-- a draw is its strokes, cut at the ends of the rows -/
theorem drawRun_eq (bounds : ImageBounds) (colorIndex : Nat) (color : Nat → String) :
    ∀ (fuel : Nat) (pen : Pen) (svgRects : List String) (n : Nat),
      let s := drawRun bounds colorIndex (color colorIndex) fuel (pen, svgRects) n
      let t := cut bounds.left bounds.right colorIndex fuel pen n
      s.1 = t.2 ∧ String.join s.2 = String.join svgRects ++ Art.pictureText color t.1 := by
  intro fuel
  induction fuel with
  | zero => exact fun pen svgRects n => ⟨rfl, String.append_empty.symm⟩
  | succ fuel ih =>
    intro pen svgRects n
    have hlen := getRectLength_eq pen.x n bounds.right
    unfold drawRun cut
    simp only [← hlen]
    by_cases e : (getRectLength pen.x n bounds.right).toNat = 0
    · rw [if_neg (by omega), if_pos e]
      exact ⟨rfl, String.append_empty.symm⟩
    · rw [if_pos (by omega), if_neg e]
      obtain ⟨h1, h2⟩ := ih (pen.advance bounds.left bounds.right (getRectLength pen.x n bounds.right).toNat)
        (if colorIndex ≠ 0 then svgRects
          ++ [svgRect (getRectLength pen.x n bounds.right).toNat pen (color colorIndex)] else svgRects)
        (n - (getRectLength pen.x n bounds.right).toNat)
      refine ⟨h1, h2.trans ?_⟩
      rw [Art.pictureText_cons]
      dsimp only
      by_cases ec : colorIndex = 0
      · rw [if_neg (by simpa using ec), if_neg (by simpa using ec), String.empty_append]
      · rw [if_pos ec, if_pos ec, String.join_append, String.append_assoc]
        rfl

theorem drawRuns_eq (bounds : ImageBounds) (color : Nat → String) (rects : List (Nat × Nat)) :
    ∀ (pen : Pen) (svgRects : List String),
      String.join (rects.foldl (fun s draw => drawRun bounds draw.2 (color draw.2) (draw.1 + 1) s draw.1)
        (pen, svgRects)).2
        = String.join svgRects ++ Art.pictureText color (strokes bounds.left bounds.right pen rects) := by
  induction rects with
  | nil => exact fun pen svgRects => String.append_empty.symm
  | cons draw rects ih =>
    intro pen svgRects
    obtain ⟨h1, h2⟩ := drawRun_eq bounds draw.2 color (draw.1 + 1) pen svgRects draw.1
    rw [List.foldl_cons]
    unfold strokes
    rw [Art.pictureText_append, ← String.append_assoc, ← h2, ← h1]
    exact ih _ _

/-- **A part is the picture of its runs.** -/
theorem buildPart_eq {paletteColors : List String} {result : String} {data : List Char}
    {image : DecodedImage} (h : decodeImage data = some image) :
    buildPart paletteColors result data = some (result ++ Art.pictureText (colorAt paletteColors)
      (strokes image.bounds.left image.bounds.right ⟨image.bounds.left, image.bounds.top⟩ image.rects)) := by
  have hdraw := drawRuns_eq image.bounds (colorAt paletteColors) image.rects
    ⟨image.bounds.left, image.bounds.top⟩ []
  unfold buildPart
  rw [h]
  exact congrArg (fun t => some (result ++ t)) (hdraw.trans String.empty_append)

/-! ## the parts in hex -/

/-- two digits for a byte, with the prefix or without -/
def Hex (image : Bytes) (data : List Char) : Prop :=
  data = (image.flatMap fun b => hexPair b.toNat) ∨ data = prefixed (image.flatMap fun b => hexPair b.toNat)

theorem hex_decodeDraws {rest : Bytes} : ∀ {draws : List (Nat × Nat)}, Art.decodeDraws rest = .ok draws →
    (∀ r ∈ draws, r.1 < 256 ∧ r.2 < 256) ∧
      (rest.flatMap fun b => hexPair b.toNat) = draws.flatMap fun r => hexPair r.1 ++ hexPair r.2 := by
  induction rest using Art.decodeDraws.induct with
  | case1 =>
    intro draws h
    cases Except.ok.inj h
    exact ⟨fun r hr => absurd hr List.not_mem_nil, rfl⟩
  | case2 b => exact fun h => (nomatch h)
  | case3 length colorIndex rest ih =>
    intro draws h
    obtain ⟨ds, hds, h⟩ := bind_eq_ok.mp h
    cases pure_eq_ok.mp h
    obtain ⟨hlt, htext⟩ := ih hds
    refine ⟨fun r hr => ?_, ?_⟩
    · rcases List.mem_cons.mp hr with rfl | hr
      · exact ⟨length.toNat_lt, colorIndex.toNat_lt⟩
      · exact hlt r hr
    · rw [List.flatMap_cons, List.flatMap_cons, List.flatMap_cons, htext, List.append_assoc]

/-- **Both decoders read the same image.** -/
theorem decodeImage_decodeRuns {image : Bytes} {data : List Char} (hdata : Hex image data)
    {bounds : Art.ContentBounds} {draws : List (Nat × Nat)}
    (h : Art.decodeRuns image = .ok (bounds, draws)) :
    ∃ p, decodeImage data
      = some ⟨p, ⟨bounds.top, bounds.right, bounds.bottom, bounds.left⟩, draws⟩ := by
  obtain ⟨p, top, right, bottom, left, rest, rfl, rfl, hdraws⟩ := Art.decodeRuns_ok h
  obtain ⟨hlt, htext⟩ := hex_decodeDraws hdraws
  have hread := decodeImage_hex p.toNat_lt top.toNat_lt right.toNat_lt bottom.toNat_lt left.toNat_lt hlt rfl
  have hsplit : ((p :: top :: right :: bottom :: left :: rest).flatMap fun b => hexPair b.toNat)
      = [p.toNat, top.toNat, right.toNat, bottom.toNat, left.toNat].flatMap hexPair
        ++ draws.flatMap fun r => hexPair r.1 ++ hexPair r.2 := by
    rw [← htext]
    rfl
  refine ⟨p.toNat, ?_⟩
  rcases hdata with rfl | rfl
  · rw [hsplit]
    exact hread.1
  · rw [hsplit]
    exact hread.2

/-- the colours of the SDK are those of the palette, where the palette has any -/
def Paints (palette : Bytes) (paletteColors : List String) : Prop :=
  ∀ i, 1 ≤ i → i * 3 + 2 < palette.length → paletteColors[i]? = some (Art.hexColor palette i)

theorem buildPart_render {part : Art.Part} {paletteColors : List String}
    (hcolors : Paints part.palette paletteColors) {data : List Char} (hdata : Hex part.image data)
    {text : String} (h : part.render = .ok text) (result : String) :
    buildPart paletteColors result data = some (result ++ text) := by
  obtain ⟨bounds, draws, hdecode, rfl, hlen⟩ := Art.Part.render_ok h
  obtain ⟨p, himage⟩ := decodeImage_decodeRuns hdata hdecode
  rw [buildPart_eq himage]
  congr 2
  refine Art.pictureText_congr fun s hs hv => ?_
  unfold colorAt
  rw [hcolors s.value (by omega) (hlen s hs hv)]
  rfl

theorem foldlM_buildPart {palette : Bytes} {paletteColors : List String}
    (hcolors : Paints palette paletteColors) {parts : List Art.Part} :
    ∀ {datas : List (List Char)} {texts : List String} (result : String),
      (∀ part ∈ parts, part.palette = palette) →
      List.Forall₂ (fun part data => Hex part.image data) parts datas →
      List.Forall₂ (fun part text => part.render = .ok text) parts texts →
      datas.foldlM (buildPart paletteColors) result = some (result ++ String.join texts) := by
  induction parts with
  | nil =>
    intro datas texts result _ hd ht
    cases hd
    cases ht
    exact congrArg some String.append_empty.symm
  | cons part parts ih =>
    intro datas texts result hp hd ht
    obtain _ | ⟨hdata, hd⟩ := hd
    obtain _ | ⟨htext, ht⟩ := ht
    rw [List.foldlM_cons, buildPart_render (by rwa [hp part List.mem_cons_self]) hdata htext,
      String.join_cons, ← String.append_assoc]
    exact ih _ (fun q hq => hp q (List.mem_cons_of_mem _ hq)) hd ht

/-- **What the chain renders, the SDK renders.** -/
theorem buildSVG_generateSVG (parts : List Art.Part) (palette : Bytes)
    (hpalette : ∀ part ∈ parts, part.palette = palette) (datas : List (List Char))
    (hdatas : List.Forall₂ (fun part data => Hex part.image data) parts datas)
    (paletteColors : List String) (hcolors : Paints palette paletteColors) (background : String)
    (hbackground : background ≠ "") (svg : String)
    (h : Art.generateSVG ⟨parts, background⟩ = .ok svg) :
    buildSVG datas paletteColors (some background) = some svg := by
  obtain ⟨texts, htexts, rfl⟩ := Art.generateSVG_ok hbackground h
  have hfold := foldlM_buildPart hcolors
    (svgStart ++ "<rect width=\"100%\" height=\"100%\" fill=\"" ++ bgFill (some background) ++ "\" />")
    hpalette hdatas htexts
  have hfill : bgFill (some background) = "#" ++ background := if_pos hbackground
  have hopen : "<rect width=\"100%\" height=\"100%\" fill=\"#"
      = "<rect width=\"100%\" height=\"100%\" fill=\"" ++ "#" := by decide
  unfold buildSVG
  rw [hfold, hfill, hopen]
  simp only [← String.append_assoc]
  rfl

/-- a head and glasses on one palette, both with runs over the end of a row -/
def sampleParts : List Art.Part :=
  [⟨[0, 1, 4, 2, 1, 2, 1, 4, 2], [0, 0, 0, 255, 0, 10, 16, 32, 48]⟩,
    ⟨[0, 3, 9, 3, 2, 3, 0, 2, 1, 2, 2], [0, 0, 0, 255, 0, 10, 16, 32, 48]⟩]

theorem buildSVG_generateSVG_run : ∃ svg, Art.generateSVG ⟨sampleParts, "d5d7e1"⟩ = .ok svg ∧
    buildSVG ["0x000104020102010402".toList, "0003090302030002010202".toList]
      ["", "ff000a", "102030"] (some "d5d7e1") = some svg := by
  have hok : (Art.generateSVG ⟨sampleParts, "d5d7e1"⟩).toBool = true := by decide +kernel
  cases h : Art.generateSVG ⟨sampleParts, "d5d7e1"⟩ with
  | error e =>
    rw [h] at hok
    cases hok
  | ok svg =>
    refine ⟨svg, rfl, buildSVG_generateSVG sampleParts [0, 0, 0, 255, 0, 10, 16, 32, 48] ?_ _ ?_ _ ?_ _
      (by decide) svg h⟩
    · decide
    · exact .cons (.inr (by decide +kernel)) (.cons (.inl (by decide +kernel)) .nil)
    · intro i h1 h2
      have hi : i = 1 ∨ i = 2 := by
        simp only [List.length_cons, List.length_nil] at h2
        omega
      rcases hi with rfl | rfl
      · decide +kernel
      · decide +kernel

end UNouns.Sdk
