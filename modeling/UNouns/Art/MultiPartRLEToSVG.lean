import UNouns.Art.SVGRenderer

/-!
# `MultiPartRLEToSVG`: the renderer of the old descriptor

It draws a run as one rectangle, wherever the row ends, and its palettes are lists of strings in
storage.

* `Old.drawRun`                  one run;
* `Old.drawRuns_ok`              runs within rows are their strokes;
* `Flattened`                    a palette of the old descriptor as one of the new;
* `Old.generateSVG_generateSVG`  both renderers give one image.
-/

set_option linter.unusedVariables false

namespace UNouns.Art
open Raster HexString

namespace Old

structure SVGParams where
  parts : List Bytes
  background : String

/-- the variables of the loop over the runs -/
structure Canvas where
  pen : Pen
  buffer : Buffer

/-- one rectangle into the buffer -/
def Canvas.paint (c : Canvas) (palette : List String) (rect : Nat × Nat) : Result Canvas := do
  let width ← item lookup rect.1
  let x ← item lookup c.pen.x
  let y ← item lookup c.pen.y
  let color ← item palette rect.2
  let buffer ← c.buffer.push width x y color
  pure ⟨c.pen, buffer⟩

/-- index `0` is transparent -/
def Canvas.mark (c : Canvas) (palette : List String) (rect : Nat × Nat) : Result Canvas :=
  if rect.2 ≠ 0 then c.paint palette rect else .ok c

def drawRun (bounds : ContentBounds) (palette : List String) (c : Canvas) (rect : Nat × Nat) :
    Result Canvas := do
  let c ← c.mark palette rect
  pure ⟨c.pen.advance bounds.left bounds.right rect.1, c.buffer⟩

def render (palettes : UInt8 → List String) (part : Bytes) : Result String := do
  let paletteIndex ← item part 0
  let (bounds, rects) ← decodeRuns part
  let c ← rects.foldlM (drawRun bounds (palettes paletteIndex))
    ⟨⟨bounds.left, bounds.top⟩, .empty⟩
  pure c.buffer.text

/-- `_generateSVGRects` -/
def generateSVGRects (params : SVGParams) (palettes : UInt8 → List String) : Result String :=
  eachPart (render palettes) 0 "" params.parts

def generateSVG (params : SVGParams) (palettes : UInt8 → List String) : Result String := do
  let rects ← generateSVGRects params palettes
  pure ("<svg width=\"320\" height=\"320\" viewBox=\"0 0 320 320\" xmlns=\"http://www.w3.org/2000/svg\" shape-rendering=\"crispEdges\">"
    ++ "<rect width=\"100%\" height=\"100%\" fill=\"#" ++ params.background ++ "\" />" ++ rects ++ "</svg>")

/-! ## what is drawn -/

/-- an index behind the colours does not get here -/
def colorAt (palette : List String) (index : Nat) : String := palette.getD index ""

theorem Canvas.mark_ok {c c' : Canvas} {palette : List String} {rect : Nat × Nat}
    (hc : c.buffer.Sound) (h : c.mark palette rect = .ok c') :
    c'.buffer.Sound ∧ c'.pen = c.pen ∧ c'.buffer.text = c.buffer.text
      ++ pictureText (colorAt palette) [⟨rect.1, c.pen.x, c.pen.y, rect.2⟩] := by
  unfold Canvas.mark at h
  rw [pictureText_cons]
  by_cases e : rect.2 = 0
  · rw [if_neg (by simpa using e)] at h
    cases Except.ok.inj h
    rw [if_neg (by simpa using e)]
    exact ⟨hc, rfl, String.append_empty.symm⟩
  · rw [if_pos e] at h
    obtain ⟨width, hwidth, h⟩ := bind_eq_ok.mp h
    obtain ⟨x, hx, h⟩ := bind_eq_ok.mp h
    obtain ⟨y, hy, h⟩ := bind_eq_ok.mp h
    obtain ⟨color, hcolor, h⟩ := bind_eq_ok.mp h
    obtain ⟨buffer, hbuffer, h⟩ := bind_eq_ok.mp h
    cases pure_eq_ok.mp h
    obtain ⟨b', hb', hsound, htext⟩ := Buffer.push_text hc width x y color
    cases hb'.symm.trans hbuffer
    have hget : colorAt palette rect.2 = color := by
      rw [item_eq_ok] at hcolor
      rw [colorAt, List.getD_eq_getElem?_getD, hcolor]
      rfl
    refine ⟨hsound, rfl, ?_⟩
    rw [htext, lookup_eq hwidth, lookup_eq hx, lookup_eq hy, if_pos e, strokeText, hget]
    exact congrArg (c.buffer.text ++ ·) String.append_empty.symm

/-- **Runs within rows are their strokes.** -/
theorem drawRuns_ok {bounds : ContentBounds} {palette : List String} {rects : List (Nat × Nat)} :
    ∀ {c c' : Canvas}, c.buffer.Sound → WithinRows bounds.left bounds.right c.pen rects →
      rects.foldlM (drawRun bounds palette) c = .ok c' →
      c'.buffer.text = c.buffer.text
        ++ pictureText (colorAt palette) (strokes bounds.left bounds.right c.pen rects) := by
  induction rects with
  | nil =>
    intro c c' hc _ h
    cases pure_eq_ok.mp h
    exact String.append_empty.symm
  | cons rect rects ih =>
    intro c c' hc hrows h
    obtain ⟨h1, hle, hrows⟩ := hrows
    rw [List.foldlM_cons] at h
    obtain ⟨c1, hrun, h⟩ := bind_eq_ok.mp h
    obtain ⟨c2, hmark, hrun⟩ := bind_eq_ok.mp hrun
    cases pure_eq_ok.mp hrun
    obtain ⟨hsound, hpen, htext⟩ := Canvas.mark_ok hc hmark
    rw [hpen] at h
    rw [ih (c := ⟨c.pen.advance bounds.left bounds.right rect.1, c2.buffer⟩) hsound hrows h]
    rw [strokes_cons_of_le rects h1 hle, pictureText_append, ← String.append_assoc, ← htext]

theorem render_ok {palettes : UInt8 → List String} {part : Bytes} {text : String}
    (hrows : ∀ bounds draws, decodeRuns part = .ok (bounds, draws) →
      WithinRows bounds.left bounds.right ⟨bounds.left, bounds.top⟩ draws)
    (h : render palettes part = .ok text) :
    ∃ p bounds draws, part[0]? = some p ∧ decodeRuns part = .ok (bounds, draws) ∧
      text = pictureText (colorAt (palettes p))
        (strokes bounds.left bounds.right ⟨bounds.left, bounds.top⟩ draws) := by
  obtain ⟨p, hp, h⟩ := bind_eq_ok.mp h
  obtain ⟨⟨bounds, draws⟩, hdecode, h⟩ := bind_eq_ok.mp h
  obtain ⟨c, hfold, h⟩ := bind_eq_ok.mp h
  refine ⟨p, bounds, draws, item_eq_ok.mp hp, hdecode, ?_⟩
  have htext := drawRuns_ok (c := ⟨⟨bounds.left, bounds.top⟩, .empty⟩) Buffer.empty_sound
    (hrows bounds draws hdecode) hfold
  rw [← pure_eq_ok.mp h, htext]
  exact String.empty_append

end Old

/-! ## the same palette -/

/-- six digits for each three bytes -/
def Flattened (colors : List String) (palette : Bytes) : Prop :=
  ∃ triples : List (UInt8 × UInt8 × UInt8),
    colors = triples.map (fun t => String.ofList
      ([t.1, t.2.1, t.2.2].flatMap fun b => write [b.toNat / 16, b.toNat % 16])) ∧
    palette = triples.flatMap fun t => [t.1, t.2.1, t.2.2]

theorem flatMap_triple {triples : List (UInt8 × UInt8 × UInt8)} : ∀ {i : Nat},
    i * 3 + 2 < (triples.flatMap fun t => [t.1, t.2.1, t.2.2]).length → ∃ t, triples[i]? = some t ∧
      (triples.flatMap fun t => [t.1, t.2.1, t.2.2])[i * 3]? = some t.1 ∧
      (triples.flatMap fun t => [t.1, t.2.1, t.2.2])[i * 3 + 1]? = some t.2.1 ∧
      (triples.flatMap fun t => [t.1, t.2.1, t.2.2])[i * 3 + 2]? = some t.2.2 := by
  induction triples with
  | nil => exact fun h => absurd h (Nat.not_lt_zero _)
  | cons t ts ih =>
    intro i h
    cases i with
    | zero => exact ⟨t, rfl, rfl, rfl, rfl⟩
    | succ i =>
      have hi : (i + 1) * 3 = i * 3 + 3 := Nat.succ_mul i 3
      rw [hi] at h ⊢
      have hlen : i * 3 + 2 < (ts.flatMap fun t => [t.1, t.2.1, t.2.2]).length := by
        rw [List.flatMap_cons, List.length_append] at h
        simp only [List.length_cons, List.length_nil] at h
        omega
      exact ih hlen

/-- a colour is the same in both palettes -/
theorem Flattened.color {colors : List String} {palette : Bytes} (h : Flattened colors palette) {i : Nat}
    (hi : i * 3 + 2 < palette.length) : Old.colorAt colors i = hexColor palette i := by
  obtain ⟨triples, rfl, rfl⟩ := h
  obtain ⟨t, ht, h0, h1, h2⟩ := flatMap_triple hi
  rw [Old.colorAt, hexColor]
  simp only [List.getD_eq_getElem?_getD, List.getElem?_map, ht, h0, h1, h2]
  rfl

theorem Old.render_render {palettes : UInt8 → List String} {part : Part}
    (hpalette : ∀ p, part.image[0]? = some p → Flattened (palettes p) part.palette)
    (hrows : ∀ bounds draws, decodeRuns part.image = .ok (bounds, draws) →
      WithinRows bounds.left bounds.right ⟨bounds.left, bounds.top⟩ draws) {old new : String}
    (hold : Old.render palettes part.image = .ok old) (hnew : part.render = .ok new) : old = new := by
  obtain ⟨p, bounds, draws, hp, hdecode, rfl⟩ := Old.render_ok hrows hold
  obtain ⟨bounds', draws', hdecode', rfl, hlen⟩ := Part.render_ok hnew
  cases hdecode.symm.trans hdecode'
  exact pictureText_congr fun s hs hv => (hpalette p hp).color (hlen s hs hv)

theorem forall₂_eq {α β : Type} {R S : α → β → Prop} {l : List α} : ∀ {xs ys : List β},
    (∀ a ∈ l, ∀ x y, R a x → S a y → x = y) → List.Forall₂ R l xs → List.Forall₂ S l ys → xs = ys := by
  induction l with
  | nil =>
    intro xs ys _ hx hy
    cases hx
    cases hy
    rfl
  | cons a l ih =>
    intro xs ys h hx hy
    obtain _ | ⟨hax, hx⟩ := hx
    obtain _ | ⟨hay, hy⟩ := hy
    rw [h a List.mem_cons_self _ _ hax hay, ih (fun b hb => h b (List.mem_cons_of_mem _ hb)) hx hy]

/-- **Both renderers give one image**, where every run ends in its row. -/
theorem Old.generateSVG_generateSVG (parts : List Part) (palettes : UInt8 → List String)
    (hpalettes : ∀ part ∈ parts, ∀ p, part.image[0]? = some p → Flattened (palettes p) part.palette)
    (hrows : ∀ part ∈ parts, ∀ bounds draws, decodeRuns part.image = .ok (bounds, draws) →
      WithinRows bounds.left bounds.right ⟨bounds.left, bounds.top⟩ draws)
    (background : String) (hbackground : background ≠ "") (old new : String)
    (hold : Old.generateSVG ⟨parts.map Part.image, background⟩ palettes = .ok old)
    (hnew : Art.generateSVG ⟨parts, background⟩ = .ok new) : old = new := by
  obtain ⟨texts, htexts, rfl⟩ := generateSVG_ok hbackground hnew
  obtain ⟨rects, hrects, hold⟩ := bind_eq_ok.mp hold
  obtain ⟨texts', htexts', rfl⟩ := eachPart_ok hrects
  have htext : texts' = texts := forall₂_eq (fun part hpart old new ho hn =>
    Old.render_render (hpalettes part hpart) (hrows part hpart) ho hn)
    (List.forall₂_map_left_iff.mp htexts') htexts
  rw [← pure_eq_ok.mp hold, htext, String.empty_append]
  rfl

/-- two parts on one palette, with the end of a row in each -/
def rowParts : List Part :=
  [⟨[0, 1, 4, 2, 1, 3, 1, 2, 2, 1, 0], [0, 0, 0, 255, 0, 10, 16, 32, 48]⟩,
    ⟨[0, 3, 9, 3, 5, 1, 0, 3, 2], [0, 0, 0, 255, 0, 10, 16, 32, 48]⟩]

theorem Old.generateSVG_generateSVG_run : ∃ svg,
    Old.generateSVG ⟨rowParts.map Part.image, "d5d7e1"⟩ (fun _ => ["000000", "ff000a", "102030"]) = .ok svg ∧
    Art.generateSVG ⟨rowParts, "d5d7e1"⟩ = .ok svg := by
  have hold : (Old.generateSVG ⟨rowParts.map Part.image, "d5d7e1"⟩
    (fun _ => ["000000", "ff000a", "102030"])).toBool = true := by decide +kernel
  have hnew : (Art.generateSVG ⟨rowParts, "d5d7e1"⟩).toBool = true := by decide +kernel
  cases h : Art.generateSVG ⟨rowParts, "d5d7e1"⟩ with
  | error e =>
    rw [h] at hnew
    cases hnew
  | ok new =>
    cases h' : Old.generateSVG ⟨rowParts.map Part.image, "d5d7e1"⟩
        (fun _ => ["000000", "ff000a", "102030"]) with
    | error e =>
      rw [h'] at hold
      cases hold
    | ok old =>
      refine ⟨old, rfl, congrArg Except.ok
        (Old.generateSVG_generateSVG rowParts _ ?_ ?_ "d5d7e1" (by decide) old new h' h).symm⟩
      · have hflat : Flattened ["000000", "ff000a", "102030"] [0, 0, 0, 255, 0, 10, 16, 32, 48] :=
          ⟨[(0, 0, 0), (255, 0, 10), (16, 32, 48)], by decide +kernel, rfl⟩
        intro part hpart p _
        simp only [rowParts, List.mem_cons, List.not_mem_nil, or_false] at hpart
        rcases hpart with rfl | rfl
        · exact hflat
        · exact hflat
      · intro part hpart bounds draws h
        simp only [rowParts, List.mem_cons, List.not_mem_nil, or_false] at hpart
        rcases hpart with rfl | rfl
        · cases h
          exact ⟨by decide, by decide, by decide, by decide, by decide, by decide, trivial⟩
        · cases h
          exact ⟨by decide, by decide, by decide, by decide, trivial⟩

end UNouns.Art
