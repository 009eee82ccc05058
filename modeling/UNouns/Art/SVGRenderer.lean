import UNouns.Art.Rects
import UNouns.Lib.HexString

/-!
# `SVGRenderer`: the renderer of the new descriptor

A run may go on over several rows, colours are bytes of a palette, and the text of a colour is kept
in a cache for each part.

* `getColor`, `Cached`     colours through the cache;
* `drawRun`                the inner loop: one run;
* `drawRun_ok`             its rectangles are the strokes of the run;
* `render_ok`, `generateSVG_ok`   the whole image.
-/

set_option linter.unusedVariables false

namespace UNouns.Art
open Raster HexString

def svgStartTag : String :=
  "<svg width=\"320\" height=\"320\" viewBox=\"0 0 320 320\" xmlns=\"http://www.w3.org/2000/svg\" shape-rendering=\"crispEdges\">"

def svgEndTag : String := "</svg>"

structure Part where
  image : Bytes
  palette : Bytes

structure SVGParams where
  parts : List Part
  background : String

/-! ## colours -/

def hexSymbols : List Char := "0123456789abcdef".toList

/-- of three bytes -/
def toHexString (b0 b1 b2 : UInt8) : String :=
  let v := b0.toNat * 2^16 + b1.toNat * 2^8 + b2.toNat
  String.ofList ([20, 16, 12, 8, 4, 0].map fun k => hexSymbols.getD (v >>> k &&& 0xf) ' ')

def getColor (palette : Bytes) (index : Nat) (cache : List String) : Result (String × List String) := do
  let cached ← item cache index
  if cached ≠ "" then pure (cached, cache)
  else
    let b0 ← item palette (index * 3)
    let b1 ← item palette (index * 3 + 1)
    let b2 ← item palette (index * 3 + 2)
    let color := toHexString b0 b1 b2
    let cache ← setItem cache index color
    pure (color, cache)

/-- a colour as six digits -/
def hexColor (palette : Bytes) (index : Nat) : String :=
  String.ofList ([palette.getD (index * 3) 0, palette.getD (index * 3 + 1) 0,
    palette.getD (index * 3 + 2) 0].flatMap fun b => write [b.toNat / 16, b.toNat % 16])

/-- the symbols of six digits -/
theorem symbols_eq (v : Nat) : ([20, 16, 12, 8, 4, 0].map fun k => hexSymbols.getD (v >>> k &&& 0xf) ' ')
    = ([20, 16, 12, 8, 4, 0].map fun k => v / 2 ^ k % 16).map Nat.digitChar := by
  have hsym : ∀ n < 16, hexSymbols.getD n ' ' = n.digitChar := by decide
  rw [List.map_map]
  refine List.map_congr_left fun k _ => ?_
  have hand : v >>> k &&& 0xf = v / 2 ^ k % 16 := by
    rw [Nat.shiftRight_eq_div_pow]
    exact Nat.and_two_pow_sub_one_eq_mod _ 4
  rw [hand]
  exact hsym _ (Nat.mod_lt _ (by omega))

/-- three bytes are two digits each -/
theorem digits_eq {a b c : Nat} (ha : a < 256) (hb : b < 256) (hc : c < 256) :
    ([20, 16, 12, 8, 4, 0].map fun k => (a * 2^16 + b * 2^8 + c) / 2 ^ k % 16)
      = [a / 16, a % 16, b / 16, b % 16, c / 16, c % 16] := by
  simp only [List.map_cons, List.map_nil, List.cons.injEq, and_true]
  refine ⟨?_, ?_, ?_, ?_, ?_, ?_⟩ <;> omega

theorem toHexString_eq (b0 b1 b2 : UInt8) : toHexString b0 b1 b2
    = String.ofList ([b0, b1, b2].flatMap fun b => write [b.toNat / 16, b.toNat % 16]) := by
  refine congrArg String.ofList ((symbols_eq _).trans ?_)
  rw [digits_eq b0.toNat_lt b1.toNat_lt b2.toNat_lt]
  rfl

/-- the texts in the cache are the colours that they stand for -/
def Cached (palette : Bytes) (cache : List String) : Prop :=
  ∀ i s, cache[i]? = some s → s ≠ "" → s = hexColor palette i ∧ i * 3 + 2 < palette.length

theorem getColor_ok {palette : Bytes} {index : Nat} {cache cache' : List String} {color : String}
    (hc : Cached palette cache) (h : getColor palette index cache = .ok (color, cache')) :
    color = hexColor palette index ∧ index * 3 + 2 < palette.length ∧ Cached palette cache' := by
  obtain ⟨cached, hcached, h⟩ := bind_eq_ok.mp h
  rw [item_eq_ok] at hcached
  by_cases e : cached = ""
  · rw [if_neg (by simpa using e)] at h
    obtain ⟨b0, h0, h⟩ := bind_eq_ok.mp h
    obtain ⟨b1, h1, h⟩ := bind_eq_ok.mp h
    obtain ⟨b2, h2, h⟩ := bind_eq_ok.mp h
    obtain ⟨cache2, hset, h⟩ := bind_eq_ok.mp h
    rw [item_eq_ok] at h0 h1 h2
    cases pure_eq_ok.mp h
    have hcolor : toHexString b0 b1 b2 = hexColor palette index := by
      rw [toHexString_eq, hexColor, List.getD_eq_getElem?_getD, List.getD_eq_getElem?_getD,
        List.getD_eq_getElem?_getD, h0, h1, h2]
      rfl
    have hlen : index * 3 + 2 < palette.length := (List.getElem?_eq_some_iff.mp h2).1
    refine ⟨hcolor, hlen, fun i s hi hs => ?_⟩
    have hi' : index < cache.length := (List.getElem?_eq_some_iff.mp hcached).1
    rw [setItem_ok _ hi'] at hset
    rw [← Except.ok.inj hset] at hi
    by_cases ei : index = i
    · subst ei
      rw [List.getElem?_set_self hi'] at hi
      exact ⟨(Option.some.inj hi).symm.trans hcolor, hlen⟩
    · rw [List.getElem?_set_ne ei] at hi
      exact hc i s hi hs
  · rw [if_pos e] at h
    cases pure_eq_ok.mp h
    obtain ⟨h1, h2⟩ := hc index color hcached e
    exact ⟨h1, h2, hc⟩

/-! ## drawing -/

/-- `currentX` is a `uint256` that is cast to `uint8` -/
def getRectLength (currentX drawLength rightBound : Nat) : Result Nat := do
  let remainingPixelsInLine ← checkedSub rightBound (currentX % 2^8)
  pure (if drawLength ≤ remainingPixelsInLine then drawLength else remainingPixelsInLine)

/-- the variables of the loop over the draws -/
structure Canvas where
  pen : Pen
  buffer : Buffer
  cache : List String

/-- one rectangle into the buffer -/
def Canvas.paint (c : Canvas) (palette : Bytes) (colorIndex length : Nat) : Result Canvas := do
  let width ← item lookup length
  let x ← item lookup c.pen.x
  let y ← item lookup c.pen.y
  let (color, cache) ← getColor palette colorIndex c.cache
  let buffer ← c.buffer.push width x y color
  pure ⟨c.pen, buffer, cache⟩

/-- index `0` is transparent -/
def Canvas.mark (c : Canvas) (palette : Bytes) (colorIndex length : Nat) : Result Canvas :=
  if colorIndex ≠ 0 then c.paint palette colorIndex length else .ok c

/-- the loop over what is left of a draw -/
def drawRun (bounds : ContentBounds) (palette : Bytes) (colorIndex : Nat) :
    Nat → Canvas → Nat → Result Canvas
  | 0, c, _ => .ok c
  | fuel + 1, c, drawLength => do
    let length ← getRectLength c.pen.x drawLength bounds.right
    if length = 0 then pure c
    else
      let c ← c.mark palette colorIndex length
      let rest ← checkedSub drawLength length
      drawRun bounds palette colorIndex fuel
        ⟨c.pen.advance bounds.left bounds.right length, c.buffer, c.cache⟩ rest

/-- one part; a draw takes at most as many turns as it has pixels, and one to see that none is left -/
def Part.render (part : Part) : Result String := do
  let (bounds, draws) ← decodeRuns part.image
  let c ← draws.foldlM (fun c draw => drawRun bounds part.palette draw.2 (draw.1 + 1) c draw.1)
    ⟨⟨bounds.left, bounds.top⟩, .empty, List.replicate 256 ""⟩
  pure c.buffer.text

/-- `_generateSVGRects` -/
def generateSVGRects (params : SVGParams) : Result String := eachPart Part.render 0 "" params.parts

def generateSVG (params : SVGParams) : Result String := do
  let rects ← generateSVGRects params
  if params.background ≠ "" then
    pure (svgStartTag ++ "<rect width=\"100%\" height=\"100%\" fill=\"#" ++ params.background
      ++ "\" />" ++ rects ++ svgEndTag)
  else pure (svgStartTag ++ rects ++ svgEndTag)

/-! ## what is drawn -/

/-- between the turns of the loops -/
structure Canvas.Sound (palette : Bytes) (c : Canvas) : Prop where
  buffer : c.buffer.Sound
  cached : Cached palette c.cache
  x_lt : c.pen.x < 2^8

/-- a canvas with more strokes on it -/
structure Canvas.Drew (palette : Bytes) (c c' : Canvas) (ss : List (Stroke Nat)) (pen : Pen) : Prop where
  sound : c'.Sound palette
  at_pen : c'.pen = pen
  text : c'.buffer.text = c.buffer.text ++ pictureText (hexColor palette) ss
  colors : ∀ s ∈ ss, s.value ≠ 0 → s.value * 3 + 2 < palette.length

theorem getRectLength_ok {currentX drawLength rightBound length : Nat} (hx : currentX < 2^8)
    (h : getRectLength currentX drawLength rightBound = .ok length) :
    currentX ≤ rightBound ∧ length = min drawLength (rightBound - currentX) := by
  obtain ⟨remaining, hsub, h⟩ := bind_eq_ok.mp h
  obtain ⟨hle, rfl⟩ := checkedSub_eq_ok.mp hsub
  rw [Nat.mod_eq_of_lt hx] at hle h
  refine ⟨hle, (pure_eq_ok.mp h).symm.trans ?_⟩
  split_ifs <;> omega

theorem Canvas.paint_ok {c c' : Canvas} {palette : Bytes} {colorIndex length : Nat}
    (hc : c.Sound palette) (h : c.paint palette colorIndex length = .ok c') :
    c'.buffer.Sound ∧ Cached palette c'.cache ∧ c'.pen = c.pen ∧
      c'.buffer.text = c.buffer.text
        ++ strokeText (hexColor palette) ⟨length, c.pen.x, c.pen.y, colorIndex⟩ ∧
      colorIndex * 3 + 2 < palette.length := by
  obtain ⟨width, hwidth, h⟩ := bind_eq_ok.mp h
  obtain ⟨x, hx, h⟩ := bind_eq_ok.mp h
  obtain ⟨y, hy, h⟩ := bind_eq_ok.mp h
  obtain ⟨⟨color, cache⟩, hcolor, h⟩ := bind_eq_ok.mp h
  obtain ⟨buffer, hbuffer, h⟩ := bind_eq_ok.mp h
  cases pure_eq_ok.mp h
  obtain ⟨rfl, hlen, hcached⟩ := getColor_ok hc.cached hcolor
  obtain ⟨b', hb', hsound, htext⟩ := Buffer.push_text hc.buffer width x y (hexColor palette colorIndex)
  cases hb'.symm.trans hbuffer
  refine ⟨hsound, hcached, rfl, ?_, hlen⟩
  rw [htext, lookup_eq hwidth, lookup_eq hx, lookup_eq hy]
  rfl

theorem Canvas.mark_ok {c c' : Canvas} {palette : Bytes} {colorIndex length : Nat}
    (hc : c.Sound palette) (h : c.mark palette colorIndex length = .ok c') :
    c.Drew palette c' [⟨length, c.pen.x, c.pen.y, colorIndex⟩] c.pen := by
  unfold Canvas.mark at h
  by_cases e : colorIndex = 0
  · rw [if_neg (by simpa using e)] at h
    cases Except.ok.inj h
    refine ⟨hc, rfl, ?_, fun s hs hv => ?_⟩
    · rw [pictureText_cons, if_neg (by simpa using e)]
      exact String.append_empty.symm
    · rw [List.mem_singleton.mp hs] at hv
      exact absurd e hv
  · rw [if_pos e] at h
    obtain ⟨hbuffer, hcached, hpen, htext, hlen⟩ := Canvas.paint_ok hc h
    refine ⟨⟨hbuffer, hcached, hpen ▸ hc.x_lt⟩, hpen, ?_, fun s hs _ => ?_⟩
    · rw [htext, pictureText_cons, if_pos e]
      exact congrArg (c.buffer.text ++ ·) String.append_empty.symm
    · rw [List.mem_singleton.mp hs]
      exact hlen

/-- one drawing after the other -/
theorem Canvas.Drew.trans {palette : Bytes} {c c' c'' : Canvas} {ss ts : List (Stroke Nat)}
    {pen pen' : Pen} (h : c.Drew palette c' ss pen) (h' : c'.Drew palette c'' ts pen') :
    c.Drew palette c'' (ss ++ ts) pen' := by
  refine ⟨h'.sound, h'.at_pen, ?_, fun s hs => ?_⟩
  · rw [h'.text, h.text, pictureText_append, String.append_assoc]
  · rcases List.mem_append.mp hs with hs | hs
    · exact h.colors s hs
    · exact h'.colors s hs

/-- the pen is moved without drawing -/
theorem Canvas.Drew.move {palette : Bytes} {c c' : Canvas} {ss : List (Stroke Nat)} {pen : Pen}
    (h : c.Drew palette c' ss pen) {pen' : Pen} (hx : pen'.x < 2^8) :
    c.Drew palette { c' with pen := pen' } ss pen' :=
  ⟨⟨h.sound.buffer, h.sound.cached, hx⟩, rfl, h.text, h.colors⟩

theorem Canvas.Sound.drew {palette : Bytes} {c : Canvas} (h : c.Sound palette) :
    c.Drew palette c [] c.pen :=
  ⟨h, rfl, String.append_empty.symm, fun s hs => absurd hs List.not_mem_nil⟩

theorem Pen.advance_lt {left right n m : Nat} {pen : Pen} (hl : left < m) (hr : right < m)
    (h : pen.x + n ≤ right) : (pen.advance left right n).x < m := by
  unfold Pen.advance
  split_ifs
  · exact hl
  · show pen.x + n < m
    omega

/-- **A draw is its strokes**, cut at the ends of the rows. -/
theorem drawRun_ok {bounds : ContentBounds} {palette : Bytes} {colorIndex : Nat}
    (hl : bounds.left < 2^8) (hr : bounds.right < 2^8) : ∀ {fuel : Nat} {c c' : Canvas} {n : Nat},
    c.Sound palette → drawRun bounds palette colorIndex fuel c n = .ok c' →
      c.Drew palette c' (cut bounds.left bounds.right colorIndex fuel c.pen n).1
        (cut bounds.left bounds.right colorIndex fuel c.pen n).2 := by
  intro fuel
  induction fuel with
  | zero =>
    intro c c' n hc h
    cases Except.ok.inj h
    exact hc.drew
  | succ fuel ih =>
    intro c c' n hc h
    unfold drawRun at h
    obtain ⟨length, hlength, h⟩ := bind_eq_ok.mp h
    obtain ⟨hx, hmin⟩ := getRectLength_ok hc.x_lt hlength
    unfold cut
    simp only [← hmin]
    by_cases e : length = 0
    · rw [if_pos e] at h
      cases pure_eq_ok.mp h
      rw [if_pos e]
      exact hc.drew
    · rw [if_neg e] at h
      obtain ⟨c1, hmark, h⟩ := bind_eq_ok.mp h
      obtain ⟨rest, hsub, h⟩ := bind_eq_ok.mp h
      obtain ⟨_, rfl⟩ := checkedSub_eq_ok.mp hsub
      have h1 := Canvas.mark_ok hc hmark
      rw [h1.at_pen] at h
      have h2 := h1.move (Pen.advance_lt hl hr (show c.pen.x + length ≤ bounds.right by omega))
      rw [if_neg e]
      exact h2.trans (ih h2.sound h)

theorem drawRuns_ok {bounds : ContentBounds} {palette : Bytes} (hl : bounds.left < 2^8)
    (hr : bounds.right < 2^8) {draws : List (Nat × Nat)} : ∀ {c c' : Canvas}, c.Sound palette →
      draws.foldlM (fun c draw => drawRun bounds palette draw.2 (draw.1 + 1) c draw.1) c = .ok c' →
      c.Drew palette c' (strokes bounds.left bounds.right c.pen draws) c'.pen := by
  induction draws with
  | nil =>
    intro c c' hc h
    cases pure_eq_ok.mp h
    exact hc.drew
  | cons draw draws ih =>
    intro c c' hc h
    rw [List.foldlM_cons] at h
    obtain ⟨c1, hrun, h⟩ := bind_eq_ok.mp h
    have h1 := drawRun_ok hl hr hc hrun
    have h2 := ih h1.sound h
    rw [h1.at_pen] at h2
    exact h1.trans h2

/-- **The part is the picture of its runs**, if it is rendered at all. -/
theorem Part.render_ok {part : Part} {text : String} (h : part.render = .ok text) :
    ∃ bounds draws, decodeRuns part.image = .ok (bounds, draws) ∧
      text = pictureText (hexColor part.palette)
        (strokes bounds.left bounds.right ⟨bounds.left, bounds.top⟩ draws) ∧
      ∀ s ∈ strokes bounds.left bounds.right ⟨bounds.left, bounds.top⟩ draws, s.value ≠ 0 →
        s.value * 3 + 2 < part.palette.length := by
  obtain ⟨⟨bounds, draws⟩, hdecode, h⟩ := bind_eq_ok.mp h
  obtain ⟨c, hfold, h⟩ := bind_eq_ok.mp h
  obtain ⟨hl, hr⟩ := decodeRuns_lt hdecode
  have hblank : Canvas.Sound part.palette ⟨⟨bounds.left, bounds.top⟩, .empty, List.replicate 256 ""⟩ :=
    ⟨Buffer.empty_sound, fun i s hi hs => absurd (List.eq_of_mem_replicate (List.mem_of_getElem? hi)) hs,
      hl⟩
  have hdrew := drawRuns_ok hl hr hblank hfold
  refine ⟨bounds, draws, hdecode, ?_, hdrew.colors⟩
  rw [← pure_eq_ok.mp h, hdrew.text]
  exact String.empty_append

/-- **The image is the pictures of its parts**, over the background. -/
theorem generateSVG_ok {params : SVGParams} (hb : params.background ≠ "") {svg : String}
    (h : generateSVG params = .ok svg) :
    ∃ texts, List.Forall₂ (fun part text => part.render = .ok text) params.parts texts ∧
      svg = svgStartTag ++ "<rect width=\"100%\" height=\"100%\" fill=\"#" ++ params.background
        ++ "\" />" ++ String.join texts ++ svgEndTag := by
  obtain ⟨rects, hrects, h⟩ := bind_eq_ok.mp h
  rw [if_pos hb] at h
  obtain ⟨texts, htexts, rfl⟩ := eachPart_ok hrects
  refine ⟨texts, htexts, ?_⟩
  rw [← pure_eq_ok.mp h, String.empty_append]

end UNouns.Art
