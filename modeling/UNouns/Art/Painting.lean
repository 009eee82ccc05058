import UNouns.Art.SVGRenderer

/-!
# What the renderer paints

A part that fits the grid is rendered, and its rectangles paint the pixels of its runs.

* `Part.Fits`          the hypotheses about a part;
* `drawRun_total`      the loops do not fail on it;
* `Painted`            what the rectangles paint;
* `render_painted`     they paint it, in order and without repetition.
-/

set_option linter.unusedVariables false

namespace UNouns.Art
open Raster

/-! ## parts that fit -/

/-- the image is no wider than 32, its pixels are above row 33 and the palette has its colours -/
structure Part.Fits (part : Part) (bounds : ContentBounds) (draws : List (Nat × Nat)) : Prop where
  decodes : decodeRuns part.image = .ok (bounds, draws)
  left_lt : bounds.left < bounds.right
  right_le : bounds.right ≤ 32
  rows : ∀ n < (draws.map Prod.fst).sum, bounds.top + n / (bounds.right - bounds.left) < 33
  colors : ∀ r ∈ draws, r.2 ≠ 0 → r.2 * 3 + 2 < part.palette.length

theorem decodeDraws_lt : ∀ {rest : Bytes} {draws : List (Nat × Nat)}, decodeDraws rest = .ok draws →
    ∀ r ∈ draws, r.1 < 2^8 ∧ r.2 < 2^8
  | [], draws, h, r, hr => by
    cases Except.ok.inj h
    cases hr
  | [_], draws, h, r, hr => nomatch h
  | length :: colorIndex :: rest, draws, h, r, hr => by
    obtain ⟨ds, hds, h⟩ := bind_eq_ok.mp h
    cases pure_eq_ok.mp h
    rcases List.mem_cons.mp hr with rfl | hr
    · exact ⟨length.toNat_lt, colorIndex.toNat_lt⟩
    · exact decodeDraws_lt hds r hr

theorem item_total {α : Type} {xs : List α} {i : Nat} (h : i < xs.length) : ∃ x, item xs i = .ok x :=
  ⟨xs[i], item_eq_ok.mpr (List.getElem?_eq_getElem h)⟩

theorem lookup_total {n : Nat} (h : n ≤ 32) : ∃ s, item lookup n = .ok s :=
  item_total (show n < 33 by omega)

/-! ## the loops do not fail -/

section
variable {palette : Bytes} {colorIndex : Nat}

theorem getColor_total {cache : List String} (hcache : cache.length = 2^8) (hindex : colorIndex < 2^8)
    (hcolor : colorIndex * 3 + 2 < palette.length) :
    ∃ color cache', getColor palette colorIndex cache = .ok (color, cache') ∧ cache'.length = 2^8 := by
  obtain ⟨cached, hcached⟩ := item_total (show colorIndex < cache.length by omega)
  unfold getColor
  rw [hcached]
  show ∃ color cache', (if cached ≠ "" then _ else _) = _ ∧ _
  split_ifs with h
  · exact ⟨cached, cache, rfl, hcache⟩
  · obtain ⟨b0, h0⟩ := item_total (show colorIndex * 3 < palette.length by omega)
    obtain ⟨b1, h1⟩ := item_total (show colorIndex * 3 + 1 < palette.length by omega)
    obtain ⟨b2, h2⟩ := item_total hcolor
    rw [h0, h1, h2]
    refine ⟨toHexString b0 b1 b2, cache.set colorIndex (toHexString b0 b1 b2), ?_, ?_⟩
    · show (setItem cache colorIndex (toHexString b0 b1 b2) >>= _) = _
      rw [setItem_ok _ (by omega)]
      rfl
    · rw [List.length_set, hcache]

theorem Canvas.mark_total {c : Canvas} (hc : c.Sound palette) (hcache : c.cache.length = 2^8)
    (hindex : colorIndex < 2^8) (hcolor : colorIndex ≠ 0 → colorIndex * 3 + 2 < palette.length)
    {length : Nat} (hlength : length ≤ 32) (hx : c.pen.x ≤ 32) (hy : c.pen.y < 33) :
    ∃ c', c.mark palette colorIndex length = .ok c' ∧ c'.cache.length = 2^8 := by
  unfold Canvas.mark
  split_ifs with h
  · obtain ⟨width, hwidth⟩ := lookup_total hlength
    obtain ⟨x, hx⟩ := lookup_total hx
    obtain ⟨y, hy⟩ := lookup_total (show c.pen.y ≤ 32 by omega)
    obtain ⟨color, cache, hget, hcache'⟩ := getColor_total hcache hindex (hcolor h)
    obtain ⟨buffer, hbuffer, _, _⟩ := Buffer.push_text hc.buffer width x y color
    unfold Canvas.paint
    rw [hwidth, hx, hy, hget]
    refine ⟨⟨c.pen, buffer, cache⟩, ?_, hcache'⟩
    show (c.buffer.push width x y color >>= _) = _
    rw [hbuffer]
    rfl
  · exact ⟨c, rfl, hcache⟩

variable {bounds : ContentBounds}

theorem getRectLength_total {x : Nat} (hx : x ≤ bounds.right) (hr : bounds.right ≤ 32) (n : Nat) :
    getRectLength x n bounds.right = .ok (min n (bounds.right - x)) := by
  unfold getRectLength
  rw [Nat.mod_eq_of_lt (by omega), checkedSub_eq_ok.mpr ⟨hx, rfl⟩]
  show Except.ok _ = _
  congr 1

/-- **A draw of pixels above row 33 does not fail.** -/
theorem drawRun_total (hlr : bounds.left < bounds.right) (hr : bounds.right ≤ 32)
    (hindex : colorIndex < 2^8) (hcolor : colorIndex ≠ 0 → colorIndex * 3 + 2 < palette.length) :
    ∀ {fuel : Nat} {c : Canvas} {n m : Nat}, m < fuel → c.Sound palette → c.cache.length = 2^8 →
      c.pen = .before bounds.left bounds.right bounds.top n →
      (∀ k < m, bounds.top + (n + k) / (bounds.right - bounds.left) < 33) →
      ∃ c', drawRun bounds palette colorIndex fuel c m = .ok c' ∧ c'.cache.length = 2^8 := by
  intro fuel
  induction fuel with
  | zero => exact fun h => absurd h (Nat.not_lt_zero _)
  | succ fuel ih =>
    intro c n m hm hc hcache hpen hrows
    have hmod := Nat.mod_lt n (show 0 < bounds.right - bounds.left by omega)
    have hx : c.pen.x = bounds.left + n % (bounds.right - bounds.left) := congrArg Pen.x hpen
    have hy : c.pen.y = bounds.top + n / (bounds.right - bounds.left) := congrArg Pen.y hpen
    unfold drawRun
    rw [getRectLength_total (by omega) hr]
    obtain ⟨length, hlength⟩ : ∃ length, min m (bounds.right - c.pen.x) = length := ⟨_, rfl⟩
    rw [hlength]
    show ∃ c', (if length = 0 then _ else _) = _ ∧ _
    split_ifs with h0
    · exact ⟨c, rfl, hcache⟩
    · have hy33 := hrows 0 (by omega)
      rw [Nat.add_zero, ← hy] at hy33
      have hrow : c.pen.x + length ≤ bounds.right := by omega
      obtain ⟨c1, hmark, hcache1⟩ := Canvas.mark_total hc hcache hindex hcolor
        (show length ≤ 32 by omega) (by omega) hy33
      have h1 := Canvas.mark_ok hc hmark
      have h2 := h1.move (Pen.advance_lt (show bounds.left < 2^8 by omega)
        (show bounds.right < 2^8 by omega) hrow)
      have hadvance : c.pen.advance bounds.left bounds.right length
          = .before bounds.left bounds.right bounds.top (n + length) := by
        rw [hpen]
        exact Pen.before_advance hlr (by omega)
      obtain ⟨c', hrun, hcache'⟩ := ih (show m - length < fuel by omega) h2.sound hcache1 hadvance
        fun k hk => by
          have := hrows (length + k) (by omega)
          rwa [← Nat.add_assoc] at this
      refine ⟨c', ?_, hcache'⟩
      rw [hmark]
      show (checkedSub m length >>= _) = _
      rw [checkedSub_eq_ok.mpr ⟨by omega, rfl⟩, ← hrun, h1.at_pen]
      rfl

theorem drawRuns_total (hlr : bounds.left < bounds.right) (hr : bounds.right ≤ 32)
    {draws : List (Nat × Nat)} : ∀ {c : Canvas} {n : Nat}, c.Sound palette → c.cache.length = 2^8 →
      c.pen = .before bounds.left bounds.right bounds.top n →
      (∀ k < (draws.map Prod.fst).sum, bounds.top + (n + k) / (bounds.right - bounds.left) < 33) →
      (∀ r ∈ draws, r.2 < 2^8 ∧ (r.2 ≠ 0 → r.2 * 3 + 2 < palette.length)) →
      ∃ c', draws.foldlM (fun c draw => drawRun bounds palette draw.2 (draw.1 + 1) c draw.1) c = .ok c' := by
  induction draws with
  | nil => exact fun {c n} _ _ _ _ _ => ⟨c, rfl⟩
  | cons r draws ih =>
    intro c n hc hcache hpen hrows hdraws
    rw [List.map_cons, List.sum_cons] at hrows
    obtain ⟨hindex, hcolor⟩ := hdraws r List.mem_cons_self
    obtain ⟨c1, hrun, hcache1⟩ := drawRun_total hlr hr hindex hcolor (Nat.lt_succ_self r.1) hc hcache hpen
      fun k hk => hrows k (by omega)
    have h1 := drawRun_ok (by omega) (by omega) hc hrun
    have hpen1 : c1.pen = .before bounds.left bounds.right bounds.top (n + r.1) := by
      rw [h1.at_pen, hpen]
      exact (cut_pixels hlr r.2 (r.1 + 1) (Nat.lt_succ_self r.1)).1
    obtain ⟨c', hrest⟩ := ih h1.sound hcache1 hpen1
      (fun k hk => by
        have := hrows (r.1 + k) (by omega)
        rwa [← Nat.add_assoc] at this)
      fun s hs => hdraws s (List.mem_cons_of_mem _ hs)
    refine ⟨c', ?_⟩
    rw [List.foldlM_cons, hrun]
    exact hrest

end

theorem Part.Fits.render_total {part : Part} {bounds : ContentBounds} {draws : List (Nat × Nat)}
    (h : part.Fits bounds draws) : ∃ text, part.render = .ok text := by
  obtain ⟨_, _, _, _, _, rest, _, _, hrest⟩ := decodeRuns_ok h.decodes
  have hr := h.right_le
  have hl := h.left_lt
  have hblank : Canvas.Sound part.palette ⟨⟨bounds.left, bounds.top⟩, .empty, List.replicate 256 ""⟩ :=
    ⟨Buffer.empty_sound, fun i s hi hs => absurd (List.eq_of_mem_replicate (List.mem_of_getElem? hi)) hs,
      show bounds.left < 2^8 by omega⟩
  obtain ⟨c, hc⟩ := drawRuns_total hl hr hblank List.length_replicate (Pen.before_zero _ _ _).symm
    (fun k hk => by rw [Nat.zero_add]; exact h.rows k hk)
    fun r hr => ⟨(decodeDraws_lt hrest r hr).2, h.colors r hr⟩
  exact ⟨c.buffer.text, bind_eq_ok.mpr ⟨(bounds, draws), h.decodes, bind_eq_ok.mpr ⟨c, hc, rfl⟩⟩⟩

/-! ## what is painted -/

/-- the rectangles of a part, in order -/
def rectsOf (bounds : ContentBounds) (draws : List (Nat × Nat)) : List (Stroke Nat) :=
  (strokes bounds.left bounds.right ⟨bounds.left, bounds.top⟩ draws).filter fun s => s.value ≠ 0

/-- read in order the rectangles paint the pixels of the runs that are not transparent, each at its
place and in its colour; none is painted twice, and none outside the columns -/
structure Painted (bounds : ContentBounds) (draws : List (Nat × Nat)) (rects : List (Stroke Nat)) : Prop where
  pixels : rects.flatMap Stroke.pixels = ((expand draws).zipIdx.map fun p =>
    ((bounds.left + p.2 % (bounds.right - bounds.left), bounds.top + p.2 / (bounds.right - bounds.left)),
      p.1)).filter fun pixel => pixel.2 ≠ 0
  once : ((rects.flatMap Stroke.pixels).map Prod.fst).Nodup
  columns : ∀ s ∈ rects, bounds.left ≤ s.x ∧ s.x + s.length ≤ bounds.right

/-- all pixels of a stroke have its colour -/
theorem flatMap_pixels_filter (ss : List (Stroke Nat)) :
    (ss.filter fun s => s.value ≠ 0).flatMap Stroke.pixels
      = (ss.flatMap Stroke.pixels).filter fun pixel => pixel.2 ≠ 0 := by
  induction ss with
  | nil => rfl
  | cons s ss ih =>
    rw [List.flatMap_cons, List.filter_append, ← ih]
    by_cases h : s.value = 0
    · have hnone : s.pixels.filter (fun pixel => pixel.2 ≠ 0) = [] := by
        refine List.filter_eq_nil_iff.mpr fun pixel hp => ?_
        obtain ⟨k, _, rfl⟩ := List.mem_map.mp hp
        simp [h]
      rw [List.filter_cons_of_neg (by simp [h]), hnone, List.nil_append]
    · have hall : s.pixels.filter (fun pixel => pixel.2 ≠ 0) = s.pixels := by
        refine List.filter_eq_self.mpr fun pixel hp => ?_
        obtain ⟨k, _, rfl⟩ := List.mem_map.mp hp
        simp [h]
      rw [List.filter_cons_of_pos (by simp [h]), List.flatMap_cons, hall]

theorem rectsOf_painted {bounds : ContentBounds} {draws : List (Nat × Nat)} (hlr : bounds.left < bounds.right) :
    Painted bounds draws (rectsOf bounds draws) := by
  obtain ⟨hpixels, hcolumns⟩ := @strokes_pixels Nat bounds.left bounds.right bounds.top hlr draws 0
  have honce := @strokes_once Nat bounds.left bounds.right bounds.top hlr draws 0
  unfold rectsOf
  rw [← Pen.before_zero bounds.left bounds.right bounds.top]
  refine ⟨?_, ?_, fun s hs => hcolumns s (List.mem_filter.mp hs).1⟩
  · rw [flatMap_pixels_filter, hpixels]
    rfl
  · rw [flatMap_pixels_filter]
    exact honce.sublist (List.filter_sublist.map _)

/-- **A part that fits is painted**: it is rendered, alone or among others, as the texts of its
rectangles in order, and these paint exactly the pixels of its runs. -/
theorem render_painted {part : Part} {bounds : ContentBounds} {draws : List (Nat × Nat)}
    (h : part.Fits bounds draws) :
    part.render = .ok (String.join ((rectsOf bounds draws).map (strokeText (hexColor part.palette)))) ∧
    (∀ background, generateSVGRects ⟨[part], background⟩
      = .ok (String.join ((rectsOf bounds draws).map (strokeText (hexColor part.palette))))) ∧
    Painted bounds draws (rectsOf bounds draws) := by
  obtain ⟨text, htext⟩ := h.render_total
  obtain ⟨bounds', draws', hdecode, rfl, _⟩ := Part.render_ok htext
  cases hdecode.symm.trans h.decodes
  refine ⟨htext, fun background => ?_, rectsOf_painted h.left_lt⟩
  show (part.render >>= _) = _
  rw [htext]
  show Except.ok ("" ++ _) = _
  rw [String.empty_append]
  rfl

/-- three pixels of one colour, and a transparent one, in two columns -/
def corner : Part := ⟨[0, 0, 2, 1, 0, 3, 1, 1, 0], [0, 0, 0, 255, 0, 0]⟩

theorem render_painted_run :
    corner.render = .ok (String.join ((rectsOf ⟨0, 2, 1, 0⟩ [(3, 1), (1, 0)]).map
      (strokeText (hexColor corner.palette)))) ∧
    (∀ background, generateSVGRects ⟨[corner], background⟩
      = .ok (String.join ((rectsOf ⟨0, 2, 1, 0⟩ [(3, 1), (1, 0)]).map
        (strokeText (hexColor corner.palette))))) ∧
    Painted ⟨0, 2, 1, 0⟩ [(3, 1), (1, 0)] (rectsOf ⟨0, 2, 1, 0⟩ [(3, 1), (1, 0)]) :=
  render_painted ⟨rfl, by decide, by decide, by decide, by decide⟩

example : (rectsOf ⟨0, 2, 1, 0⟩ [(3, 1), (1, 0)]).map Stroke.pixels
    = [[((0, 0), 1), ((1, 0), 1)], [((0, 1), 1)]] := by decide

end UNouns.Art
