import UNouns.Art.Descriptor
import UNouns.Art.MultiPartRLEToSVG
import UNouns.Sdk.Encoder
import UNouns.Tasks.Populate

/-!
# From an image to the chain

The encoder writes images as texts, the task sends the bytes of the texts, and the renderer draws them.

* `arrayify_toRLE`     the bytes of a text are an image for the renderer, with the runs of the text;
* `Shows`              rectangles that show the visible pixels of an image in their colours;
* `render_shows`       the rendered part shows the image that was encoded;
* `picture_shows`      a picture of the descriptor shows the four images of its seed.
-/

set_option linter.unusedVariables false

namespace UNouns.Tasks
open Art HexString Raster Interning Sdk Sdk.PNGCollectionEncoder

/-! ## texts as bytes -/

/-- the digits of bytes -/
def byteDigitsOf (ns : List Nat) : List Nat := ns.flatMap fun n => [n / 16, n % 16]

theorem hexPairs_eq (ns : List Nat) : ns.flatMap hexPair = write (byteDigitsOf ns) :=
  (List.map_flatMap ..).symm

theorem byteDigitsOf_digits {ns : List Nat} (h : ∀ n ∈ ns, n < 256) : Digits (byteDigitsOf ns) := by
  intro d hd
  obtain ⟨n, hn, hd⟩ := List.mem_flatMap.mp hd
  have := h n hn
  simp only [List.mem_cons, List.not_mem_nil, or_false] at hd
  omega

theorem pairs_byteDigitsOf {ns : List Nat} (h : ∀ n ∈ ns, n < 256) :
    pairs (byteDigitsOf ns) = some (ns.map UInt8.ofNat) := by
  induction ns with
  | nil => rfl
  | cons n ns ih =>
    have hn : 16 * (n / 16) + n % 16 = n := Nat.div_add_mod n 16
    show (pairs (byteDigitsOf ns)).map (UInt8.ofNat (16 * (n / 16) + n % 16) :: ·) = _
    rw [ih fun m hm => h m (List.mem_cons_of_mem _ hm), hn]
    rfl

/-- the bytes of a text of pairs -/
theorem arrayify_hexPairs {ns : List Nat} (h : ∀ n ∈ ns, n < 256) :
    arrayify (prefixed (ns.flatMap hexPair)) = some (ns.map UInt8.ofNat) := by
  show (read (ns.flatMap hexPair)).bind pairs = _
  rw [hexPairs_eq, read_write (byteDigitsOf_digits h)]
  exact pairs_byteDigitsOf h

/-! ## images -/

/-- the bytes of runs -/
def runBytes (runs : List (Nat × Nat)) : List Nat := runs.flatMap fun r => [r.1, r.2]

theorem decodeDraws_runBytes {runs : List (Nat × Nat)} (h : ∀ r ∈ runs, r.1 < 256 ∧ r.2 < 256) :
    decodeDraws ((runBytes runs).map UInt8.ofNat) = .ok runs := by
  induction runs with
  | nil => rfl
  | cons r runs ih =>
    obtain ⟨h1, h2⟩ := h r List.mem_cons_self
    have hr1 : (UInt8.ofNat r.1).toNat = r.1 := Nat.mod_eq_of_lt h1
    have hr2 : (UInt8.ofNat r.2).toNat = r.2 := Nat.mod_eq_of_lt h2
    show decodeDraws (UInt8.ofNat r.1 :: UInt8.ofNat r.2 :: (runBytes runs).map UInt8.ofNat) = _
    rw [decodeDraws, ih fun s hs => h s (List.mem_cons_of_mem _ hs), hr1, hr2]
    rfl

/-- **The text of an image is an image of the renderer**, with the same bounds and runs. -/
theorem arrayify_image {top right bottom left : Nat} {runs : List (Nat × Nat)} (ht : top < 256)
    (hr : right < 256) (hb : bottom < 256) (hl : left < 256) (h : ∀ r ∈ runs, r.1 < 256 ∧ r.2 < 256) :
    ∃ image, arrayify (prefixed ([0, top, right, bottom, left].flatMap hexPair
        ++ runs.flatMap fun r => hexPair r.1 ++ hexPair r.2)) = some (0 :: image) ∧
      decodeRuns (0 :: image) = .ok (⟨top, right, bottom, left⟩, runs) := by
  have htext : ([0, top, right, bottom, left].flatMap hexPair
      ++ runs.flatMap fun r => hexPair r.1 ++ hexPair r.2)
        = ([0, top, right, bottom, left] ++ runBytes runs).flatMap hexPair := by
    rw [List.flatMap_append, runBytes, List.flatMap_assoc]
    simp only [List.flatMap_cons, List.flatMap_nil, List.append_nil]
  have hbytes : ∀ n ∈ [0, top, right, bottom, left] ++ runBytes runs, n < 256 := by
    intro n hn
    rcases List.mem_append.mp hn with hn | hn
    · simp only [List.mem_cons, List.not_mem_nil, or_false] at hn
      omega
    · obtain ⟨r, hr, hn⟩ := List.mem_flatMap.mp hn
      have := h r hr
      simp only [List.mem_cons, List.not_mem_nil, or_false] at hn
      omega
  have hnat : ∀ {n : Nat}, n < 256 → (UInt8.ofNat n).toNat = n := fun hn => Nat.mod_eq_of_lt hn
  refine ⟨_, by rw [htext]; exact arrayify_hexPairs hbytes, ?_⟩
  refine bind_eq_ok.mpr ⟨⟨top, right, bottom, left⟩, ?_, bind_eq_ok.mpr
    ⟨_, checkedSub_eq_ok.mpr ⟨Nat.le_add_left 5 _, rfl⟩, bind_eq_ok.mpr
      ⟨runs, decodeDraws_runBytes h, rfl⟩⟩⟩
  show Except.ok (⟨_, _, _, _⟩ : ContentBounds) = _
  rw [hnat ht, hnat hr, hnat hb, hnat hl]

/-- an image that was encoded, with the bounds and the runs that it has -/
theorem arrayify_toRLE {im : Image} {m : ColorMap} {seen : List (List Char)} (hm : m.Interns seen)
    (hw : im.width ≤ 255) (hh : im.height ≤ 255) (hsmall : im.Small (seen ++ im.scanned).eraseDups) :
    ∃ image, arrayify (im.toRLE m).1 = some (0 :: image) ∧ decodeRuns (0 :: image)
      = .ok (⟨im.calcBounds.top, im.calcBounds.right, im.calcBounds.bottom, im.calcBounds.left⟩,
        Raster.encode 255 (im.pixels.map (im.toRLE m).2.index)) := by
  have hm' := hm.toRLE im
  obtain ⟨_, rfl, _, _, _, htext⟩ := im.toRLE_text hw hh hm.bounded
  obtain ⟨ht, hr, hb, hl⟩ := im.calcBounds_lt hw hh
  have hindex : ∀ i ∈ im.pixels.map (im.toRLE m).2.index, i < 256 := by
    intro i hi
    obtain ⟨pixel, hpixel, rfl⟩ := List.mem_map.mp hi
    exact Image.index_lt hm' hsmall hpixel
  rw [htext, Image.encodeData_eq hindex]
  refine arrayify_image ht hr hb hl fun r hr => ?_
  have hlen := encode_length (by decide) _ r hr
  exact ⟨by omega, hindex _ (encode_mem (by decide) _ r hr)⟩

/-! ## palettes -/

/-- the palette of an encoder: nothing, and then colours -/
def Colors (ps : List (List Char)) (triples : List (UInt8 × UInt8 × UInt8)) : Prop :=
  ps = [] :: triples.map fun t => rgbToHex t.1 t.2.1 t.2.2

/-- what the task passes to `setPalette` -/
def paletteText (ps : List (List Char)) : List Char := prefixed ("000000".toList ++ ps.flatten)

theorem rgbToHex_eq (r g b : UInt8) :
    rgbToHex r g b = [r, g, b].flatMap fun b => write [b.toNat / 16, b.toNat % 16] := by
  unfold rgbToHex
  rw [toPaddedHex_eq _ r.toNat_lt, toPaddedHex_eq _ g.toNat_lt, toPaddedHex_eq _ b.toNat_lt]
  rfl

section
variable {ps : List (List Char)} {triples : List (UInt8 × UInt8 × UInt8)}

/-- black, and then the colours -/
def paletteBytes (triples : List (UInt8 × UInt8 × UInt8)) : Bytes :=
  ((0, 0, 0) :: triples).flatMap fun t => [t.1, t.2.1, t.2.2]

theorem paletteBytes_length : (paletteBytes triples).length = 3 * (triples.length + 1) := by
  unfold paletteBytes
  rw [List.length_flatMap]
  simp
  omega

theorem arrayify_palette (h : Colors ps triples) : arrayify (paletteText ps) = some (paletteBytes triples) := by
  have htext : "000000".toList ++ ps.flatten = ((paletteBytes triples).map UInt8.toNat).flatMap hexPair := by
    rw [h, List.flatten_cons, List.nil_append, paletteBytes, List.flatMap_cons, List.map_append,
      List.flatMap_append]
    refine congrArg _ ?_
    rw [← List.flatMap_def, List.map_flatMap, List.flatMap_assoc]
    refine List.flatMap_congr fun t _ => ?_
    rw [rgbToHex_eq]
    rfl
  have hbytes : ∀ n ∈ (paletteBytes triples).map UInt8.toNat, n < 256 := by
    intro n hn
    obtain ⟨b, _, rfl⟩ := List.mem_map.mp hn
    exact b.toNat_lt
  unfold paletteText
  rw [htext, arrayify_hexPairs hbytes, List.map_map]
  exact congrArg some (List.map_id'' (fun b => UInt8.ofNat_toNat) _)

/-- the colour of an index is that of the encoder -/
theorem hexColor_paletteBytes (h : Colors ps triples) {i : Nat} {color : List Char} (hi : i ≠ 0)
    (hcolor : ps[i]? = some color) :
    i * 3 + 2 < (paletteBytes triples).length ∧ hexColor (paletteBytes triples) i = String.ofList color := by
  obtain ⟨k, rfl⟩ := Nat.exists_eq_succ_of_ne_zero hi
  rw [h] at hcolor
  have hk : (triples.map fun t => rgbToHex t.1 t.2.1 t.2.2)[k]? = some color := hcolor
  have hlt : (k + 1) * 3 + 2 < (paletteBytes triples).length := by
    have := (List.getElem?_eq_some_iff.mp hk).1
    rw [List.length_map] at this
    rw [paletteBytes_length]
    omega
  obtain ⟨t, ht, rfl⟩ := Option.map_eq_some_iff.mp ((List.getElem?_map ..).symm.trans hk)
  have hflat : Flattened (((0, 0, 0) :: triples).map fun t => String.ofList
      ([t.1, t.2.1, t.2.2].flatMap fun b => write [b.toNat / 16, b.toNat % 16])) (paletteBytes triples) :=
    ⟨_, rfl, rfl⟩
  refine ⟨hlt, (hflat.color hlt).symm.trans ?_⟩
  rw [Old.colorAt, List.getD_eq_getElem?_getD, List.map_cons, List.getElem?_cons_succ, List.getElem?_map, ht,
    rgbToHex_eq]
  rfl

end

/-! ## what is shown -/

/-- each visible pixel is painted once, in its colour, and nothing else is -/
structure Shows (im : Image) (color : Nat → String) (rects : List (Stroke Nat)) : Prop where
  painted : ∀ x y i, ((x, y), i) ∈ rects.flatMap Stroke.pixels →
    im.Visible x y ∧ color i = String.ofList (im.getRgbaAt x y).hexColor
  covered : ∀ x y, im.Visible x y → ∃ i, ((x, y), i) ∈ rects.flatMap Stroke.pixels
  once : ((rects.flatMap Stroke.pixels).map Prod.fst).Nodup

/-- the bounds of an image, for the renderer -/
def contentBounds (im : Image) : ContentBounds :=
  ⟨im.calcBounds.top, im.calcBounds.right, im.calcBounds.bottom, im.calcBounds.left⟩

section
variable {im : Image} {m : ColorMap} {seen new : List (List Char)} {triples : List (UInt8 × UInt8 × UInt8)}

/-- the runs of an image, with the colours of `m` -/
def runs (im : Image) (m : ColorMap) : List (Nat × Nat) := Raster.encode 255 (im.pixels.map m.index)

theorem expand_runs : expand (runs im m) = im.pixels.map m.index := expand_encode _ _

/-- a place in the bounds, from its place in the list of the pixels -/
theorem place_at {x y n : Nat} (hin : im.calcBounds.Contains x y)
    (hn : n = (y - im.calcBounds.top) * (im.calcBounds.right - im.calcBounds.left)
      + (x - im.calcBounds.left)) :
    x = im.calcBounds.left + n % (im.calcBounds.right - im.calcBounds.left) ∧
      y = im.calcBounds.top + n / (im.calcBounds.right - im.calcBounds.left) := by
  obtain ⟨h1, h2, h3, h4⟩ := hin
  have hlt : x - im.calcBounds.left < im.calcBounds.right - im.calcBounds.left := by omega
  rw [hn, Nat.mul_add_mod', Nat.mod_eq_of_lt hlt, Nat.mul_comm, Nat.mul_add_div (by omega),
    Nat.div_eq_of_lt hlt]
  omega

/-- a visible pixel has the index of its colour -/
theorem index_color (hm : m.Interns (seen ++ im.scanned)) (h0 : seen.head? = some [])
    (hps : Colors ((seen ++ im.scanned).eraseDups ++ new) triples) {x y : Nat} (hv : im.Visible x y) :
    m.index (im.getRgbaAt x y) ≠ 0 ∧
      m.index (im.getRgbaAt x y) * 3 + 2 < (paletteBytes triples).length ∧
      hexColor (paletteBytes triples) (m.index (im.getRgbaAt x y))
        = String.ofList (im.getRgbaAt x y).hexColor := by
  have hin := Image.contains_of_visible hv
  have hcolor := (hm.index_iff hv.alpha (List.mem_append_right _ (Image.mem_scanned hin))).mp rfl
  have hne : m.index (im.getRgbaAt x y) ≠ 0 := by
    intro hi
    rw [hi, head_eraseDups h0] at hcolor
    exact hexColor_ne_nil _ (Option.some.inj hcolor).symm
  refine ⟨hne, hexColor_paletteBytes hps hne ?_⟩
  rw [List.getElem?_append_left (List.getElem?_eq_some_iff.mp hcolor).1]
  exact hcolor

theorem index_ne_zero {pixel : RGBAColor} (h : m.index pixel ≠ 0) : pixel.a ≠ 0 :=
  fun ha => h (if_pos ha)

/-- an image without a visible pixel has no runs -/
theorem runs_blank (h : ¬ im.calcBounds.left < im.calcBounds.right) : runs im m = [] := by
  have hpixels : im.pixels = [] := by
    refine List.eq_nil_of_length_eq_zero ((rows_length _ _ _ _ _).trans ?_)
    rw [Nat.sub_eq_zero_of_le (Nat.le_of_not_lt h), Nat.zero_mul]
  unfold runs
  rw [hpixels]
  rfl

/-- **The rectangles of the runs show the image.** -/
theorem rectsOf_shows (hm : m.Interns (seen ++ im.scanned)) (h0 : seen.head? = some [])
    (hps : Colors ((seen ++ im.scanned).eraseDups ++ new) triples) :
    Shows im (hexColor (paletteBytes triples)) (rectsOf (contentBounds im) (runs im m)) := by
  by_cases hlr : im.calcBounds.left < im.calcBounds.right
  · obtain ⟨hpixels, honce, _⟩ := @rectsOf_painted (contentBounds im) (runs im m) hlr
    have hmem : ∀ x y i, ((x, y), i) ∈ (rectsOf (contentBounds im) (runs im m)).flatMap Stroke.pixels ↔
        im.Visible x y ∧ i = m.index (im.getRgbaAt x y) := by
      intro x y i
      rw [hpixels, expand_runs, List.mem_filter, List.mem_map]
      constructor
      · rintro ⟨⟨⟨j, n⟩, hn, he⟩, hi⟩
        obtain ⟨pixel, hpixel, hj⟩ := Option.map_eq_some_iff.mp
          ((List.getElem?_map ..).symm.trans (List.mk_mem_zipIdx_iff_getElem?.mp hn))
        obtain ⟨x', y', hin, hplace⟩ := Image.pixels_place (List.getElem?_eq_some_iff.mp hpixel).1
        have hget := Image.pixels_getElem? hin
        rw [← hplace, hpixel] at hget
        obtain ⟨hx, hy⟩ := place_at hin hplace
        obtain rfl : x' = x := hx.trans (congrArg (fun p => p.1.1) he)
        obtain rfl : y' = y := hy.trans (congrArg (fun p => p.1.2) he)
        have hi' : j = i := congrArg Prod.snd he
        rw [Option.some.inj hget, hi'] at hj
        have hne : m.index (im.getRgbaAt x' y') ≠ 0 := hj ▸ of_decide_eq_true hi
        obtain ⟨hxw, hyh⟩ := Image.contains_lt hin
        exact ⟨⟨hxw, hyh, index_ne_zero hne⟩, hj.symm⟩
      · rintro ⟨hv, rfl⟩
        have hin := Image.contains_of_visible hv
        obtain ⟨hx, hy⟩ := place_at hin rfl
        refine ⟨⟨(_, _), List.mk_mem_zipIdx_iff_getElem?.mpr
          ((List.getElem?_map ..).trans (congrArg _ (Image.pixels_getElem? hin))), ?_⟩,
          decide_eq_true (index_color hm h0 hps hv).1⟩
        exact Prod.ext (Prod.ext hx.symm hy.symm) rfl
    refine ⟨fun x y i h => ?_, fun x y hv => ⟨_, (hmem x y _).mpr ⟨hv, rfl⟩⟩, honce⟩
    obtain ⟨hv, rfl⟩ := (hmem x y i).mp h
    exact ⟨hv, (index_color hm h0 hps hv).2.2⟩
  · have hrects : rectsOf (contentBounds im) (runs im m) = [] := by
      rw [runs_blank hlr]
      rfl
    rw [hrects]
    refine ⟨fun x y i h => absurd h List.not_mem_nil, fun x y hv => ?_, List.nodup_nil⟩
    obtain ⟨h1, h2, _⟩ := Image.contains_of_visible hv
    omega

/-- an image of at most 32 columns and rows fits -/
theorem part_fits (hm : m.Interns (seen ++ im.scanned)) (h0 : seen.head? = some [])
    (hps : Colors ((seen ++ im.scanned).eraseDups ++ new) triples) (hw : im.width ≤ 32) (hh : im.height ≤ 32)
    {image : Bytes} (himage : decodeRuns image = .ok (contentBounds im, runs im m))
    (hlr : im.calcBounds.left < im.calcBounds.right) :
    Part.Fits ⟨image, paletteBytes triples⟩ (contentBounds im) (runs im m) := by
  have hv : ∃ x y, im.Visible x y := by
    by_contra hno
    push Not at hno
    obtain ⟨_, hright⟩ := Image.calcBounds_blank hno
    omega
  obtain ⟨x₀, y₀, hv⟩ := hv
  have hcrops := im.calcBounds_crops (Nat.lt_of_le_of_lt (Nat.zero_le _) hv.y_lt)
  refine ⟨himage, hlr, Nat.le_trans hcrops.right_le hw, fun n hn => ?_, fun r hr hne => ?_⟩
  · have hlen : n < (im.calcBounds.right - im.calcBounds.left)
        * (im.calcBounds.bottom + 1 - im.calcBounds.top) := by
      rw [← expand_length, expand_runs, List.length_map, Image.pixels, rows_length] at hn
      exact hn
    have hrow : n / (im.calcBounds.right - im.calcBounds.left)
        < im.calcBounds.bottom + 1 - im.calcBounds.top := Nat.div_lt_of_lt_mul hlen
    have htop := hcrops.top_le
    have hbottom := hcrops.bottom_lt
    have hlast : im.calcBounds.top + (im.calcBounds.bottom + 1 - im.calcBounds.top) ≤ 33 := by omega
    exact Nat.lt_of_lt_of_le (Nat.add_lt_add_left hrow _) hlast
  · obtain ⟨pixel, hpixel, hindex⟩ := List.mem_map.mp (encode_mem (by decide) _ r hr)
    obtain ⟨n, hn, rfl⟩ := List.mem_iff_getElem.mp hpixel
    obtain ⟨x, y, hin, hplace⟩ := Image.pixels_place hn
    have hget := Image.pixels_getElem? hin
    rw [← hplace, List.getElem?_eq_getElem hn] at hget
    rw [Option.some.inj hget] at hindex
    obtain ⟨hx, hy⟩ := Image.contains_lt hin
    rw [← hindex] at hne ⊢
    exact (index_color hm h0 hps ⟨hx, hy, index_ne_zero hne⟩).2.1

/-- the part is rendered as its rectangles -/
theorem render_runs (hm : m.Interns (seen ++ im.scanned)) (h0 : seen.head? = some [])
    (hps : Colors ((seen ++ im.scanned).eraseDups ++ new) triples) (hw : im.width ≤ 32) (hh : im.height ≤ 32)
    {image : Bytes} (himage : decodeRuns image = .ok (contentBounds im, runs im m)) :
    Part.render ⟨image, paletteBytes triples⟩ = .ok (String.join
      ((rectsOf (contentBounds im) (runs im m)).map (strokeText (hexColor (paletteBytes triples))))) := by
  have htext : ∃ text, Part.render ⟨image, paletteBytes triples⟩ = .ok text := by
    by_cases hlr : im.calcBounds.left < im.calcBounds.right
    · exact (part_fits hm h0 hps hw hh himage hlr).render_total
    · rw [runs_blank hlr] at himage
      exact ⟨_, bind_eq_ok.mpr ⟨_, himage, rfl⟩⟩
  obtain ⟨text, htext⟩ := htext
  obtain ⟨bounds, draws, hdecode, rfl, _⟩ := Part.render_ok htext
  cases hdecode.symm.trans himage
  exact htext

end

/-! ## images of an encoder -/

theorem exists_colors {ps : List (List Char)} (hnodup : ps.Nodup) (hhead : ps.head? = some [])
    (h : ∀ c ∈ ps, c = [] ∨ ∃ r g b, c = rgbToHex r g b) : ∃ triples, Colors ps triples := by
  obtain ⟨rest, rfl⟩ := List.head?_eq_some_iff.mp hhead
  have hrest : ∀ c ∈ rest, ∃ t : UInt8 × UInt8 × UInt8, c = rgbToHex t.1 t.2.1 t.2.2 := by
    intro c hc
    rcases h c (List.mem_cons_of_mem _ hc) with rfl | ⟨r, g, b, rfl⟩
    · exact absurd hc (List.nodup_cons.mp hnodup).1
    · exact ⟨(r, g, b), rfl⟩
  choose! f hf using hrest
  refine ⟨rest.map f, congrArg _ ?_⟩
  rw [List.map_map]
  exact (List.map_id rest).symm.trans (List.map_congr_left fun c hc => hf c hc)

/-- one of the calls has returned the text of `image` for the image `im` -/
def Exported (colors : Option (List (List Char))) (cs : List Call) (im : Image) (image : Bytes) : Prop :=
  ∃ before c after rle, cs = before ++ c :: after ∧ c.png = im ∧
    (((new colors).encodeAll before).2.encodeImage c).1 = some rle ∧ arrayify rle = some image

section
variable {colors : Option (List (List Char))} (hcolors : ∀ ps ∈ colors, ps.Nodup ∧ ∃ triples, Colors ps triples)
include hcolors

theorem initial_colors : (∀ ps ∈ colors, ps.Nodup ∧ ps.head? = some []) ∧ (initial colors).head? = some [] ∧
    ∀ c ∈ initial colors, c = [] ∨ ∃ r g b, c = rgbToHex r g b := by
  have h : ∀ ps ∈ colors, ps.Nodup ∧ ps.head? = some [] := fun ps hps => by
    obtain ⟨hnodup, triples, rfl⟩ := hcolors ps hps
    exact ⟨hnodup, rfl⟩
  refine ⟨h, initial_head h, fun c hc => ?_⟩
  cases hcs : colors with
  | none =>
    rw [hcs] at hc
    exact .inl (List.mem_singleton.mp hc)
  | some ps =>
    rw [hcs] at hc
    obtain ⟨_, triples, rfl⟩ := hcolors ps hcs
    rcases List.mem_cons.mp hc with rfl | hc
    · exact .inl rfl
    · obtain ⟨t, _, rfl⟩ := List.mem_map.mp hc
      exact .inr ⟨_, _, _, rfl⟩

/-- the palette of an encoder is made of colours -/
theorem palette_colors (cs : List Call) : ((new colors).encodeAll cs).2.palette
      = (initial colors ++ cs.flatMap fun c => c.png.scanned).eraseDups ∧
    ∃ triples, Colors ((new colors).encodeAll cs).2.palette triples := by
  obtain ⟨h, hhead, hall⟩ := initial_colors hcolors
  have hpalette : ((new colors).encodeAll cs).2.palette = _ := (encodeAll_interns cs (new_interns h)).keys
  rw [hpalette]
  refine ⟨rfl, exists_colors (nodup_eraseDups _) ?_ fun c hc => ?_⟩
  · rw [List.head?_eq_getElem?]
    exact head_eraseDups hhead _
  · rcases List.mem_append.mp (List.mem_eraseDups.mp hc) with hc | hc
    · exact hall c hc
    · obtain ⟨call, _, hc⟩ := List.mem_flatMap.mp hc
      obtain ⟨pixel, _, rfl⟩ := List.mem_map.mp hc
      exact .inr ⟨_, _, _, rfl⟩

/-- **An exported image is shown.**  With the palette that the encoder has in the end, the bytes of
the text of an image are rendered as rectangles that show the image. -/
theorem render_shows {cs : List Call} {im : Image} {image palette : Bytes} (h : Exported colors cs im image)
    (hw : im.width ≤ 32) (hh : im.height ≤ 32)
    (hpalette : arrayify (paletteText ((new colors).encodeAll cs).2.palette) = some palette)
    (hsize : palette.length ≤ 768) : image[0]? = some 0 ∧ ∃ rects,
      Part.render ⟨image, palette⟩ = .ok (String.join (rects.map (strokeText (hexColor palette)))) ∧
      Shows im (hexColor palette) rects := by
  obtain ⟨before, c, after, rle, rfl, rfl, hrle, himage⟩ := h
  obtain ⟨hnodup, hhead, _⟩ := initial_colors hcolors
  obtain ⟨hps, triples, htriples⟩ := palette_colors hcolors (before ++ c :: after)
  rw [arrayify_palette htriples] at hpalette
  cases hpalette
  have hm := encodeAll_interns before (new_interns hnodup)
  have h0 : (initial colors ++ before.flatMap fun c => c.png.scanned).head? = some [] := by
    obtain ⟨rest, hrest⟩ := List.head?_eq_some_iff.mp hhead
    rw [hrest]
    rfl
  have hall : initial colors ++ ((before ++ c :: after).flatMap fun c => c.png.scanned)
      = ((initial colors ++ before.flatMap fun c => c.png.scanned) ++ c.png.scanned)
        ++ after.flatMap fun c => c.png.scanned := by simp
  obtain ⟨new, hnew⟩ := eraseDups_append_eq ((initial colors ++ before.flatMap fun c => c.png.scanned)
    ++ c.png.scanned) (after.flatMap fun c => c.png.scanned)
  rw [hps, hall, hnew] at htriples
  -- at most 256 colours, so that all are among the first 256
  have hsmall : c.png.Small ((initial colors ++ before.flatMap fun c => c.png.scanned)
      ++ c.png.scanned).eraseDups := by
    have hlen := congrArg List.length htriples
    rw [List.length_append, List.length_cons, List.length_map] at hlen
    rw [paletteBytes_length] at hsize
    intro x y hv
    rw [List.take_of_length_le (by omega)]
    exact List.mem_eraseDups.mpr (List.mem_append_right _ (Image.mem_scanned (Image.contains_of_visible hv)))
  obtain ⟨bytes, hbytes, hdecode⟩ := arrayify_toRLE hm (Nat.le_trans hw (by decide))
    (Nat.le_trans hh (by decide)) hsmall
  rw [encodeImage_rle hrle, hbytes] at himage
  cases himage
  have hm' := hm.toRLE c.png
  exact ⟨rfl, _, render_runs hm' h0 htriples hw hh hdecode, rectsOf_shows hm' h0 htriples⟩

end

/-! ## pictures -/

/-- the index of a seed in a trait -/
def partIndex (seed : Seed) : TraitKind → Nat
  | .bodies => seed.body
  | .accessories => seed.accessory
  | .heads => seed.head
  | .glasses => seed.glasses

/-- the parts of a seed, all with the first palette -/
theorem getPartsForSeed_ok {C : Chain} {code : Bytecode} {a : NounsArt} {seed : Seed} {palette : Bytes}
    (hpalette : a.palettes code 0 = .ok palette) {image : TraitKind → Bytes}
    (himage : ∀ kind, a.imageByIndex C code kind (partIndex seed kind) = .ok (image kind))
    (hfirst : ∀ kind, (image kind)[0]? = some 0) : a.getPartsForSeed C code seed
      = .ok ([.bodies, .accessories, .heads, .glasses].map fun kind => ⟨image kind, palette⟩) := by
  have hget : ∀ kind, a.getPalette code (image kind) = .ok palette := fun kind =>
    bind_eq_ok.mpr ⟨0, item_eq_ok.mpr (hfirst kind), hpalette⟩
  have hall : [image .bodies, image .accessories, image .heads, image .glasses].mapM (fun part => do
      let palette ← a.getPalette code part
      pure (⟨part, palette⟩ : Part)) =
      .ok ([image .bodies, image .accessories, image .heads, image .glasses].map fun part =>
        ⟨part, palette⟩) := by
    refine mapM_ok fun part hpart => ?_
    simp only [List.mem_cons, List.not_mem_nil, or_false] at hpart
    rcases hpart with rfl | rfl | rfl | rfl
    all_goals exact bind_eq_ok.mpr ⟨palette, hget _, rfl⟩
  exact bind_eq_ok.mpr ⟨_, himage .bodies, bind_eq_ok.mpr ⟨_, himage .accessories,
    bind_eq_ok.mpr ⟨_, himage .heads, bind_eq_ok.mpr ⟨_, himage .glasses, hall⟩⟩⟩⟩

/-- **What was drawn is what is shown.**  Images are encoded one after another, and pages of their
texts are sent to the art by the task, among other calls; the palette of the encoder is the first one
of the art.  Then the picture of any seed shows, over its background, the four images that its parts
were encoded from, each visible pixel once and in its colour. -/
theorem picture_shows {C : Chain}
    (hpuff : ∀ inflator source destlen, C.puff inflator source destlen = inflate source destlen)
    (hdecode : ∀ data, C.decode data = abiDecode data) (deflateRawSync : Bytes → Bytes) (code : Bytecode)
    (descriptor inflator : Address) (steps : List TaskStep)
    (hcompress : ∀ c ∈ (runTask deflateRawSync steps (.deploy descriptor inflator, code)).1,
      Compresses deflateRawSync c.2)
    (colors : Option (List (List Char)))
    (hcolors : ∀ ps ∈ colors, ps.Nodup ∧ ∃ triples, Colors ps triples) (cs : List Call) (palette : Bytes)
    (hpalette : arrayify (paletteText ((new colors).encodeAll cs).2.palette) = some palette)
    (hsize : palette.length ≤ 768) :
    let r := runTask deflateRawSync steps (.deploy descriptor inflator, code)
    r.2.1.palettes r.2.2 0 = .ok palette →
    ∀ (seed : Seed) (png : TraitKind → Image), (∀ kind, (png kind).width ≤ 32 ∧ (png kind).height ≤ 32) →
    (∀ kind, ∃ image, (imagesOf kind r.1)[partIndex seed kind]? = some image ∧
      Exported colors cs (png kind) image) →
    ∀ background, r.2.1.backgrounds[seed.background]? = some background → background ≠ "" →
    ∃ rects : TraitKind → List (Stroke Nat), (∀ kind, Shows (png kind) (hexColor palette) (rects kind)) ∧
      ∀ base64, generateSVGImage base64 C r.2.2 r.2.1 seed = .ok (base64 (svgStartTag
        ++ "<rect width=\"100%\" height=\"100%\" fill=\"#" ++ background ++ "\" />"
        ++ String.join ([.bodies, .accessories, .heads, .glasses].map fun kind =>
          String.join ((rects kind).map (strokeText (hexColor palette)))) ++ svgEndTag)) := by
  intro r hset seed png hdims hparts background hbackground hne
  have hs : Stocked C r.2 r.1 :=
    runTask_stocked hpuff hdecode steps (deploy_stocked code descriptor inflator) hcompress
  choose image himage hexported using hparts
  have hshown := fun kind =>
    render_shows hcolors (hexported kind) (hdims kind).1 (hdims kind).2 hpalette hsize
  choose hfirst rects hrender hshows using hshown
  have hgot := getPartsForSeed_ok hset (fun kind => hs.read.mpr (himage kind)) hfirst
  refine ⟨rects, hshows, fun base64 => ?_⟩
  have htexts : List.Forall₂ (fun (part : Part) text => part.render = .ok text)
      ([.bodies, .accessories, .heads, .glasses].map fun kind => (⟨image kind, palette⟩ : Part))
      ([.bodies, .accessories, .heads, .glasses].map fun kind =>
        String.join ((rects kind).map (strokeText (hexColor palette)))) :=
    .cons (hrender _) (.cons (hrender _) (.cons (hrender _) (.cons (hrender _) .nil)))
  refine bind_eq_ok.mpr ⟨_, bind_eq_ok.mpr ⟨_, hgot, bind_eq_ok.mpr ⟨_, item_eq_ok.mpr hbackground, rfl⟩⟩,
    bind_eq_ok.mpr ⟨_, generateSVG_total htexts (show 4 < 2 ^ 8 by decide) hne, rfl⟩⟩

/-- one image for each trait, a palette and a background -/
def pictureSteps : List TaskStep :=
  [.other (.call 20 (.addBackground "e1d7d5")) rfl,
    .other (.call 20 (.setPalette 0 [0, 0, 0, 255, 0, 0] 99)) rfl,
    .page 20 .bodies ["0x00010201010101".toList] 100, .page 20 .accessories ["0x00010201010101".toList] 101,
    .page 20 .heads ["0x00010201010101".toList] 102, .page 20 .glasses ["0x00010201010101".toList] 103]

def pictureTask : List (TraitKind × List Bytes) × (NounsArt × Bytecode) :=
  runTask storeRawSync pictureSteps (.deploy 20 30, fun _ => [])

theorem pictureTask_added : pictureTask.1 = [.bodies, .accessories, .heads, .glasses].map
    fun kind => (kind, [[0, 1, 2, 1, 1, 1, 1]]) := by decide +kernel

theorem pictureTask_compress {c : TraitKind × List Bytes} (hc : c ∈ pictureTask.1) :
    Compresses storeRawSync c.2 := by
  have hsize : (Abi.encode [[0, 1, 2, 1, 1, 1, 1]]).length < 2 ^ 16 := by decide +kernel
  rw [pictureTask_added] at hc
  obtain ⟨kind, _, rfl⟩ := List.mem_map.mp hc
  exact storeRawSync_compresses hsize

theorem dot_exported : Exported none [⟨"dot", dot, none⟩] dot [0, 1, 2, 1, 1, 1, 1] :=
  ⟨[], ⟨"dot", dot, none⟩, [], "0x00010201010101".toList, rfl, rfl, by decide +kernel, by decide +kernel⟩

theorem picture_shows_run : ∃ rects : TraitKind → List (Stroke Nat),
    (∀ kind, Shows dot (hexColor [0, 0, 0, 255, 0, 0]) (rects kind)) ∧
    ∀ base64, generateSVGImage base64 inflatorChain pictureTask.2.2 pictureTask.2.1 ⟨0, 0, 0, 0, 0⟩
      = .ok (base64 (svgStartTag ++ "<rect width=\"100%\" height=\"100%\" fill=\"#" ++ "e1d7d5" ++ "\" />"
        ++ String.join ([.bodies, .accessories, .heads, .glasses].map fun kind =>
          String.join ((rects kind).map (strokeText (hexColor [0, 0, 0, 255, 0, 0])))) ++ svgEndTag)) := by
  refine picture_shows (C := inflatorChain) (fun _ _ _ => rfl) (fun _ => rfl) storeRawSync (fun _ => [])
    20 30 pictureSteps (fun _ => pictureTask_compress) none (fun _ h => by cases h) [⟨"dot", dot, none⟩]
    [0, 0, 0, 255, 0, 0] (by decide +kernel) (by decide) (by decide +kernel) ⟨0, 0, 0, 0, 0⟩ (fun _ => dot)
    (fun _ => by decide) (fun kind => ⟨_, ?_, dot_exported⟩) "e1d7d5" (by decide +kernel) (by decide)
  rw [show (runTask storeRawSync pictureSteps (NounsArt.deploy 20 30, fun _ => [])).1 = _ from pictureTask_added]
  cases kind <;> decide

end UNouns.Tasks
