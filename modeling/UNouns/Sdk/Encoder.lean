import UNouns.Lib.Interning
import UNouns.Sdk.Bounds

/-!
# The encoder of a collection

`PNGCollectionEncoder` encodes images one after another with one palette, which grows.

* `encodeImage`, `encodeAll`       a call, and calls one after another;
* `ColorMap.Interns`               the palette numbers the colours as they first occur;
* `Image.Reproduced`               what is decoded and looked up in the palette is the image;
* `encodeImage_reproduced_iff`     it is, if the colours in sight are among the first 256.
-/

set_option linter.unusedVariables false

namespace UNouns.Sdk
open HexString Raster Interning

/-! ## the encoder -/

/-- the arguments of `encodeImage` -/
structure Call where
  name : String
  png : Image
  folder : Option String

structure PNGCollectionEncoder where
  colors : ColorMap
  images : List (String × List Char)
  folders : List (String × List String)

/-- what every object has from its prototype: not an array, and not falsy either -/
def inherited : List String :=
  ["constructor", "__defineGetter__", "__defineSetter__", "hasOwnProperty", "__lookupGetter__",
    "__lookupSetter__", "isPrototypeOf", "propertyIsEnumerable", "toString", "valueOf", "__proto__",
    "toLocaleString"]

namespace PNGCollectionEncoder

/-- the constructor -/
def new (colors : Option (List (List Char))) : PNGCollectionEncoder :=
  ⟨(colors.getD []).zipIdx.foldl (fun m e => m.set e.1 e.2) ⟨[([], 0)]⟩, [], []⟩

def palette (enc : PNGCollectionEncoder) : List (List Char) := enc.colors.entries.map Prod.fst

/-- `none` if it throws, as there is no `push`; the colours and the image are kept even then -/
def encodeImage (enc : PNGCollectionEncoder) (c : Call) : Option (List Char) × PNGCollectionEncoder :=
  let rle := (c.png.toRLE enc.colors).1
  let enc := { enc with colors := (c.png.toRLE enc.colors).2, images := OrderedMap.set enc.images c.name rle }
  match c.folder with
  | none => (some rle, enc)
  | some folder =>
    if folder = "" then (some rle, enc)
    else if folder ∈ inherited then (none, enc)
    else
      let filenames := (OrderedMap.get enc.folders folder).getD [] ++ [c.name]
      (some rle, { enc with folders := OrderedMap.set enc.folders folder filenames })

/-- what the calls return, and the encoder after them -/
def encodeAll (enc : PNGCollectionEncoder) : List Call → List (Option (List Char)) × PNGCollectionEncoder
  | [] => ([], enc)
  | c :: cs => ((enc.encodeImage c).1 :: (encodeAll (enc.encodeImage c).2 cs).1,
      (encodeAll (enc.encodeImage c).2 cs).2)

theorem encodeImage_rle {enc : PNGCollectionEncoder} {c : Call} {rle : List Char}
    (h : (enc.encodeImage c).1 = some rle) : rle = (c.png.toRLE enc.colors).1 := by
  unfold encodeImage at h
  dsimp only at h
  split at h
  · exact (Option.some.inj h).symm
  · split_ifs at h
    · exact (Option.some.inj h).symm
    · exact (Option.some.inj h).symm

theorem encodeImage_colors (enc : PNGCollectionEncoder) (c : Call) :
    (enc.encodeImage c).2.colors = (c.png.toRLE enc.colors).2 := by
  unfold encodeImage
  dsimp only
  split
  · rfl
  · split_ifs <;> rfl

end PNGCollectionEncoder

/-! ## the palette -/

def RGBAColor.hexColor (pixel : RGBAColor) : List Char := rgbToHex pixel.r pixel.g pixel.b

/-- the colours that the scan of an image meets, one a pixel -/
def Image.scanned (im : Image) : List (List Char) := im.pixels.map RGBAColor.hexColor

/-- the colours that were seen, each with its number -/
def ColorMap.Interns (m : ColorMap) (seen : List (List Char)) : Prop :=
  m.entries = seen.eraseDups.zipIdx

namespace ColorMap.Interns
variable {m : ColorMap} {seen : List (List Char)} {key : List Char} {i : Nat}

theorem keys (h : m.Interns seen) : m.entries.map Prod.fst = seen.eraseDups := by
  rw [h]
  exact List.zipIdx_map_fst 0 _

theorem get_iff (h : m.Interns seen) : m.get key = some i ↔ seen.eraseDups[i]? = some key := by
  have hnodup : (OrderedMap.keys m.entries).Nodup := by
    show (m.entries.map Prod.fst).Nodup
    rw [h.keys]
    exact nodup_eraseDups seen
  rw [← List.mk_mem_zipIdx_iff_getElem?, ← h]
  exact OrderedMap.get_iff hnodup

theorem has_iff (h : m.Interns seen) : m.has key = true ↔ key ∈ seen := by
  rw [← List.mem_eraseDups, ← h.keys]
  exact OrderedMap.get_isSome

theorem size_eq (h : m.Interns seen) : m.size = seen.eraseDups.length := by
  unfold ColorMap.size
  rw [h, List.length_zipIdx]

theorem bounded (h : m.Interns seen) : m.Bounded := by
  intro key i hi
  rw [h.size_eq]
  exact (List.getElem?_eq_some_iff.mp (h.get_iff.mp hi)).1

/-- a new colour gets the next number -/
theorem set_size (h : m.Interns seen) (hkey : key ∉ seen) : (m.set key m.size).Interns (seen ++ [key]) := by
  have hhas : ¬ m.has key = true := fun hh => hkey (h.has_iff.mp hh)
  have hset : (m.set key m.size).entries = m.entries ++ [(key, m.size)] := by
    unfold ColorMap.set
    rw [if_neg hhas]
  unfold ColorMap.Interns at h ⊢
  rw [hset, eraseDups_concat, if_neg hkey, List.zipIdx_append, ← h, ColorMap.Interns.size_eq h]
  simp

theorem scan (h : m.Interns seen) (acc : List Nat) (pixel : RGBAColor) :
    (Image.scan (m, acc) pixel).1.Interns (seen ++ [pixel.hexColor]) := by
  have hscan : (Image.scan (m, acc) pixel).1
      = if m.has pixel.hexColor then m else m.set pixel.hexColor m.size := rfl
  rw [hscan]
  split_ifs with hhas
  · unfold ColorMap.Interns
    rw [eraseDups_concat, if_pos (h.has_iff.mp hhas)]
    exact h
  · exact h.set_size fun hmem => hhas (h.has_iff.mpr hmem)

theorem foldl_scan (pixels : List RGBAColor) : ∀ {m : ColorMap} {seen : List (List Char)} (acc : List Nat),
    m.Interns seen →
      (pixels.foldl Image.scan (m, acc)).1.Interns (seen ++ pixels.map RGBAColor.hexColor) := by
  induction pixels with
  | nil =>
    intro m seen acc h
    rw [List.map_nil, List.append_nil]
    exact h
  | cons p ps ih =>
    intro m seen acc h
    have hp := ih (Image.scan (m, acc) p).2 (h.scan acc p)
    rw [List.append_assoc] at hp
    exact hp

theorem toRLE (h : m.Interns seen) (im : Image) : (im.toRLE m).2.Interns (seen ++ im.scanned) := by
  rw [im.toRLE_scan]
  exact foldl_scan im.pixels [] h

theorem foldl_set {ks : List (List Char)} : ∀ {m : ColorMap} {seen : List (List Char)}, m.Interns seen →
    (seen ++ ks).Nodup → ((ks.zipIdx seen.length).foldl (fun m e => m.set e.1 e.2) m).Interns (seen ++ ks) := by
  induction ks with
  | nil =>
    intro m seen h _
    rw [List.append_nil]
    exact h
  | cons k ks ih =>
    intro m seen h hnodup
    have hseen := (List.nodup_append.mp hnodup).1
    have hk : k ∉ seen := fun hmem => (List.nodup_append.mp hnodup).2.2 k hmem k List.mem_cons_self rfl
    have hsize : m.size = seen.length := by rw [h.size_eq, eraseDups_of_nodup hseen]
    have hset := h.set_size hk
    rw [hsize] at hset
    have hrest := ih hset (by simpa using hnodup)
    rw [List.length_append, List.append_assoc] at hrest
    exact hrest

end ColorMap.Interns

/-! ## the pixels of the text -/

instance (b : ImageBounds) (x y : Nat) : Decidable (b.Contains x y) :=
  inferInstanceAs (Decidable (_ ∧ _ ∧ _ ∧ _))

/-- the colour of a pixel, if it has one: index 0 is for none -/
def DecodedImage.pixel (d : DecodedImage) (palette : List (List Char)) (x y : Nat) : Option (List Char) :=
  if d.bounds.Contains x y then
    match (expand d.rects)[(y - d.bounds.top) * (d.bounds.right - d.bounds.left) + (x - d.bounds.left)]? with
    | some (i + 1) => palette[i + 1]?
    | _ => none
  else none

namespace Image
variable {im : Image}

/-- the visible pixels have their colours, and the others none -/
def Reproduced (im : Image) (palette : List (List Char)) (d : DecodedImage) : Prop :=
  ∀ x < im.width, ∀ y < im.height, d.pixel palette x y =
    if (im.getRgbaAt x y).a = 0 then none else some (im.getRgbaAt x y).hexColor

theorem contains_lt {x y : Nat} (h : im.calcBounds.Contains x y) : x < im.width ∧ y < im.height := by
  by_cases hv : ∃ x y, im.Visible x y
  · obtain ⟨x₀, y₀, hv⟩ := hv
    have hcrops := im.calcBounds_crops (Nat.lt_of_le_of_lt (Nat.zero_le _) hv.y_lt)
    exact ⟨Nat.lt_of_lt_of_le h.2.1 hcrops.right_le, Nat.lt_of_le_of_lt h.2.2.2 hcrops.bottom_lt⟩
  · push Not at hv
    obtain ⟨_, hright⟩ := calcBounds_blank hv
    have := h.2.1
    omega

theorem contains_of_visible {x y : Nat} (h : im.Visible x y) : im.calcBounds.Contains x y :=
  calcBounds_covered (Nat.lt_of_le_of_lt (Nat.zero_le _) h.y_lt) x y h

theorem pixels_getElem? {x y : Nat} (h : im.calcBounds.Contains x y) :
    im.pixels[(y - im.calcBounds.top) * (im.calcBounds.right - im.calcBounds.left)
      + (x - im.calcBounds.left)]? = some (im.getRgbaAt x y) := by
  obtain ⟨h1, h2, h3, h4⟩ := h
  exact rows_getElem? _ h1 (by omega) _ h3 (by omega)

theorem pixels_place {i : Nat} (h : i < im.pixels.length) : ∃ x y, im.calcBounds.Contains x y ∧
    i = (y - im.calcBounds.top) * (im.calcBounds.right - im.calcBounds.left) + (x - im.calcBounds.left) := by
  unfold pixels at h
  rw [rows_length] at h
  obtain ⟨x, y, h1, h2, h3, h4, h5⟩ := @rows_place im.calcBounds.left _ im.calcBounds.top _ _ h
  exact ⟨x, y, ⟨h1, by omega, h3, by omega⟩, h5⟩

end Image

theorem hexColor_ne_nil (pixel : RGBAColor) : pixel.hexColor ≠ [] := by
  unfold RGBAColor.hexColor rgbToHex
  rw [toPaddedHex_eq _ pixel.r.toNat_lt]
  exact List.cons_ne_nil _ _

/-! ## indexes that are bytes -/

section
variable {im : Image} {m : ColorMap} {seen : List (List Char)}

/-- the number of a visible colour is its place in the palette -/
theorem ColorMap.Interns.index_iff (h : m.Interns seen) {pixel : RGBAColor} (ha : pixel.a ≠ 0)
    (hseen : pixel.hexColor ∈ seen) {i : Nat} : m.index pixel = i ↔ seen.eraseDups[i]? = some pixel.hexColor := by
  obtain ⟨j, hj⟩ := List.getElem?_of_mem (List.mem_eraseDups.mpr hseen)
  have hget : m.get (rgbToHex pixel.r pixel.g pixel.b) = some j := h.get_iff.mpr hj
  unfold ColorMap.index
  rw [if_neg ha, hget, Option.getD_some]
  exact ⟨fun e => e ▸ hj, fun hi => place_inj (nodup_eraseDups seen) hj hi⟩

theorem Image.mem_scanned {x y : Nat} (h : im.calcBounds.Contains x y) :
    (im.getRgbaAt x y).hexColor ∈ im.scanned :=
  List.mem_map_of_mem (List.mem_of_getElem? (pixels_getElem? h))

/-- the colours in sight are among the first 256 of the palette -/
def Image.Small (im : Image) (known : List (List Char)) : Prop :=
  ∀ x y, im.Visible x y → (im.getRgbaAt x y).hexColor ∈ known.take 256

theorem Image.index_lt (hm : m.Interns (seen ++ im.scanned)) (hsmall : im.Small (seen ++ im.scanned).eraseDups)
    {pixel : RGBAColor} (hpixel : pixel ∈ im.pixels) : m.index pixel < 256 := by
  by_cases ha : pixel.a = 0
  · unfold ColorMap.index
    rw [if_pos ha]
    decide
  · obtain ⟨n, hn, hpix⟩ := List.mem_iff_getElem.mp hpixel
    obtain ⟨x, y, hin, hplace⟩ := pixels_place hn
    have hget := pixels_getElem? hin
    rw [← hplace, List.getElem?_eq_getElem hn, hpix] at hget
    obtain rfl := Option.some.inj hget
    obtain ⟨hx, hy⟩ := contains_lt hin
    obtain ⟨i, hi, hcolor⟩ := mem_take_iff.mp (hsmall x y ⟨hx, hy, ha⟩)
    rw [(hm.index_iff ha (List.mem_append_right _ (mem_scanned hin))).mpr hcolor]
    exact hi

/-- the palette begins with the empty string -/
theorem head_eraseDups (h : seen.head? = some []) (ks : List (List Char)) :
    (seen ++ ks).eraseDups[0]? = some [] := by
  obtain ⟨rest, rfl⟩ := List.head?_eq_some_iff.mp h
  rw [List.cons_append, List.eraseDups_cons]
  rfl

/-- **With bytes for indexes the image is reproduced.** -/
theorem Image.reproduced_of_small (hm : m.Interns seen) (hw : im.width ≤ 255) (hh : im.height ≤ 255)
    (h0 : seen.head? = some []) (hsmall : im.Small (seen ++ im.scanned).eraseDups) (new : List (List Char)) :
    ∃ d, decodeImage (im.toRLE m).1 = some d ∧ im.Reproduced ((seen ++ im.scanned).eraseDups ++ new) d := by
  have hm' := hm.toRLE im
  obtain ⟨_, rfl, _, _, _, hdecode⟩ := im.toRLE_eq hw hh hm.bounded
  refine ⟨_, hdecode fun pixel hpixel => index_lt hm' hsmall hpixel, fun x hx y hy => ?_⟩
  unfold DecodedImage.pixel
  dsimp only
  by_cases hin : im.calcBounds.Contains x y
  · rw [if_pos hin, expand_encode, List.getElem?_map, pixels_getElem? hin, Option.map_some]
    by_cases ha : (im.getRgbaAt x y).a = 0
    · have hindex : (im.toRLE m).2.index (im.getRgbaAt x y) = 0 := if_pos ha
      rw [if_pos ha, hindex]
    · have hcolor := (hm'.index_iff ha (List.mem_append_right _ (mem_scanned hin))).mp rfl
      rw [if_neg ha]
      cases hi : (im.toRLE m).2.index (im.getRgbaAt x y) with
      | zero =>
        rw [hi, head_eraseDups h0] at hcolor
        exact absurd (Option.some.inj hcolor).symm (hexColor_ne_nil _)
      | succ i =>
        rw [hi] at hcolor
        show (_ ++ new)[i + 1]? = _
        rw [List.getElem?_append_left (List.getElem?_eq_some_iff.mp hcolor).1]
        exact hcolor
  · rw [if_neg hin]
    by_cases ha : (im.getRgbaAt x y).a = 0
    · rw [if_pos ha]
    · exact absurd (contains_of_visible ⟨hx, hy, ha⟩) hin

/-- a number of three digits or more is not read back -/
theorem decodeImage_long {p top right bottom left : Nat} (hp : p < 256) (ht : top < 256)
    (hr : right < 256) (hb : bottom < 256) (hl : left < 256) {goods rest : List (Nat × Nat)} {n j : Nat}
    (hgoods : ∀ r ∈ goods, r.1 < 256 ∧ r.2 < 256) (hn : n < 256) {d : DecodedImage}
    (hd : decodeImage (prefixed ([p, top, right, bottom, left].flatMap hexPair
      ++ (goods ++ (n, j) :: rest).flatMap fun r => toPaddedHex r.1 2 ++ toPaddedHex r.2 2)) = some d) :
    d.bounds = ⟨top, right, bottom, left⟩ ∧ ∃ i rs, d.rects = goods ++ (n, i) :: rs ∧ i < 256 := by
  have hpair : (goods.flatMap fun r => toPaddedHex r.1 2 ++ toPaddedHex r.2 2)
      = goods.flatMap fun r => hexPair r.1 ++ hexPair r.2 :=
    List.flatMap_congr fun r hr => by
      rw [toPaddedHex_eq r.1 (hgoods r hr).1, toPaddedHex_eq r.2 (hgoods r hr).2]
  -- the number has two characters at least
  obtain ⟨a, b, s, hab⟩ : ∃ a b s, toPaddedHex j 2 = a :: b :: s := by
    have hlen : 2 ≤ (toPaddedHex j 2).length := by
      unfold toPaddedHex padStart
      rw [List.length_append, List.length_replicate]
      omega
    match hj : toPaddedHex j 2, hlen with
    | a :: b :: s, _ => exact ⟨a, b, s, rfl⟩
  rw [(decodeImage_head hp ht hr hb hl rfl).2, List.flatMap_append, List.flatMap_cons, hpair,
    mapM_decodeRect hgoods, toPaddedHex_eq n hn, hab] at hd
  obtain ⟨rects, hrects, rfl⟩ := Option.map_eq_some_iff.mp hd
  obtain ⟨rs, hrs, rfl⟩ := Option.map_eq_some_iff.mp hrects
  have hquads : quads (hexPair n ++ a :: b :: s ++ rest.flatMap fun r => toPaddedHex r.1 2 ++ toPaddedHex r.2 2)
      = (hexPair n ++ [a, b]) :: quads (s ++ rest.flatMap fun r => toPaddedHex r.1 2 ++ toPaddedHex r.2 2) := rfl
  rw [hquads, List.mapM_cons] at hrs
  obtain ⟨r, hr, hrs⟩ := Option.bind_eq_some_iff.mp hrs
  obtain ⟨rs, _, hrs⟩ := Option.bind_eq_some_iff.mp hrs
  cases hrs
  unfold decodeRect at hr
  rw [show substring (hexPair n ++ [a, b]) 0 2 = hexPair n from rfl, parseInt16_hexPair hn] at hr
  obtain ⟨length, hlength, hr⟩ := Option.bind_eq_some_iff.mp hr
  obtain ⟨i, hi, hr⟩ := Option.bind_eq_some_iff.mp hr
  cases hlength
  cases hr
  exact ⟨rfl, i, rs, rfl, parseInt16_lt hi⟩

/-- runs up to the first with a long number -/
theorem exists_long {runs : List (Nat × Nat)} (h : ∃ i ∈ expand runs, 256 ≤ i) :
    ∃ goods r rest, runs = goods ++ r :: rest ∧ 256 ≤ r.2 ∧ ∀ g ∈ goods, g.2 < 256 := by
  obtain ⟨i, hi, hlong⟩ := h
  obtain ⟨r, hr, hmem⟩ := List.mem_flatMap.mp hi
  have hfind : (runs.find? fun r => 256 ≤ r.2).isSome := by
    refine List.find?_isSome.mpr ⟨r, hr, decide_eq_true ?_⟩
    rw [← List.eq_of_mem_replicate hmem]
    exact hlong
  obtain ⟨r, hr⟩ := Option.isSome_iff_exists.mp hfind
  obtain ⟨hr, goods, rest, heq, hgoods⟩ := List.find?_eq_some_iff_append.mp hr
  refine ⟨goods, r, rest, heq, of_decide_eq_true hr, fun g hg => ?_⟩
  have := hgoods g hg
  simpa using this

theorem expand_getElem? (goods rest : List (Nat × Nat)) {r : Nat × Nat} (h : 1 ≤ r.1) :
    (expand (goods ++ r :: rest))[(expand goods).length]? = some r.2 := by
  obtain ⟨n, hn⟩ := Nat.exists_eq_succ_of_ne_zero (by omega : r.1 ≠ 0)
  unfold expand
  rw [List.flatMap_append, List.flatMap_cons, List.getElem?_append_right (Nat.le_refl _), Nat.sub_self,
    hn, List.replicate_succ]
  rfl

/-- **The image is reproduced only with bytes for indexes.** -/
theorem Image.small_of_reproduced (hm : m.Interns seen) (hw : im.width ≤ 255) (hh : im.height ≤ 255)
    {new : List (List Char)} (hnodup : ((seen ++ im.scanned).eraseDups ++ new).Nodup) {d : DecodedImage}
    (hd : decodeImage (im.toRLE m).1 = some d)
    (hrep : im.Reproduced ((seen ++ im.scanned).eraseDups ++ new) d) :
    im.Small (seen ++ im.scanned).eraseDups := by
  have hm' := hm.toRLE im
  obtain ⟨_, rfl, _, _, _, htext⟩ := im.toRLE_text hw hh hm.bounded
  intro x y hv
  have hin := contains_of_visible hv
  obtain ⟨j, hj⟩ := List.getElem?_of_mem (List.mem_eraseDups.mpr (List.mem_append_right seen (mem_scanned hin)))
  refine mem_take_iff.mpr ⟨j, ?_, hj⟩
  by_contra hlong
  -- the first run with a long number, and the pixel at its start
  have hex : ∃ i ∈ expand (Raster.encode 255 (im.pixels.map (im.toRLE m).2.index)), 256 ≤ i := by
    rw [expand_encode]
    refine ⟨_, List.mem_map_of_mem (List.mem_of_getElem? (pixels_getElem? hin)), ?_⟩
    rw [(hm'.index_iff hv.alpha (List.mem_append_right _ (mem_scanned hin))).mpr hj]
    omega
  obtain ⟨goods, r, rest, hruns, hr, hgoods⟩ := exists_long hex
  have hlengths : ∀ g ∈ goods ++ r :: rest, 1 ≤ g.1 ∧ g.1 ≤ 255 := hruns ▸ encode_length (by decide) _
  have hr1 := hlengths r (List.mem_append_right _ List.mem_cons_self)
  have hstart := expand_getElem? goods rest hr1.1
  rw [← hruns, expand_encode, List.getElem?_map] at hstart
  obtain ⟨pixel, hpixel, hindex⟩ := Option.map_eq_some_iff.mp hstart
  obtain ⟨x', y', hin', hplace⟩ := pixels_place (List.getElem?_eq_some_iff.mp hpixel).1
  rw [hplace, pixels_getElem? hin'] at hpixel
  obtain rfl := Option.some.inj hpixel
  have ha : (im.getRgbaAt x' y').a ≠ 0 := fun h0 => by
    unfold ColorMap.index at hindex
    rw [if_pos h0] at hindex
    omega
  have hcolor := (hm'.index_iff ha (List.mem_append_right _ (mem_scanned hin'))).mp hindex
  -- what is read there
  unfold encodeData at htext
  rw [hruns] at htext
  rw [htext] at hd
  obtain ⟨hbt, hbr, hbb, hbl⟩ := im.calcBounds_lt hw hh
  obtain ⟨hbounds, i, rs, hrects, hi⟩ := decodeImage_long (by decide) hbt hbr hbb hbl
    (fun g hg => ⟨by have := hlengths g (List.mem_append_left _ hg); omega, hgoods g hg⟩) (by omega) hd
  obtain ⟨hx, hy⟩ := contains_lt hin'
  have hpix := hrep x' hx y' hy
  have hread : (expand (goods ++ (r.1, i) :: rs))[(expand goods).length]? = some i :=
    expand_getElem? goods rs hr1.1
  rw [← hrects, hplace] at hread
  unfold DecodedImage.pixel at hpix
  rw [hbounds] at hpix
  rw [if_pos hin', if_neg ha, hread] at hpix
  cases i with
  | zero => cases hpix
  | succ i =>
    have hmore : ((seen ++ im.scanned).eraseDups ++ new)[r.2]? = some (im.getRgbaAt x' y').hexColor := by
      rw [List.getElem?_append_left (List.getElem?_eq_some_iff.mp hcolor).1]
      exact hcolor
    have := place_inj hnodup hpix hmore
    omega

end

/-! ## whole collections -/

namespace PNGCollectionEncoder

theorem encodeAll_interns (cs : List Call) : ∀ {enc : PNGCollectionEncoder}
    {seen : List (List Char)}, enc.colors.Interns seen →
      (enc.encodeAll cs).2.colors.Interns (seen ++ cs.flatMap fun c => c.png.scanned) := by
  induction cs with
  | nil =>
    intro enc seen h
    rw [List.flatMap_nil, List.append_nil]
    exact h
  | cons c cs ih =>
    intro enc seen h
    have hc : (enc.encodeImage c).2.colors.Interns (seen ++ c.png.scanned) := by
      rw [encodeImage_colors]
      exact h.toRLE c.png
    rw [List.flatMap_cons, ← List.append_assoc]
    exact ih hc

/-- the palette that an encoder begins with -/
def initial (colors : Option (List (List Char))) : List (List Char) := colors.getD [[]]

theorem new_interns {colors : Option (List (List Char))}
    (h : ∀ ps ∈ colors, ps.Nodup ∧ ps.head? = some []) : (new colors).colors.Interns (initial colors) := by
  have hfirst : (⟨[([], 0)]⟩ : ColorMap).Interns [[]] := rfl
  cases colors with
  | none => exact hfirst
  | some ps =>
    obtain ⟨hnodup, hhead⟩ := h ps rfl
    obtain ⟨rest, rfl⟩ := List.head?_eq_some_iff.mp hhead
    exact hfirst.foldl_set hnodup

/-- a palette is taken over as it is -/
theorem new_some {ps : List (List Char)} (hnodup : ps.Nodup) (hhead : ps.head? = some []) :
    new (some ps) = ⟨⟨ps.zipIdx⟩, [], []⟩ := by
  have h : (new (some ps)).colors.Interns ps :=
    new_interns fun qs hqs => Option.some.inj hqs ▸ ⟨hnodup, hhead⟩
  have hentries : (new (some ps)).colors.entries = ps.zipIdx := by
    rw [h, eraseDups_of_nodup hnodup]
  rw [← hentries]
  rfl

theorem initial_head {colors : Option (List (List Char))}
    (h : ∀ ps ∈ colors, ps.Nodup ∧ ps.head? = some []) : (initial colors).head? = some [] := by
  cases colors with
  | none => rfl
  | some ps => exact (h ps rfl).2

end PNGCollectionEncoder

open PNGCollectionEncoder

/-- **When an image is decoded to itself.**  After any calls an image is encoded; with the palette of
then or of any later time its text is decoded to its visible pixels if and only if their colours are
among the first 256 that the palette had at first or that were scanned up to then. -/
theorem encodeImage_reproduced_iff {colors : Option (List (List Char))}
    (hcolors : ∀ ps ∈ colors, ps.Nodup ∧ ps.head? = some []) (cs ds : List Call) (c : Call)
    (hw : c.png.width ≤ 255) (hh : c.png.height ≤ 255) {rle : List Char}
    (hrle : (((new colors).encodeAll cs).2.encodeImage c).1 = some rle) :
    (∃ d, decodeImage rle = some d ∧
      c.png.Reproduced ((new colors).encodeAll (cs ++ c :: ds)).2.palette d) ↔
    ∀ x y, c.png.Visible x y → (c.png.getRgbaAt x y).hexColor ∈
      (initial colors ++ (cs ++ [c]).flatMap fun c => c.png.scanned).eraseDups.take 256 := by
  have hcs := encodeAll_interns cs (new_interns hcolors)
  have hlater := encodeAll_interns (cs ++ c :: ds) (new_interns hcolors)
  have hhead : (initial colors ++ cs.flatMap fun c => c.png.scanned).head? = some [] := by
    obtain ⟨rest, hrest⟩ := List.head?_eq_some_iff.mp (initial_head hcolors)
    rw [hrest]
    rfl
  have hseen : initial colors ++ ((cs ++ [c]).flatMap fun c => c.png.scanned)
      = (initial colors ++ cs.flatMap fun c => c.png.scanned) ++ c.png.scanned := by simp
  have hall : initial colors ++ ((cs ++ c :: ds).flatMap fun c => c.png.scanned)
      = ((initial colors ++ cs.flatMap fun c => c.png.scanned) ++ c.png.scanned)
        ++ ds.flatMap fun c => c.png.scanned := by simp
  have hpalette : ((new colors).encodeAll (cs ++ c :: ds)).2.palette = _ := hlater.keys
  rw [hall] at hpalette
  have hnodup := nodup_eraseDups (((initial colors ++ cs.flatMap fun c => c.png.scanned) ++ c.png.scanned)
    ++ ds.flatMap fun c => c.png.scanned)
  obtain ⟨new, hnew⟩ := eraseDups_append_eq ((initial colors ++ cs.flatMap fun c => c.png.scanned)
    ++ c.png.scanned) (ds.flatMap fun c => c.png.scanned)
  rw [hnew] at hpalette hnodup
  rw [hpalette, hseen, encodeImage_rle hrle]
  constructor
  · rintro ⟨d, hd, hrep⟩
    exact Image.small_of_reproduced hcs hw hh hnodup hd hrep
  · intro hsmall
    exact Image.reproduced_of_small hcs hw hh hhead hsmall new

theorem encodeImage_reproduced_iff_run :
    (∃ d, decodeImage "0x00010201010101".toList = some d ∧
      dot.Reproduced ((new none).encodeAll [⟨"dot", dot, none⟩, ⟨"blank", blank, none⟩]).2.palette d) ↔
    ∀ x y, dot.Visible x y → (dot.getRgbaAt x y).hexColor ∈
      (initial none ++ [⟨"dot", dot, none⟩].flatMap fun c : Call => c.png.scanned).eraseDups.take 256 :=
  encodeImage_reproduced_iff (fun ps h => by cases h) [] [⟨"blank", blank, none⟩] ⟨"dot", dot, none⟩
    (by decide) (by decide) (by decide +kernel)

/-- the empty string and 255 blues -/
def blues : List (List Char) := [] :: (List.range 255).map fun i => rgbToHex 0 0 (UInt8.ofNat i)

/-- three reds in a row -/
def reds : Image := ⟨3, 1, fun x _ => ⟨255, UInt8.ofNat x, 0, 255⟩⟩

theorem blues_nodup : blues.Nodup := by
  refine List.Nodup.of_map (fun s => parseInt16 (s.drop 4)) ?_
  have hmap : blues.map (fun s => parseInt16 (s.drop 4)) = none :: (List.range 255).map some := by
    decide +kernel
  rw [hmap]
  refine List.nodup_cons.mpr ⟨fun h => ?_, List.nodup_range.map (Option.some_injective _)⟩
  obtain ⟨i, _, hi⟩ := List.mem_map.mp h
  cases hi

/-- the reds are numbered from 256 on, with three digits, and the first is read as 16, a blue -/
theorem encodeImage_unreadable : blues.Nodup ∧ blues.head? = some [] ∧
    ∃ rle, ((new (some blues)).encodeImage ⟨"reds", reds, none⟩).1 = some rle ∧
      ¬ ∃ d, decodeImage rle = some d ∧
        reds.Reproduced ((new (some blues)).encodeAll [⟨"reds", reds, none⟩]).2.palette d := by
  have hhead : blues.head? = some [] := List.head?_cons
  refine ⟨blues_nodup, hhead, "0x0000030000011000110101102".toList, ?_, ?_⟩
  · rw [new_some blues_nodup hhead]
    decide +kernel
  · rw [new_some blues_nodup hhead]
    rintro ⟨d, hd, hrep⟩
    have hread : decodeImage "0x0000030000011000110101102".toList
        = some ⟨0, ⟨0, 3, 0, 0⟩, [(1, 16), (0, 17), (1, 1), (16, 2)]⟩ := rfl
    rw [hread] at hd
    obtain rfl := Option.some.inj hd
    have hpixel := hrep 0 (by decide) 0 (by decide)
    revert hpixel
    decide +kernel

end UNouns.Sdk
