import UNouns.Lib.HexString
import UNouns.Lib.OrderedMap
import UNouns.Lib.Raster

/-!
# Images of the SDK

`Image.toRLE` crops an image to its content and writes it as runs, in hex; `decodeImage` reads this
text.  Strings that are taken apart are lists of characters.

* `ColorMap`              the palette, which grows while the image is scanned;
* `Image.calcBounds`      the bounds of the content;
* `Image.Depicted`        what the decoded text says of the image;
* `decodeImage_toRLE`     it says all.
-/

set_option linter.unusedVariables false

namespace UNouns.Sdk
open HexString Raster

/-! ## numbers -/

def padStart (pad : Nat) (s : List Char) : List Char := List.replicate (pad - s.length) '0' ++ s

def toPaddedHex (c pad : Nat) : List Char := padStart pad (Nat.toDigits 16 c)

structure RGBAColor where
  r : UInt8
  g : UInt8
  b : UInt8
  a : UInt8

def rgbToHex (r g b : UInt8) : List Char :=
  toPaddedHex r.toNat 2 ++ toPaddedHex g.toNat 2 ++ toPaddedHex b.toNat 2

/-- `parseInt` to base 16 of digits; `none` where the code goes on with `NaN`, or with what `parseInt`
makes of signs and blanks -/
def parseInt16 (s : List Char) : Option Nat :=
  match read s with
  | some (d :: ds) => some (value (d :: ds))
  | _ => none

/-! ## colours -/

/-- a `Map` from colours to indexes, in the order of insertion -/
structure ColorMap where
  entries : List (List Char × Nat)

namespace ColorMap

def get (m : ColorMap) (key : List Char) : Option Nat :=
  (m.entries.find? fun e => e.1 = key).map Prod.snd

def has (m : ColorMap) (key : List Char) : Bool := (m.get key).isSome

def set (m : ColorMap) (key : List Char) (v : Nat) : ColorMap :=
  if m.has key then ⟨m.entries.map fun e => if e.1 = key then (key, v) else e⟩
  else ⟨m.entries ++ [(key, v)]⟩

def size (m : ColorMap) : Nat := m.entries.length

/-- the indexes are `0` to `n - 1`, each for one colour, and `0` is for the empty string -/
structure Numbered (m : ColorMap) : Prop where
  keys : (m.entries.map Prod.fst).Nodup
  indexes : (m.entries.map Prod.snd).Perm (List.range m.size)
  transparent : m.get [] = some 0

end ColorMap

/-! ## encoding -/

structure Image where
  width : Nat
  height : Nat
  getRgbaAt : Nat → Nat → RGBAColor

structure ImageBounds where
  top : Nat
  right : Nat
  bottom : Nat
  left : Nat
  deriving DecidableEq

/-- `while (n > 0 && p(n)) n--` -/
def downWhile (p : Nat → Bool) : Nat → Nat
  | 0 => 0
  | n + 1 => if p (n + 1) then downWhile p n else n + 1

/-- `while (n >= 0 && p(n)) n--`, with `n + 1` for `n`, which goes down to `-1` -/
def outWhile (p : Nat → Bool) : Nat → Nat
  | 0 => 0
  | n + 1 => if p n then outWhile p n else n + 1

/-- `while (n < limit && p(n)) n++`, from `k` before the limit on -/
def upWhile (p : Nat → Bool) (limit : Nat) : Nat → Nat
  | 0 => limit
  | k + 1 => if p (limit - (k + 1)) then upWhile p limit k else limit - (k + 1)

namespace Image

def isTransparentColumn (im : Image) (column : Nat) : Bool :=
  (List.range im.height).all fun row => (im.getRgbaAt column row).a = 0

def isTransparentRow (im : Image) (row : Nat) : Bool :=
  (List.range im.width).all fun column => (im.getRgbaAt column row).a = 0

/-- the right bound is one pixel outside the content; without a row the bottom is 0 here for -1 -/
def calcBounds (im : Image) : ImageBounds :=
  let bottom := downWhile im.isTransparentRow (im.height - 1)
  let top := upWhile im.isTransparentRow bottom bottom
  let right := outWhile im.isTransparentColumn im.width
  let left := upWhile im.isTransparentColumn (right - 1) (right - 1)
  ⟨top, right, bottom, left⟩

/-- one pixel of the scan: its colour is inserted even if it is transparent -/
def scan (s : ColorMap × List Nat) (pixel : RGBAColor) : ColorMap × List Nat :=
  let hexColor := rgbToHex pixel.r pixel.g pixel.b
  let colors := if s.1.has hexColor then s.1 else s.1.set hexColor s.1.size
  (colors, s.2 ++ [if pixel.a = 0 then 0 else (colors.get hexColor).getD 0])

/-- `encode` -/
def encodeData (data : List Nat) : List Char :=
  (Raster.encode 255 data).flatMap fun r => toPaddedHex r.1 2 ++ toPaddedHex r.2 2

/-- the text, and the map as it has grown -/
def toRLE (im : Image) (colors : ColorMap) : List Char × ColorMap :=
  let bounds := im.calcBounds
  let s := (List.range' bounds.top (bounds.bottom + 1 - bounds.top)).foldl (fun s y =>
    (List.range' bounds.left (bounds.right - bounds.left)).foldl (fun s x =>
      scan s (im.getRgbaAt x y)) s) (colors, [])
  let metadata := [0, bounds.top, bounds.right, bounds.bottom, bounds.left].flatMap (toPaddedHex · 2)
  (prefixed (metadata ++ encodeData s.2), s.1)

end Image

/-! ## decoding -/

structure DecodedImage where
  paletteIndex : Nat
  bounds : ImageBounds
  rects : List (Nat × Nat)

def substring (s : List Char) (i j : Nat) : List Char := (s.drop i).take (j - i)

/-- the matches of `.{1,4}` -/
def quads : List Char → List (List Char)
  | a :: b :: c :: d :: rest => [a, b, c, d] :: quads rest
  | [] => []
  | rest => [rest]

def decodeRect (rect : List Char) : Option (Nat × Nat) := do
  let length ← parseInt16 (substring rect 0 2)
  let colorIndex ← parseInt16 (substring rect 2 4)
  pure (length, colorIndex)

/-- `none` where some number is `NaN` -/
def decodeImage (image : List Char) : Option DecodedImage := do
  let data := if ['0', 'x'] <+: image then image.drop 2 else image
  let paletteIndex ← parseInt16 (substring data 0 2)
  let top ← parseInt16 (substring data 2 4)
  let right ← parseInt16 (substring data 4 6)
  let bottom ← parseInt16 (substring data 6 8)
  let left ← parseInt16 (substring data 8 10)
  let rects ← (quads (data.drop 10)).mapM decodeRect
  pure ⟨paletteIndex, ⟨top, right, bottom, left⟩, rects⟩

/-! ## two digits -/

/-- the two digits of a byte -/
def hexPair (n : Nat) : List Char := write [n / 16, n % 16]

theorem toPaddedHex_eq : ∀ n < 256, toPaddedHex n 2 = hexPair n := by decide +kernel

theorem parseInt16_hexPair {n : Nat} (h : n < 256) : parseInt16 (hexPair n) = some n := by
  have hd : Digits [n / 16, n % 16] := by
    intro d hd
    simp only [List.mem_cons, List.not_mem_nil, or_false] at hd
    omega
  have hv : value [n / 16, n % 16] = n := by
    simp only [value, List.reverse_cons, List.reverse_nil, List.nil_append, List.cons_append,
      Nat.ofDigits_cons, Nat.ofDigits_nil]
    omega
  unfold parseInt16 hexPair
  rw [read_write hd]
  exact congrArg some hv

theorem parseInt16_lt {s : List Char} {n : Nat} (h : parseInt16 s = some n) : n < 16 ^ s.length := by
  unfold parseInt16 at h
  split at h
  · next d ds hread =>
    obtain ⟨hdigits, hlength⟩ := read_some hread
    have hlt := value_lt hdigits
    rw [hlength] at hlt
    cases h
    exact hlt
  · cases h

/-- texts of four characters are found again -/
theorem quads_flatMap {ι : Type} (f : ι → List Char) (l : List ι) (h : ∀ i ∈ l, (f i).length = 4)
    (tail : List Char) : quads (l.flatMap f ++ tail) = l.map f ++ quads tail := by
  induction l with
  | nil => rfl
  | cons i l ih =>
    have hi := h i List.mem_cons_self
    obtain ⟨a, b, c, d, hf⟩ : ∃ a b c d, f i = [a, b, c, d] := by
      match f i, hi with
      | [a, b, c, d], _ => exact ⟨a, b, c, d, rfl⟩
    rw [List.flatMap_cons, List.map_cons, hf]
    show [a, b, c, d] :: quads (l.flatMap f ++ tail) = _
    rw [ih fun j hj => h j (List.mem_cons_of_mem _ hj)]
    rfl

theorem decodeRect_pair {r : Nat × Nat} (h1 : r.1 < 256) (h2 : r.2 < 256) :
    decodeRect (hexPair r.1 ++ hexPair r.2) = some r := by
  have hs1 : substring (hexPair r.1 ++ hexPair r.2) 0 2 = hexPair r.1 := rfl
  have hs2 : substring (hexPair r.1 ++ hexPair r.2) 2 4 = hexPair r.2 := rfl
  unfold decodeRect
  rw [hs1, hs2, parseInt16_hexPair h1, parseInt16_hexPair h2]
  rfl

/-- the runs are read back, and the reading goes on behind them -/
theorem mapM_decodeRect {rs : List (Nat × Nat)} (h : ∀ r ∈ rs, r.1 < 256 ∧ r.2 < 256) (tail : List Char) :
    (quads ((rs.flatMap fun r => hexPair r.1 ++ hexPair r.2) ++ tail)).mapM decodeRect
      = ((quads tail).mapM decodeRect).map (rs ++ ·) := by
  rw [quads_flatMap _ rs fun _ _ => rfl]
  induction rs with
  | nil =>
    show (quads tail).mapM decodeRect = _
    cases (quads tail).mapM decodeRect <;> rfl
  | cons r rs ih =>
    obtain ⟨h1, h2⟩ := h r List.mem_cons_self
    have ih' := ih fun s hs => h s (List.mem_cons_of_mem _ hs)
    rw [List.map_cons, List.cons_append, List.mapM_cons, decodeRect_pair h1 h2, ih']
    cases (quads tail).mapM decodeRect <;> rfl

/-- the five bytes at the head are read, whether the text has the prefix or not -/
theorem decodeImage_head {p top right bottom left : Nat} (hp : p < 256) (ht : top < 256)
    (hr : right < 256) (hb : bottom < 256) (hl : left < 256) {body text : List Char}
    (htext : text = [p, top, right, bottom, left].flatMap hexPair ++ body) :
    decodeImage text = ((quads body).mapM decodeRect).map (⟨p, ⟨top, right, bottom, left⟩, ·⟩) ∧
      decodeImage (prefixed text) = ((quads body).mapM decodeRect).map (⟨p, ⟨top, right, bottom, left⟩, ·⟩) := by
  have hdecode : ∀ image : List Char, (if ['0', 'x'] <+: image then image.drop 2 else image) = text →
      decodeImage image = ((quads body).mapM decodeRect).map (⟨p, ⟨top, right, bottom, left⟩, ·⟩) := by
    intro image himage
    unfold decodeImage
    rw [himage, htext]
    have h0 : substring ([p, top, right, bottom, left].flatMap hexPair ++ body) 0 2 = hexPair p := rfl
    have h1 : substring ([p, top, right, bottom, left].flatMap hexPair ++ body) 2 4 = hexPair top := rfl
    have h2 : substring ([p, top, right, bottom, left].flatMap hexPair ++ body) 4 6 = hexPair right := rfl
    have h3 : substring ([p, top, right, bottom, left].flatMap hexPair ++ body) 6 8 = hexPair bottom := rfl
    have h4 : substring ([p, top, right, bottom, left].flatMap hexPair ++ body) 8 10 = hexPair left := rfl
    have h5 : ([p, top, right, bottom, left].flatMap hexPair ++ body).drop 10 = body := rfl
    simp only [h0, h1, h2, h3, h4, h5, parseInt16_hexPair hp, parseInt16_hexPair ht,
      parseInt16_hexPair hr, parseInt16_hexPair hb, parseInt16_hexPair hl]
    cases (quads body).mapM decodeRect <;> rfl
  refine ⟨hdecode text (if_neg fun hpre => ?_), hdecode (prefixed text) (if_pos ⟨text, rfl⟩)⟩
  -- no digit is an `x`
  obtain ⟨t, ht'⟩ := hpre
  have hx : some 'x' = (hexPair p)[1]? := by
    have h1 : (['0', 'x'] ++ t)[1]? = text[1]? := by rw [ht']
    rw [htext] at h1
    exact h1
  have hread := charDigit_digitChar (d := p % 16) (Nat.mod_lt _ (by decide))
  rw [← Option.some.inj hx] at hread
  cases hread

/-- **A text of hex digits is read back**, whether it has the prefix or not. -/
theorem decodeImage_hex {p top right bottom left : Nat} {rs : List (Nat × Nat)} (hp : p < 256)
    (ht : top < 256) (hr : right < 256) (hb : bottom < 256) (hl : left < 256)
    (h : ∀ r ∈ rs, r.1 < 256 ∧ r.2 < 256) {text : List Char}
    (htext : text = [p, top, right, bottom, left].flatMap hexPair
      ++ rs.flatMap fun r => hexPair r.1 ++ hexPair r.2) :
    decodeImage text = some ⟨p, ⟨top, right, bottom, left⟩, rs⟩ ∧
      decodeImage (prefixed text) = some ⟨p, ⟨top, right, bottom, left⟩, rs⟩ := by
  have hrects := mapM_decodeRect h []
  have hdecode := decodeImage_head hp ht hr hb hl htext
  rw [List.append_nil] at hrects
  rw [hrects] at hdecode
  have hall : (((quads []).mapM decodeRect).map (rs ++ ·)).map
      (fun rects => (⟨p, ⟨top, right, bottom, left⟩, rects⟩ : DecodedImage))
        = some ⟨p, ⟨top, right, bottom, left⟩, rs⟩ := by
    have hnil : (quads []).mapM decodeRect = some [] := rfl
    rw [hnil, Option.map_some, Option.map_some, List.append_nil]
  rwa [hall] at hdecode

/-! ## the scan -/

theorem ColorMap.get_set (m : ColorMap) (key : List Char) (v : Nat) (k : List Char) :
    (m.set key v).get k = if k = key then some v else m.get k := by
  have hset : (m.set key v).entries = OrderedMap.set m.entries key v := by
    unfold ColorMap.set OrderedMap.set
    split_ifs with h1 h2 h2
    · rfl
    · exact absurd h1 h2
    · exact absurd h2 h1
    · rfl
  have hget := OrderedMap.get_set m.entries key v k
  rw [← hset] at hget
  exact hget

/-- the indexes are those of the colours so far -/
def ColorMap.Bounded (m : ColorMap) : Prop := ∀ key i, m.get key = some i → i < m.size

theorem ColorMap.Numbered.bounded {m : ColorMap} (h : m.Numbered) : m.Bounded := by
  intro key i hi
  unfold ColorMap.get at hi
  obtain ⟨e, he, rfl⟩ := Option.map_eq_some_iff.mp hi
  have hmem : e.2 ∈ m.entries.map Prod.snd := List.mem_map_of_mem (List.mem_of_find?_eq_some he)
  exact List.mem_range.mp (h.indexes.mem_iff.mp hmem)

/-- `m'` has the indexes of `m`, and perhaps more -/
def ColorMap.Extends (m m' : ColorMap) : Prop := ∀ key i, m.get key = some i → m'.get key = some i

/-- the index of a pixel -/
def ColorMap.index (m : ColorMap) (pixel : RGBAColor) : Nat :=
  if pixel.a = 0 then 0 else (m.get (rgbToHex pixel.r pixel.g pixel.b)).getD 0

theorem scan_step (m : ColorMap) (acc : List Nat) (pixel : RGBAColor) (h : m.Bounded) :
    ∃ m' : ColorMap, Image.scan (m, acc) pixel = (m', acc ++ [m'.index pixel]) ∧ m.Extends m' ∧
      m'.Bounded ∧ (m'.get (rgbToHex pixel.r pixel.g pixel.b)).isSome := by
  cases hhas : m.has (rgbToHex pixel.r pixel.g pixel.b) with
  | true =>
    refine ⟨m, ?_, fun _ _ h => h, h, hhas⟩
    unfold Image.scan ColorMap.index
    simp only [if_pos hhas]
  | false =>
    have hget := m.get_set (rgbToHex pixel.r pixel.g pixel.b) m.size
    have hsize : (m.set (rgbToHex pixel.r pixel.g pixel.b) m.size).size = m.size + 1 := by
      unfold ColorMap.set ColorMap.size
      rw [if_neg (by simp [hhas])]
      simp
    refine ⟨m.set (rgbToHex pixel.r pixel.g pixel.b) m.size, ?_, fun k i hi => ?_, fun k i hi => ?_, ?_⟩
    · unfold Image.scan ColorMap.index
      simp [hhas]
    · have hne : k ≠ rgbToHex pixel.r pixel.g pixel.b := by
        rintro rfl
        unfold ColorMap.has at hhas
        rw [hi] at hhas
        cases hhas
      rw [hget, if_neg hne, hi]
    · rw [hsize]
      rw [hget] at hi
      split_ifs at hi
      · cases hi
        omega
      · have := h k i hi
        omega
    · rw [hget, if_pos rfl]
      rfl

/-- **The scan gives every pixel the index that its colour has in the end.** -/
theorem foldl_scan (pixels : List RGBAColor) : ∀ (m : ColorMap) (acc : List Nat), m.Bounded →
    ∃ m' : ColorMap, pixels.foldl Image.scan (m, acc) = (m', acc ++ pixels.map m'.index) ∧ m.Extends m' ∧
      m'.Bounded ∧ ∀ pixel ∈ pixels, (m'.get (rgbToHex pixel.r pixel.g pixel.b)).isSome := by
  induction pixels with
  | nil =>
    intro m acc h
    exact ⟨m, by simp, fun _ _ h => h, h, by simp⟩
  | cons p ps ih =>
    intro m acc h
    obtain ⟨m1, h1, hext1, hb1, hsome1⟩ := scan_step m acc p h
    obtain ⟨m2, h2, hext2, hb2, hsome2⟩ := ih m1 (acc ++ [m1.index p]) hb1
    have hindex : m2.index p = m1.index p := by
      obtain ⟨i, hi⟩ := Option.isSome_iff_exists.mp hsome1
      unfold ColorMap.index
      rw [hi, hext2 _ i hi]
    refine ⟨m2, ?_, fun k i hi => hext2 k i (hext1 k i hi), hb2, fun q hq => ?_⟩
    · rw [List.foldl_cons, h1, h2, List.map_cons, hindex, List.append_assoc]
      rfl
    · rcases List.mem_cons.mp hq with rfl | hq
      · obtain ⟨i, hi⟩ := Option.isSome_iff_exists.mp hsome1
        rw [hext2 _ i hi]
        rfl
      · exact hsome2 q hq

/-! ## the bounds -/

theorem downWhile_spec (p : Nat → Bool) (n : Nat) :
    downWhile p n ≤ n ∧ ∀ i, downWhile p n < i → i ≤ n → p i = true := by
  induction n with
  | zero => exact ⟨Nat.le_refl 0, fun i h1 h2 => by simp only [downWhile] at h1; omega⟩
  | succ n ih =>
    unfold downWhile
    split_ifs with h
    · refine ⟨by omega, fun i h1 h2 => ?_⟩
      by_cases e : i = n + 1
      · rw [e, h]
      · exact ih.2 i h1 (by omega)
    · exact ⟨Nat.le_refl _, fun i h1 h2 => by omega⟩

theorem outWhile_spec (p : Nat → Bool) (n : Nat) :
    outWhile p n ≤ n ∧ ∀ i, outWhile p n ≤ i → i < n → p i = true := by
  induction n with
  | zero => exact ⟨Nat.le_refl 0, fun i h1 h2 => by omega⟩
  | succ n ih =>
    unfold outWhile
    split_ifs with h
    · refine ⟨by omega, fun i h1 h2 => ?_⟩
      by_cases e : i = n
      · rw [e, h]
      · exact ih.2 i h1 (by omega)
    · exact ⟨Nat.le_refl _, fun i h1 h2 => by omega⟩

theorem upWhile_spec (p : Nat → Bool) (limit k : Nat) (hk : k ≤ limit) :
    upWhile p limit k ≤ limit ∧ ∀ i, limit - k ≤ i → i < upWhile p limit k → p i = true := by
  induction k with
  | zero => exact ⟨Nat.le_refl _, fun i h1 h2 => by simp only [upWhile] at h2; omega⟩
  | succ k ih =>
    have ih := ih (by omega)
    unfold upWhile
    split_ifs with h
    · refine ⟨ih.1, fun i h1 h2 => ?_⟩
      by_cases e : i = limit - (k + 1)
      · rw [e, h]
      · exact ih.2 i (by omega) h2
    · exact ⟨by omega, fun i h1 h2 => by omega⟩

/-- in and out of the bounds of an image -/
structure Image.Crops (im : Image) (b : ImageBounds) : Prop where
  top_le : b.top ≤ b.bottom
  left_le : b.left ≤ b.right
  bottom_lt : b.bottom < im.height
  right_le : b.right ≤ im.width
  outside : ∀ x < im.width, ∀ y < im.height,
    ¬ (b.left ≤ x ∧ x < b.right ∧ b.top ≤ y ∧ y ≤ b.bottom) → (im.getRgbaAt x y).a = 0

theorem isTransparentRow_iff {im : Image} {y : Nat} :
    im.isTransparentRow y = true ↔ ∀ x < im.width, (im.getRgbaAt x y).a = 0 := by
  simp [Image.isTransparentRow]

theorem isTransparentColumn_iff {im : Image} {x : Nat} :
    im.isTransparentColumn x = true ↔ ∀ y < im.height, (im.getRgbaAt x y).a = 0 := by
  simp [Image.isTransparentColumn]

/-- **Every pixel outside the bounds is transparent.** -/
theorem Image.calcBounds_crops (im : Image) (hh : 1 ≤ im.height) : im.Crops im.calcBounds := by
  obtain ⟨hb, hbottom⟩ := downWhile_spec im.isTransparentRow (im.height - 1)
  obtain ⟨ht, htop⟩ := upWhile_spec im.isTransparentRow _ _
    (Nat.le_refl (downWhile im.isTransparentRow (im.height - 1)))
  obtain ⟨hr, hright⟩ := outWhile_spec im.isTransparentColumn im.width
  obtain ⟨hl, hleft⟩ := upWhile_spec im.isTransparentColumn _ _
    (Nat.le_refl (outWhile im.isTransparentColumn im.width - 1))
  rw [Nat.sub_self] at htop hleft
  refine ⟨ht, Nat.le_trans hl (Nat.sub_le _ _), ?_, hr, fun x hx y hy hout => ?_⟩
  · show downWhile im.isTransparentRow (im.height - 1) < _
    omega
  · have hout' : x < im.calcBounds.left ∨ im.calcBounds.right ≤ x ∨ y < im.calcBounds.top ∨
        im.calcBounds.bottom < y := by omega
    rcases hout' with h | h | h | h
    · exact isTransparentColumn_iff.mp (hleft x (Nat.zero_le x) h) y hy
    · exact isTransparentColumn_iff.mp (hright x h hx) y hy
    · exact isTransparentRow_iff.mp (htop y (Nat.zero_le y) h) x hx
    · exact isTransparentRow_iff.mp (hbottom y h (by omega)) x hx

/-! ## the round trip -/

/-- what the decoded text says of the image, with the colours as they are in the end -/
structure Image.Depicted (im : Image) (colors : ColorMap) (decoded : DecodedImage) : Prop where
  crops : im.Crops decoded.bounds
  inside : ∀ x y, decoded.bounds.left ≤ x → x < decoded.bounds.right → decoded.bounds.top ≤ y →
    y ≤ decoded.bounds.bottom → ∃ i,
      (expand decoded.rects)[(y - decoded.bounds.top) * (decoded.bounds.right - decoded.bounds.left)
        + (x - decoded.bounds.left)]? = some i ∧
      if (im.getRgbaAt x y).a = 0 then i = 0
      else colors.get (rgbToHex (im.getRgbaAt x y).r (im.getRgbaAt x y).g (im.getRgbaAt x y).b) = some i
  total : (decoded.rects.map Prod.fst).sum = (decoded.bounds.right - decoded.bounds.left)
    * (decoded.bounds.bottom - decoded.bounds.top + 1)
  lengths : ∀ r ∈ decoded.rects, 1 ≤ r.1 ∧ r.1 ≤ 255

theorem Image.encodeData_eq {data : List Nat} (h : ∀ i ∈ data, i < 256) :
    encodeData data = (Raster.encode 255 data).flatMap fun r => hexPair r.1 ++ hexPair r.2 := by
  unfold encodeData
  refine List.flatMap_congr fun r hr => ?_
  obtain ⟨_, hlen⟩ := encode_length (by decide) data r hr
  rw [toPaddedHex_eq r.1 (by omega), toPaddedHex_eq r.2 (h r.2 (encode_mem (by decide) data r hr))]

theorem ColorMap.Bounded.index_lt {m : ColorMap} (h : m.Bounded) (hsize : m.size ≤ 256)
    (pixel : RGBAColor) : m.index pixel < 256 := by
  unfold ColorMap.index
  split_ifs
  · decide
  · cases hi : m.get (rgbToHex pixel.r pixel.g pixel.b) with
    | none => decide
    | some i =>
      have := h _ i hi
      show i < 256
      omega

/-- the pixels inside the bounds, as one list -/
def Image.pixels (im : Image) : List RGBAColor :=
  rows (fun y x => im.getRgbaAt x y) im.calcBounds.left (im.calcBounds.right - im.calcBounds.left)
    im.calcBounds.top (im.calcBounds.bottom + 1 - im.calcBounds.top)

theorem Image.toRLE_scan (im : Image) (colors : ColorMap) :
    im.toRLE colors = (prefixed ([0, im.calcBounds.top, im.calcBounds.right, im.calcBounds.bottom,
        im.calcBounds.left].flatMap (toPaddedHex · 2) ++ encodeData (im.pixels.foldl scan (colors, [])).2),
      (im.pixels.foldl scan (colors, [])).1) := by
  have hfold := foldl_rows scan (fun y x => im.getRgbaAt x y) im.calcBounds.left
    (im.calcBounds.right - im.calcBounds.left) im.calcBounds.top
    (im.calcBounds.bottom + 1 - im.calcBounds.top) (colors, [])
  unfold Image.toRLE Image.pixels
  dsimp only
  rw [hfold]

theorem Image.calcBounds_lt {im : Image} (hw : im.width ≤ 255) (hh : im.height ≤ 255) :
    im.calcBounds.top < 256 ∧ im.calcBounds.right < 256 ∧ im.calcBounds.bottom < 256 ∧
      im.calcBounds.left < 256 := by
  obtain ⟨hb, _⟩ := downWhile_spec im.isTransparentRow (im.height - 1)
  obtain ⟨ht, _⟩ := upWhile_spec im.isTransparentRow _ _
    (Nat.le_refl (downWhile im.isTransparentRow (im.height - 1)))
  obtain ⟨hr, _⟩ := outWhile_spec im.isTransparentColumn im.width
  obtain ⟨hl, _⟩ := upWhile_spec im.isTransparentColumn _ _
    (Nat.le_refl (outWhile im.isTransparentColumn im.width - 1))
  have ht' : im.calcBounds.top ≤ im.calcBounds.bottom := ht
  have hb' : im.calcBounds.bottom ≤ im.height - 1 := hb
  have hr' : im.calcBounds.right ≤ im.width := hr
  have hl' : im.calcBounds.left ≤ im.calcBounds.right - 1 := hl
  omega

/-- the text has the bounds, and then the pixels inside them -/
theorem Image.toRLE_text (im : Image) (hw : im.width ≤ 255) (hh : im.height ≤ 255)
    {colors : ColorMap} (hcolors : colors.Bounded) :
    ∃ m : ColorMap, (im.toRLE colors).2 = m ∧ colors.Extends m ∧ m.Bounded ∧
      (∀ pixel ∈ im.pixels, (m.get (rgbToHex pixel.r pixel.g pixel.b)).isSome) ∧
      (im.toRLE colors).1 = prefixed ([0, im.calcBounds.top, im.calcBounds.right, im.calcBounds.bottom,
        im.calcBounds.left].flatMap hexPair ++ encodeData (im.pixels.map m.index)) := by
  obtain ⟨m, hscan, hext, hbounded, hsome⟩ := foldl_scan im.pixels colors [] hcolors
  have htoRLE := im.toRLE_scan colors
  rw [hscan, List.nil_append] at htoRLE
  obtain ⟨ht, hr, hbo, hl⟩ := im.calcBounds_lt hw hh
  have hmeta : [0, im.calcBounds.top, im.calcBounds.right, im.calcBounds.bottom,
      im.calcBounds.left].flatMap (toPaddedHex · 2) = [0, im.calcBounds.top, im.calcBounds.right,
      im.calcBounds.bottom, im.calcBounds.left].flatMap hexPair := by
    refine List.flatMap_congr fun n hn => toPaddedHex_eq n ?_
    simp only [List.mem_cons, List.not_mem_nil, or_false] at hn
    omega
  refine ⟨m, congrArg Prod.snd htoRLE, hext, hbounded, hsome, ?_⟩
  rw [htoRLE, hmeta]

/-- the text is decoded to the pixels inside the bounds, if their indexes are bytes -/
theorem Image.toRLE_eq (im : Image) (hw : im.width ≤ 255) (hh : im.height ≤ 255)
    {colors : ColorMap} (hcolors : colors.Bounded) :
    ∃ m : ColorMap, (im.toRLE colors).2 = m ∧ colors.Extends m ∧ m.Bounded ∧
      (∀ pixel ∈ im.pixels, (m.get (rgbToHex pixel.r pixel.g pixel.b)).isSome) ∧
      ((∀ pixel ∈ im.pixels, m.index pixel < 256) → decodeImage (im.toRLE colors).1
        = some ⟨0, im.calcBounds, Raster.encode 255 (im.pixels.map m.index)⟩) := by
  obtain ⟨m, hm, hext, hbounded, hsome, htext⟩ := im.toRLE_text hw hh hcolors
  refine ⟨m, hm, hext, hbounded, hsome, fun hbyte => ?_⟩
  have hindex : ∀ i ∈ im.pixels.map m.index, i < 256 := by
    intro i hi
    obtain ⟨pixel, hpixel, rfl⟩ := List.mem_map.mp hi
    exact hbyte pixel hpixel
  obtain ⟨ht, hr, hbo, hl⟩ := im.calcBounds_lt hw hh
  rw [htext, encodeData_eq hindex]
  refine (decodeImage_hex (by decide) ht hr hbo hl (fun r hr => ?_) rfl).2
  have hlen := encode_length (by decide) _ r hr
  exact ⟨by omega, hindex _ (encode_mem (by decide) _ r hr)⟩

/-- **An image is encoded without loss**: the decoded text gives every pixel inside the bounds the
index of its colour, and those outside are transparent. -/
theorem decodeImage_toRLE (im : Image) (hw1 : 1 ≤ im.width) (hw : im.width ≤ 255) (hh1 : 1 ≤ im.height)
    (hh : im.height ≤ 255) (colors : ColorMap) (hcolors : colors.Numbered)
    (hsize : (im.toRLE colors).2.size ≤ 256) :
    ∃ decoded, decodeImage (im.toRLE colors).1 = some decoded ∧
      im.Depicted (im.toRLE colors).2 decoded := by
  obtain ⟨m, hm, _, hbounded, hsome, hdecode⟩ := im.toRLE_eq hw hh hcolors.bounded
  rw [hm] at hsize ⊢
  have hcrops := im.calcBounds_crops hh1
  have hb1 := hcrops.top_le
  have hb2 := hcrops.left_le
  refine ⟨_, hdecode fun pixel _ => hbounded.index_lt hsize pixel, hcrops,
    fun x y h1 h2 h3 h4 => ?_, ?_, encode_length (by decide) _⟩
  · dsimp only at h1 h2 h3 h4 ⊢
    unfold Image.pixels
    rw [expand_encode, map_rows]
    refine ⟨_, rows_getElem? _ h1 (by omega) _ h3 (by omega), ?_⟩
    unfold ColorMap.index
    split_ifs with ha
    · rfl
    · have hmem : im.getRgbaAt x y ∈ im.pixels :=
        List.mem_of_getElem? (rows_getElem? _ h1 (by omega) _ h3 (by omega))
      obtain ⟨i, hi⟩ := Option.isSome_iff_exists.mp (hsome _ hmem)
      rw [hi]
      rfl
  · dsimp only
    unfold Image.pixels
    rw [← expand_length, expand_encode, List.length_map, rows_length]
    congr 1
    omega

/-- one red pixel in the middle of three rows and columns -/
def dot : Image := ⟨3, 3, fun x y => if x = 1 ∧ y = 1 then ⟨255, 0, 0, 255⟩ else ⟨0, 0, 0, 0⟩⟩

theorem decodeImage_toRLE_run :
    let colors : ColorMap := ⟨[([], 0)]⟩
    (dot.toRLE colors).1 = "0x00010201010101".toList ∧ ∃ decoded,
      decodeImage (dot.toRLE colors).1 = some decoded ∧ dot.Depicted (dot.toRLE colors).2 decoded :=
  ⟨by decide +kernel, decodeImage_toRLE dot (by decide) (by decide) (by decide) (by decide) _
    ⟨by decide, by decide, by decide⟩ (by decide +kernel)⟩

end UNouns.Sdk
