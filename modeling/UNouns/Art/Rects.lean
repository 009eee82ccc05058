import UNouns.Evm.Basic
import UNouns.Lib.Raster
import Mathlib.Data.List.Basic
import Mathlib.Tactic.Common

/-!
# What the two renderers on chain have in common

Both decode the same bytes, look up multiples of ten in one table, and collect the texts of four
rectangles in a buffer before they append them.

* `item`, `setItem`   arrays in memory, with the check of the index;
* `decodeRuns`        the bounds and the runs of an image;
* `pictureText`       the rectangles of an image as one text, which is what a renderer is for;
* `Buffer.push`       one more rectangle;
* `Buffer.push_text`  the buffer loses none;
* `eachPart`          the loop over the parts.
-/

set_option linter.unusedVariables false

namespace UNouns.Art
open Raster

/-! ## memory -/

/-- `xs[i]` -/
def item {α : Type} (xs : List α) (i : Nat) : Result α :=
  match xs[i]? with
  | some x => .ok x
  | none => .error (.panic 0x32)

/-- `xs[i] = x` -/
def setItem {α : Type} (xs : List α) (i : Nat) (x : α) : Result (List α) :=
  if i < xs.length then .ok (xs.set i x) else .error (.panic 0x32)

@[simp] theorem item_eq_ok {α : Type} {xs : List α} {i : Nat} {x : α} :
    item xs i = .ok x ↔ xs[i]? = some x := by
  unfold item
  cases xs[i]? with
  | none => exact ⟨fun h => (nomatch h), fun h => (nomatch h)⟩
  | some y => simp

theorem setItem_ok {α : Type} {xs : List α} {i : Nat} (x : α) (h : i < xs.length) :
    setItem xs i x = .ok (xs.set i x) := if_pos h

/-! ## images -/

structure ContentBounds where
  top : Nat
  right : Nat
  bottom : Nat
  left : Nat
  deriving DecidableEq

/-- length and colour index of each run; an odd rest has no colour index -/
def decodeDraws : Bytes → Result (List (Nat × Nat))
  | [] => .ok []
  | [_] => .error (.panic 0x32)
  | length :: colorIndex :: rest => do
    let draws ← decodeDraws rest
    pure ((length.toNat, colorIndex.toNat) :: draws)

def decodeBounds (image : Bytes) : Result ContentBounds := do
  let top ← item image 1
  let right ← item image 2
  let bottom ← item image 3
  let left ← item image 4
  pure ⟨top.toNat, right.toNat, bottom.toNat, left.toNat⟩

/-- the first byte is the index of the palette, which the new renderer does not read -/
def decodeRuns (image : Bytes) : Result (ContentBounds × List (Nat × Nat)) := do
  let bounds ← decodeBounds image
  let _ ← checkedSub image.length 5
  let draws ← decodeDraws (image.drop 5)
  pure (bounds, draws)

theorem decodeRuns_ok {image : Bytes} {bounds : ContentBounds} {draws : List (Nat × Nat)}
    (h : decodeRuns image = .ok (bounds, draws)) :
    ∃ p top right bottom left rest, image = p :: top :: right :: bottom :: left :: rest ∧
      bounds = ⟨top.toNat, right.toNat, bottom.toNat, left.toNat⟩ ∧ decodeDraws rest = .ok draws := by
  obtain ⟨b, hb, h⟩ := bind_eq_ok.mp h
  obtain ⟨_, _, h⟩ := bind_eq_ok.mp h
  obtain ⟨ds, hds, h⟩ := bind_eq_ok.mp h
  cases pure_eq_ok.mp h
  obtain ⟨top, h1, hb⟩ := bind_eq_ok.mp hb
  obtain ⟨right, h2, hb⟩ := bind_eq_ok.mp hb
  obtain ⟨bottom, h3, hb⟩ := bind_eq_ok.mp hb
  obtain ⟨left, h4, hb⟩ := bind_eq_ok.mp hb
  rw [item_eq_ok] at h1 h2 h3 h4
  match image, h1, h2, h3, h4 with
  | p :: t :: r :: b :: l :: rest, h1, h2, h3, h4 =>
    cases h1
    cases h2
    cases h3
    cases h4
    exact ⟨p, top, right, bottom, left, rest, rfl, (pure_eq_ok.mp hb).symm, hds⟩

/-- coordinates are bytes -/
theorem decodeRuns_lt {image : Bytes} {bounds : ContentBounds} {draws : List (Nat × Nat)}
    (h : decodeRuns image = .ok (bounds, draws)) : bounds.left < 2^8 ∧ bounds.right < 2^8 := by
  obtain ⟨_, _, right, _, left, _, _, rfl, _⟩ := decodeRuns_ok h
  exact ⟨left.toNat_lt, right.toNat_lt⟩

/-! ## rectangles -/

def lookup : List String :=
  ["0", "10", "20", "30", "40", "50", "60", "70",
    "80", "90", "100", "110", "120", "130", "140", "150",
    "160", "170", "180", "190", "200", "210", "220", "230",
    "240", "250", "260", "270", "280", "290", "300", "310",
    "320"]

theorem lookup_eq {n : Nat} {s : String} (h : item lookup n = .ok s) : s = toString (n * 10) := by
  have hall : ∀ n < 33, lookup[n]? = some (toString (n * 10)) := by decide
  rw [item_eq_ok] at h
  have hn : n < 33 := (List.getElem?_eq_some_iff.mp h).1
  exact Option.some.inj (h.symm.trans (hall n hn))

def rectText (width x y color : String) : String :=
  "<rect width=\"" ++ width ++ "\" height=\"10\" x=\"" ++ x ++ "\" y=\"" ++ y ++ "\" fill=\"#" ++ color
    ++ "\" />"

/-- a stroke on a grid of ten by ten -/
def strokeText (color : Nat → String) (s : Stroke Nat) : String :=
  rectText (toString (s.length * 10)) (toString (s.x * 10)) (toString (s.y * 10)) (color s.value)

/-- the strokes that are not transparent -/
def pictureText (color : Nat → String) (ss : List (Stroke Nat)) : String :=
  String.join ((ss.filter fun s => s.value ≠ 0).map (strokeText color))

theorem pictureText_append (color : Nat → String) (ss ts : List (Stroke Nat)) :
    pictureText color (ss ++ ts) = pictureText color ss ++ pictureText color ts := by
  unfold pictureText
  rw [List.filter_append, List.map_append, String.join_append]

theorem pictureText_cons (color : Nat → String) (s : Stroke Nat) (ss : List (Stroke Nat)) :
    pictureText color (s :: ss)
      = (if s.value ≠ 0 then strokeText color s else "") ++ pictureText color ss := by
  unfold pictureText
  by_cases h : s.value = 0
  · rw [List.filter_cons_of_neg (by simpa using h), if_neg (by simpa using h), String.empty_append]
  · rw [List.filter_cons_of_pos (by simpa using h), if_pos h, List.map_cons, String.join_cons]

theorem pictureText_congr {color color' : Nat → String} {ss : List (Stroke Nat)}
    (h : ∀ s ∈ ss, s.value ≠ 0 → color s.value = color' s.value) :
    pictureText color ss = pictureText color' ss := by
  unfold pictureText
  congr 1
  refine List.map_congr_left fun s hs => ?_
  obtain ⟨hs, hv⟩ := List.mem_filter.mp hs
  unfold strokeText
  rw [h s hs (by simpa using hv)]

/-! ## the buffer -/

/-- `_getChunk`: the texts of the rectangles below the cursor, a multiple of four -/
def getChunk (cursor : Nat) (buffer : List String) : String :=
  (List.range (cursor / 4)).foldl (fun chunk k => chunk ++ rectText (buffer.getD (4 * k) "")
    (buffer.getD (4 * k + 1) "") (buffer.getD (4 * k + 2) "") (buffer.getD (4 * k + 3) "")) ""

/-- a part of the text, and what has not been appended to it yet -/
structure Buffer where
  part : String
  cursor : Nat
  buffer : List String

def Buffer.empty : Buffer := ⟨"", 0, List.replicate 16 ""⟩

def Buffer.push (b : Buffer) (width x y color : String) : Result Buffer := do
  let buffer ← setItem b.buffer b.cursor width
  let buffer ← setItem buffer (b.cursor + 1) x
  let buffer ← setItem buffer (b.cursor + 2) y
  let buffer ← setItem buffer (b.cursor + 3) color
  let cursor := b.cursor + 4
  pure (if 16 ≤ cursor then ⟨b.part ++ getChunk cursor buffer, 0, buffer⟩ else ⟨b.part, cursor, buffer⟩)

/-- the whole part, when the image is done -/
def Buffer.text (b : Buffer) : String :=
  if b.cursor ≠ 0 then b.part ++ getChunk b.cursor b.buffer else b.part

/-- the cursor stays inside, at a multiple of four -/
structure Buffer.Sound (b : Buffer) : Prop where
  length : b.buffer.length = 16
  cursor : b.cursor < 16
  aligned : b.cursor % 4 = 0

theorem Buffer.empty_sound : Buffer.empty.Sound := ⟨rfl, by decide, rfl⟩

theorem Buffer.text_eq (b : Buffer) : b.text = b.part ++ getChunk b.cursor b.buffer := by
  unfold Buffer.text
  split_ifs with h
  · rfl
  · have hc : b.cursor = 0 := by omega
    rw [hc]
    exact String.append_empty.symm

/-- the chunk only depends on what is below the cursor -/
theorem getChunk_congr {buffer buffer' : List String} {cursor : Nat}
    (h : ∀ i < cursor, buffer'[i]? = buffer[i]?) : getChunk cursor buffer' = getChunk cursor buffer := by
  have hget : ∀ i < cursor, buffer'.getD i "" = buffer.getD i "" := fun i hi => by
    rw [List.getD_eq_getElem?_getD, List.getD_eq_getElem?_getD, h i hi]
  unfold getChunk
  refine List.foldl_ext _ _ _ fun chunk k hk => ?_
  have hk' := List.mem_range.mp hk
  rw [hget _ (by omega), hget _ (by omega), hget _ (by omega), hget _ (by omega)]

theorem getChunk_succ (k : Nat) (buffer : List String) :
    getChunk (4 * k + 4) buffer = getChunk (4 * k) buffer ++ rectText (buffer.getD (4 * k) "")
      (buffer.getD (4 * k + 1) "") (buffer.getD (4 * k + 2) "") (buffer.getD (4 * k + 3) "") := by
  have h1 : (4 * k + 4) / 4 = k + 1 := by omega
  have h2 : 4 * k / 4 = k := by omega
  unfold getChunk
  rw [h1, h2, List.range_succ, List.foldl_append]
  rfl

/-- **A rectangle that is pushed is in the text**, after what was there. -/
theorem Buffer.push_text {b : Buffer} (hb : b.Sound) (width x y color : String) :
    ∃ b', b.push width x y color = .ok b' ∧ b'.Sound ∧
      b'.text = b.text ++ rectText width x y color := by
  obtain ⟨hlen, hcur, hal⟩ := hb
  obtain ⟨k, hk⟩ : ∃ k, b.cursor = 4 * k := ⟨b.cursor / 4, by omega⟩
  let buf := (((b.buffer.set b.cursor width).set (b.cursor + 1) x).set (b.cursor + 2) y).set
    (b.cursor + 3) color
  have hbuf : buf.length = 16 := by simp [buf, hlen]
  have hpush : b.push width x y color = .ok
      (if 16 ≤ b.cursor + 4 then ⟨b.part ++ getChunk (b.cursor + 4) buf, 0, buf⟩
        else ⟨b.part, b.cursor + 4, buf⟩) := by
    unfold Buffer.push
    rw [setItem_ok _ (by omega)]
    show (setItem _ _ _ >>= _) = _
    rw [setItem_ok _ (by simp; omega)]
    show (setItem _ _ _ >>= _) = _
    rw [setItem_ok _ (by simp; omega)]
    show (setItem _ _ _ >>= _) = _
    rw [setItem_ok _ (by simp; omega)]
    rfl
  have hold : getChunk (4 * k) buf = getChunk (4 * k) b.buffer := by
    refine getChunk_congr fun i hi => ?_
    have hi' : i < b.cursor := hk ▸ hi
    simp only [buf]
    rw [List.getElem?_set_ne (by omega), List.getElem?_set_ne (by omega),
      List.getElem?_set_ne (by omega), List.getElem?_set_ne (by omega)]
  have hnew : getChunk (b.cursor + 4) buf = getChunk b.cursor b.buffer ++ rectText width x y color := by
    rw [hk, getChunk_succ, hold]
    have h0 : buf[4 * k]? = some width := by
      simp only [buf, hk]
      rw [List.getElem?_set_ne (by omega), List.getElem?_set_ne (by omega),
        List.getElem?_set_ne (by omega), List.getElem?_set_self (by omega)]
    have h1 : buf[4 * k + 1]? = some x := by
      simp only [buf, hk]
      rw [List.getElem?_set_ne (by omega), List.getElem?_set_ne (by omega),
        List.getElem?_set_self (by simp; omega)]
    have h2 : buf[4 * k + 2]? = some y := by
      simp only [buf, hk]
      rw [List.getElem?_set_ne (by omega), List.getElem?_set_self (by simp; omega)]
    have h3 : buf[4 * k + 3]? = some color := by
      simp only [buf, hk]
      rw [List.getElem?_set_self (by simp; omega)]
    simp only [List.getD_eq_getElem?_getD, h0, h1, h2, h3, Option.getD_some]
  rw [hpush]
  by_cases h : 16 ≤ b.cursor + 4
  · rw [if_pos h]
    refine ⟨_, rfl, ⟨hbuf, show (0 : Nat) < 16 by omega, rfl⟩, ?_⟩
    rw [b.text_eq, Buffer.text_eq, hnew]
    have h0 : getChunk 0 buf = "" := rfl
    dsimp only
    rw [h0, String.append_empty, String.append_assoc]
  · rw [if_neg h]
    refine ⟨_, rfl, ⟨hbuf, ?_, ?_⟩, ?_⟩
    · show b.cursor + 4 < 16
      omega
    · show (b.cursor + 4) % 4 = 0
      omega
    · rw [b.text_eq, Buffer.text_eq, hnew]
      exact (String.append_assoc ..).symm

/-! ## parts -/

/-- `p++` of an `uint8` -/
def increment8 (p : Nat) : Result Nat := if p + 1 < 2^8 then .ok (p + 1) else .error (.panic 0x11)

/-- the loop over the parts, whose counter is an `uint8` -/
def eachPart {α : Type} (render : α → Result String) : Nat → String → List α → Result String
  | _, rects, [] => .ok rects
  | p, rects, part :: parts => do
    let text ← render part
    let p ← increment8 p
    eachPart render p (rects ++ text) parts

/-- the texts one after the other -/
theorem eachPart_ok {α : Type} {render : α → Result String} {parts : List α} :
    ∀ {p : Nat} {rects svg : String}, eachPart render p rects parts = .ok svg →
      ∃ texts, List.Forall₂ (fun part text => render part = .ok text) parts texts ∧
        svg = rects ++ String.join texts := by
  induction parts with
  | nil =>
    intro p rects svg h
    exact ⟨[], .nil, (Except.ok.inj h).symm.trans String.append_empty.symm⟩
  | cons part parts ih =>
    intro p rects svg h
    obtain ⟨text, htext, h⟩ := bind_eq_ok.mp h
    obtain ⟨p', _, h⟩ := bind_eq_ok.mp h
    obtain ⟨texts, htexts, rfl⟩ := ih h
    exact ⟨text :: texts, .cons htext htexts, by rw [String.join_cons, String.append_assoc]⟩

end UNouns.Art
