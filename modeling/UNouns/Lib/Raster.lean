import Mathlib.Data.List.Basic
import Mathlib.Data.List.Nodup
import Mathlib.Algebra.BigOperators.Group.List.Basic
import Mathlib.Tactic.Common
import Mathlib.Tactic.Ring

/-!
# Rasters: runs and rows

* `expand`, `encode`   a list as runs of equal elements, none longer than a limit;
* `expand_encode`      and back;
* `rows`               the fields of a rectangle, row by row;
* `strokes`            runs drawn row by row, cut where a row ends;
* `strokes_cons_of_le` a run that ends in its row is one stroke;
* `strokes_pixels`     the strokes paint the pixels of the runs, each at its place.
-/

set_option linter.unusedVariables false

namespace Raster
variable {α β : Type}

/-! ## runs -/

/-- what the runs stand for -/
def expand (rs : List (Nat × α)) : List α := rs.flatMap fun r => List.replicate r.1 r.2

theorem expand_cons (r : Nat × α) (rs : List (Nat × α)) :
    expand (r :: rs) = List.replicate r.1 r.2 ++ expand rs := List.flatMap_cons

theorem expand_length (rs : List (Nat × α)) : (expand rs).length = (rs.map Prod.fst).sum := by
  induction rs with
  | nil => rfl
  | cons r rs ih =>
    rw [expand_cons, List.length_append, List.length_replicate, ih, List.map_cons, List.sum_cons]

variable [DecidableEq α]

/-- the runs of `xs` after `count` times `previous` -/
def encodeFrom (limit : Nat) : α → Nat → List α → List (Nat × α)
  | previous, count, [] => [(count, previous)]
  | previous, count, x :: xs =>
    if x ≠ previous ∨ count = limit then (count, previous) :: encodeFrom limit x 1 xs
    else encodeFrom limit previous (count + 1) xs

def encode (limit : Nat) : List α → List (Nat × α)
  | [] => []
  | x :: xs => encodeFrom limit x 1 xs

theorem expand_encodeFrom (limit : Nat) (xs : List α) : ∀ previous count,
    expand (encodeFrom limit previous count xs) = List.replicate count previous ++ xs := by
  induction xs with
  | nil =>
    intro previous count
    exact expand_cons _ _
  | cons x xs ih =>
    intro previous count
    unfold encodeFrom
    split_ifs with h
    · rw [expand_cons, ih]
      rfl
    · have hx : x = previous := by
        by_contra hne
        exact h (.inl hne)
      rw [ih, hx, List.replicate_succ', List.append_assoc]
      rfl

theorem expand_encode (limit : Nat) (xs : List α) : expand (encode limit xs) = xs := by
  cases xs with
  | nil => rfl
  | cons x xs => exact expand_encodeFrom limit xs x 1

theorem encodeFrom_length {limit : Nat} (hl : 1 ≤ limit) (xs : List α) : ∀ previous count,
    1 ≤ count → count ≤ limit → ∀ r ∈ encodeFrom limit previous count xs, 1 ≤ r.1 ∧ r.1 ≤ limit := by
  induction xs with
  | nil =>
    intro previous count h1 h2 r hr
    rw [List.mem_singleton.mp hr]
    exact ⟨h1, h2⟩
  | cons x xs ih =>
    intro previous count h1 h2 r hr
    unfold encodeFrom at hr
    split_ifs at hr with h
    · rcases List.mem_cons.mp hr with rfl | hr
      · exact ⟨h1, h2⟩
      · exact ih x 1 (Nat.le_refl 1) hl r hr
    · exact ih previous (count + 1) (by omega) (by omega) r hr

/-- no run is empty, and none is longer than the limit -/
theorem encode_length {limit : Nat} (hl : 1 ≤ limit) (xs : List α) :
    ∀ r ∈ encode limit xs, 1 ≤ r.1 ∧ r.1 ≤ limit := by
  cases xs with
  | nil => exact fun r hr => absurd hr List.not_mem_nil
  | cons x xs => exact encodeFrom_length hl xs x 1 (Nat.le_refl 1) hl

/-- what a run repeats is in the list -/
theorem encode_mem {limit : Nat} (hl : 1 ≤ limit) (xs : List α) : ∀ r ∈ encode limit xs, r.2 ∈ xs := by
  intro r hr
  have h1 := (encode_length hl xs r hr).1
  rw [← expand_encode limit xs]
  exact List.mem_flatMap.mpr ⟨r, hr, List.mem_replicate.mpr ⟨by omega, rfl⟩⟩

/-! ## rows -/

omit [DecidableEq α]

/-- the fields from column `left` and row `top` on, `width` to a row -/
def rows (f : Nat → Nat → α) (left width top height : Nat) : List α :=
  (List.range' top height).flatMap fun y => (List.range' left width).map (f y)

theorem rows_succ (f : Nat → Nat → α) (left width top height : Nat) :
    rows f left width top (height + 1)
      = (List.range' left width).map (f top) ++ rows f left width (top + 1) height := by
  unfold rows
  rw [List.range'_succ, List.flatMap_cons]

theorem rows_length (f : Nat → Nat → α) (left width height : Nat) : ∀ top,
    (rows f left width top height).length = width * height := by
  induction height with
  | zero => exact fun top => rfl
  | succ height ih =>
    intro top
    rw [rows_succ, List.length_append, List.length_map, List.length_range', ih]
    ring

/-- where the field in column `x` of row `y` is -/
theorem rows_getElem? (f : Nat → Nat → α) {left width x : Nat} (hx : left ≤ x) (hx' : x < left + width)
    (height : Nat) : ∀ {top y : Nat}, top ≤ y → y < top + height →
      (rows f left width top height)[(y - top) * width + (x - left)]? = some (f y x) := by
  induction height with
  | zero =>
    intro top y h1 h2
    omega
  | succ height ih =>
    intro top y h1 h2
    have hlen : ((List.range' left width).map (f top)).length = width := by
      rw [List.length_map, List.length_range']
    rw [rows_succ]
    by_cases e : y = top
    · subst e
      have hi : (y - y) * width + (x - left) = x - left := by rw [Nat.sub_self, Nat.zero_mul, Nat.zero_add]
      rw [hi, List.getElem?_append_left (by rw [hlen]; omega), List.getElem?_map,
        List.getElem?_range' (by omega)]
      simp only [Option.map_some, Nat.one_mul]
      congr 2
      omega
    · have hi : (y - top) * width + (x - left) = width + ((y - (top + 1)) * width + (x - left)) := by
        have : y - top = y - (top + 1) + 1 := by omega
        rw [this]
        ring
      rw [hi, List.getElem?_append_right (by rw [hlen]; omega), hlen, Nat.add_sub_cancel_left]
      exact ih (by omega) (by omega)

/-- every place of the list is some column of some row -/
theorem rows_place {left width top height i : Nat} (h : i < width * height) :
    ∃ x y, left ≤ x ∧ x < left + width ∧ top ≤ y ∧ y < top + height ∧
      i = (y - top) * width + (x - left) := by
  have hwidth : 0 < width := Nat.pos_of_mul_pos_right (Nat.lt_of_le_of_lt (Nat.zero_le i) h)
  refine ⟨left + i % width, top + i / width, Nat.le_add_right _ _, ?_, Nat.le_add_right _ _, ?_, ?_⟩
  · have := Nat.mod_lt i hwidth
    omega
  · have := Nat.div_lt_of_lt_mul h
    omega
  · rw [Nat.add_sub_cancel_left, Nat.add_sub_cancel_left]
    exact (Nat.div_add_mod' i width).symm

theorem map_rows (g : α → β) (f : Nat → Nat → α) (left width top height : Nat) :
    (rows f left width top height).map g = rows (fun y x => g (f y x)) left width top height := by
  unfold rows
  rw [List.map_flatMap]
  simp only [List.map_map, Function.comp_def]

/-- two nested loops go over the rows -/
theorem foldl_rows (step : β → α → β) (f : Nat → Nat → α) (left width top height : Nat) (b : β) :
    (List.range' top height).foldl (fun b y => (List.range' left width).foldl
      (fun b x => step b (f y x)) b) b = (rows f left width top height).foldl step b := by
  unfold rows
  rw [List.foldl_flatMap]
  simp only [List.foldl_map]

/-! ## strokes -/

/-- where the next pixel goes -/
structure Pen where
  x : Nat
  y : Nat

/-- at the right bound the next row begins -/
def Pen.advance (left right : Nat) (pen : Pen) (n : Nat) : Pen :=
  if pen.x + n = right then ⟨left, pen.y + 1⟩ else ⟨pen.x + n, pen.y⟩

/-- a part of a run, in one row -/
structure Stroke (α : Type) where
  length : Nat
  x : Nat
  y : Nat
  value : α

/-- the strokes of a run of `n` pixels, and the pen after it; a pen at or behind the right bound does
not draw -/
def cut (left right : Nat) (value : α) : Nat → Pen → Nat → List (Stroke α) × Pen
  | 0, pen, _ => ([], pen)
  | fuel + 1, pen, n =>
    let length := min n (right - pen.x)
    if length = 0 then ([], pen)
    else
      let rest := cut left right value fuel (pen.advance left right length) (n - length)
      (⟨length, pen.x, pen.y, value⟩ :: rest.1, rest.2)

/-- every stroke but the last takes a pixel, so that more fuel than pixels is enough -/
theorem cut_fuel (left right : Nat) (value : α) : ∀ (fuel fuel' : Nat) (pen : Pen) (n : Nat), n < fuel →
    n < fuel' → cut left right value fuel pen n = cut left right value fuel' pen n := by
  intro fuel
  induction fuel with
  | zero => exact fun fuel' pen n h => absurd h (Nat.not_lt_zero n)
  | succ fuel ih =>
    intro fuel' pen n h h'
    cases fuel' with
    | zero => exact absurd h' (Nat.not_lt_zero n)
    | succ fuel' =>
      unfold cut
      by_cases e : min n (right - pen.x) = 0
      · simp only [if_pos e]
      · simp only [if_neg e]
        rw [ih fuel' _ _ (by omega) (by omega)]

def strokes (left right : Nat) : Pen → List (Nat × α) → List (Stroke α)
  | _, [] => []
  | pen, r :: rs =>
    let first := cut left right r.2 (r.1 + 1) pen r.1
    first.1 ++ strokes left right first.2 rs

/-- no run is empty, or goes on in the next row -/
def WithinRows (left right : Nat) : Pen → List (Nat × α) → Prop
  | _, [] => True
  | pen, r :: rs =>
    1 ≤ r.1 ∧ pen.x + r.1 ≤ right ∧ WithinRows left right (pen.advance left right r.1) rs

/-- a run that ends in its row is cut once -/
theorem cut_of_le {left right n : Nat} {pen : Pen} (value : α) (hn : 1 ≤ n) (h : pen.x + n ≤ right) :
    cut left right value (n + 1) pen n
      = ([⟨n, pen.x, pen.y, value⟩], pen.advance left right n) := by
  obtain ⟨k, rfl⟩ : ∃ k, n = k + 1 := ⟨n - 1, by omega⟩
  have hmin : min (k + 1) (right - pen.x) = k + 1 := by omega
  unfold cut
  simp only [hmin, if_neg (Nat.succ_ne_zero k), Nat.sub_self]
  unfold cut
  simp only [Nat.zero_min, if_pos]

/-- **A run that ends in its row is one stroke.** -/
theorem strokes_cons_of_le {left right : Nat} {pen : Pen} {r : Nat × α} (rs : List (Nat × α))
    (hn : 1 ≤ r.1) (h : pen.x + r.1 ≤ right) :
    strokes left right pen (r :: rs)
      = [⟨r.1, pen.x, pen.y, r.2⟩] ++ strokes left right (pen.advance left right r.1) rs := by
  rw [strokes, cut_of_le r.2 hn h]

/-! ## pixels of strokes -/

section
variable {left right top : Nat}

/-- the place of a pixel, in rows from the left bound to the right one -/
def place (left right top n : Nat) : Nat × Nat := (left + n % (right - left), top + n / (right - left))

/-- the pen before pixel `n` -/
def Pen.before (left right top n : Nat) : Pen := ⟨(place left right top n).1, (place left right top n).2⟩

theorem Pen.before_zero (left right top : Nat) : Pen.before left right top 0 = ⟨left, top⟩ := by
  unfold Pen.before place
  rw [Nat.zero_mod, Nat.zero_div]
  rfl

/-- the pixels that a stroke paints -/
def Stroke.pixels (s : Stroke α) : List ((Nat × Nat) × α) :=
  (List.range s.length).map fun k => ((s.x + k, s.y), s.value)

theorem place_injective (h : left < right) : Function.Injective (place left right top) := by
  intro n m e
  obtain ⟨hmod, hdiv⟩ := Prod.mk.inj e
  rw [← Nat.div_add_mod n (right - left), ← Nat.div_add_mod m (right - left), Nat.add_left_cancel hmod,
    Nat.add_left_cancel hdiv]

/-- within a row the places go to the right -/
theorem place_add {n k : Nat} (h : n % (right - left) + k < right - left) :
    place left right top (n + k) = (left + n % (right - left) + k, top + n / (right - left)) := by
  have hpos : 0 < right - left := by omega
  have hn : n + k = (n % (right - left) + k) + (right - left) * (n / (right - left)) := by
    have := Nat.mod_add_div n (right - left)
    omega
  have hmod : (n + k) % (right - left) = n % (right - left) + k := by
    rw [hn, Nat.add_mul_mod_self_left, Nat.mod_eq_of_lt h]
  have hdiv : (n + k) / (right - left) = n / (right - left) := by
    rw [hn, Nat.add_mul_div_left _ _ hpos, Nat.div_eq_of_lt h, Nat.zero_add]
  unfold place
  rw [hmod, hdiv, Nat.add_assoc]

/-- a stroke that ends in its row moves the pen over its pixels -/
theorem Pen.before_advance (hlr : left < right) {n k : Nat} (h : n % (right - left) + k ≤ right - left) :
    (Pen.before left right top n).advance left right k = Pen.before left right top (n + k) := by
  have hpos : 0 < right - left := by omega
  have hx : (Pen.before left right top n).x = left + n % (right - left) := rfl
  unfold Pen.advance
  split_ifs with he
  · -- the row is full
    have hfull : n % (right - left) + k = right - left := by omega
    have hn : n + k = (right - left) * (n / (right - left) + 1) := by
      have := Nat.mod_add_div n (right - left)
      rw [Nat.mul_add, Nat.mul_one]
      omega
    have hmod : (n + k) % (right - left) = 0 := by rw [hn, Nat.mul_mod_right]
    have hdiv : (n + k) / (right - left) = n / (right - left) + 1 := by rw [hn, Nat.mul_div_cancel_left _ hpos]
    unfold Pen.before place
    rw [hmod, hdiv, Nat.add_zero]
    rfl
  · have hlt : n % (right - left) + k < right - left := by omega
    have hplace : place left right top (n + k) = _ := place_add hlt
    unfold Pen.before at *
    rw [hplace]
    rfl

/-- **A run paints its pixels one after another**, and each stroke is within the bounds. -/
theorem cut_pixels (hlr : left < right) (value : α) : ∀ (fuel : Nat) {n m : Nat}, m < fuel →
    (cut left right value fuel (.before left right top n) m).2 = .before left right top (n + m) ∧
    (cut left right value fuel (.before left right top n) m).1.flatMap Stroke.pixels
      = (List.range m).map (fun k => (place left right top (n + k), value)) ∧
    ∀ s ∈ (cut left right value fuel (.before left right top n) m).1,
      left ≤ s.x ∧ s.x + s.length ≤ right ∧ s.value = value := by
  intro fuel
  induction fuel with
  | zero => exact fun h => absurd h (Nat.not_lt_zero _)
  | succ fuel ih =>
    intro n m hm
    have hpos : 0 < right - left := by omega
    have hmod := Nat.mod_lt n hpos
    have hx : (Pen.before left right top n).x = left + n % (right - left) := rfl
    unfold cut
    dsimp only
    by_cases h0 : m = 0
    · subst h0
      rw [Nat.zero_min, if_pos rfl]
      exact ⟨rfl, rfl, fun s hs => absurd hs List.not_mem_nil⟩
    · obtain ⟨k, hk⟩ : ∃ k, min m (right - (Pen.before left right top n).x) = k := ⟨_, rfl⟩
      rw [hk, if_neg (by omega)]
      have hrow : n % (right - left) + k ≤ right - left := by omega
      obtain ⟨hpen, hpixels, hstrokes⟩ := ih (n := n + k) (m := m - k) (by omega)
      rw [Pen.before_advance hlr hrow]
      refine ⟨by rw [hpen]; congr 1; omega, ?_, fun s hs => ?_⟩
      · have hsplit : m = k + (m - k) := by omega
        rw [List.flatMap_cons, hpixels, hsplit, List.range_add, List.map_append, List.map_map,
          Nat.add_sub_cancel_left]
        congr 1
        · refine List.map_congr_left fun i hi => ?_
          have hi : i < k := List.mem_range.mp hi
          rw [place_add (by omega)]
          rfl
        · refine List.map_congr_left fun i _ => ?_
          rw [Function.comp_apply, Nat.add_assoc]
      · rcases List.mem_cons.mp hs with rfl | hs
        · exact ⟨by show left ≤ (Pen.before left right top n).x; omega,
            by show (Pen.before left right top n).x + k ≤ right; omega, rfl⟩
        · exact hstrokes s hs

/-- **The strokes paint pixel `n` of the runs at place `n`.** -/
theorem strokes_pixels (hlr : left < right) (rs : List (Nat × α)) : ∀ n : Nat,
    (strokes left right (.before left right top n) rs).flatMap Stroke.pixels
      = ((expand rs).zipIdx n).map (fun p => (place left right top p.2, p.1)) ∧
    ∀ s ∈ strokes left right (.before left right top n) rs, left ≤ s.x ∧ s.x + s.length ≤ right := by
  induction rs with
  | nil => exact fun n => ⟨rfl, fun s hs => absurd hs List.not_mem_nil⟩
  | cons r rs ih =>
    intro n
    have hcut := @cut_pixels α left right top hlr r.2 (r.1 + 1) n r.1 (Nat.lt_succ_self r.1)
    obtain ⟨hpen, hpixels, hstrokes⟩ := hcut
    obtain ⟨hrest, hrest'⟩ := ih (n + r.1)
    unfold strokes
    dsimp only
    rw [hpen]
    refine ⟨?_, fun s hs => ?_⟩
    · rw [List.flatMap_append, hpixels, hrest, expand_cons, List.zipIdx_append, List.map_append,
        List.length_replicate]
      congr 1
      refine List.ext_getElem (by simp) fun i h1 h2 => ?_
      simp
    · rcases List.mem_append.mp hs with hs | hs
      · exact ⟨(hstrokes s hs).1, (hstrokes s hs).2.1⟩
      · exact hrest' s hs

/-- **No place is painted twice.** -/
theorem strokes_once (hlr : left < right) (rs : List (Nat × α)) (n : Nat) :
    (((strokes left right (.before left right top n) rs).flatMap Stroke.pixels).map Prod.fst).Nodup := by
  have hplaces : (((expand rs).zipIdx n).map fun p => (place left right top p.2, p.1)).map Prod.fst
      = (((expand rs).zipIdx n).map Prod.snd).map (place left right top) := by
    rw [List.map_map, List.map_map]
    rfl
  have hrange : (List.range' n (expand rs).length).Nodup := List.nodup_range'
  rw [(strokes_pixels hlr rs n).1, hplaces, List.zipIdx_map_snd]
  exact hrange.map (place_injective hlr)

end

end Raster
