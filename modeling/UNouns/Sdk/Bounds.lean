import UNouns.Sdk.Image
import Mathlib.Order.Bounds.Basic

/-!
# The bounds of an image

`Image.calcBounds` walks in from the four sides until it meets a line with a visible pixel.

* `downWhile_stops`, `upWhile_stops`, `outWhile_stops`   where a walk ends;
* `ImageBounds.Contains`   the top, the bottom and the left are inclusive, the right is not;
* `calcBounds_tight`       the walks leave the smallest box with all visible pixels in it.
-/

set_option linter.unusedVariables false

namespace UNouns.Sdk
open HexString Raster

/-! ## where a walk ends -/

theorem downWhile_stops (p : Nat → Bool) (n : Nat) (h : downWhile p n ≠ 0) :
    p (downWhile p n) = false := by
  induction n with
  | zero => exact absurd rfl h
  | succ n ih =>
    unfold downWhile at h ⊢
    cases hp : p (n + 1) with
    | true =>
      rw [hp, if_pos rfl] at h
      rw [if_pos rfl]
      exact ih h
    | false =>
      rw [if_neg Bool.false_ne_true]
      exact hp

theorem outWhile_stops (p : Nat → Bool) (n : Nat) (h : outWhile p n ≠ 0) :
    p (outWhile p n - 1) = false := by
  induction n with
  | zero => exact absurd rfl h
  | succ n ih =>
    unfold outWhile at h ⊢
    cases hp : p n with
    | true =>
      rw [hp, if_pos rfl] at h
      rw [if_pos rfl]
      exact ih h
    | false =>
      rw [if_neg Bool.false_ne_true]
      exact hp

theorem upWhile_stops (p : Nat → Bool) (limit k : Nat) (h : upWhile p limit k ≠ limit) :
    p (upWhile p limit k) = false := by
  induction k with
  | zero => exact absurd rfl h
  | succ k ih =>
    unfold upWhile at h ⊢
    cases hp : p (limit - (k + 1)) with
    | true =>
      rw [hp, if_pos rfl] at h
      rw [if_pos rfl]
      exact ih h
    | false =>
      rw [if_neg Bool.false_ne_true]
      exact hp

/-! ## boxes -/

def ImageBounds.Contains (b : ImageBounds) (x y : Nat) : Prop :=
  b.left ≤ x ∧ x < b.right ∧ b.top ≤ y ∧ y ≤ b.bottom

/-- a box is smaller if it lies within the other one -/
instance : LE ImageBounds :=
  ⟨fun b b' => b'.top ≤ b.top ∧ b.right ≤ b'.right ∧ b.bottom ≤ b'.bottom ∧ b'.left ≤ b.left⟩

namespace Image

structure Visible (im : Image) (x y : Nat) : Prop where
  x_lt : x < im.width
  y_lt : y < im.height
  alpha : (im.getRgbaAt x y).a ≠ 0

/-- all visible pixels are in the box -/
def Covered (im : Image) (b : ImageBounds) : Prop := ∀ x y, im.Visible x y → b.Contains x y

variable {im : Image}

theorem visible_row {y : Nat} (hy : y < im.height) (h : im.isTransparentRow y = false) :
    ∃ x, im.Visible x y := by
  have hn : ¬ ∀ x < im.width, (im.getRgbaAt x y).a = 0 := fun hall => by
    rw [isTransparentRow_iff.mpr hall] at h
    cases h
  push Not at hn
  obtain ⟨x, hx, ha⟩ := hn
  exact ⟨x, hx, hy, ha⟩

theorem visible_column {x : Nat} (hx : x < im.width) (h : im.isTransparentColumn x = false) :
    ∃ y, im.Visible x y := by
  have hn : ¬ ∀ y < im.height, (im.getRgbaAt x y).a = 0 := fun hall => by
    rw [isTransparentColumn_iff.mpr hall] at h
    cases h
  push Not at hn
  obtain ⟨y, hy, ha⟩ := hn
  exact ⟨y, hx, hy, ha⟩

theorem calcBounds_covered (h1 : 1 ≤ im.height) : im.Covered im.calcBounds := by
  intro x y hv
  by_contra hn
  exact hv.alpha ((im.calcBounds_crops h1).outside x hv.x_lt y hv.y_lt hn)

/-- each side of the box has a visible pixel -/
structure Touches (im : Image) (b : ImageBounds) : Prop where
  top : ∃ x, im.Visible x b.top
  bottom : ∃ x, im.Visible x b.bottom
  left : ∃ y, im.Visible b.left y
  right : ∃ y, im.Visible (b.right - 1) y

theorem calcBounds_touches {x₀ y₀ : Nat} (hv : im.Visible x₀ y₀) : im.Touches im.calcBounds := by
  have h1 : 1 ≤ im.height := Nat.lt_of_le_of_lt (Nat.zero_le _) hv.y_lt
  have hin := calcBounds_covered h1 x₀ y₀ hv
  have hcrops := im.calcBounds_crops h1
  obtain ⟨hl, hr, ht, hb⟩ := hin
  -- with nothing below row 0 the pixel is in it
  have hbottom : ∃ x, im.Visible x im.calcBounds.bottom := by
    by_cases h0 : im.calcBounds.bottom = 0
    · have hy : y₀ = im.calcBounds.bottom := by omega
      exact ⟨x₀, hy ▸ hv⟩
    · exact visible_row hcrops.bottom_lt (downWhile_stops _ _ h0)
  have hright : ∃ y, im.Visible (im.calcBounds.right - 1) y := by
    have h0 : im.calcBounds.right ≠ 0 := by omega
    exact visible_column (by have := hcrops.right_le; omega) (outWhile_stops _ _ h0)
  refine ⟨?_, hbottom, ?_, hright⟩
  · by_cases h0 : im.calcBounds.top = im.calcBounds.bottom
    · rw [h0]
      exact hbottom
    · refine visible_row ?_ (upWhile_stops _ _ _ h0)
      have := hcrops.bottom_lt
      omega
  · by_cases h0 : im.calcBounds.left = im.calcBounds.right - 1
    · rw [h0]
      exact hright
    · refine visible_column ?_ (upWhile_stops _ _ _ h0)
      have := hcrops.right_le
      omega

/-- a box that a visible pixel touches on each side is in every box around them -/
theorem Touches.le {b b' : ImageBounds} (h : im.Touches b) (hc : im.Covered b') (h0 : 0 < b.right) :
    b ≤ b' := by
  obtain ⟨_, ht⟩ := h.top
  obtain ⟨_, hb⟩ := h.bottom
  obtain ⟨_, hl⟩ := h.left
  obtain ⟨_, hr⟩ := h.right
  have hright := (hc _ _ hr).2.1
  exact ⟨(hc _ _ ht).2.2.1, by omega, (hc _ _ hb).2.2.2, (hc _ _ hl).1⟩

/-- an image without visible pixels is cut down to nothing -/
theorem calcBounds_blank (h : ∀ x y, ¬ im.Visible x y) :
    im.calcBounds.left = 0 ∧ im.calcBounds.right = 0 := by
  have hright : im.calcBounds.right = 0 := by
    by_contra h0
    obtain ⟨hle, _⟩ := outWhile_spec im.isTransparentColumn im.width
    have hlt : im.calcBounds.right - 1 < im.width := by
      have : im.calcBounds.right ≤ im.width := hle
      omega
    obtain ⟨y, hy⟩ := visible_column hlt (outWhile_stops _ _ h0)
    exact h _ _ hy
  refine ⟨?_, hright⟩
  obtain ⟨hle, _⟩ := upWhile_spec im.isTransparentColumn (im.calcBounds.right - 1)
    (im.calcBounds.right - 1) (Nat.le_refl _)
  have hleft : im.calcBounds.left ≤ im.calcBounds.right - 1 := hle
  omega

end Image

/-- **Tight bounds.**  An image with a visible pixel is cropped to the smallest box around those that
it has; one without is cropped to nothing, and no run is written. -/
theorem calcBounds_tight (im : Image) :
    ((∃ x y, im.Visible x y) → IsLeast {b | im.Covered b} im.calcBounds) ∧
    ((∀ x y, ¬ im.Visible x y) → im.calcBounds.left = im.calcBounds.right ∧
      ∀ colors : ColorMap, im.toRLE colors = (prefixed ([0, im.calcBounds.top, im.calcBounds.right,
        im.calcBounds.bottom, im.calcBounds.left].flatMap (toPaddedHex · 2)), colors)) := by
  refine ⟨?_, fun h => ?_⟩
  · rintro ⟨x, y, hv⟩
    have h1 : 1 ≤ im.height := Nat.lt_of_le_of_lt (Nat.zero_le _) hv.y_lt
    have hcovered := Image.calcBounds_covered h1
    refine ⟨hcovered, fun b hb => (Image.calcBounds_touches hv).le hb ?_⟩
    exact Nat.lt_of_le_of_lt (Nat.zero_le _) (hcovered x y hv).2.1
  · obtain ⟨hleft, hright⟩ := Image.calcBounds_blank h
    refine ⟨hleft.trans hright.symm, fun colors => ?_⟩
    have hpixels : im.pixels = [] := by
      refine List.eq_nil_of_length_eq_zero ((rows_length _ _ _ _ _).trans ?_)
      rw [hleft, hright, Nat.sub_self, Nat.zero_mul]
    rw [im.toRLE_scan colors, hpixels]
    exact congrArg (fun text => (prefixed text, colors)) (List.append_nil _)

/-- three rows and columns, and nothing to be seen -/
def blank : Image := ⟨3, 3, fun x y => ⟨0, 0, 0, 0⟩⟩

theorem calcBounds_tight_run :
    IsLeast {b | dot.Covered b} (⟨1, 2, 1, 1⟩ : ImageBounds) ∧
      blank.toRLE ⟨[([], 0)]⟩ = ("0x0000000000".toList, ⟨[([], 0)]⟩) := by
  have hdot : dot.calcBounds = ⟨1, 2, 1, 1⟩ := by decide
  have h := (calcBounds_tight dot).1 ⟨1, 1, by decide, by decide, by decide⟩
  rw [hdot] at h
  exact ⟨h, ((calcBounds_tight blank).2 fun x y hv => hv.alpha rfl).2 ⟨[([], 0)]⟩⟩

end UNouns.Sdk
