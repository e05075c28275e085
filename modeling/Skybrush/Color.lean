import Skybrush.Library.Rounding

/-!
# Colors

RGB colors and their linear interpolation, as in `colors.c`. The interpolation is carried
out in single-precision arithmetic, modelled by a `Rounding`, and each channel is then
clamped to the range of a byte and truncated.

## Main results

* `RgbColor.linearInterpolation_one`, `RgbColor.linearInterpolation_zero`: the two ends
  of the interpolation, whatever the rounding.
-/

namespace Skybrush

open Rounding

/-- A color of three 8-bit channels: `sb_rgb_color_t`. -/
structure RgbColor where
  red : UInt8
  green : UInt8
  blue : UInt8
  deriving DecidableEq, Repr, Inhabited

namespace RgbColor

/-- `SB_COLOR_BLACK`. -/
def black : RgbColor := ⟨0, 0, 0⟩

/-- `SB_COLOR_WHITE`. -/
def white : RgbColor := ⟨255, 255, 255⟩

end RgbColor

/-- The `clamp` macro. -/
def clamp (value low high : ℚ) : ℚ :=
  if value < low then low else if high < value then high else value

/-- One channel of an interpolated color:
`clamp(first + (second - first) * ratio, 0, 255)`, converted to a byte. -/
def interpolateChannel (F : Rounding) (first second : UInt8) (ratio : ℚ) : UInt8 :=
  let value := F (first.toNat + F (((second.toNat : ℤ) - first.toNat : ℤ) * ratio))
  UInt8.ofNat (truncate (clamp value 0 255)).toNat

/-- The interpolated color: `sb_rgb_color_linear_interpolation`. -/
def RgbColor.linearInterpolation (F : Rounding) (first second : RgbColor) (ratio : ℚ) :
    RgbColor where
  red := interpolateChannel F first.red second.red ratio
  green := interpolateChannel F first.green second.green ratio
  blue := interpolateChannel F first.blue second.blue ratio

/-- Clamping leaves the value of a byte alone. -/
theorem clamp_natCast {n : ℕ} (h : n < 256) : clamp n 0 255 = n := by
  have h₀ : ¬ (n : ℚ) < 0 := not_lt.mpr (Nat.cast_nonneg n)
  have h₁ : ¬ (255 : ℚ) < n := by
    rw [not_lt]
    exact_mod_cast Nat.le_of_lt_succ h
  rw [clamp, if_neg h₀, if_neg h₁]

/-- A channel whose interpolated value is a byte is that byte. -/
theorem ofNat_truncate_clamp (b : UInt8) :
    UInt8.ofNat (truncate (clamp b.toNat 0 255)).toNat = b := by
  rw [clamp_natCast b.toNat_lt, truncate_natCast, Int.toNat_natCast, UInt8.ofNat_toNat]

/-- At ratio one a channel is the second one. -/
theorem interpolateChannel_one (F : Rounding) (first second : UInt8) :
    interpolateChannel F first second 1 = second := by
  have h₁ : first.toNat < 256 := first.toNat_lt
  have h₂ : second.toNat < 256 := second.toNat_lt
  have hdiff : F (((second.toNat : ℤ) - first.toNat : ℤ) : ℚ) =
      (((second.toNat : ℤ) - first.toNat : ℤ) : ℚ) :=
    F.exact_int _ (by rw [abs_le]; omega)
  have hsum : (first.toNat : ℚ) + (((second.toNat : ℤ) - first.toNat : ℤ) : ℚ) =
      second.toNat := by
    push_cast
    ring
  rw [interpolateChannel, mul_one, hdiff, hsum,
    F.apply_natCast (by omega), ofNat_truncate_clamp]

/-- At ratio zero a channel is the first one. -/
theorem interpolateChannel_zero (F : Rounding) (first second : UInt8) :
    interpolateChannel F first second 0 = first := by
  have h : first.toNat < 256 := first.toNat_lt
  rw [interpolateChannel, mul_zero, F.apply_zero, add_zero, F.apply_natCast (by omega),
    ofNat_truncate_clamp]

/-- **The end of an interpolation** is the second color. -/
@[simp] theorem RgbColor.linearInterpolation_one (F : Rounding) (first second : RgbColor) :
    linearInterpolation F first second 1 = second := by
  simp [linearInterpolation, interpolateChannel_one]

/-- **The start of an interpolation** is the first color. -/
@[simp] theorem RgbColor.linearInterpolation_zero (F : Rounding) (first second : RgbColor) :
    linearInterpolation F first second 0 = first := by
  simp [linearInterpolation, interpolateChannel_zero]

end Skybrush
