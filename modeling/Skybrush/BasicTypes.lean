import Mathlib.Algebra.Order.Ring.Unbundled.Rat
import Mathlib.Order.WithBot
import Mathlib.Tactic.Common

/-!
# Basic Types

The types that the trajectories and the return-to-home plans share. Coordinates are finite
floating-point numbers, modelled by rational numbers; the time that a function is asked for
can be any floating-point number.
-/

namespace Skybrush

/-- A point of the plane: `sb_vector2_t`. -/
structure Vector2 where
  x : ℚ
  y : ℚ
  deriving DecidableEq, Repr

/-- A position with a yaw angle: `sb_vector3_with_yaw_t`. -/
structure Vector3WithYaw where
  x : ℚ
  y : ℚ
  z : ℚ
  yaw : ℚ
  deriving DecidableEq, Repr

/-- The origin, with no yaw. -/
def Vector3WithYaw.zero : Vector3WithYaw := ⟨0, 0, 0, 0⟩

/-- A time in seconds, any floating-point number. -/
inductive TimeSec where
  | nan
  | negInfinity
  | finite (t : ℚ)
  | infinity
  deriving DecidableEq, Repr

namespace TimeSec

/-- Times before the start count as the start. -/
def clip : TimeSec → TimeSec
  | negInfinity => finite 0
  | finite t => if t ≤ 0 then finite 0 else finite t
  | t => t

theorem clip_of_nonneg {t : ℚ} (h : 0 ≤ t) : (finite t).clip = finite t := by
  rw [clip]
  split
  case isTrue hle => rw [le_antisymm hle h]
  case isFalse => rfl

/-- The time is before a finite one. -/
def isBefore : TimeSec → ℚ → Bool
  | nan, _ => false
  | negInfinity, _ => true
  | finite t, s => t < s
  | infinity, _ => false

/-- The time is not after a finite one. -/
def isAtMost : TimeSec → ℚ → Bool
  | nan, _ => false
  | negInfinity, _ => true
  | finite t, s => t ≤ s
  | infinity, _ => false

/-- The time is after one that may be infinite. -/
def isAfter : TimeSec → WithTop ℚ → Bool
  | nan, _ => false
  | negInfinity, _ => false
  | finite t, s => s < (t : WithTop ℚ)
  | infinity, s => s ≠ ⊤

end TimeSec

end Skybrush
