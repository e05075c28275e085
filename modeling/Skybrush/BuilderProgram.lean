import Skybrush.BasicTypes
import Skybrush.Error
import Skybrush.Library.Rounding

/-!
# The Program of the Trajectory Builder

The functions of the trajectory builder (`trajectory/builder.c`), written once for every way of
keeping a builder. They get at the parts of a builder through a `BuilderStore`: the bytes of a
builder may be a list (`TrajectoryBuilder`) or lie in a block of memory (`RawBuilder`).
Coordinates are finite floating-point numbers, computed with in a `Rounding`.

A long line is split in two halves until the halves last at most 60 seconds; a long hold is
cut into holds of 60 seconds.
-/

namespace Skybrush

open Rounding

/-- `HEADER_LENGTH`. -/
def headerLength : ℕ := 9

/-- `MAX_DURATION_MSEC`. -/
def maxDurationMsec : ℕ := 60000

/-- `SB_TRAJECTORY_USE_YAW`. -/
def trajectoryUseYaw : UInt8 := 1

namespace TrajectoryBuilder

variable (F : Rounding)

/-- `sb_i_trajectory_builder_scale_coordinate`. -/
def scaleCoordinate (scale : ℕ) (coordinate : ℚ) : Except SbError ℤ :=
  let scaled := ⌊F (coordinate / scale)⌋
  if scaled < -32768 ∨ 32767 < scaled then .error .einval else .ok scaled

/-- The tenths of a degree that `sb_i_trajectory_builder_write_angle` writes. -/
def scaleAngle (angle : ℚ) : ℤ :=
  let scaled := truncate (F (fmod angle 360 * 10))
  if scaled < 0 then scaled + 3600 else scaled

/-- The point that a long line is split at. -/
def midpoint (a b : Vector3WithYaw) : Vector3WithYaw :=
  ⟨F (F (a.x + b.x) / 2), F (F (a.y + b.y) / 2), F (F (a.z + b.z) / 2),
    F (F (a.yaw + b.yaw) / 2)⟩

end TrajectoryBuilder

/-- How the functions of the builder get at the parts of a builder. -/
structure BuilderStore (m : Type → Type) where
  /-- `sb_buffer_size`. -/
  size : m ℕ
  scale : m ℕ
  lastPosition : m Vector3WithYaw
  setLastPosition : Vector3WithYaw → m Unit
  /-- Write a byte at an offset. -/
  setByte : ℕ → UInt8 → m Unit
  /-- Set the bits of a flag in the byte at an offset. -/
  setFlag : ℕ → UInt8 → m Unit
  /-- `sb_write_uint16`: the value, the offset, and the offset behind it. -/
  writeUint16 : ℕ → ℕ → m ℕ
  fail : {α : Type} → SbError → m α

namespace BuilderStore

open TrajectoryBuilder

variable {m : Type → Type} [Monad m] (S : BuilderStore m) (F : Rounding)

/-- `sb_write_int16`. -/
def writeInt16 (value : ℤ) (offset : ℕ) : m ℕ := S.writeUint16 (value % 65536).toNat offset

/-- `sb_i_trajectory_builder_write_coordinate`. -/
def writeCoordinate (coordinate : ℚ) (offset : ℕ) : m ℕ := do
  let scale ← S.scale
  match scaleCoordinate F scale coordinate with
  | .error e => S.fail e
  | .ok scaled => S.writeInt16 scaled offset

/-- `sb_i_trajectory_builder_write_angle`. -/
def writeAngle (angle : ℚ) (offset : ℕ) : m ℕ := S.writeInt16 (scaleAngle F angle) offset

/-- Set a flag of a segment, and write what it announces; nothing is done for a value that has
not changed. -/
def writeChanged (flagsPtr : ℕ) (flag : UInt8) (changed : Bool) (write : ℕ → m ℕ) (offset : ℕ) :
    m ℕ := do
  if changed then
    S.setFlag flagsPtr flag
    write offset
  else
    pure offset

/-- `sb_trajectory_builder_set_start_position`. -/
def setStartPosition (start : Vector3WithYaw) : m Unit := do
  let size ← S.size
  if size ≠ headerLength then
    S.fail .failure
  else
    let offset ← S.writeCoordinate F start.x 1
    let offset ← S.writeCoordinate F start.y offset
    let offset ← S.writeCoordinate F start.z offset
    let _ ← S.writeAngle F start.yaw offset
    S.setLastPosition start

/-- Write the coordinates that differ between two positions, with their flags, and return
the offset behind them. -/
def writeTarget (flagsPtr : ℕ) (last target : Vector3WithYaw) (offset : ℕ) : m ℕ := do
  let offset ← S.writeChanged flagsPtr 0x01 (last.x ≠ target.x) (S.writeCoordinate F target.x)
    offset
  let offset ← S.writeChanged flagsPtr 0x04 (last.y ≠ target.y) (S.writeCoordinate F target.y)
    offset
  let offset ← S.writeChanged flagsPtr 0x10 (last.z ≠ target.z) (S.writeCoordinate F target.z)
    offset
  S.writeChanged flagsPtr 0x40 (last.yaw ≠ target.yaw) (S.writeAngle F target.yaw) offset

variable (extendWithZeros resize : ℕ → m Unit)

/-- Append a segment of at most 60 seconds, the part of
`sb_trajectory_builder_append_line` behind the branch that splits a long line. -/
def appendSegment (target : Vector3WithYaw) (durationMsec : ℕ) : m Unit := do
  let flagsPtr ← S.size
  extendWithZeros 11
  S.setByte flagsPtr 0
  let offset ← S.writeUint16 durationMsec (flagsPtr + 1)
  let last ← S.lastPosition
  let offset ← S.writeTarget F flagsPtr last target offset
  -- trim the bytes that are not needed
  resize offset
  S.setLastPosition target

/-- `sb_trajectory_builder_append_line`. -/
def appendLine (target : Vector3WithYaw) (durationMsec : ℕ) : m Unit := do
  if maxDurationMsec < durationMsec then
    let last ← S.lastPosition
    let halfDurationMsec := durationMsec / 2
    appendLine (midpoint F last target) halfDurationMsec
    appendLine target (durationMsec - halfDurationMsec)
  else
    S.appendSegment F extendWithZeros resize target durationMsec
termination_by durationMsec
decreasing_by
  all_goals simp only [maxDurationMsec] at *; omega

/-- `sb_trajectory_builder_hold_position_for`. -/
def holdPositionFor (durationMsec : ℕ) : m Unit := do
  if 0 < durationMsec then
    let currentDurationMsec := min durationMsec maxDurationMsec
    let last ← S.lastPosition
    S.appendLine F extendWithZeros resize last currentDurationMsec
    holdPositionFor (durationMsec - currentDurationMsec)
termination_by durationMsec
decreasing_by
  simp only [maxDurationMsec]; omega

section Recursion

variable {durationMsec : ℕ}

/-- A long line is split at the point in the middle. -/
theorem appendLine_of_lt (h : maxDurationMsec < durationMsec) (target : Vector3WithYaw) :
    S.appendLine F extendWithZeros resize target durationMsec = (do
      let last ← S.lastPosition
      S.appendLine F extendWithZeros resize (midpoint F last target) (durationMsec / 2)
      S.appendLine F extendWithZeros resize target (durationMsec - durationMsec / 2)) := by
  rw [appendLine, if_pos h]

/-- A line of at most 60 seconds is one segment. -/
theorem appendLine_of_not_lt (h : ¬ maxDurationMsec < durationMsec) (target : Vector3WithYaw) :
    S.appendLine F extendWithZeros resize target durationMsec =
      S.appendSegment F extendWithZeros resize target durationMsec := by
  rw [appendLine, if_neg h]

/-- A hold begins with at most 60 seconds. -/
theorem holdPositionFor_of_pos (h : 0 < durationMsec) :
    S.holdPositionFor F extendWithZeros resize durationMsec = (do
      let last ← S.lastPosition
      S.appendLine F extendWithZeros resize last (min durationMsec maxDurationMsec)
      S.holdPositionFor F extendWithZeros resize
        (durationMsec - min durationMsec maxDurationMsec)) := by
  rw [holdPositionFor, if_pos h]

theorem holdPositionFor_of_not_pos (h : ¬ 0 < durationMsec) :
    S.holdPositionFor F extendWithZeros resize durationMsec = pure () := by
  rw [holdPositionFor, if_neg h]

end Recursion

end BuilderStore

end Skybrush
