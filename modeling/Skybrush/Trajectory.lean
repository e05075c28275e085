import Skybrush.Parsing
import Skybrush.Polynomial

/-!
# Trajectories and Trajectory Players

Encoded trajectories and the player that walks through their segments
(`trajectory/trajectory.c`). A trajectory is a header of nine bytes, a scale and a start
position, and a chain of segments: a format byte, a duration, and the control points of a
Bézier curve in each coordinate, as many as the format byte says. The first control point
of a segment is the end of the one before, so the player can only walk forward; it rewinds
to go back.

All reads go through `Checked`: reading a byte outside the buffer is a fault.

## Main results

* `TrajectoryPlayer.parseSegment_of_le`, `TrajectoryPlayer.parseSegment_of_gt`: a segment
  takes as many bytes as its header byte says.
* `Trajectory.needs_parseHeader`: a header takes nine bytes.
-/

namespace Skybrush

open Checked

/-! ### Trajectories -/

/-- A trajectory: `sb_trajectory_t`. The scale is a whole number. -/
structure Trajectory where
  buffer : List UInt8
  start : Vector3WithYaw
  scale : ℕ
  useYaw : Bool
  headerLength : ℕ
  deriving DecidableEq, Repr

namespace Trajectory

variable (F : Rounding)

/-- `sb_i_trajectory_parse_angle`. -/
def parseAngle : Parser SbError UInt8 ℚ := do
  let value ← parseInt16
  let angle := value.tmod 3600
  let angle := if angle < 0 then angle + 3600 else angle
  pure (F (angle / 10))

/-- `sb_i_trajectory_parse_coordinate`. -/
def parseCoordinate (scale : ℕ) : Parser SbError UInt8 ℚ := do
  let value ← parseInt16
  pure (F (value * scale))

/-- `sb_i_trajectory_parse_header`, with the bytes of the trajectory and the length of the
header put in afterwards. -/
def parseHeader : Parser SbError UInt8 Trajectory := do
  let header ← Parser.cell
  let scale := (header &&& 0x7F).toNat
  let x ← parseCoordinate F scale
  let y ← parseCoordinate F scale
  let z ← parseCoordinate F scale
  let yaw ← parseAngle F
  pure
    { buffer := []
      start := ⟨x, y, z, yaw⟩
      scale := scale
      useYaw := header &&& 0x80 != 0
      headerLength := 0 }

/-- `sb_i_trajectory_init_from_bytes`: a buffer that is to be owned has to have bytes. -/
def initFromBytes (owned : Bool) (buf : List UInt8) : Checked SbError Trajectory :=
  if owned ∧ buf = [] then
    error .einval
  else do
    let (trajectory, headerLength) ← parseHeader F buf 0
    pure { trajectory with buffer := buf, headerLength := headerLength }

/-- Wrapping a negative remainder. -/
theorem wrap_eq_emod {remainder value quotient : ℤ} (h : remainder = value - 3600 * quotient)
    (hlow : -3600 < remainder) (hhigh : remainder < 3600) :
    (if remainder < 0 then remainder + 3600 else remainder) = value % 3600 := by
  split <;> omega

/-- A coordinate is read back, scaled. -/
theorem reads_parseCoordinate (scale : ℕ) {value : ℤ} (hlow : -32768 ≤ value)
    (hhigh : value ≤ 32767) :
    (parseCoordinate F scale).Reads (encodeInt16 value) (F (value * scale)) :=
  (reads_parseInt16 hlow hhigh).bind_pure

/-- An angle is read back in degrees, reduced modulo 360. -/
theorem reads_parseAngle {value : ℤ} (hlow : -32768 ≤ value) (hhigh : value ≤ 32767) :
    (parseAngle F).Reads (encodeInt16 value) (F ((value % 3600 : ℤ) / 10)) := by
  have hread := (reads_parseInt16 hlow hhigh).bind_pure (f := fun value : ℤ => F
    (((if value.tmod 3600 < 0 then value.tmod 3600 + 3600 else value.tmod 3600 : ℤ) : ℚ) / 10))
  have hwrap := wrap_eq_emod (Int.tmod_def value 3600) (Int.lt_tmod_of_pos value (by decide))
    (Int.tmod_lt_of_pos value (by decide))
  rw [hwrap] at hread
  exact hread

theorem needs_parseAngle : (parseAngle F).Needs 2 := needs_parseInt16.bind_pure

theorem needs_parseCoordinate (scale : ℕ) : (parseCoordinate F scale).Needs 2 :=
  needs_parseInt16.bind_pure

/-- A header takes nine bytes. -/
theorem needs_parseHeader : (parseHeader F).Needs 9 := by
  have hcoord := needs_parseCoordinate F
  exact Parser.needs_cell.bind fun header => (hcoord _).bind fun x => (hcoord _).bind fun y =>
    (hcoord _).bind fun z => (needs_parseAngle F).bind_pure

end Trajectory

/-! ### Segments -/

/-- The number of control points that follow in one coordinate, by the format: constant,
linear, Bézier or polynomial of degree seven. -/
def numCoords (format : ℕ) : ℕ :=
  match format with
  | 0 => 0
  | 1 => 1
  | 2 => 3
  | _ => 7

/-- The format of one coordinate, two bits of the header byte of a segment. -/
def coordFormat (header : UInt8) (coord : ℕ) : ℕ := header.toNat / 4 ^ coord % 4

/-- The number of bytes of a segment, by its header byte. -/
def segmentSize (header : UInt8) : ℕ :=
  3 + 2 * (numCoords (coordFormat header 0) + numCoords (coordFormat header 1) +
    numCoords (coordFormat header 2) + numCoords (coordFormat header 3))

/-- A segment of a trajectory: `sb_trajectory_segment_t`. The last one never ends. -/
structure TrajectorySegment where
  startTimeMsec : ℕ
  endTimeMsec : ℕ
  durationMsec : ℕ
  startTimeSec : ℚ
  endTimeSec : WithTop ℚ
  durationSec : WithTop ℚ
  poly : Poly4D
  dpoly : Poly4D
  ddpoly : Poly4D
  deriving DecidableEq

/-- The current segment of a player, with its place in the buffer. -/
structure CurrentSegment where
  start : ℕ
  length : ℕ
  data : TrajectorySegment
  deriving DecidableEq

/-- A player: `sb_trajectory_player_t`. -/
structure TrajectoryPlayer where
  trajectory : Trajectory
  currentSegment : CurrentSegment
  deriving DecidableEq

namespace TrajectoryPlayer

variable (F : Rounding)

/-- Conversion from milliseconds to seconds. -/
def toSeconds (msec : ℕ) : ℚ := F (F msec / 1000)

/-- The bytes of a segment: the duration, and the curve from the given start. -/
def parseSegment (scale : ℕ) (start : Vector3WithYaw) : Parser SbError UInt8 (ℕ × Poly4D) := do
  let header ← Parser.cell
  let durationMsec ← parseUint16
  let xs ← (Trajectory.parseCoordinate F scale).many (numCoords (coordFormat header 0))
  let ys ← (Trajectory.parseCoordinate F scale).many (numCoords (coordFormat header 1))
  let zs ← (Trajectory.parseCoordinate F scale).many (numCoords (coordFormat header 2))
  let yaws ← (Trajectory.parseAngle F).many (numCoords (coordFormat header 3))
  pure (durationMsec,
    { x := .makeBezier F 1 (start.x :: xs)
      y := .makeBezier F 1 (start.y :: ys)
      z := .makeBezier F 1 (start.z :: zs)
      yaw := .makeBezier F 1 (start.yaw :: yaws) })

/-- The derivative of a curve by time, for a segment that does not last for zero time. -/
def derivByTime (poly : Poly4D) (durationSec : ℚ) : Poly4D :=
  if F (1 / 10 ^ 6) < |durationSec| then
    (poly.deriv F).scale F (F (1 / durationSec))
  else
    poly.deriv F

/-- A millisecond is long enough to divide by it. -/
theorem lt_abs_seconds {durationMsec : ℕ} (h : 0 < durationMsec) :
    (1 / 10 ^ 6 : ℚ) < |(durationMsec : ℚ) / 1000| := by
  have hone : (1 : ℚ) ≤ durationMsec := by exact_mod_cast h
  rw [abs_of_pos (by positivity), lt_div_iff₀ (by norm_num)]
  linarith

/-- The segment of a trajectory that has ended: the position is held forever. -/
def restSegment (startTimeMsec : ℕ) (start : Vector3WithYaw) : TrajectorySegment where
  startTimeMsec := startTimeMsec
  endTimeMsec := 2 ^ 32 - 1
  durationMsec := (2 ^ 32 - 1 - startTimeMsec) % 2 ^ 16
  startTimeSec := toSeconds F startTimeMsec
  endTimeSec := ⊤
  durationSec := ⊤
  poly := .makeConstant start
  dpoly := .zeroed
  ddpoly := .zeroed

/-- A segment that was read from the buffer. -/
def curveSegment (startTimeMsec durationMsec : ℕ) (poly : Poly4D) : TrajectorySegment where
  startTimeMsec := startTimeMsec
  endTimeMsec := (startTimeMsec + durationMsec) % 2 ^ 32
  durationMsec := durationMsec
  startTimeSec := toSeconds F startTimeMsec
  endTimeSec := (toSeconds F ((startTimeMsec + durationMsec) % 2 ^ 32) : ℚ)
  durationSec := (toSeconds F durationMsec : ℚ)
  poly := poly
  dpoly := derivByTime F poly (toSeconds F durationMsec)
  ddpoly := derivByTime F (derivByTime F poly (toSeconds F durationMsec)) (toSeconds F durationMsec)

/-- `sb_i_trajectory_player_build_current_segment`. -/
def buildCurrentSegment (trajectory : Trajectory) (offset startTimeMsec : ℕ)
    (start : Vector3WithYaw) : Checked SbError TrajectoryPlayer :=
  if trajectory.buffer.length ≤ offset ∨ trajectory.scale = 0 then
    ok ⟨trajectory, ⟨offset, 0, restSegment F startTimeMsec start⟩⟩
  else do
    let ((durationMsec, poly), next) ←
      parseSegment F trajectory.scale start trajectory.buffer offset
    ok ⟨trajectory, ⟨offset, next - offset, curveSegment F startTimeMsec durationMsec poly⟩⟩

/-- `sb_i_trajectory_player_rewind`, and `sb_trajectory_player_init`. -/
def rewind (trajectory : Trajectory) : Checked SbError TrajectoryPlayer :=
  buildCurrentSegment F trajectory trajectory.headerLength 0 trajectory.start

/-- `sb_trajectory_player_build_next_segment`. -/
def buildNextSegment (player : TrajectoryPlayer) : Checked SbError TrajectoryPlayer :=
  buildCurrentSegment F player.trajectory
    (player.currentSegment.start + player.currentSegment.length)
    player.currentSegment.data.endTimeMsec (player.currentSegment.data.poly.eval F 1)

/-- `sb_trajectory_player_has_more_segments`. -/
def hasMoreSegments (player : TrajectoryPlayer) : Bool := 0 < player.currentSegment.length

/-- Where a time is in the current segment, zero at its start and one at its end. -/
def relativeTime (data : TrajectorySegment) : TimeSec → ℚ
  | .finite t =>
      match data.durationSec with
      | ⊤ => 0
      | (durationSec : ℚ) =>
          if F (1 / 10 ^ 6) < |durationSec| then
            F (F (t - data.startTimeSec) / durationSec)
          else
            1 / 2
  | _ => 1

/-- The loop of `sb_i_trajectory_player_seek_to_time`, with fuel. -/
def seekLoop (t : TimeSec) : ℕ → TrajectoryPlayer → Checked SbError (ℚ × TrajectoryPlayer)
  | 0, _ => outOfFuel
  | fuel + 1, player =>
      if t.isBefore player.currentSegment.data.startTimeSec then do
        let player ← rewind F player.trajectory
        seekLoop t fuel player
      else if t.isAfter player.currentSegment.data.endTimeSec then do
        let player ← buildNextSegment F player
        seekLoop t fuel player
      else
        ok (relativeTime F player.currentSegment.data t, player)

/-- `sb_i_trajectory_player_seek_to_time`. -/
def seekToTime (fuel : ℕ) (player : TrajectoryPlayer) (t : TimeSec) :
    Checked SbError (ℚ × TrajectoryPlayer) := seekLoop F t.clip fuel player

/-- `sb_trajectory_player_get_position_at`. -/
def getPositionAt (fuel : ℕ) (player : TrajectoryPlayer) (t : TimeSec) :
    Checked SbError (Vector3WithYaw × TrajectoryPlayer) := do
  let (rel, player) ← seekToTime F fuel player t
  pure (player.currentSegment.data.poly.eval F rel, player)

/-- `sb_trajectory_player_get_velocity_at`. -/
def getVelocityAt (fuel : ℕ) (player : TrajectoryPlayer) (t : TimeSec) :
    Checked SbError (Vector3WithYaw × TrajectoryPlayer) := do
  let (rel, player) ← seekToTime F fuel player t
  pure (player.currentSegment.data.dpoly.eval F rel, player)

/-- `sb_trajectory_player_get_acceleration_at`. -/
def getAccelerationAt (fuel : ℕ) (player : TrajectoryPlayer) (t : TimeSec) :
    Checked SbError (Vector3WithYaw × TrajectoryPlayer) := do
  let (rel, player) ← seekToTime F fuel player t
  pure (player.currentSegment.data.ddpoly.eval F rel, player)

/-- The loop of `sb_trajectory_player_get_total_duration_msec`, with fuel. -/
def totalDurationLoop : ℕ → ℕ → TrajectoryPlayer → Checked SbError (ℕ × TrajectoryPlayer)
  | 0, _, _ => outOfFuel
  | fuel + 1, result, player =>
      if player.hasMoreSegments then do
        let next ← buildNextSegment F player
        totalDurationLoop fuel
          ((result + player.currentSegment.data.durationMsec) % 2 ^ 32) next
      else
        ok (result, player)

/-- `sb_trajectory_player_get_total_duration_msec`. -/
def getTotalDurationMsec (fuel : ℕ) (player : TrajectoryPlayer) :
    Checked SbError (ℕ × TrajectoryPlayer) := do
  let player ← rewind F player.trajectory
  totalDurationLoop F fuel 0 player

/-! ### Reading a segment -/

/-- What follows the header byte of a segment. -/
def parseCurve (scale : ℕ) (start : Vector3WithYaw) (header : UInt8) :
    Parser SbError UInt8 (ℕ × Poly4D) := do
  let durationMsec ← parseUint16
  let xs ← (Trajectory.parseCoordinate F scale).many (numCoords (coordFormat header 0))
  let ys ← (Trajectory.parseCoordinate F scale).many (numCoords (coordFormat header 1))
  let zs ← (Trajectory.parseCoordinate F scale).many (numCoords (coordFormat header 2))
  let yaws ← (Trajectory.parseAngle F).many (numCoords (coordFormat header 3))
  pure (durationMsec,
    { x := .makeBezier F 1 (start.x :: xs)
      y := .makeBezier F 1 (start.y :: ys)
      z := .makeBezier F 1 (start.z :: zs)
      yaw := .makeBezier F 1 (start.yaw :: yaws) })

theorem parseSegment_eq (scale : ℕ) (start : Vector3WithYaw) :
    parseSegment F scale start = Parser.cell >>= parseCurve F scale start := rfl

theorem needs_parseCurve (scale : ℕ) (start : Vector3WithYaw) (header : UInt8) :
    (parseCurve F scale start header).Needs (segmentSize header - 1) := by
  have hcoord := fun coord => (Trajectory.needs_parseCoordinate F scale).many
    (numCoords (coordFormat header coord))
  have hyaw := (Trajectory.needs_parseAngle F).many (numCoords (coordFormat header 3))
  have hsize : segmentSize header - 1 = 2 + (numCoords (coordFormat header 0) * 2 +
      (numCoords (coordFormat header 1) * 2 + (numCoords (coordFormat header 2) * 2 +
        numCoords (coordFormat header 3) * 2))) := by
    simp only [segmentSize]
    omega
  rw [hsize]
  exact needs_parseUint16.bind fun durationMsec => (hcoord 0).bind fun xs => (hcoord 1).bind
    fun ys => (hcoord 2).bind fun zs => hyaw.bind_pure

variable {F} {scale : ℕ} {start : Vector3WithYaw} {buf : List UInt8} {offset : ℕ} {header : UInt8}

/-- **A segment inside the buffer** is read. -/
theorem parseSegment_of_le (hheader : buf[offset]? = some header)
    (hle : offset + segmentSize header ≤ buf.length) :
    ∃ segment,
      parseSegment F scale start buf offset = ok (segment, offset + segmentSize header) := by
  have hlt := (List.getElem?_eq_some_iff.mp hheader).1
  have hsize : 3 ≤ segmentSize header := Nat.le_add_right _ _
  obtain ⟨segment, hsegment⟩ := (needs_parseCurve F scale start header buf (offset + 1) hlt).1
    (by omega)
  refine ⟨segment, ?_⟩
  rw [parseSegment_eq, Parser.bind_apply, Parser.cell, read_eq_ok.mpr hheader, ok_bind, ok_bind,
    hsegment]
  congr 2
  omega

/-- **A segment that is cut** is read past the end. -/
theorem parseSegment_of_gt (hheader : buf[offset]? = some header)
    (hgt : buf.length < offset + segmentSize header) :
    parseSegment F scale start buf offset = fault := by
  have hlt := (List.getElem?_eq_some_iff.mp hheader).1
  rw [parseSegment_eq, Parser.bind_apply, Parser.cell, read_eq_ok.mpr hheader, ok_bind, ok_bind]
  exact (needs_parseCurve F scale start header buf (offset + 1) hlt).2 (by omega)

end TrajectoryPlayer

end Skybrush
