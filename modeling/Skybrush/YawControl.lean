import Skybrush.Trajectory

/-!
# Yaw Controls and Yaw Players

Encoded yaw controls and the player that walks through their setpoints
(`yaw_control/yaw_control.c`). A yaw control is a header of three bytes, a flag and a yaw
offset, and a sequence of deltas of four bytes: a duration and a change of the yaw. Angles
are in tenths of degrees. Like the player of a trajectory, the player adds up the times and
the angles while it walks forward, and rewinds to go back.

All reads go through `Checked`: reading a byte outside the buffer is a fault. The sums of
the player are kept in 32 bits; the one of the angles is a signed number.

## Main results

* `YawControl.needs_parseHeader`: a header takes three bytes.
* `YawPlayer.needs_parseDelta`: a delta takes four.
-/

namespace Skybrush

open Checked

/-! ### Yaw controls -/

/-- A yaw control: `sb_yaw_control_t`. -/
structure YawControl where
  buffer : List UInt8
  headerLength : ℕ
  numDeltas : ℕ
  autoYaw : Bool
  yawOffsetDdeg : ℤ
  deriving DecidableEq, Repr

namespace YawControl

/-- The size of a delta: `SIZE_OF_DELTA`. -/
def sizeOfDelta : ℕ := 4

/-- The number of deltas in a buffer behind a header, by a subtraction of sizes. -/
def countDeltas (bufferLength headerLength : ℕ) : ℕ :=
  (bufferLength + (2 ^ 64 - headerLength)) % 2 ^ 64 / sizeOfDelta

/-- The bytes of the header: the flag and the yaw offset. -/
def parseHeader : Parser SbError UInt8 (Bool × ℤ) := do
  let flags ← Parser.cell
  let yawOffsetDdeg ← parseInt16
  pure (flags &&& 0x01 != 0, yawOffsetDdeg)

/-- `sb_yaw_control_init_from_buffer`, with `sb_i_yaw_control_parse_header`. -/
def initFromBuffer (buf : List UInt8) : Checked SbError YawControl := do
  let ((autoYaw, yawOffsetDdeg), headerLength) ← parseHeader buf 0
  ok
    { buffer := buf
      headerLength := headerLength
      numDeltas := countDeltas buf.length headerLength
      autoYaw := autoYaw
      yawOffsetDdeg := yawOffsetDdeg }

/-- `sb_yaw_control_is_empty`. -/
def isEmpty (ctrl : YawControl) : Bool := ctrl.numDeltas == 0

/-- A header takes three bytes. -/
theorem needs_parseHeader : parseHeader.Needs 3 :=
  Parser.needs_cell.bind fun _ => needs_parseInt16.bind_pure

end YawControl

/-! ### Setpoints -/

/-- A setpoint: `sb_yaw_setpoint_t`. The last one never ends. -/
structure YawSetpoint where
  startTimeSec : ℚ
  startTimeMsec : ℕ
  durationSec : WithTop ℚ
  durationMsec : ℕ
  endTimeSec : WithTop ℚ
  endTimeMsec : ℕ
  startYawDdeg : ℤ
  startYawDeg : ℚ
  yawChangeDdeg : ℤ
  yawChangeDeg : ℚ
  endYawDdeg : ℤ
  endYawDeg : ℚ
  deriving DecidableEq

/-- The current setpoint of a player, with its place in the buffer. -/
structure CurrentSetpoint where
  start : ℕ
  length : ℕ
  data : YawSetpoint
  deriving DecidableEq

/-- A yaw player: `sb_yaw_player_t`. -/
structure YawPlayer where
  ctrl : YawControl
  currentSetpoint : CurrentSetpoint
  deriving DecidableEq

namespace YawPlayer

open TrajectoryPlayer (toSeconds)

variable (F : Rounding)

/-- Conversion from tenths of degrees to degrees. -/
def toDegrees (ddeg : ℤ) : ℚ := F (F ddeg / 10)

/-- The bytes of a delta: the duration and the change of the yaw. -/
def parseDelta : Parser SbError UInt8 (ℕ × ℤ) := do
  let durationMsec ← parseUint16
  let yawChangeDdeg ← parseInt16
  pure (durationMsec, yawChangeDdeg)

/-- The setpoint of a yaw control that has ended: the yaw is held forever. -/
def restSetpoint (startTimeMsec : ℕ) (startYawDdeg : ℤ) : YawSetpoint where
  startTimeSec := toSeconds F startTimeMsec
  startTimeMsec := startTimeMsec
  durationSec := ⊤
  durationMsec := (2 ^ 32 - 1 - startTimeMsec) % 2 ^ 16
  endTimeSec := ⊤
  endTimeMsec := 2 ^ 32 - 1
  startYawDdeg := startYawDdeg
  startYawDeg := toDegrees F startYawDdeg
  yawChangeDdeg := 0
  yawChangeDeg := 0
  endYawDdeg := startYawDdeg
  endYawDeg := toDegrees F startYawDdeg

/-- A setpoint that was read from the buffer. -/
def deltaSetpoint (startTimeMsec : ℕ) (startYawDdeg : ℤ) (durationMsec : ℕ)
    (yawChangeDdeg : ℤ) : YawSetpoint where
  startTimeSec := toSeconds F startTimeMsec
  startTimeMsec := startTimeMsec
  durationSec := (toSeconds F durationMsec : ℚ)
  durationMsec := durationMsec
  endTimeSec := (toSeconds F ((startTimeMsec + durationMsec) % 2 ^ 32) : ℚ)
  endTimeMsec := (startTimeMsec + durationMsec) % 2 ^ 32
  startYawDdeg := startYawDdeg
  startYawDeg := toDegrees F startYawDdeg
  yawChangeDdeg := yawChangeDdeg
  yawChangeDeg := toDegrees F yawChangeDdeg
  endYawDdeg := Int.bmod (startYawDdeg + yawChangeDdeg) (2 ^ 32)
  endYawDeg := toDegrees F (Int.bmod (startYawDdeg + yawChangeDdeg) (2 ^ 32))

/-- `sb_i_yaw_player_build_current_setpoint`. -/
def buildCurrentSetpoint (ctrl : YawControl) (offset startTimeMsec : ℕ) (startYawDdeg : ℤ) :
    Checked SbError YawPlayer :=
  if ctrl.buffer.length ≤ offset then
    ok ⟨ctrl, ⟨offset, 0, restSetpoint F startTimeMsec startYawDdeg⟩⟩
  else do
    let ((durationMsec, yawChangeDdeg), next) ← parseDelta ctrl.buffer offset
    ok ⟨ctrl, ⟨offset, next - offset,
      deltaSetpoint F startTimeMsec startYawDdeg durationMsec yawChangeDdeg⟩⟩

/-- `sb_i_yaw_player_rewind`, and `sb_yaw_player_init`. -/
def rewind (ctrl : YawControl) : Checked SbError YawPlayer :=
  buildCurrentSetpoint F ctrl ctrl.headerLength 0 ctrl.yawOffsetDdeg

/-- `sb_yaw_player_build_next_setpoint`. -/
def buildNextSetpoint (player : YawPlayer) : Checked SbError YawPlayer :=
  buildCurrentSetpoint F player.ctrl
    (player.currentSetpoint.start + player.currentSetpoint.length)
    player.currentSetpoint.data.endTimeMsec player.currentSetpoint.data.endYawDdeg

/-- `sb_yaw_player_has_more_setpoints`. -/
def hasMoreSetpoints (player : YawPlayer) : Bool := 0 < player.currentSetpoint.length

/-- Where a time is in the current setpoint, zero at its start and one at its end. -/
def relativeTime (data : YawSetpoint) : TimeSec → ℚ
  | .finite t =>
      match data.durationSec with
      | ⊤ => 0
      | (durationSec : ℚ) =>
          if F (1 / 10 ^ 6) < |durationSec| then
            F (F (t - data.startTimeSec) / durationSec)
          else
            1 / 2
  | _ => 1

/-- The loop of `sb_i_yaw_player_seek_to_time`, with fuel. -/
def seekLoop (t : TimeSec) : ℕ → YawPlayer → Checked SbError (ℚ × YawPlayer)
  | 0, _ => outOfFuel
  | fuel + 1, player =>
      if t.isBefore player.currentSetpoint.data.startTimeSec then do
        let player ← rewind F player.ctrl
        seekLoop t fuel player
      else if t.isAfter player.currentSetpoint.data.endTimeSec then do
        let player ← buildNextSetpoint F player
        seekLoop t fuel player
      else
        ok (relativeTime F player.currentSetpoint.data t, player)

/-- `sb_i_yaw_player_seek_to_time`. -/
def seekToTime (fuel : ℕ) (player : YawPlayer) (t : TimeSec) : Checked SbError (ℚ × YawPlayer) :=
  seekLoop F t.clip fuel player

/-- `sb_yaw_player_get_yaw_at`. -/
def getYawAt (fuel : ℕ) (player : YawPlayer) (t : TimeSec) : Checked SbError (ℚ × YawPlayer) := do
  let (rel, player) ← seekToTime F fuel player t
  let data := player.currentSetpoint.data
  pure (F (data.startYawDeg + F (data.yawChangeDeg * rel)), player)

/-- The yaw rate of a setpoint, infinite for one that does not last. -/
def yawRate (data : YawSetpoint) : WithTop ℚ :=
  match data.durationSec with
  | ⊤ => (0 : ℚ)
  | (durationSec : ℚ) => if durationSec = 0 then ⊤ else (F (data.yawChangeDeg / durationSec) : ℚ)

/-- `sb_yaw_player_get_yaw_rate_at`. -/
def getYawRateAt (fuel : ℕ) (player : YawPlayer) (t : TimeSec) :
    Checked SbError (WithTop ℚ × YawPlayer) := do
  let (_, player) ← seekToTime F fuel player t
  pure (yawRate F player.currentSetpoint.data, player)

/-- The loop of `sb_yaw_player_get_total_duration_msec`, with fuel. -/
def totalDurationLoop : ℕ → ℕ → YawPlayer → Checked SbError (ℕ × YawPlayer)
  | 0, _, _ => outOfFuel
  | fuel + 1, result, player =>
      if player.hasMoreSetpoints then do
        let next ← buildNextSetpoint F player
        totalDurationLoop fuel
          ((result + player.currentSetpoint.data.durationMsec) % 2 ^ 32) next
      else
        ok (result, player)

/-- `sb_yaw_player_get_total_duration_msec`. -/
def getTotalDurationMsec (fuel : ℕ) (player : YawPlayer) : Checked SbError (ℕ × YawPlayer) := do
  let player ← rewind F player.ctrl
  totalDurationLoop F fuel 0 player

/-- A delta takes four bytes. -/
theorem needs_parseDelta : parseDelta.Needs YawControl.sizeOfDelta :=
  needs_parseUint16.bind fun _ => needs_parseInt16.bind_pure

/-! ### Operations -/

/-- What a player of a yaw control can be asked to do. -/
inductive Op where
  | init
  | buildNextSetpoint
  | getYawAt (t : TimeSec)
  | getYawRateAt (t : TimeSec)
  | getTotalDurationMsec
  | hasMoreSetpoints
  deriving DecidableEq, Repr

/-- The player after an operation. -/
def apply (fuel : ℕ) (player : YawPlayer) : Op → Checked SbError YawPlayer
  | .init => rewind F player.ctrl
  | .buildNextSetpoint => buildNextSetpoint F player
  | .getYawAt t => getYawAt F fuel player t >>= fun r => ok r.2
  | .getYawRateAt t => getYawRateAt F fuel player t >>= fun r => ok r.2
  | .getTotalDurationMsec => getTotalDurationMsec F fuel player >>= fun r => ok r.2
  | .hasMoreSetpoints => ok player

/-- The player after a sequence of operations. -/
def run (fuel : ℕ) (player : YawPlayer) : List Op → Checked SbError YawPlayer
  | [] => ok player
  | op :: ops => apply F fuel player op >>= fun player => run fuel player ops

/-- A walk over the setpoints, with fuel: the setpoints that it visits, and the player behind
them. -/
def walk : ℕ → YawPlayer → Checked SbError (List YawSetpoint × YawPlayer)
  | 0, _ => outOfFuel
  | fuel + 1, player =>
      if player.hasMoreSetpoints then do
        let next ← buildNextSetpoint F player
        let (found, last) ← walk fuel next
        ok (player.currentSetpoint.data :: found, last)
      else
        ok ([], player)

end YawPlayer

/-- Open a yaw control and let a player of it do some operations. -/
def yawSession (F : Rounding) (buf : List UInt8) (fuel : ℕ) (ops : List YawPlayer.Op) :
    Checked SbError YawPlayer := do
  let ctrl ← YawControl.initFromBuffer buf
  let player ← YawPlayer.rewind F ctrl
  YawPlayer.run F fuel player ops

end Skybrush
