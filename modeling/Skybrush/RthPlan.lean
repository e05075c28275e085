import Skybrush.BasicTypes
import Skybrush.Library.Rounding
import Skybrush.Varuint

/-!
# Return-to-Home Plans

Collective return-to-home plans (`rth_plan/rth_plan.c`). An encoded plan is a header of three
bytes with the scale and the number of points, the points, the number of entries, and the
entries, which take as many bytes as their flags and their action ask for. An entry may
repeat the action of the one before; then only its time, duration and delays are its own.

Numbers become floating-point numbers when they are stored in an entry, through a
`Rounding`. All reads go through `Checked`: reading a byte outside the buffer is a fault.
-/

namespace Skybrush

open Checked

/-- An action: `sb_rth_action_t`. -/
inductive RthAction where
  | sameAsPrevious
  | land
  | goToKeepingAltitude
  | goToWithAltitude
  deriving DecidableEq, Repr

namespace RthAction

/-- `sb_i_rth_action_has_target`. -/
def hasTarget : RthAction → Bool
  | goToKeepingAltitude => true
  | goToWithAltitude => true
  | _ => false

/-- `sb_i_rth_action_has_duration`. -/
def hasDuration (action : RthAction) : Bool := action.hasTarget

/-- `sb_i_rth_action_has_neck`. -/
def hasNeck (action : RthAction) : Bool := action = goToWithAltitude

/-- `sb_i_rth_action_has_target_altitude`. -/
def hasTargetAltitude (action : RthAction) : Bool := action = goToWithAltitude

/-- The action in the flags of an entry. -/
def ofFlags (flags : UInt8) : RthAction :=
  match flags.toNat / 16 % 4 with
  | 0 => sameAsPrevious
  | 1 => land
  | 2 => goToKeepingAltitude
  | _ => goToWithAltitude

end RthAction

/-- An entry of a plan: `sb_rth_plan_entry_t`. -/
structure RthPlanEntry where
  timeSec : TimeSec
  action : RthAction
  durationSec : ℚ
  target : Vector2
  targetAltitude : ℚ
  preDelaySec : ℚ
  postDelaySec : ℚ
  preNeckMm : ℚ
  preNeckDurationSec : ℚ
  deriving DecidableEq, Repr

/-- A plan: `sb_rth_plan_t`. The scale is a whole number. -/
structure RthPlan where
  buffer : List UInt8
  scale : ℕ
  headerLength : ℕ
  numPoints : ℕ
  deriving DecidableEq, Repr

namespace RthPlan

/-- `MAX_DURATION`. -/
def maxDuration : ℕ := 16777216

/-- `sb_i_rth_plan_parse_header`: the scale and the number of points. -/
def parseHeader : Parser SbError UInt8 (ℕ × ℕ) := do
  let header ← Parser.cell
  let numPoints ← parseUint16
  pure ((header &&& 0x7F).toNat, numPoints)

/-- `sb_rth_plan_init_from_buffer`. -/
def initFromBuffer (buf : List UInt8) : Checked SbError RthPlan := do
  let ((scale, numPoints), headerLength) ← parseHeader buf 0
  pure { buffer := buf, scale := scale, headerLength := headerLength, numPoints := numPoints }

/-- `sb_rth_plan_init_empty`. -/
def initEmpty : RthPlan := { buffer := [], scale := 1, headerLength := 0, numPoints := 0 }

/-- `OFFSET_OF_POINT`. -/
def offsetOfPoint (plan : RthPlan) (index : ℕ) : ℕ := plan.headerLength + index * 4

/-- `OFFSET_OF_ENTRY_TABLE`. -/
def offsetOfEntryTable (plan : RthPlan) : ℕ := plan.offsetOfPoint plan.numPoints

/-- `OFFSET_OF_FIRST_ENTRY`. -/
def offsetOfFirstEntry (plan : RthPlan) : ℕ := plan.offsetOfEntryTable + 2

/-- `sb_rth_plan_get_num_entries`. -/
def getNumEntries (plan : RthPlan) : Checked SbError ℕ :=
  if plan.offsetOfEntryTable + 2 ≤ plan.buffer.length then do
    let (numEntries, _) ← parseUint16 plan.buffer plan.offsetOfEntryTable
    pure numEntries
  else
    ok 0

/-- `sb_rth_plan_is_empty`. -/
def isEmpty (plan : RthPlan) : Checked SbError Bool := do
  let numEntries ← plan.getNumEntries
  pure (numEntries = 0)

variable (F : Rounding)

/-- `sb_i_rth_plan_parse_coordinate`. -/
def parseCoordinate (scale : ℕ) : Parser SbError UInt8 ℚ := do
  let value ← parseInt16
  pure (F (value * scale))

/-- `sb_i_rth_plan_parse_duration`. -/
def parseDuration : Parser SbError UInt8 ℚ := do
  let value ← parseVaruint32.check
  if maxDuration < value then
    Parser.throw .eoverflow
  else
    pure (F value)

/-- The coordinates of a point. -/
def parsePoint (scale : ℕ) : Parser SbError UInt8 Vector2 := do
  let x ← parseCoordinate F scale
  let y ← parseCoordinate F scale
  pure ⟨x, y⟩

/-- `sb_rth_plan_get_point`. -/
def getPoint (plan : RthPlan) (index : ℕ) : Checked SbError Vector2 :=
  if plan.numPoints ≤ index then
    error .einval
  else do
    let (point, _) ← parsePoint F plan.scale plan.buffer (plan.offsetOfPoint index)
    pure point

/-! ### Evaluation -/

/-- What `sb_rth_plan_evaluate_at` keeps from one entry to the next: the cumulative time, the
index of the target and the entry that is being put together. -/
structure EntryState where
  timeS : ℕ
  pointIndex : ℕ
  entry : RthPlanEntry
  deriving DecidableEq, Repr

/-- The entry before the first one: land, at the time that was asked for. -/
def EntryState.initial (time : TimeSec) : EntryState where
  timeS := 0
  pointIndex := 0
  entry :=
    { timeSec := time
      action := .land
      durationSec := 0
      target := ⟨0, 0⟩
      targetAltitude := 0
      preDelaySec := 0
      postDelaySec := 0
      preNeckMm := 0
      preNeckDurationSec := 0 }

/-- The parameters of an action that is not the same as the one before. -/
def parseParameters (scale : ℕ) (action : RthAction) (s : EntryState) :
    Parser SbError UInt8 EntryState := do
  let pointIndex ← Parser.optional action.hasTarget parseVaruint32.check 0
  let targetAltitude ← Parser.optional action.hasTargetAltitude (parseCoordinate F scale) 0
  let preNeckMm ← Parser.optional action.hasNeck (parseCoordinate F scale) 0
  let preNeckDurationSec ← Parser.optional action.hasNeck (parseDuration F) 0
  pure
    { s with
      pointIndex := pointIndex
      entry :=
        { s.entry with
          action := action
          targetAltitude := targetAltitude
          preNeckMm := preNeckMm
          preNeckDurationSec := preNeckDurationSec } }

/-- The action of an entry with its parameters; they stay if the action is the same. -/
def parseAction (scale : ℕ) (action : RthAction) (s : EntryState) :
    Parser SbError UInt8 EntryState :=
  if action ≠ .sameAsPrevious then parseParameters F scale action s else pure s

/-- The duration and the delays of an entry. -/
def parseDurations (flags : UInt8) (s : EntryState) : Parser SbError UInt8 EntryState := do
  let durationSec ← Parser.optional s.entry.action.hasDuration (parseDuration F) 0
  let preDelaySec ← Parser.optional (flags &&& 0x02 ≠ 0) (parseDuration F) 0
  let postDelaySec ← Parser.optional (flags &&& 0x01 ≠ 0) (parseDuration F) 0
  pure
    { s with
      entry :=
        { s.entry with
          durationSec := durationSec
          preDelaySec := preDelaySec
          postDelaySec := postDelaySec } }

/-- The cumulative time of an entry, in 32 bits. -/
def parseTime (s : EntryState) : Parser SbError UInt8 EntryState := do
  let timeDiffS ← parseVaruint32.check
  if (timeDiffS + s.timeS) % 2 ^ 32 < s.timeS then
    Parser.throw .eoverflow
  else
    let timeS := (timeDiffS + s.timeS) % 2 ^ 32
    pure { s with timeS := timeS, entry := { s.entry with timeSec := .finite (F timeS) } }

/-- The body of the loop of `sb_rth_plan_evaluate_at`: one entry. -/
def parseEntry (scale : ℕ) (s : EntryState) : Parser SbError UInt8 EntryState := do
  let flags ← Parser.cell
  let s ← parseTime F s
  let s ← parseAction F scale (.ofFlags flags) s
  parseDurations F flags s

/-- The loop of `sb_rth_plan_evaluate_at`: parse entries up to the first one that is not before
the given time. -/
def parseEntries (scale : ℕ) (time : TimeSec) :
    ℕ → EntryState → Parser SbError UInt8 EntryState
  | 0, s => pure s
  | numEntries + 1, s => do
      let s ← parseEntry F scale s
      if time.isAtMost (F s.timeS) then
        pure s
      else
        parseEntries scale time numEntries s

/-- The target of the entry that was selected. -/
def targetOf (plan : RthPlan) (s : EntryState) : Checked SbError Vector2 :=
  if s.entry.action.hasTarget then plan.getPoint F s.pointIndex else ok ⟨0, 0⟩

/-- `sb_rth_plan_evaluate_at`. -/
def evaluateAt (plan : RthPlan) (time : TimeSec) : Checked SbError RthPlanEntry := do
  let numEntries ← plan.getNumEntries
  let numEntries := if time.isBefore 0 then 0 else numEntries
  let (s, _) ← parseEntries F plan.scale time numEntries (.initial time) plan.buffer
    plan.offsetOfFirstEntry
  let target ← plan.targetOf F s
  pure { s.entry with target := target }

end RthPlan

end Skybrush
