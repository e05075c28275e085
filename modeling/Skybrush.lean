import Skybrush.Library.Checked
import Skybrush.Library.WhileLoop
import Skybrush.Library.Rounding
import Skybrush.Library.Base128
import Skybrush.LoopStack
import Skybrush.Color
import Skybrush.Transition
import Skybrush.BytecodeStore
import Skybrush.Command
import Skybrush.Trigger
import Skybrush.Executor
import Skybrush.Dispatch
import Skybrush.LoopStackSafety
import Skybrush.LightMachine
import Skybrush.BytecodePlayer
import Skybrush.CommandSchedule
import Skybrush.SeekHistory
import Skybrush.SeekTermination
import Skybrush.StructuredProgram
import Skybrush.LoopUnrolling
import Skybrush.TriggerSafety
import Skybrush.PlayerSteps
import Skybrush.Buffer
import Skybrush.Parsing
import Skybrush.TrajectoryBuilder
import Skybrush.BuilderAtomicity
import Skybrush.Polynomial
import Skybrush.Trajectory
import Skybrush.TrajectorySafety
import Skybrush.BuilderRoundTrip
import Skybrush.Varuint
import Skybrush.RthPlan
import Skybrush.RthLayout
import Skybrush.RthSafety
import Skybrush.RthErrors
import Skybrush.RthEvaluation
import Skybrush.BinaryFile
import Skybrush.Library.Lockstep
import Skybrush.BackendEquivalence
import Skybrush.BinaryChecksum
import Skybrush.BinaryBlocks
import Skybrush.UninitialisedMemory
import Skybrush.LightProvenance
import Skybrush.Timekeeping
import Skybrush.Timeline
import Skybrush.StraightLine
import Skybrush.LoopPlayback
import Skybrush.ShowFile
import Skybrush.Ownership
import Skybrush.StoredTrajectory
import Skybrush.TrajectoryEvaluation
import Skybrush.YawEvaluation
import Skybrush.TriggeredJump
import Skybrush.BuilderReuse
import Skybrush.BuilderPlayback
import Skybrush.BufferRefinement
import Skybrush.Library.CriticalPoints
import Skybrush.PolyExtrema
import Skybrush.BoundingBox
import Skybrush.SafetyMargin
import Skybrush.RthConversion
import Skybrush.BuilderFlight
import Skybrush.RthFlight
import Skybrush.SegmentDerivatives
import Skybrush.TrajectorySpeed
import Skybrush.YawRate
import Skybrush.Mission
import Skybrush.WholeShow
import Skybrush.Library.NearSegment
import Skybrush.SplitLines
import Skybrush.TrajectoryEnds
import Skybrush.BufferGrowth
import Skybrush.BuilderMemory
import Skybrush.Library.Binary32
import Skybrush.TrajectoryCursor
import Skybrush.AltitudeSearch
import Skybrush.AltitudeTermination
import Skybrush.VaruintWidths
import Skybrush.VarintReader
import Skybrush.ArrayStore
import Skybrush.RgbwConversion
import Skybrush.RgbwLight
import Skybrush.ScaleUpdates
