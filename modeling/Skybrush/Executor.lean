import Skybrush.Command
import Skybrush.LoopStack
import Skybrush.Transition
import Skybrush.Trigger
import Mathlib.Data.List.FinRange

/-!
# The Command Executor

The executor of the light bytecode (`executor.cpp`). It is driven by calls of `step` with
the current time of the host; a call advances the running fade and executes at most one
command, and returns the time of the next one. The executor keeps two clocks apart: the
clock of the host, and its own, which starts at the last clock reset and runs faster or
slower by the clock skew compensation factor. Conversions between them are carried out in
single precision, modelled by a `Rounding`.

Times are natural numbers below `2 ^ 64`, the range of `unsigned long`. The definitions
follow the source one by one.
-/

namespace Skybrush

open Rounding

/-- The error codes that the executor sets: `Errors::Code`. -/
inductive ErrorCode where
  | success
  | invalidCommandCode
  | operationNotSupported
  | invalidAddress
  | invalidChannelIndex
  | invalidTriggerActionType
  | noMoreAvailableTriggers
  deriving DecidableEq, Repr

/-- `CONFIG_MAX_TRIGGER_COUNT`. -/
def maxTriggerCount : ℕ := 4

/-- Conversion from `unsigned long` to `signed long`. -/
def toSigned (n : ℕ) : ℤ := Int.bmod n (2 ^ 64)

/-- Conversion of an integer to `unsigned long`. -/
def toUnsigned (n : ℤ) : ℕ := (n % 2 ^ 64).toNat

/-- Small numbers are not changed by the conversions. -/
theorem toSigned_of_lt {n : ℕ} (h : n < 2 ^ 63) : toSigned n = n := by
  refine Int.bmod_eq_of_le ?_ ?_
  · norm_num
  · norm_num
    exact_mod_cast h

theorem toUnsigned_natCast {n : ℕ} (h : n < 2 ^ 64) : toUnsigned n = n := by
  rw [toUnsigned]
  omega

/-- Converting there and back changes nothing. -/
theorem toUnsigned_toSigned {n : ℕ} (h : n < 2 ^ 64) : toUnsigned (toSigned n) = n := by
  have hemod : Int.bmod n 18446744073709551616 % 18446744073709551616 =
      (n : ℤ) % 18446744073709551616 := Int.bmod_emod
  have hsame : toUnsigned (toSigned n) = toUnsigned n := congrArg Int.toNat hemod
  exact hsame.trans (toUnsigned_natCast h)

theorem toUnsigned_lt (n : ℤ) : toUnsigned n < 2 ^ 64 := by
  rw [toUnsigned]
  omega

/-- Conversion of a floating-point number without fraction to `signed long`. Out of range it is
undefined; on x86-64 it gives the smallest number of the type. -/
def floatToSigned (n : ℤ) : ℤ := if -2 ^ 63 ≤ n ∧ n < 2 ^ 63 then n else -2 ^ 63

/-- Conversion of a floating-point number without fraction to `unsigned long`. Out of range it
is undefined; on x86-64 negative numbers wrap around, and too large ones give zero. -/
def floatToUnsigned (n : ℤ) : ℕ :=
  if n < 2 ^ 63 then toUnsigned (floatToSigned n) else if n < 2 ^ 64 then n.toNat else 0

theorem floatToSigned_natCast {n : ℕ} (h : n < 2 ^ 63) : floatToSigned n = n := by
  rw [floatToSigned, if_pos (by omega)]

theorem floatToUnsigned_natCast {n : ℕ} (h : n < 2 ^ 64) : floatToUnsigned n = n := by
  rw [floatToUnsigned]
  split
  case isTrue hlt => rw [floatToSigned_natCast (by omega), toUnsigned_natCast h]
  case isFalse => rw [if_pos (by omega), Int.toNat_natCast]

theorem floatToUnsigned_lt (n : ℤ) : floatToUnsigned n < 2 ^ 64 := by
  rw [floatToUnsigned]
  split
  · exact toUnsigned_lt _
  · split <;> omega

/-- Addresses have to fit into an `int`: `isAddressValid`. -/
def isAddressValid (address : ℕ) : Bool := address < 2 ^ 31 - 1

/-- The color-related half of a fade: `CommandExecutorTransitionHandler`. -/
structure TransitionHandler where
  startColor : RgbColor
  endColor : RgbColor
  deriving DecidableEq, Repr

/-- The executor: `CommandExecutor`. The code of the last error, which the source keeps in
a global error handler, is the field `error`. -/
structure Executor where
  store : Option BytecodeStore
  signalSource : SignalSourcePtr
  currentColor : RgbColor
  currentPyroChannels : UInt8
  ended : Bool
  loopStack : LoopStack
  cumulativeDurationSinceStart : ℕ
  currentCommandStartTime : ℕ
  clockSkewCompensationFactor : ℚ
  lastClockResetTime : ℕ
  nextWakeupTime : ℕ
  resetClockFlag : Bool
  transition : Transition
  transitionHandler : TransitionHandler
  triggers : Fin maxTriggerCount → Trigger
  error : ErrorCode

/-- What the fields that the constructor does not initialise happen to hold. -/
structure UninitMemory where
  signalSource : SignalSourcePtr
  cumulativeDurationSinceStart : ℕ
  currentCommandStartTime : ℕ
  lastClockResetTime : ℕ
  nextWakeupTime : ℕ

/-- Memory that holds zeros. -/
def UninitMemory.zero : UninitMemory := ⟨none, 0, 0, 0, 0⟩

/-- The time on the clock of the host at which the clock of the executor, last reset at
`origin`, shows `ms`. -/
def internalToAbsolute (F : Rounding) (skew : ℚ) (origin : ℕ) (ms : ℤ) : ℕ :=
  floatToUnsigned (roundAway (F (F origin + F (F ms * skew))))

/-- What the clock of the executor, last reset at `origin`, shows at `ms` on the clock of
the host. -/
def absoluteToInternal (F : Rounding) (skew : ℚ) (origin ms : ℕ) : ℤ :=
  floatToSigned (roundAway (F (F (toUnsigned (toSigned ms - origin)) / skew)))

namespace Executor

/-! ### Reading the bytecode -/

/-- Apply an operation of the bytecode store. -/
def withStore (e : Executor) (s : BytecodeStore) : Executor := { e with store := some s }

/-- Read from the bytecode store. The store is never null while the program runs; the
source asserts that, and the model reads a default value then. -/
def readStore {α : Type} (e : Executor) (default : α) (read : BytecodeStore → α × BytecodeStore) :
    α × Executor :=
  match e.store with
  | some s => ((read s).1, e.withStore (read s).2)
  | none => (default, e)

/-- `CommandExecutor::nextByte`. -/
def nextByte (e : Executor) : UInt8 × Executor := e.readStore 0 BytecodeStore.next

/-- `CommandExecutor::nextVarint`. -/
def nextVarint (e : Executor) : UInt64 × Executor := e.readStore 0 BytecodeStore.nextVarint

/-- `CommandExecutor::nextDuration`. -/
def nextDuration (e : Executor) : ℕ × Executor := e.readStore 0 BytecodeStore.nextDuration

/-- The three color bytes, or channel indices, of a command. -/
def nextColor (e : Executor) : RgbColor × Executor :=
  let (red, e) := e.nextByte
  let (green, e) := e.nextByte
  let (blue, e) := e.nextByte
  (⟨red, green, blue⟩, e)

/-- The address of a triggered jump, read only if there is an edge condition. -/
def nextTriggerAddress (e : Executor) (triggerParams : UInt8) : UInt64 × Executor :=
  if triggerEdge triggerParams ≠ .none then e.nextVarint else (0, e)

/-- Move the bytecode store: `m_pBytecodeStore->seek`. -/
def seekStore (e : Executor) (location : ℕ) : Executor :=
  { e with store := e.store.map (·.seek location) }

/-! ### Time -/

/-- `CommandExecutor::internalToAbsoluteTime`. -/
def internalToAbsoluteTime (F : Rounding) (e : Executor) (ms : ℤ) : ℕ :=
  internalToAbsolute F e.clockSkewCompensationFactor e.lastClockResetTime ms

/-- `CommandExecutor::absoluteToInternalTime`. -/
def absoluteToInternalTime (F : Rounding) (e : Executor) (ms : ℕ) : ℤ :=
  absoluteToInternal F e.clockSkewCompensationFactor e.lastClockResetTime ms

/-- `CommandExecutor::delayExecutionUntilAbsoluteTime`. -/
def delayExecutionUntilAbsoluteTime (e : Executor) (ms : ℕ) : Executor :=
  { e with nextWakeupTime := if e.nextWakeupTime < ms then ms else e.nextWakeupTime }

/-- `CommandExecutor::delayExecutionUntil`. -/
def delayExecutionUntil (F : Rounding) (e : Executor) (ms : ℕ) : Executor :=
  e.delayExecutionUntilAbsoluteTime (e.internalToAbsoluteTime F (toSigned ms))

/-- `CommandExecutor::setClockOriginToCurrentTimestamp`. -/
def setClockOriginToCurrentTimestamp (F : Rounding) (e : Executor) (timestamp : ℕ) : Executor :=
  let e := { e with lastClockResetTime := timestamp }
  let newCumulativeDuration := e.absoluteToInternalTime F timestamp
  { e with
    cumulativeDurationSinceStart :=
      if newCumulativeDuration < 0 then 0 else toUnsigned newCumulativeDuration }

/-- Account for the duration of a command, the part of `handleDelayByte` after reading it. -/
def addDuration (F : Rounding) (e : Executor) (duration : ℕ) : Executor :=
  let e := { e with
    cumulativeDurationSinceStart := (e.cumulativeDurationSinceStart + duration) % 2 ^ 64 }
  e.delayExecutionUntil F e.cumulativeDurationSinceStart

/-- `CommandExecutor::handleDelayByte`. -/
def handleDelayByte (F : Rounding) (e : Executor) : Executor :=
  let (duration, e) := e.nextDuration
  e.addDuration F duration

/-! ### Colors -/

/-- Set the code of the last error: `SET_ERROR`. -/
def setError (e : Executor) (error : ErrorCode) : Executor := { e with error := error }

/-- `CommandExecutor::stop`. -/
def stop (e : Executor) : Executor := { e with ended := true }

/-- `CommandExecutor::setCurrentColor`. -/
def setCurrentColor (e : Executor) (color : RgbColor) : Executor :=
  { e with currentColor := color }

/-- `CommandExecutor::setCurrentColorAndResetTransition`. -/
def setCurrentColorAndResetTransition (e : Executor) (color : RgbColor) : Executor :=
  let e := e.setCurrentColor color
  { e with transitionHandler := { e.transitionHandler with startColor := color } }

/-- Make a step in the transition: `Transition::step` with the handler of the executor.
Returns whether the transition shall continue. -/
def stepTransition (F : Rounding) (e : Executor) (clock : ℕ) : Bool × Executor :=
  let progress := e.transition.progressPreEasing F clock
  let transformedProgress := Transition.easingFuncLinear progress
  let e := e.setCurrentColor (RgbColor.linearInterpolation F e.transitionHandler.startColor
    e.transitionHandler.endColor transformedProgress)
  let e := { e with transition := { e.transition with active := decide (progress < 1) } }
  (e.transition.active, e)

/-- Start a fade that was announced at `now` and ends at the next wakeup time, the part of
`fadeColorOfLEDStrip` after reading the duration. -/
def startFade (F : Rounding) (e : Executor) (color : RgbColor) (now : ℕ) : Executor :=
  let actualDuration := toUnsigned (e.nextWakeupTime - now)
  let e := { e with
    transitionHandler := { e.transitionHandler with endColor := color }
    transition := .startAt actualDuration e.currentCommandStartTime }
  (e.stepTransition F now).2

/-- `CommandExecutor::fadeColorOfLEDStrip`. -/
def fadeColorOfLEDStrip (F : Rounding) (e : Executor) (color : RgbColor) : Executor :=
  let now := e.currentCommandStartTime
  let e := e.handleDelayByte F
  e.startFade F color now

/-- The value of one channel of a signal source, or zero for an invalid channel. -/
def channelColor (source : SignalSource) (channel : UInt8) : UInt8 :=
  if source.numChannels ≤ channel then 0 else source.filteredChannelValue channel

/-- The color that three channels of the signal source show, black without a source. An
error is set without a source, and for an invalid channel. -/
def colorFromChannels (signals : Signals) (e : Executor) (channels : RgbColor) :
    RgbColor × Executor :=
  match e.signalSource with
  | none => (.black, e.setError .operationNotSupported)
  | some address =>
      let source := signals address
      let invalid := source.numChannels ≤ channels.red ∨ source.numChannels ≤ channels.green ∨
        source.numChannels ≤ channels.blue
      (⟨channelColor source channels.red, channelColor source channels.green,
          channelColor source channels.blue⟩,
        if invalid then e.setError .invalidChannelIndex else e)

/-! ### Command handlers -/

/-- `CommandExecutor::handleFadeToBlackCommand`. -/
def handleFadeToBlackCommand (F : Rounding) (e : Executor) : Executor :=
  e.fadeColorOfLEDStrip F .black

/-- `CommandExecutor::handleFadeToColorCommand`. -/
def handleFadeToColorCommand (F : Rounding) (e : Executor) : Executor :=
  let (color, e) := e.nextColor
  e.fadeColorOfLEDStrip F color

/-- `CommandExecutor::handleFadeToColorFromChannelsCommand`. -/
def handleFadeToColorFromChannelsCommand (F : Rounding) (signals : Signals) (e : Executor) :
    Executor :=
  let (channels, e) := e.nextColor
  let (color, e) := e.colorFromChannels signals channels
  e.fadeColorOfLEDStrip F color

/-- `CommandExecutor::handleFadeToGrayCommand`. -/
def handleFadeToGrayCommand (F : Rounding) (e : Executor) : Executor :=
  let (value, e) := e.nextByte
  e.fadeColorOfLEDStrip F ⟨value, value, value⟩

/-- `CommandExecutor::handleFadeToWhiteCommand`. -/
def handleFadeToWhiteCommand (F : Rounding) (e : Executor) : Executor :=
  e.fadeColorOfLEDStrip F .white

/-- Jump to an address, or stop at an invalid one. -/
def jumpTo (e : Executor) (address : ℕ) : Executor :=
  if isAddressValid address then
    let e := e.seekStore address
    { e with loopStack := e.loopStack.clear }
  else
    (e.setError .invalidAddress).stop

/-- `CommandExecutor::handleJumpCommand`. -/
def handleJumpCommand (e : Executor) : Executor :=
  let (address, e) := e.nextVarint
  e.jumpTo address.toNat

/-- Begin a loop whose body starts at the current location, the part of
`handleLoopBeginCommand` after reading the number of iterations. -/
def beginLoop (e : Executor) (iterations : UInt8) : Executor :=
  match e.store.bind BytecodeStore.tell with
  | none => (e.setError .operationNotSupported).stop
  | some location => { e with loopStack := (e.loopStack.begin location iterations).2 }

/-- `CommandExecutor::handleLoopBeginCommand`. -/
def handleLoopBeginCommand (e : Executor) : Executor :=
  let (iterations, e) := e.nextByte
  e.beginLoop iterations

/-- `CommandExecutor::handleLoopEndCommand`. -/
def handleLoopEndCommand (e : Executor) : Executor :=
  let (jumpTo, loopStack) := e.loopStack.end_
  let e := { e with loopStack := loopStack }
  match jumpTo with
  | some location => e.seekStore location
  | none => e

/-- `CommandExecutor::handleResetClockCommand`. -/
def handleResetClockCommand (F : Rounding) (e : Executor) : Executor :=
  e.setClockOriginToCurrentTimestamp F e.currentCommandStartTime

/-- The pyro channels after switching those of a mask on or off. -/
def maskPyroChannels (channels channelMask : UInt8) : UInt8 :=
  if channelMask &&& 128 != 0 then
    channels ||| (channelMask &&& 127)
  else
    channels &&& ~~~(channelMask ||| 128)

/-- `CommandExecutor::handleSetPyroCommand`. -/
def handleSetPyroCommand (e : Executor) : Executor :=
  let (channelMask, e) := e.nextByte
  { e with currentPyroChannels := maskPyroChannels e.currentPyroChannels channelMask }

/-- `CommandExecutor::handleSetPyroAllCommand`. -/
def handleSetPyroAllCommand (e : Executor) : Executor :=
  let (channelValues, e) := e.nextByte
  { e with currentPyroChannels := channelValues &&& 127 }

/-- `CommandExecutor::handleSetBlackCommand`. -/
def handleSetBlackCommand (F : Rounding) (e : Executor) : Executor :=
  (e.handleDelayByte F).setCurrentColorAndResetTransition .black

/-- `CommandExecutor::handleSetColorCommand`. -/
def handleSetColorCommand (F : Rounding) (e : Executor) : Executor :=
  let (color, e) := e.nextColor
  (e.handleDelayByte F).setCurrentColorAndResetTransition color

/-- `CommandExecutor::handleSetColorFromChannelsCommand`. -/
def handleSetColorFromChannelsCommand (F : Rounding) (signals : Signals) (e : Executor) :
    Executor :=
  let (channels, e) := e.nextColor
  let (color, e) := e.colorFromChannels signals channels
  (e.handleDelayByte F).setCurrentColorAndResetTransition color

/-- `CommandExecutor::handleSetGrayCommand`. -/
def handleSetGrayCommand (F : Rounding) (e : Executor) : Executor :=
  let (value, e) := e.nextByte
  (e.handleDelayByte F).setCurrentColorAndResetTransition ⟨value, value, value⟩

/-- `CommandExecutor::handleSetWhiteCommand`. -/
def handleSetWhiteCommand (F : Rounding) (e : Executor) : Executor :=
  (e.handleDelayByte F).setCurrentColorAndResetTransition .white

/-- `CommandExecutor::handleSleepCommand`. -/
def handleSleepCommand (F : Rounding) (e : Executor) : Executor := e.handleDelayByte F

/-- The trigger that watches a channel, or else the first one that is not active:
`CommandExecutor::findTriggerForChannelIndex`. -/
def findTriggerForChannelIndex (e : Executor) (channelIndex : UInt8) :
    Option (Fin maxTriggerCount) :=
  ((List.finRange maxTriggerCount).find? fun i =>
    (e.triggers i).channelIndex = channelIndex).or
  ((List.finRange maxTriggerCount).find? fun i => !(e.triggers i).active)

/-- Set up a trigger, the part of `handleTriggeredJumpCommand` after reading the
arguments. The address is checked, but not stored. -/
def setUpTrigger (signals : Signals) (e : Executor) (triggerParams : UInt8) (address : ℕ) :
    Executor :=
  let edge := triggerEdge triggerParams
  let channelIndex := triggerParams &&& 0x0F
  let e := if edge ≠ .none ∧ ¬ isAddressValid address then
      (e.setError .invalidAddress).stop
    else
      e
  match e.findTriggerForChannelIndex channelIndex with
  | none => (e.setError .noMoreAvailableTriggers).stop
  | some i =>
      let trigger := (e.triggers i).watchChannel signals e.signalSource channelIndex edge
      let trigger := if triggerParams &&& 0x40 != 0 then
          trigger.setOneShotMode
        else
          trigger.setPermanentMode
      { e with triggers := Function.update e.triggers i trigger }

/-- `CommandExecutor::handleTriggeredJumpCommand`. -/
def handleTriggeredJumpCommand (signals : Signals) (e : Executor) : Executor :=
  let (triggerParams, e) := e.nextByte
  let (address, e) := e.nextTriggerAddress triggerParams
  e.setUpTrigger signals triggerParams address.toNat

/-- Wait until a deadline on the clock of the executor, the part of
`handleWaitUntilCommand` after reading it. -/
def waitUntil (F : Rounding) (e : Executor) (deadlineInHalfFrames : UInt64) : Executor :=
  let e := e.delayExecutionUntil F (deadlineInHalfFrames * 20).toNat
  { e with
    cumulativeDurationSinceStart := toUnsigned (e.absoluteToInternalTime F e.nextWakeupTime) }

/-- `CommandExecutor::handleWaitUntilCommand`. -/
def handleWaitUntilCommand (F : Rounding) (e : Executor) : Executor :=
  let (deadlineInHalfFrames, e) := e.nextVarint
  e.waitUntil F deadlineInHalfFrames

/-- Execute the next command: `CommandExecutor::executeNextCommand`. -/
def executeNextCommand (F : Rounding) (signals : Signals) (e : Executor) : Executor :=
  if e.ended then
    { e with nextWakeupTime := (e.currentCommandStartTime + 60000) % 2 ^ 64 }
  else
    let (commandCode, e) := e.nextByte
    match CommandCode.ofByte commandCode with
    | some .end_ => e.stop
    | some .nop => e
    | some .sleep => e.handleSleepCommand F
    | some .waitUntil => e.handleWaitUntilCommand F
    | some .setColor => e.handleSetColorCommand F
    | some .setGray => e.handleSetGrayCommand F
    | some .setBlack => e.handleSetBlackCommand F
    | some .setWhite => e.handleSetWhiteCommand F
    | some .fadeToColor => e.handleFadeToColorCommand F
    | some .fadeToGray => e.handleFadeToGrayCommand F
    | some .fadeToBlack => e.handleFadeToBlackCommand F
    | some .fadeToWhite => e.handleFadeToWhiteCommand F
    | some .loopBegin => e.handleLoopBeginCommand
    | some .loopEnd => e.handleLoopEndCommand
    | some .resetClock => e.handleResetClockCommand F
    | some .setColorFromChannels => e.handleSetColorFromChannelsCommand F signals
    | some .fadeToColorFromChannels => e.handleFadeToColorFromChannelsCommand F signals
    | some .jump => e.handleJumpCommand
    | some .triggeredJump => e.handleTriggeredJumpCommand signals
    | some .setPyro => e.handleSetPyroCommand
    | some .setPyroAll => e.handleSetPyroAllCommand
    | none => (e.setError .invalidCommandCode).stop

/-! ### Stepping -/

/-- `CommandExecutor::executeActionOfTrigger`. -/
def executeActionOfTrigger (e : Executor) (action : TriggerAction) : Executor :=
  match action.type with
  | .resume => { e with store := e.store.map BytecodeStore.resume }
  | .jumpToAddress => e.seekStore action.address

/-- Check one trigger, the body of the loop of `checkAndFireTriggers`. -/
def checkAndFireTrigger (signals : Signals) (now : ℕ) (e : Executor)
    (i : Fin maxTriggerCount) : Executor :=
  let (fired, trigger) := (e.triggers i).checkAndFireWhenNeeded signals (toSigned now)
  let e := { e with triggers := Function.update e.triggers i trigger }
  if fired then e.executeActionOfTrigger trigger.action else e

/-- `CommandExecutor::checkAndFireTriggers`. -/
def checkAndFireTriggers (signals : Signals) (e : Executor) (now : ℕ) : Executor :=
  (List.finRange maxTriggerCount).foldl (checkAndFireTrigger signals now) e

/-- The delayed reset of the clock at the start of `step`. -/
def handleResetClockFlag (F : Rounding) (e : Executor) (now : ℕ) : Executor :=
  if e.resetClockFlag then
    let e := e.setClockOriginToCurrentTimestamp F now
    let e := e.setCurrentColorAndResetTransition .black
    { e with resetClockFlag := false, nextWakeupTime := now }
  else
    e

/-- Advance the active transition, if there is one. -/
def handleActiveTransition (F : Rounding) (e : Executor) (now : ℕ) : Executor :=
  if e.transition.active then
    let (continues, e) := e.stepTransition F now
    if continues then
      e
    else
      -- the next transition starts from the current end color
      { e with transitionHandler :=
        { e.transitionHandler with startColor := e.transitionHandler.endColor } }
  else
    e

/-- Execute the next command if its time has come. -/
def handleDueCommand (F : Rounding) (signals : Signals) (e : Executor) (now : ℕ) : Executor :=
  if e.nextWakeupTime ≤ now then
    executeNextCommand F signals { e with currentCommandStartTime := now }
  else
    e

/-- `CommandExecutor::step`, called with the current time of the host. -/
def step (F : Rounding) (signals : Signals) (e : Executor) (now : ℕ) : Executor :=
  let e := e.handleResetClockFlag F now
  if e.ended then
    { e with nextWakeupTime := (now + 60000) % 2 ^ 64 }
  else
    let e := e.checkAndFireTriggers signals now
    let e := e.handleActiveTransition F now
    e.handleDueCommand F signals now

/-! ### Construction -/

/-- `CommandExecutor::resetClock`. -/
def resetClock (e : Executor) : Executor := { e with resetClockFlag := true }

/-- `CommandExecutor::rewind`. -/
def rewind (e : Executor) : Executor :=
  let e := match e.store with
    | some s => { e with store := some s.rewind, ended := s.isEmpty }
    | none => { e with ended := true }
  let e := { e with
    loopStack := e.loopStack.clear
    transition := e.transition.cancel
    currentPyroChannels := 0
    currentColor := ⟨0, 0, 0⟩
    error := .success }
  e.resetClock

/-- `CommandExecutor::CommandExecutor`, in the given memory. -/
def construct (memory : UninitMemory) : Executor :=
  rewind
    { store := none
      signalSource := memory.signalSource
      currentColor := ⟨0, 0, 0⟩
      currentPyroChannels := 0
      ended := true
      loopStack := .empty
      cumulativeDurationSinceStart := memory.cumulativeDurationSinceStart
      currentCommandStartTime := memory.currentCommandStartTime
      clockSkewCompensationFactor := 1
      lastClockResetTime := memory.lastClockResetTime
      nextWakeupTime := memory.nextWakeupTime
      resetClockFlag := false
      transition := .idle
      transitionHandler := ⟨⟨0, 0, 0⟩, ⟨0, 0, 0⟩⟩
      triggers := fun _ => .initial
      error := .success }

/-- `CommandExecutor::setBytecodeStore`. -/
def setBytecodeStore (e : Executor) (s : Option BytecodeStore) : Executor :=
  { e with store := s }.rewind

/-- `CommandExecutor::setSignalSource`. -/
def setSignalSource (e : Executor) (source : SignalSourcePtr) : Executor :=
  { e with signalSource := source }

/-- The pyro channels that the executor shows: `CommandExecutor::currentPyroChannels`. -/
def shownPyroChannels (e : Executor) : UInt8 := e.currentPyroChannels &&& 127

end Executor

end Skybrush
