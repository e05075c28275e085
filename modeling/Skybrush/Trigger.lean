import Mathlib.Data.Int.Notation
import Mathlib.Tactic.Common

/-!
# Triggers

Triggers watch a channel of a signal source and fire on an edge of its signal
(`trigger.cpp`, `edge_detector.h`). Signal sources live outside the player: a pointer to
one is an optional address, and `Signals` is what the sources at each address show at
the time of a call.

A trigger that is not active never fires and never becomes active by itself, which is
all that the light player, with no signal source, needs.

## Main results

* `Trigger.checkAndFireWhenNeeded_of_inactive`: an inactive trigger does nothing.
* `Trigger.watchChannel_none_active`: without a signal source a trigger stays inactive.
-/

namespace Skybrush

/-- What a signal source shows: `SignalSource`. -/
structure SignalSource where
  numChannels : UInt8
  channelValue : UInt8 → UInt8
  filteredChannelValue : UInt8 → UInt8

/-- The signal sources at each address, at the time of a call. -/
abbrev Signals := ℕ → SignalSource

/-- Signal sources without any channel. -/
def Signals.silent : Signals := fun _ => ⟨0, id, id⟩

/-- A pointer to a signal source, `none` when it is null. -/
abbrev SignalSourcePtr := Option ℕ

/-! ### Edge detection -/

/-- `EdgeDetectorState`. -/
inductive EdgeDetectorState where
  | start
  | signalLow
  | signalHigh
  | signalRising
  | signalFalling
  deriving DecidableEq, Repr

/-- An edge detector: `EdgeDetector`. Its only callback is the one that fires the trigger
it belongs to, so a callback is either installed or not. -/
structure EdgeDetector where
  midRangeStart : UInt8
  midRangeEnd : UInt8
  debounceMs : UInt16
  lastTransition : ℤ
  state : EdgeDetectorState
  risingCallback : Bool
  fallingCallback : Bool
  deriving DecidableEq, Repr

namespace EdgeDetector

/-- The constructed edge detector. -/
def initial : EdgeDetector where
  midRangeStart := 64
  midRangeEnd := 192
  debounceMs := 0
  lastTransition := 0
  state := .start
  risingCallback := false
  fallingCallback := false

/-- Reset the detector to its ground state: `EdgeDetector::reset`. -/
def reset (d : EdgeDetector) : EdgeDetector := { d with lastTransition := 0, state := .start }

/-- Feed a sample of the signal: `EdgeDetector::feedAnalogSignal`. Returns whether a
callback is called. -/
def feedAnalogSignal (d : EdgeDetector) (signal : UInt8) (time : ℤ) : Bool × EdgeDetector :=
  if 0 < d.debounceMs ∧ d.lastTransition + d.debounceMs.toNat < time then
    (false, d)
  else
    match d.state with
    | .start =>
        if signal < d.midRangeStart then
          (false, { d with state := .signalLow })
        else if d.midRangeEnd ≤ signal then
          (false, { d with state := .signalHigh })
        else
          (false, d)
    | .signalLow =>
        if d.midRangeEnd ≤ signal then
          (d.risingCallback, { d with state := .signalHigh, lastTransition := time })
        else
          (false, d)
    | .signalHigh =>
        if signal < d.midRangeStart then
          (d.fallingCallback, { d with state := .signalLow, lastTransition := time })
        else
          (false, d)
    | .signalRising => (false, d.reset)
    | .signalFalling => (false, d.reset)

end EdgeDetector

/-! ### Triggers -/

/-- `TriggerActionType`. -/
inductive TriggerActionType where
  | resume
  | jumpToAddress
  deriving DecidableEq, Repr

/-- The action of a trigger: `TriggerAction`. -/
structure TriggerAction where
  type : TriggerActionType
  address : ℕ
  deriving DecidableEq, Repr

/-- The edge condition of a trigger: `TriggerEdge`. -/
inductive TriggerEdge where
  | none
  | change
  | falling
  | rising
  deriving DecidableEq, Repr

/-- A trigger: `Trigger`. -/
structure Trigger where
  signalSource : SignalSourcePtr
  action : TriggerAction
  channelIndex : UInt8
  edgeDetector : EdgeDetector
  oneShotMode : Bool
  deriving DecidableEq, Repr

namespace Trigger

/-- The constructed trigger; its value-initialised action is to resume. -/
def initial : Trigger where
  signalSource := none
  action := ⟨.resume, 0⟩
  channelIndex := 0
  edgeDetector := .initial
  oneShotMode := false

/-- Whether the trigger is active: `Trigger::active`. -/
def active (t : Trigger) : Bool := t.signalSource.isSome

/-- Disable the trigger: `Trigger::disable`. -/
def disable (t : Trigger) : Trigger :=
  { t with
    signalSource := none
    channelIndex := 0
    edgeDetector :=
      { t.edgeDetector with risingCallback := false, fallingCallback := false } }

/-- Fire the trigger: `Trigger::fire`. -/
def fire (t : Trigger) : Trigger := if t.oneShotMode then t.disable else t

/-- Check the watched signal, and fire when needed: `Trigger::checkAndFireWhenNeeded`.
Returns whether the trigger fired. -/
def checkAndFireWhenNeeded (t : Trigger) (signals : Signals) (now : ℤ) : Bool × Trigger :=
  match t.signalSource with
  | none => (false, t)
  | some source =>
      let value := (signals source).channelValue t.channelIndex
      let (fired, detector) := t.edgeDetector.feedAnalogSignal value now
      let t := { t with edgeDetector := detector }
      (fired, if fired then t.fire else t)

/-- `Trigger::setOneShotMode`. -/
def setOneShotMode (t : Trigger) : Trigger := { t with oneShotMode := true }

/-- `Trigger::setPermanentMode`. -/
def setPermanentMode (t : Trigger) : Trigger := { t with oneShotMode := false }

/-- Install the callbacks of an edge condition and reset the detector. -/
def installCallbacks (t : Trigger) (rising falling : Bool) : Trigger :=
  { t with
    edgeDetector := EdgeDetector.reset
      { t.edgeDetector with risingCallback := rising, fallingCallback := falling } }

/-- Watch a channel of a signal source: `Trigger::watchChannel`. -/
def watchChannel (t : Trigger) (signals : Signals) (signalSource : SignalSourcePtr)
    (channelIndex : UInt8) (edge : TriggerEdge) : Trigger :=
  let t := { t with
    signalSource := signalSource
    channelIndex := if signalSource.isSome then channelIndex else 0 }
  let outOfRange := match signalSource with
    | none => false
    | some source => decide ((signals source).numChannels ≤ t.channelIndex)
  if outOfRange then
    t.disable
  else
    match edge with
    | .rising => t.installCallbacks true false
    | .falling => t.installCallbacks false true
    | .change => t.installCallbacks true true
    | .none => t.disable

/-- An inactive trigger does nothing. -/
theorem checkAndFireWhenNeeded_of_inactive {t : Trigger} (h : t.active = false)
    (signals : Signals) (now : ℤ) : t.checkAndFireWhenNeeded signals now = (false, t) := by
  have hnone : t.signalSource = none := by simpa [active] using h
  simp only [checkAndFireWhenNeeded, hnone]

/-- Without a signal source a trigger stays inactive. -/
theorem watchChannel_none_active (t : Trigger) (signals : Signals) (channelIndex : UInt8)
    (edge : TriggerEdge) : (t.watchChannel signals none channelIndex edge).active = false := by
  cases edge <;> rfl

end Trigger

end Skybrush
