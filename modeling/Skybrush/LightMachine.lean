import Skybrush.Dispatch

/-!
# The Light Machine

What the executor is for, with everything left out that the light player does not use: a
`LightState` is the control state of a program being played — where it stands, which loops
are open, and the clocks — together with what it shows. The control state moves on its
own, whatever is shown (`Control.step`), and the clock skew compensation factor is one.

The light player has no signal source, so no trigger is ever active, and the bytecode
store is never suspended. An executor like that (`Executor.Inert`) refines the machine,
step by step, and stays like that. The pointer to the signal source is not initialised by
the executor; it is taken to be null, or else the program to have no command that uses it.

## Main results

* `Executor.light_perform`, `Executor.Inert.perform`: performing a command on an inert
  executor is performing it on the machine.
* `Executor.light_step`: so is a step.
* `Look.advance_advance`: advancing a fade twice is advancing it to the later time.
* `LightState.step_step`: a step at which no command is due is absorbed by a later one.
* `Control.wakeup_step`: no step moves the wakeup time back.
-/

namespace Skybrush

/-! ### The machine -/

/-- The control state of a program being played. -/
structure Control where
  location : ℕ
  loops : OpenLoops
  ended : Bool
  origin : ℕ
  cumulative : ℕ
  wakeup : ℕ
  deriving DecidableEq, Repr

/-- A fade that is running. -/
structure Fade where
  start : ℕ
  duration : ℕ
  endColor : RgbColor
  deriving DecidableEq, Repr

/-- What a program shows, and the color that a running fade, or else the next one, starts
from. -/
structure Look where
  color : RgbColor
  startColor : RgbColor
  fade : Option Fade
  pyroChannels : UInt8
  deriving DecidableEq, Repr

/-- The state of a program being played. -/
structure LightState where
  control : Control
  look : Look
  deriving DecidableEq, Repr

namespace Control

variable (F : Rounding)

/-- Put off the next command until a time on the clock of the program. -/
def delayUntil (c : Control) (ms : ℕ) : Control :=
  let wakeup := internalToAbsolute F 1 c.origin (toSigned ms)
  { c with wakeup := if c.wakeup < wakeup then wakeup else c.wakeup }

/-- Account for a command of some duration. -/
def addDuration (c : Control) (duration : ℕ) : Control :=
  let c := { c with cumulative := (c.cumulative + duration) % 2 ^ 64 }
  c.delayUntil F c.cumulative

/-- Wait until a deadline on the clock of the program. -/
def waitUntil (c : Control) (deadlineInHalfFrames : UInt64) : Control :=
  let c := c.delayUntil F (deadlineInHalfFrames * 20).toNat
  { c with cumulative := toUnsigned (absoluteToInternal F 1 c.origin c.wakeup) }

/-- Reset the clock of the program. -/
def resetClock (c : Control) (now : ℕ) : Control :=
  let cumulative := absoluteToInternal F 1 now now
  { c with
    origin := now
    cumulative := if cumulative < 0 then 0 else toUnsigned cumulative }

/-- The effect of a command on the control state. -/
def perform (now : ℕ) (c : Control) : Command → Control
  | .end_ | .invalid _ => { c with ended := true }
  | .nop | .setPyro _ | .setPyroAll _ => c
  | .sleep duration | .setBlack duration | .setWhite duration | .fadeToBlack duration
  | .fadeToWhite duration => c.addDuration F duration
  | .setGray _ duration | .fadeToGray _ duration => c.addDuration F duration
  | .setColor _ duration | .fadeToColor _ duration | .setColorFromChannels _ duration
  | .fadeToColorFromChannels _ duration => c.addDuration F duration
  | .waitUntil deadline => c.waitUntil F deadline
  | .loopBegin iterations =>
      { c with loops := (OpenLoops.begin (maxLoopDepth + 1) c.loops c.location iterations).2 }
  | .loopEnd =>
      { c with
        loops := (OpenLoops.end_ c.loops).2
        location := (OpenLoops.end_ c.loops).1.getD c.location }
  | .resetClock => c.resetClock F now
  | .jump address =>
      if isAddressValid address.toNat then
        { c with location := address.toNat, loops := [] }
      else
        { c with ended := true }
  | .triggeredJump triggerParams address =>
      if triggerEdge triggerParams ≠ .none ∧ ¬ isAddressValid address.toNat then
        { c with ended := true }
      else
        c

/-- The command is due at time `now`. -/
def Due (c : Control) (now : ℕ) : Prop := c.ended = false ∧ c.wakeup ≤ now

instance (c : Control) (now : ℕ) : Decidable (c.Due now) :=
  inferInstanceAs (Decidable (_ ∧ _))

/-- The next command in the code, and the store behind it. -/
def fetch (code : BytecodeStore) (c : Control) : Command × BytecodeStore :=
  (code.seek c.location).fetch

/-- The control state after fetching the next command. -/
def fetched (code : BytecodeStore) (c : Control) : Control :=
  { c with location := (c.fetch code).2.nextIndex }

/-- A step of the control state. -/
def step (code : BytecodeStore) (now : ℕ) (c : Control) : Control :=
  if c.ended then
    { c with wakeup := (now + 60000) % 2 ^ 64 }
  else if c.wakeup ≤ now then
    (c.fetched code).perform F now (c.fetch code).1
  else
    c

end Control

namespace Look

variable (F : Rounding)

/-- Show a color, which the next fade starts from. -/
def setColor (l : Look) (color : RgbColor) : Look :=
  { l with color := color, startColor := color }

/-- The progress of a fade. -/
def progress (f : Fade) (clock : ℕ) : ℚ :=
  (Transition.startAt f.duration f.start).progressPreEasing F clock

/-- Start a fade that ends at the time of the next command. -/
def startFade (l : Look) (color : RgbColor) (now wakeup : ℕ) : Look :=
  let f : Fade := ⟨now, toUnsigned (wakeup - now), color⟩
  { l with
    color := RgbColor.linearInterpolation F l.startColor color (progress F f now)
    fade := if progress F f now < 1 then some f else none }

/-- Advance the running fade. -/
def advance (now : ℕ) (l : Look) : Look :=
  match l.fade with
  | none => l
  | some f =>
      let color := RgbColor.linearInterpolation F l.startColor f.endColor (progress F f now)
      if progress F f now < 1 then
        { l with color := color }
      else
        { l with color := color, startColor := f.endColor, fade := none }

/-- The effect of a command on what is shown, where `wakeup` is the time of the next
command. -/
def perform (now wakeup : ℕ) (l : Look) : Command → Look
  | .setColor color _ => l.setColor color
  | .setGray value _ => l.setColor ⟨value, value, value⟩
  | .setBlack _ | .setColorFromChannels _ _ => l.setColor .black
  | .setWhite _ => l.setColor .white
  | .fadeToColor color _ => l.startFade F color now wakeup
  | .fadeToGray value _ => l.startFade F ⟨value, value, value⟩ now wakeup
  | .fadeToBlack _ | .fadeToColorFromChannels _ _ => l.startFade F .black now wakeup
  | .fadeToWhite _ => l.startFade F .white now wakeup
  | .setPyro channelMask =>
      { l with pyroChannels := Executor.maskPyroChannels l.pyroChannels channelMask }
  | .setPyroAll channelValues => { l with pyroChannels := channelValues &&& 127 }
  | _ => l

end Look

namespace LightState

variable (F : Rounding)

/-- The effect of a command. -/
def perform (now : ℕ) (st : LightState) (c : Command) : LightState where
  control := st.control.perform F now c
  look := st.look.perform F now (st.control.perform F now c).wakeup c

/-- A step of the machine. -/
def step (code : BytecodeStore) (now : ℕ) (st : LightState) : LightState :=
  if st.control.ended then
    { st with control := { st.control with wakeup := (now + 60000) % 2 ^ 64 } }
  else if st.control.wakeup ≤ now then
    perform F now ⟨st.control.fetched code, st.look.advance F now⟩ (st.control.fetch code).1
  else
    { st with look := st.look.advance F now }

/-- The state of a program before its first step at time zero. -/
def start (code : BytecodeStore) : LightState where
  control :=
    { location := 0
      loops := []
      ended := code.isEmpty
      origin := 0
      cumulative := 0
      wakeup := 0 }
  look := { color := .black, startColor := .black, fade := none, pyroChannels := 0 }

/-- The control state moves on its own. -/
theorem control_step (code : BytecodeStore) (now : ℕ) (st : LightState) :
    (st.step F code now).control = st.control.step F code now := by
  simp only [step, Control.step]
  split
  · rfl
  · split <;> rfl

end LightState

/-! ### The executor refines the machine -/

namespace Executor

/-- The location in the bytecode that an executor stands at. -/
def location (e : Executor) : ℕ :=
  match e.store with
  | some s => s.nextIndex
  | none => 0

/-- The state of the machine that an executor represents. -/
def light (e : Executor) : LightState where
  control :=
    { location := e.location
      loops := e.loopStack.openLoops
      ended := e.ended
      origin := e.lastClockResetTime
      cumulative := e.cumulativeDurationSinceStart
      wakeup := e.nextWakeupTime }
  look :=
    { color := e.currentColor
      startColor := e.transitionHandler.startColor
      fade := if e.transition.active then
          some ⟨e.transition.start, e.transition.duration, e.transitionHandler.endColor⟩
        else
          none
      pyroChannels := e.currentPyroChannels }

/-- An executor that runs the given code and has no active trigger. -/
structure Untriggered (code : BytecodeStore) (e : Executor) : Prop where
  store : ∃ s, e.store = some s ∧ code.SameCode s
  triggers : ∀ i, (e.triggers i).active = false

/-- An executor that runs the given code without triggers, at the pace of the host, and
without reading channels. -/
structure Inert (code : BytecodeStore) (e : Executor) : Prop extends Untriggered code e where
  skew : e.clockSkewCompensationFactor = 1
  channels : e.signalSource = none ∨ code.ChannelFree

variable {code : BytecodeStore}

/-- Only the store and the triggers matter. -/
theorem Untriggered.congr {e e' : Executor} (h : e.Untriggered code)
    (hstore : e'.store = e.store) (htriggers : e'.triggers = e.triggers) :
    e'.Untriggered code :=
  ⟨hstore ▸ h.store, htriggers ▸ h.triggers⟩

/-- Only the store, the skew, the triggers and the signal source matter. -/
theorem Inert.congr {e e' : Executor} (h : e.Inert code) (hstore : e'.store = e.store)
    (hskew : e'.clockSkewCompensationFactor = e.clockSkewCompensationFactor)
    (htriggers : e'.triggers = e.triggers) (hsource : e'.signalSource = e.signalSource) :
    e'.Inert code :=
  ⟨h.toUntriggered.congr hstore htriggers, hskew.trans h.skew, hsource ▸ h.channels⟩

/-- Moving the store activates no trigger. -/
theorem Untriggered.withStore {e : Executor} (h : e.Untriggered code) {s : BytecodeStore}
    (hs : code.SameCode s) : (e.withStore s).Untriggered code :=
  ⟨⟨s, rfl, hs⟩, h.triggers⟩

/-- Moving the store keeps an executor inert. -/
theorem Inert.withStore {e : Executor} (h : e.Inert code) {s : BytecodeStore}
    (hs : code.SameCode s) : (e.withStore s).Inert code :=
  ⟨h.toUntriggered.withStore hs, h.skew, h.channels⟩

/-- Inactive triggers leave the executor as it is. -/
theorem Untriggered.checkAndFireTriggers {e : Executor} (h : e.Untriggered code)
    (signals : Signals) (now : ℕ) : e.checkAndFireTriggers signals now = e :=
  checkAndFireTriggers_of_inactive signals h.triggers now

/-- There is always a trigger to set up while none is active. -/
theorem Inert.findTrigger {e : Executor} (h : e.Inert code) (channelIndex : UInt8) :
    ∃ i, e.findTriggerForChannelIndex channelIndex = some i := by
  rw [findTriggerForChannelIndex]
  cases hfind : (List.finRange maxTriggerCount).find? fun i =>
      (e.triggers i).channelIndex = channelIndex with
  | some i => exact ⟨i, rfl⟩
  | none =>
      rw [Option.none_or, ← Option.isSome_iff_exists, List.find?_isSome]
      exact ⟨⟨0, by decide⟩, List.mem_finRange _, by simp [h.triggers]⟩

variable (F : Rounding) (signals : Signals)

/-- Adding a duration acts on the control state only. -/
theorem light_addDuration {e : Executor} (hskew : e.clockSkewCompensationFactor = 1)
    (duration : ℕ) :
    (e.addDuration F duration).light =
      { e.light with control := e.light.control.addDuration F duration } := by
  simp only [addDuration, delayExecutionUntil, delayExecutionUntilAbsoluteTime,
    internalToAbsoluteTime, hskew, light, Control.addDuration, Control.delayUntil]
  rfl

/-- Waiting for a deadline acts on the control state only. -/
theorem light_waitUntil {e : Executor} (hskew : e.clockSkewCompensationFactor = 1)
    (deadline : UInt64) :
    (e.waitUntil F deadline).light =
      { e.light with control := e.light.control.waitUntil F deadline } := by
  simp only [waitUntil, delayExecutionUntil, delayExecutionUntilAbsoluteTime,
    internalToAbsoluteTime, absoluteToInternalTime, hskew, light, Control.waitUntil,
    Control.delayUntil]
  rfl

/-- Resetting the clock acts on the control state only. -/
theorem light_resetClock {e : Executor} (hskew : e.clockSkewCompensationFactor = 1)
    (now : ℕ) :
    (e.setClockOriginToCurrentTimestamp F now).light =
      { e.light with control := e.light.control.resetClock F now } := by
  simp only [setClockOriginToCurrentTimestamp, absoluteToInternalTime, hskew, light,
    Control.resetClock]
  rfl

/-- Starting a fade acts on the look only. -/
theorem light_startFade (e : Executor) (color : RgbColor) :
    (e.startFade F color e.currentCommandStartTime).light =
      { e.light with
        look := e.light.look.startFade F color e.currentCommandStartTime
          e.light.control.wakeup } := by
  simp only [startFade, stepTransition, Transition.easingFuncLinear, setCurrentColor, light,
    Look.startFade, Look.progress, decide_eq_true_eq]
  rfl

/-- The colors of absent channels are black. -/
theorem light_colorFromChannels {e : Executor} (h : e.signalSource = none)
    (channels : RgbColor) :
    e.colorFromChannels signals channels = (.black, e.setError .operationNotSupported) := by
  simp only [colorFromChannels, h]

/-- Setting up a trigger can only end the program. -/
theorem light_setUpTrigger {e : Executor} (h : e.Inert code) (triggerParams : UInt8)
    (address : ℕ) :
    (e.setUpTrigger signals triggerParams address).light =
      if triggerEdge triggerParams ≠ .none ∧ ¬ isAddressValid address then
        e.stop.light
      else
        e.light := by
  have herr : ((e.setError .invalidAddress).stop).Inert code := h.congr rfl rfl rfl rfl
  obtain ⟨i, hi⟩ := h.findTrigger (triggerParams &&& 0x0F)
  obtain ⟨j, hj⟩ := herr.findTrigger (triggerParams &&& 0x0F)
  by_cases hbad : triggerEdge triggerParams ≠ .none ∧ ¬ isAddressValid address
  · rw [setUpTrigger, if_pos hbad, if_pos hbad, hj]
    rfl
  · rw [setUpTrigger, if_neg hbad, if_neg hbad, hi]
    rfl

/-- The effect of a command that sets a color. -/
theorem light_setAfter {e : Executor} (hskew : e.clockSkewCompensationFactor = 1)
    (duration : ℕ) (color : RgbColor) :
    ((e.addDuration F duration).setCurrentColorAndResetTransition color).light =
      ⟨e.light.control.addDuration F duration, e.light.look.setColor color⟩ := by
  have hset : ∀ e' : Executor, (e'.setCurrentColorAndResetTransition color).light =
      ⟨e'.light.control, e'.light.look.setColor color⟩ := fun _ => rfl
  rw [hset, light_addDuration F hskew]

/-- The effect of a command that fades to a color. -/
theorem light_fadeAfter {e : Executor} (hskew : e.clockSkewCompensationFactor = 1)
    (duration : ℕ) (color : RgbColor) :
    ((e.addDuration F duration).startFade F color e.currentCommandStartTime).light =
      ⟨e.light.control.addDuration F duration,
        e.light.look.startFade F color e.currentCommandStartTime
          (e.light.control.addDuration F duration).wakeup⟩ := by
  have hfade := light_startFade F (e.addDuration F duration) color
  rw [light_addDuration F hskew] at hfade
  exact hfade

/-- **Performing a command** on an inert executor is performing it on the machine. -/
theorem light_perform {e : Executor} (h : e.Inert code) {c : Command}
    (hc : e.signalSource = none ∨ c.usesChannels = false) :
    (e.perform F signals c).light = e.light.perform F e.currentCommandStartTime c := by
  have hset := light_setAfter F h.skew
  have hfade := light_fadeAfter F h.skew
  obtain ⟨s, hs, -⟩ := h.store
  cases c with
  | end_ | nop | setPyro _ | setPyroAll _ | invalid _ => rfl
  | sleep duration => exact light_addDuration F h.skew duration
  | waitUntil deadline => exact light_waitUntil F h.skew deadline
  | resetClock => exact light_resetClock F h.skew _
  | setColor _ duration | setGray _ duration | setBlack duration | setWhite duration =>
      exact hset duration _
  | fadeToColor _ duration | fadeToGray _ duration | fadeToBlack duration
  | fadeToWhite duration => exact hfade duration _
  | setColorFromChannels channels duration =>
      have hsrc : e.signalSource = none := hc.resolve_right (by simp [Command.usesChannels])
      simp only [perform, light_colorFromChannels signals hsrc]
      exact hset duration .black
  | fadeToColorFromChannels channels duration =>
      have hsrc : e.signalSource = none := hc.resolve_right (by simp [Command.usesChannels])
      simp only [perform, light_colorFromChannels signals hsrc]
      exact hfade duration .black
  | loopBegin iterations =>
      have hbegin := congrArg Prod.snd (LoopStack.openLoops_begin e.loopStack s.nextIndex
        iterations)
      have hloc : e.location = s.nextIndex := by rw [location, hs]
      simp only [perform, beginLoop, hs, Option.bind_some, BytecodeStore.tell]
      simp only [light, LightState.perform, Control.perform, Look.perform, location, hs, ← hbegin]
  | loopEnd =>
      have hend := LoopStack.openLoops_end_ e.loopStack
      have hfst := congrArg Prod.fst hend
      have hsnd := congrArg Prod.snd hend
      simp only at hfst hsnd
      simp only [perform, handleLoopEndCommand, LightState.perform, Control.perform,
        Look.perform]
      cases hjump : e.loopStack.end_.1 with
      | none =>
          rw [hjump] at hfst
          simp only [light, location, ← hfst, ← hsnd, Option.getD_none]
      | some target =>
          rw [hjump] at hfst
          simp only [light, location, seekStore, hs, ← hfst, ← hsnd, Option.getD_some,
            Option.map_some, BytecodeStore.seek]
  | jump address =>
      simp only [perform, jumpTo, LightState.perform, Control.perform, Look.perform]
      split
      · simp only [light, location, seekStore, hs, Option.map_some, BytecodeStore.seek,
          LoopStack.openLoops_clear]
      · rfl
  | triggeredJump triggerParams address =>
      simp only [perform, light_setUpTrigger signals h, LightState.perform, Control.perform,
        Look.perform]
      split <;> rfl

/-- Moving to another location activates no trigger. -/
theorem Untriggered.seekStore {e : Executor} (h : e.Untriggered code) (target : ℕ) :
    (e.seekStore target).Untriggered code := by
  obtain ⟨s, hs, hcode⟩ := h.store
  refine ⟨⟨s.seek target, ?_, hcode.seek target⟩, h.triggers⟩
  simp only [Executor.seekStore, hs, Option.map_some]

/-- Moving to another location keeps an executor inert. -/
theorem Inert.seekStore {e : Executor} (h : e.Inert code) (target : ℕ) :
    (e.seekStore target).Inert code :=
  ⟨h.toUntriggered.seekStore target, h.skew, h.channels⟩

/-- Setting up a trigger without a signal source keeps an executor inert. -/
theorem Inert.setUpTrigger {e : Executor} (h : e.Inert code) (hsrc : e.signalSource = none)
    (triggerParams : UInt8) (address : ℕ) :
    (e.setUpTrigger signals triggerParams address).Inert code := by
  have key : ∀ e' : Executor, e'.Inert code →
      ∀ (i : Fin maxTriggerCount) (t : Trigger), t.active = false →
        ({ e' with triggers := Function.update e'.triggers i t } : Executor).Inert code := by
    intro e' h' i t ht
    refine ⟨⟨h'.store, fun k => ?_⟩, h'.skew, h'.channels⟩
    change (Function.update e'.triggers i t k).active = false
    by_cases hk : k = i
    · rw [hk, Function.update_self]
      exact ht
    · rw [Function.update_of_ne hk]
      exact h'.triggers k
  have hwatch : ∀ source : SignalSourcePtr, source = none →
      ∀ (t : Trigger) (channelIndex : UInt8) (edge : TriggerEdge),
        (if triggerParams &&& 0x40 != 0 then
          (t.watchChannel signals source channelIndex edge).setOneShotMode
        else
          (t.watchChannel signals source channelIndex edge).setPermanentMode).active = false := by
    rintro _ rfl t channelIndex edge
    have hinactive := t.watchChannel_none_active signals channelIndex edge
    split <;> exact hinactive
  have herr : ((e.setError .invalidAddress).stop).Inert code := h.congr rfl rfl rfl rfl
  obtain ⟨i, hi⟩ := h.findTrigger (triggerParams &&& 0x0F)
  obtain ⟨j, hj⟩ := herr.findTrigger (triggerParams &&& 0x0F)
  by_cases hbad : triggerEdge triggerParams ≠ .none ∧ ¬ isAddressValid address
  · rw [Executor.setUpTrigger, if_pos hbad, hj]
    exact key _ herr j _ (hwatch _ hsrc _ _ _)
  · rw [Executor.setUpTrigger, if_neg hbad, hi]
    exact key e h i _ (hwatch _ hsrc _ _ _)

/-- **Performing a command** keeps an executor inert. -/
theorem Inert.perform {e : Executor} (h : e.Inert code) {c : Command}
    (hc : e.signalSource = none ∨ c.usesChannels = false) :
    (e.perform F signals c).Inert code := by
  obtain ⟨s, hs, -⟩ := h.store
  cases c with
  | loopBegin iterations =>
      simp only [Executor.perform, beginLoop, hs, Option.bind_some, BytecodeStore.tell]
      exact h.congr hs.symm rfl rfl rfl
  | loopEnd =>
      have hstack : ({ e with loopStack := e.loopStack.end_.2 } : Executor).Inert code :=
        h.congr rfl rfl rfl rfl
      simp only [Executor.perform, handleLoopEndCommand]
      split
      · exact hstack.seekStore _
      · exact hstack
  | jump address =>
      simp only [Executor.perform, jumpTo]
      split
      · exact (h.seekStore address.toNat).congr rfl rfl rfl rfl
      · exact h.congr rfl rfl rfl rfl
  | triggeredJump triggerParams address =>
      have hsrc : e.signalSource = none := hc.resolve_right (by simp [Command.usesChannels])
      exact h.setUpTrigger signals hsrc triggerParams address.toNat
  | setColorFromChannels channels duration =>
      have hsrc : e.signalSource = none := hc.resolve_right (by simp [Command.usesChannels])
      simp only [Executor.perform, light_colorFromChannels signals hsrc]
      exact h.congr rfl rfl rfl rfl
  | fadeToColorFromChannels channels duration =>
      have hsrc : e.signalSource = none := hc.resolve_right (by simp [Command.usesChannels])
      simp only [Executor.perform, light_colorFromChannels signals hsrc]
      exact h.congr rfl rfl rfl rfl
  | _ => exact h.congr rfl rfl rfl rfl

/-! ### Steps -/

/-- Advancing the transition acts on the look only. -/
theorem light_handleActiveTransition (e : Executor) (now : ℕ) :
    (e.handleActiveTransition F now).light =
      { e.light with look := e.light.look.advance F now } := by
  have hp : Look.progress F
      ⟨e.transition.start, e.transition.duration, e.transitionHandler.endColor⟩ now =
        e.transition.progressPreEasing F now := rfl
  cases hactive : e.transition.active with
  | false =>
      simp only [handleActiveTransition, light, Look.advance, hactive, Bool.false_eq_true,
        if_false]
  | true =>
      by_cases hlt : e.transition.progressPreEasing F now < 1
      · simp only [handleActiveTransition, hactive, if_true, stepTransition, setCurrentColor,
          Transition.easingFuncLinear, hlt, decide_true, light, Look.advance, hp]
        rfl
      · simp only [handleActiveTransition, hactive, if_true, stepTransition, setCurrentColor,
          Transition.easingFuncLinear, hlt, decide_false, Bool.false_eq_true, if_false, light,
          Look.advance, hp]
        rfl

/-- The store of an executor, as the machine sees it. -/
theorem Untriggered.store_eq {e : Executor} (h : e.Untriggered code) :
    e.store = some (code.seek e.location) := by
  obtain ⟨s, hs, hcode⟩ := h.store
  have hloc : e.location = s.nextIndex := by simp only [location, hs]
  have hseek : (code.seek s.nextIndex).SameCode s :=
    ⟨hcode.data_eq, hcode.size_eq, hcode.suspend_eq⟩
  rw [hs, hloc]
  exact congrArg some (hseek.eq rfl)

/-- Without a pending clock reset the first part of a step does nothing. -/
theorem handleResetClockFlag_of_not {e : Executor} (hflag : e.resetClockFlag = false)
    (now : ℕ) : e.handleResetClockFlag F now = e := by
  rw [handleResetClockFlag, hflag]
  rfl

/-- **Before its command**, a step of an inert executor only advances the fade. -/
theorem Inert.prepare {e : Executor} (h : e.Inert code) (hflag : e.resetClockFlag = false)
    (now : ℕ) :
    (e.prepare F signals now).Inert code ∧
      (e.prepare F signals now).light = { e.light with look := e.light.look.advance F now } ∧
      (e.prepare F signals now).currentCommandStartTime = now ∧
      (e.prepare F signals now).signalSource = e.signalSource := by
  have hlight := light_handleActiveTransition F e now
  have hframe : (e.handleActiveTransition F now).Inert code ∧
      (e.handleActiveTransition F now).signalSource = e.signalSource := by
    obtain ⟨color, transition, handler, hframe⟩ := handleActiveTransition_frame F e now
    rw [hframe]
    exact ⟨h.congr rfl rfl rfl rfl, rfl⟩
  rw [Executor.prepare, handleResetClockFlag_of_not F hflag, h.checkAndFireTriggers]
  exact ⟨hframe.1.congr rfl rfl rfl rfl, hlight, rfl, hframe.2⟩

/-- A command read from code without channels, or without a signal source, is harmless. -/
theorem Inert.fetch_harmless {e : Executor} (h : e.Inert code) {s : BytecodeStore}
    (hs : code.SameCode s) : e.signalSource = none ∨ s.fetch.1.usesChannels = false :=
  h.channels.imp_right fun hfree => (hfree.of_sameCode hs).fetch

/-- Only the wakeup time is moved. -/
theorem light_setWakeup (e : Executor) (wakeup : ℕ) :
    ({ e with nextWakeupTime := wakeup } : Executor).light =
      { e.light with control := { e.light.control with wakeup := wakeup } } := rfl

/-- Only the store is moved. -/
theorem light_withStore (e : Executor) (s : BytecodeStore) :
    (e.withStore s).light =
      ⟨{ e.light.control with location := s.nextIndex }, e.light.look⟩ := rfl

/-- **A step** of an inert executor is a step of the machine, and keeps it inert. -/
theorem light_step {e : Executor} (h : e.Inert code) (hflag : e.resetClockFlag = false)
    (now : ℕ) :
    (e.step F signals now).light = e.light.step F code now ∧
      (e.step F signals now).Inert code := by
  have hreset := handleResetClockFlag_of_not F hflag now
  obtain ⟨hinert, hlight, hnow, hsource⟩ := h.prepare F signals hflag now
  have hwakeup : (e.prepare F signals now).nextWakeupTime = e.light.control.wakeup :=
    congrArg (·.control.wakeup) hlight
  have hcase := step_cases F signals e now
  generalize e.step F signals now = e' at hcase ⊢
  rw [LightState.step]
  cases hcase with
  | ended hended =>
      rw [hreset] at hended ⊢
      rw [if_pos (show e.light.control.ended = true from hended)]
      exact ⟨light_setWakeup e _, h.congr rfl rfl rfl rfl⟩
  | idle hended hdue =>
      rw [hreset] at hended
      rw [hwakeup] at hdue
      rw [if_neg (show ¬ e.light.control.ended = true from Bool.eq_false_iff.mp hended),
        if_neg hdue]
      exact ⟨hlight, hinert.congr rfl rfl rfl rfl⟩
  | noStore hended hdue hnone => exact absurd (hnone.symm.trans hinert.store_eq) (by simp)
  | perform s hended hdue hsome =>
      rw [hreset] at hended
      rw [hwakeup] at hdue
      have hloc : (e.prepare F signals now).location = e.light.control.location :=
        congrArg (·.control.location) hlight
      have hs : s = code.seek e.light.control.location :=
        hloc ▸ Option.some.inj (hsome.symm.trans hinert.store_eq)
      have hcode : code.SameCode s := hs ▸ (BytecodeStore.SameCode.refl code).seek _
      have hready := hinert.withStore (hcode.trans (BytecodeStore.advances_fetch s).sameCode)
      have hchannels := h.fetch_harmless hcode
      rw [← hsource] at hchannels
      rw [if_neg (show ¬ e.light.control.ended = true from Bool.eq_false_iff.mp hended),
        if_pos hdue, light_perform F signals hready hchannels]
      refine ⟨?_, hready.perform F signals hchannels⟩
      have hrepr : ((e.prepare F signals now).withStore s.fetch.2).light =
          ⟨e.light.control.fetched code, e.light.look.advance F now⟩ := by
        rw [light_withStore, hlight, hs]
        rfl
      have hstart : ((e.prepare F signals now).withStore s.fetch.2).currentCommandStartTime =
          now := hnow
      rw [hrepr, hstart, hs]
      rfl

end Executor

/-! ### Absorption and progress -/

/-- **Advancing a fade twice** is advancing it to the later time. -/
theorem Look.advance_advance (F : Rounding) (l : Look) {a b : ℕ} (hab : a ≤ b) :
    (l.advance F a).advance F b = l.advance F b := by
  cases hfade : l.fade with
  | none => simp only [advance, hfade]
  | some f =>
      by_cases hlt : progress F f a < 1
      · simp only [advance, hfade, hlt, if_true]
      · -- the fade is complete at both times, and both show its end color
        have ha : progress F f a = 1 :=
          le_antisymm (Transition.progressPreEasing_le_one F _ a) (not_lt.mp hlt)
        have hb : progress F f b = 1 := Transition.progressPreEasing_of_one_le hab ha.ge
        simp only [advance, hfade, ha, hb, lt_irrefl, if_false]

/-- A command that is not due at the earlier of two steps is left to the later one, and
the earlier step is not seen any more. -/
theorem LightState.step_step (F : Rounding) (code : BytecodeStore) (st : LightState)
    {a b : ℕ} (hab : a ≤ b) (hdue : ¬ st.control.Due a) :
    (st.step F code a).step F code b = st.step F code b := by
  cases hended : st.control.ended with
  | true => simp only [step, hended, if_true]
  | false =>
      have hwait : ¬ st.control.wakeup ≤ a := fun h => hdue ⟨hended, h⟩
      simp only [step, hended, hwait, Bool.false_eq_true, if_false,
        Look.advance_advance F _ hab]

namespace Control

variable (F : Rounding) (code : BytecodeStore)

theorem wakeup_delayUntil (c : Control) (ms : ℕ) : c.wakeup ≤ (c.delayUntil F ms).wakeup := by
  simp only [delayUntil]
  split
  · exact Nat.le_of_lt ‹_›
  · exact le_rfl

/-- No command moves the wakeup time back. -/
theorem wakeup_perform (now : ℕ) (c : Control) (cmd : Command) :
    c.wakeup ≤ (c.perform F now cmd).wakeup := by
  have hadd : ∀ duration, c.wakeup ≤ (c.addDuration F duration).wakeup := fun duration =>
    wakeup_delayUntil F { c with cumulative := (c.cumulative + duration) % 2 ^ 64 } _
  cases cmd with
  | waitUntil deadline => exact wakeup_delayUntil F c _
  | jump address =>
      simp only [perform]
      split <;> exact le_rfl
  | triggeredJump triggerParams address =>
      simp only [perform]
      split <;> exact le_rfl
  | sleep _ | setColor _ _ | setGray _ _ | setBlack _ | setWhite _ | fadeToColor _ _
  | fadeToGray _ _ | fadeToBlack _ | fadeToWhite _ | setColorFromChannels _ _
  | fadeToColorFromChannels _ _ => exact hadd _
  | _ => exact le_rfl

/-- **Progress.** While the program runs, no step moves the wakeup time back. -/
theorem wakeup_step {c : Control} (h : c.ended = false) (now : ℕ) :
    c.wakeup ≤ (c.step F code now).wakeup := by
  simp only [step, h, Bool.false_eq_true, if_false]
  split
  · exact wakeup_perform F now (c.fetched code) _
  · exact le_rfl

/-- A program that has ended stays ended. -/
theorem ended_step {c : Control} (h : c.ended = true) (now : ℕ) :
    (c.step F code now).ended = true := by
  simp only [step, h, if_true]

end Control

end Skybrush
