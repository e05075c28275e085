import Skybrush.Executor

/-!
# Dispatching Commands

The handlers of the executor read the arguments of a command and act on them. This module
separates the two: `Executor.perform` is the effect of a command that has been read, and
executing the next command is fetching it and then performing it. What a command does to
one part of the executor is then a case analysis over the commands, without the reading.

## Main results

* `Executor.executeNextCommand_eq`: executing is fetching and then performing.
* `Executor.step_of_executes`: a step that executes a command performs it on the prepared
  executor.
* `Executor.step_cases`: everything that a step can do.
-/

namespace Skybrush

namespace Executor

variable (F : Rounding) (signals : Signals)

/-- The effect of a command that has been read. -/
def perform (e : Executor) : Command → Executor
  | .end_ => e.stop
  | .nop => e
  | .sleep duration => e.addDuration F duration
  | .waitUntil deadline => e.waitUntil F deadline
  | .setColor color duration => (e.addDuration F duration).setCurrentColorAndResetTransition color
  | .setGray value duration =>
      (e.addDuration F duration).setCurrentColorAndResetTransition ⟨value, value, value⟩
  | .setBlack duration => (e.addDuration F duration).setCurrentColorAndResetTransition .black
  | .setWhite duration => (e.addDuration F duration).setCurrentColorAndResetTransition .white
  | .fadeToColor color duration =>
      (e.addDuration F duration).startFade F color e.currentCommandStartTime
  | .fadeToGray value duration =>
      (e.addDuration F duration).startFade F ⟨value, value, value⟩ e.currentCommandStartTime
  | .fadeToBlack duration =>
      (e.addDuration F duration).startFade F .black e.currentCommandStartTime
  | .fadeToWhite duration =>
      (e.addDuration F duration).startFade F .white e.currentCommandStartTime
  | .loopBegin iterations => e.beginLoop iterations
  | .loopEnd => e.handleLoopEndCommand
  | .resetClock => e.handleResetClockCommand F
  | .setColorFromChannels channels duration =>
      ((e.colorFromChannels signals channels).2.addDuration F
        duration).setCurrentColorAndResetTransition (e.colorFromChannels signals channels).1
  | .fadeToColorFromChannels channels duration =>
      ((e.colorFromChannels signals channels).2.addDuration F duration).startFade F
        (e.colorFromChannels signals channels).1 e.currentCommandStartTime
  | .jump address => e.jumpTo address.toNat
  | .triggeredJump triggerParams address => e.setUpTrigger signals triggerParams address.toNat
  | .setPyro channelMask =>
      { e with currentPyroChannels := maskPyroChannels e.currentPyroChannels channelMask }
  | .setPyroAll channelValues => { e with currentPyroChannels := channelValues &&& 127 }
  | .invalid _ => (e.setError .invalidCommandCode).stop

/-! ### Reading from a store that is there -/

section Reading

variable (e : Executor) (s : BytecodeStore)

@[simp] theorem withStore_withStore (s' : BytecodeStore) :
    (e.withStore s).withStore s' = e.withStore s' := rfl

@[simp] theorem nextByte_withStore :
    (e.withStore s).nextByte = (s.next.1, e.withStore s.next.2) := rfl

@[simp] theorem nextVarint_withStore :
    (e.withStore s).nextVarint = (s.nextVarint.1, e.withStore s.nextVarint.2) := rfl

@[simp] theorem nextDuration_withStore :
    (e.withStore s).nextDuration = (s.nextDuration.1, e.withStore s.nextDuration.2) := rfl

@[simp] theorem nextColor_withStore :
    (e.withStore s).nextColor = (s.nextColor.1, e.withStore s.nextColor.2) := by
  simp only [nextColor, nextByte_withStore, BytecodeStore.nextColor]

@[simp] theorem nextTriggerAddress_withStore (triggerParams : UInt8) :
    (e.withStore s).nextTriggerAddress triggerParams =
      ((s.nextTriggerAddress triggerParams).1,
        e.withStore (s.nextTriggerAddress triggerParams).2) := by
  rw [nextTriggerAddress, BytecodeStore.nextTriggerAddress]
  split <;> rfl

@[simp] theorem handleDelayByte_withStore :
    (e.withStore s).handleDelayByte F = (e.withStore s.nextDuration.2).addDuration F
      s.nextDuration.1 := by
  simp only [handleDelayByte, nextDuration_withStore]

@[simp] theorem fadeColorOfLEDStrip_withStore (color : RgbColor) :
    (e.withStore s).fadeColorOfLEDStrip F color =
      ((e.withStore s.nextDuration.2).addDuration F s.nextDuration.1).startFade F color
        e.currentCommandStartTime := by
  simp only [fadeColorOfLEDStrip, handleDelayByte_withStore]
  rfl

/-- The channels are read whatever the location of the store. -/
theorem colorFromChannels_withStore (channels : RgbColor) :
    (e.withStore s).colorFromChannels signals channels =
      ((e.colorFromChannels signals channels).1,
        (e.colorFromChannels signals channels).2.withStore s) := by
  cases hsrc : e.signalSource with
  | none =>
      have hsrc' : (e.withStore s).signalSource = none := hsrc
      simp only [colorFromChannels, hsrc, hsrc']
      rfl
  | some address =>
      have hsrc' : (e.withStore s).signalSource = some address := hsrc
      simp only [colorFromChannels, hsrc, hsrc']
      split <;> rfl

/-- Reading channels sets an error at most. -/
theorem colorFromChannels_frame (channels : RgbColor) :
    ∃ error, (e.colorFromChannels signals channels).2 = e.setError error := by
  simp only [colorFromChannels]
  split
  · exact ⟨_, rfl⟩
  · split
    · exact ⟨_, rfl⟩
    · exact ⟨e.error, rfl⟩

theorem currentCommandStartTime_colorFromChannels (channels : RgbColor) :
    (e.colorFromChannels signals channels).2.currentCommandStartTime =
      e.currentCommandStartTime := by
  obtain ⟨error, hframe⟩ := colorFromChannels_frame signals e channels
  rw [hframe]
  rfl

end Reading

/-- A store that is there is put back unchanged. -/
theorem withStore_of_store {e : Executor} {s : BytecodeStore} (h : e.store = some s) :
    e.withStore s = e := by
  rw [withStore, ← h]

/-- **Executing is fetching and then performing.** -/
theorem executeNextCommand_eq {e : Executor} {s : BytecodeStore} (hs : e.store = some s)
    (hend : e.ended = false) :
    e.executeNextCommand F signals = (e.withStore s.fetch.2).perform F signals s.fetch.1 := by
  rw [← withStore_of_store hs] at hend ⊢
  simp only [executeNextCommand, hend, nextByte_withStore, BytecodeStore.fetch, if_false,
    withStore_withStore, Bool.false_eq_true]
  cases hc : CommandCode.ofByte s.next.1 with
  | none => rfl
  | some code =>
      cases code with
      | end_ | nop | loopEnd | resetClock => rfl
      | sleep | setBlack | setWhite | fadeToBlack | fadeToWhite =>
          simp only [handleSleepCommand, handleSetBlackCommand, handleSetWhiteCommand,
            handleFadeToBlackCommand, handleFadeToWhiteCommand, handleDelayByte_withStore,
            fadeColorOfLEDStrip_withStore, BytecodeStore.fetchArguments,
            BytecodeStore.fetchDuration, perform] <;> rfl
      | waitUntil | jump =>
          simp only [handleWaitUntilCommand, handleJumpCommand, nextVarint_withStore,
            BytecodeStore.fetchArguments, perform]
      | setGray | fadeToGray =>
          simp only [handleSetGrayCommand, handleFadeToGrayCommand, nextByte_withStore,
            handleDelayByte_withStore, fadeColorOfLEDStrip_withStore,
            BytecodeStore.fetchArguments, BytecodeStore.fetchGrayAndDuration, perform] <;> rfl
      | setColor | fadeToColor =>
          simp only [handleSetColorCommand, handleFadeToColorCommand, nextColor_withStore,
            handleDelayByte_withStore, fadeColorOfLEDStrip_withStore,
            BytecodeStore.fetchArguments, BytecodeStore.fetchColorAndDuration, perform] <;> rfl
      | loopBegin | setPyro | setPyroAll =>
          simp only [handleLoopBeginCommand, handleSetPyroCommand, handleSetPyroAllCommand,
            nextByte_withStore, BytecodeStore.fetchArguments, perform]
      | setColorFromChannels | fadeToColorFromChannels =>
          simp only [handleSetColorFromChannelsCommand, handleFadeToColorFromChannelsCommand,
            nextColor_withStore, colorFromChannels_withStore, handleDelayByte_withStore,
            fadeColorOfLEDStrip_withStore, currentCommandStartTime_colorFromChannels, perform,
            BytecodeStore.fetchArguments, BytecodeStore.fetchColorAndDuration] <;> rfl
      | triggeredJump =>
          simp only [handleTriggeredJumpCommand, nextByte_withStore,
            nextTriggerAddress_withStore, BytecodeStore.fetchArguments, perform]

/-! ### The command that a step executes -/

/-- The executor after the part of a step that comes before the next command. -/
def prepare (e : Executor) (now : ℕ) : Executor :=
  { ((e.handleResetClockFlag F now).checkAndFireTriggers signals now).handleActiveTransition F
      now with currentCommandStartTime := now }

/-- The command that a step at time `now` executes, if any. -/
def executes (e : Executor) (now : ℕ) : Option Command :=
  if (e.handleResetClockFlag F now).ended then
    none
  else if (e.prepare F signals now).nextWakeupTime ≤ now then
    (e.prepare F signals now).store.map fun s => s.fetch.1
  else
    none

/-- Advancing a fade affects the color and the fade only. -/
theorem handleActiveTransition_frame (e : Executor) (now : ℕ) :
    ∃ color transition handler, e.handleActiveTransition F now =
      { e with currentColor := color, transition := transition, transitionHandler := handler } := by
  rw [handleActiveTransition]
  split
  · dsimp only [stepTransition, setCurrentColor]
    split <;> exact ⟨_, _, _, rfl⟩
  · exact ⟨_, _, _, rfl⟩

/-- Checking the triggers affects the store and the triggers only. -/
theorem checkAndFireTriggers_frame (e : Executor) (now : ℕ) :
    ∃ store triggers,
      e.checkAndFireTriggers signals now = { e with store := store, triggers := triggers } := by
  rw [checkAndFireTriggers]
  generalize List.finRange maxTriggerCount = indices
  induction indices generalizing e with
  | nil => exact ⟨e.store, e.triggers, rfl⟩
  | cons i indices ih =>
      obtain ⟨store, triggers, h⟩ := ih (checkAndFireTrigger signals now e i)
      refine ⟨store, triggers, ?_⟩
      rw [List.foldl_cons, h]
      simp only [checkAndFireTrigger, executeActionOfTrigger, seekStore]
      split
      · split <;> rfl
      · rfl

/-- An address that is not valid ends the program with an error, and changes nothing else. -/
theorem checkAddress_frame (e : Executor) (triggerParams : UInt8) (address : ℕ) :
    ∃ ended error,
      (if triggerEdge triggerParams ≠ .none ∧ ¬ isAddressValid address
        then (e.setError .invalidAddress).stop else e) =
          { e with ended := ended, error := error } := by
  split
  · exact ⟨_, _, rfl⟩
  · exact ⟨e.ended, e.error, rfl⟩

/-- Setting up a trigger affects the triggers, and may end the program with an error. -/
theorem setUpTrigger_frame (e : Executor) (triggerParams : UInt8) (address : ℕ) :
    ∃ triggers ended error, e.setUpTrigger signals triggerParams address =
      { e with triggers := triggers, ended := ended, error := error } := by
  obtain ⟨ended, error, hframe⟩ := checkAddress_frame e triggerParams address
  rw [setUpTrigger, hframe]
  dsimp only
  split
  · exact ⟨_, _, _, rfl⟩
  · exact ⟨_, _, _, rfl⟩

/-- Inactive triggers leave the executor as it is. -/
theorem checkAndFireTriggers_of_inactive {e : Executor} (h : ∀ i, (e.triggers i).active = false)
    (now : ℕ) : e.checkAndFireTriggers signals now = e := by
  have hstep : ∀ i, checkAndFireTrigger signals now e i = e := by
    intro i
    simp only [checkAndFireTrigger, Trigger.checkAndFireWhenNeeded_of_inactive (h i),
      Function.update_eq_self, Bool.false_eq_true, if_false]
  rw [checkAndFireTriggers]
  induction List.finRange maxTriggerCount with
  | nil => rfl
  | cons i indices ih => rw [List.foldl_cons, hstep, ih]

/-- **Preparing a step**, apart from a pending clock reset, moves to where a trigger points,
advances the fade and takes down the time. -/
theorem prepare_frame (e : Executor) (now : ℕ) :
    ∃ store triggers color transition handler, e.prepare F signals now =
      { e.handleResetClockFlag F now with
        store := store
        triggers := triggers
        currentColor := color
        transition := transition
        transitionHandler := handler
        currentCommandStartTime := now } := by
  obtain ⟨store, triggers, htrig⟩ :=
    checkAndFireTriggers_frame signals (e.handleResetClockFlag F now) now
  obtain ⟨color, transition, handler, hfade⟩ := handleActiveTransition_frame F
    ((e.handleResetClockFlag F now).checkAndFireTriggers signals now) now
  refine ⟨store, triggers, color, transition, handler, ?_⟩
  rw [prepare, hfade, htrig]

/-- Preparing a step does not end the program. -/
theorem prepare_ended (e : Executor) (now : ℕ) :
    (e.prepare F signals now).ended = (e.handleResetClockFlag F now).ended := by
  obtain ⟨store, triggers, color, transition, handler, h⟩ := prepare_frame F signals e now
  rw [h]

/-- Everything that a step can do. -/
inductive StepCase (e : Executor) (now : ℕ) : Executor → Prop
  /-- The program has ended: only the wakeup time moves. -/
  | ended (hended : (e.handleResetClockFlag F now).ended = true) :
      StepCase e now
        { e.handleResetClockFlag F now with nextWakeupTime := (now + 60000) % 2 ^ 64 }
  /-- No command is due. -/
  | idle (hended : (e.handleResetClockFlag F now).ended = false)
      (hdue : ¬ (e.prepare F signals now).nextWakeupTime ≤ now) :
      StepCase e now
        (((e.handleResetClockFlag F now).checkAndFireTriggers signals
          now).handleActiveTransition F now)
  /-- There is no store to read from. -/
  | noStore (hended : (e.handleResetClockFlag F now).ended = false)
      (hdue : (e.prepare F signals now).nextWakeupTime ≤ now)
      (hstore : (e.prepare F signals now).store = none) :
      StepCase e now (e.prepare F signals now).stop
  /-- A command is fetched and performed. -/
  | perform (s : BytecodeStore) (hended : (e.handleResetClockFlag F now).ended = false)
      (hdue : (e.prepare F signals now).nextWakeupTime ≤ now)
      (hstore : (e.prepare F signals now).store = some s) :
      StepCase e now (((e.prepare F signals now).withStore s.fetch.2).perform F signals s.fetch.1)

/-- **The cases of a step.** -/
theorem step_cases (e : Executor) (now : ℕ) :
    StepCase F signals e now (e.step F signals now) := by
  rw [step]
  by_cases hended : (e.handleResetClockFlag F now).ended = true
  · rw [if_pos hended]
    exact .ended hended
  · rw [if_neg hended, handleDueCommand]
    rw [Bool.not_eq_true] at hended
    split
    case isFalse hdue => exact .idle hended hdue
    case isTrue hdue =>
        have hprep : (e.prepare F signals now).ended = false :=
          (prepare_ended F signals e now).trans hended
        cases hstore : (e.prepare F signals now).store with
        | none =>
            have hstop : (e.prepare F signals now).executeNextCommand F signals =
                (e.prepare F signals now).stop := by
              simp only [executeNextCommand, hprep, nextByte, readStore, hstore,
                Bool.false_eq_true, if_false]
              rfl
            exact hstop ▸ .noStore hended hdue hstore
        | some s =>
            have heq := executeNextCommand_eq F signals hstore hprep
            exact heq ▸ .perform s hended hdue hstore

section Executes

variable {e : Executor} {now : ℕ}

/-- A program that has ended executes nothing. -/
theorem executes_of_ended (hended : (e.handleResetClockFlag F now).ended = true) :
    e.executes F signals now = none := if_pos hended

/-- Before the wakeup time, nothing is executed. -/
theorem executes_of_not_due (hdue : ¬ (e.prepare F signals now).nextWakeupTime ≤ now) :
    e.executes F signals now = none := by
  rw [executes, if_neg hdue]
  exact ite_self none

/-- At the wakeup time, the command that is fetched is executed. -/
theorem executes_of_due {s : BytecodeStore} (hended : (e.handleResetClockFlag F now).ended = false)
    (hdue : (e.prepare F signals now).nextWakeupTime ≤ now)
    (hstore : (e.prepare F signals now).store = some s) :
    e.executes F signals now = some s.fetch.1 := by
  rw [executes, if_neg (Bool.eq_false_iff.mp hended), if_pos hdue, hstore, Option.map_some]

end Executes

/-- A step that executes a command performs it on the prepared executor. -/
theorem step_of_executes {e : Executor} {now : ℕ} {c : Command}
    (h : e.executes F signals now = some c) :
    ∃ s, (e.prepare F signals now).store = some s ∧ s.fetch.1 = c ∧
      e.step F signals now =
        ((e.prepare F signals now).withStore s.fetch.2).perform F signals c := by
  simp only [executes] at h
  split at h
  · exact absurd h (by simp)
  case isFalse hended =>
    split at h
    case isFalse => exact absurd h (by simp)
    case isTrue hdue =>
      obtain ⟨s, hs, rfl⟩ := Option.map_eq_some_iff.mp h
      refine ⟨s, hs, rfl, ?_⟩
      have hfalse : (e.handleResetClockFlag F now).ended = false := by simpa using hended
      have hprep := (prepare_ended F signals e now).trans hfalse
      rw [← executeNextCommand_eq F signals hs hprep, step, if_neg hended, handleDueCommand]
      exact if_pos hdue

end Executor

end Skybrush
