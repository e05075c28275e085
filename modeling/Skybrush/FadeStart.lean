import Skybrush.PlayerSteps

/-!
# Where Fades Start

A fade runs from the start color of the transition handler to its end color. The start
color is a copy of the color that is shown: it is refreshed by the commands that set a
color, by a clock reset behind a rewind, and by the step that notices the end of a running
fade. A fade that takes no time at all is never running, so nothing refreshes the start
color behind it, and the next fade starts from the color before it.

Commands are executed exactly at the wakeup time, when every earlier fade is complete. So
apart from fades that take no time, a fade starts from the color that is shown.

## Main results

* `Executor.perform_look`: what a command does to the color and to the fade.
* `Executor.Smooth.prepare`: when a command is due, the start color is the shown color.
* `Executor.Smooth.perform`: only a fade that takes no time separates the two.
* `fades_start_from_shown`: in a run without fades that change the color in no time, every
  fade starts from the color that was shown before it.
-/

namespace Skybrush

namespace Executor

variable (F : Rounding) (signals : Signals)

/-- The color and the duration of a command that starts a fade. -/
def fadeOf (e : Executor) : Command → Option (RgbColor × ℕ)
  | .fadeToColor color duration => some (color, duration)
  | .fadeToGray value duration => some (⟨value, value, value⟩, duration)
  | .fadeToBlack duration => some (.black, duration)
  | .fadeToWhite duration => some (.white, duration)
  | .fadeToColorFromChannels channels duration =>
      some ((e.colorFromChannels signals channels).1, duration)
  | .end_ | .nop | .loopEnd | .resetClock => none
  | .sleep _ | .setBlack _ | .setWhite _ => none
  | .setColor _ _ | .setGray _ _ | .setColorFromChannels _ _ => none
  | .waitUntil _ | .loopBegin _ | .jump _ | .setPyro _ | .setPyroAll _ | .invalid _ => none
  | .triggeredJump _ _ => none

/-- Fades do not depend on the location of the store. -/
theorem fadeOf_withStore (e : Executor) (s : BytecodeStore) (c : Command) :
    (e.withStore s).fadeOf signals c = e.fadeOf signals c := by
  cases c with
  | fadeToColorFromChannels channels duration =>
      simp only [fadeOf, colorFromChannels_withStore]
  | _ => rfl

/-- The start color is the one that is shown, or a fade is running that will be complete at
the wakeup time. -/
structure Smooth (e : Executor) : Prop where
  idle : e.transition.active = false → e.transitionHandler.startColor = e.currentColor
  running : e.transition.active = true →
    e.transition.start + e.transition.duration ≤ e.nextWakeupTime

/-- Nothing else matters. -/
theorem Smooth.congr {e e' : Executor} (h : e.Smooth) (htransition : e'.transition = e.transition)
    (hhandler : e'.transitionHandler = e.transitionHandler)
    (hcolor : e'.currentColor = e.currentColor) (hwakeup : e.nextWakeupTime ≤ e'.nextWakeupTime) :
    e'.Smooth := by
  refine ⟨fun hidle => ?_, fun hrun => ?_⟩
  · rw [hhandler, hcolor]
    exact h.idle (htransition ▸ hidle)
  · rw [htransition] at hrun ⊢
    exact (h.running hrun).trans hwakeup

theorem Smooth.withStore {e : Executor} (h : e.Smooth) (s : BytecodeStore) :
    (e.withStore s).Smooth := h.congr rfl rfl rfl le_rfl

/-- It does not matter when the current command has started. -/
theorem smooth_setStart (e : Executor) (now : ℕ) :
    ({ e with currentCommandStartTime := now } : Executor).Smooth ↔ e.Smooth :=
  ⟨fun h => h.congr rfl rfl rfl le_rfl, fun h => h.congr rfl rfl rfl le_rfl⟩

/-! ### Starting a fade -/

/-- **Starting a fade** keeps the start color. A fade that takes time shows that color
first; one that takes none shows its target, and is over. -/
theorem startFade_look (e : Executor) (color : RgbColor) {d : ℕ}
    (hd : toUnsigned (e.nextWakeupTime - e.currentCommandStartTime) = d) :
    (e.startFade F color e.currentCommandStartTime).transitionHandler =
        ⟨e.transitionHandler.startColor, color⟩ ∧
      (e.startFade F color e.currentCommandStartTime).transition =
        ⟨decide (d ≠ 0), e.currentCommandStartTime, d⟩ ∧
      (e.startFade F color e.currentCommandStartTime).currentColor =
        if d = 0 then color else e.transitionHandler.startColor := by
  have hprogress := Transition.progressPreEasing_start F (.startAt d e.currentCommandStartTime)
  simp only [Transition.startAt] at hprogress
  simp only [startFade, hd, stepTransition, setCurrentColor, Transition.startAt,
    Transition.easingFuncLinear, hprogress]
  by_cases hzero : d = 0
  · simp [hzero]
  · simp [hzero]

/-- **What a command does to the color and to the fade**: it starts a fade, or it leaves the
fade alone, and the start color is left alone together with the color or set to it. -/
theorem perform_look (e : Executor) (c : Command) :
    (∃ color duration error, e.fadeOf signals c = some (color, duration) ∧
        e.perform F signals c = ((e.setError error).addDuration F duration).startFade F color
          e.currentCommandStartTime) ∨
      (e.fadeOf signals c = none ∧ (e.perform F signals c).transition = e.transition ∧
        (((e.perform F signals c).transitionHandler = e.transitionHandler ∧
            (e.perform F signals c).currentColor = e.currentColor) ∨
          (e.perform F signals c).transitionHandler.startColor =
            (e.perform F signals c).currentColor)) := by
  cases c with
  | fadeToColor color duration | fadeToGray value duration | fadeToBlack duration
  | fadeToWhite duration => exact .inl ⟨_, _, e.error, rfl, rfl⟩
  | fadeToColorFromChannels channels duration =>
      obtain ⟨error, hframe⟩ := colorFromChannels_frame signals e channels
      refine .inl ⟨_, _, error, rfl, ?_⟩
      rw [perform, hframe]
  | setColor _ _ | setGray _ _ | setBlack _ | setWhite _ => exact .inr ⟨rfl, rfl, .inr rfl⟩
  | setColorFromChannels channels duration =>
      obtain ⟨error, hframe⟩ := colorFromChannels_frame signals e channels
      refine .inr ⟨rfl, ?_, .inr rfl⟩
      rw [perform, hframe]
      rfl
  | jump address =>
      right
      simp only [perform, jumpTo]
      split <;> exact ⟨rfl, rfl, .inl ⟨rfl, rfl⟩⟩
  | loopBegin iterations =>
      right
      simp only [perform, beginLoop]
      split <;> exact ⟨rfl, rfl, .inl ⟨rfl, rfl⟩⟩
  | loopEnd =>
      right
      simp only [perform, handleLoopEndCommand]
      split <;> exact ⟨rfl, rfl, .inl ⟨rfl, rfl⟩⟩
  | triggeredJump triggerParams address =>
      right
      obtain ⟨triggers, ended, error, hframe⟩ := setUpTrigger_frame signals e triggerParams
        address.toNat
      rw [perform, hframe]
      exact ⟨rfl, rfl, .inl ⟨rfl, rfl⟩⟩
  | _ => exact .inr ⟨rfl, rfl, .inl ⟨rfl, rfl⟩⟩

/-! ### Steps -/

/-- Advancing a fade keeps the start color and the shown color together, or the fade
running; at the wakeup time no fade is running any more. -/
theorem Smooth.handleActiveTransition {e : Executor} (h : e.Smooth) (now : ℕ) :
    (e.handleActiveTransition F now).Smooth ∧
      (e.nextWakeupTime ≤ now → (e.handleActiveTransition F now).transition.active = false) := by
  cases hactive : e.transition.active with
  | false =>
      have hsame : e.handleActiveTransition F now = e := by
        rw [Executor.handleActiveTransition, if_neg (by simp [hactive])]
      rw [hsame]
      exact ⟨h, fun _ => hactive⟩
  | true =>
      have hle := Transition.progressPreEasing_le_one F e.transition now
      by_cases hlt : e.transition.progressPreEasing F now < 1
      · simp only [Executor.handleActiveTransition, hactive, stepTransition, hlt, if_true,
          decide_true]
        refine ⟨⟨fun hidle => absurd hidle (by simp), fun _ => h.running hactive⟩,
          fun hdue => ?_⟩
        have hdone := Transition.progressPreEasing_of_complete F
          ((h.running hactive).trans hdue)
        exact absurd hlt (by simp [hdone])
      · have hone : e.transition.progressPreEasing F now = 1 := le_antisymm hle (not_lt.mp hlt)
        have hcolor := RgbColor.linearInterpolation_one F e.transitionHandler.startColor
          e.transitionHandler.endColor
        simp only [Executor.handleActiveTransition, hactive, stepTransition, hlt, if_true,
          decide_false, Bool.false_eq_true, if_false]
        refine ⟨⟨fun _ => ?_, fun hrun => absurd hrun (by simp)⟩, fun _ => trivial⟩
        simp only [Transition.easingFuncLinear, hone, setCurrentColor, hcolor]

/-- **When a command is due**, no fade is running, and the start color is the shown color. -/
theorem Smooth.prepare {e : Executor} {now : ℕ} (h : (e.handleResetClockFlag F now).Smooth) :
    (e.prepare F signals now).Smooth ∧
      ((e.prepare F signals now).nextWakeupTime ≤ now →
        (e.prepare F signals now).transition.active = false) := by
  obtain ⟨store, triggers, htrig⟩ :=
    checkAndFireTriggers_frame signals (e.handleResetClockFlag F now) now
  have hchecked : ((e.handleResetClockFlag F now).checkAndFireTriggers signals now).Smooth := by
    rw [htrig]
    exact h.congr rfl rfl rfl le_rfl
  obtain ⟨hsmooth, hidle⟩ := hchecked.handleActiveTransition F now
  refine ⟨(smooth_setStart _ now).mpr hsmooth, fun hdue => hidle ?_⟩
  have hsame := (sameClock_prepare F signals e now).wakeup
  rw [htrig]
  exact hsame.symm.trans_le hdue

/-- The duration of a command is over at once: on the clock of the host it ends no later
than the wakeup time. -/
def OverAtOnce (e : Executor) (duration : ℕ) : Prop :=
  e.internalToAbsoluteTime F (toSigned ((e.cumulativeDurationSinceStart + duration) % 2 ^ 64)) ≤
    e.nextWakeupTime

instance (e : Executor) (duration : ℕ) : Decidable (e.OverAtOnce F duration) :=
  inferInstanceAs (Decidable (_ ≤ _))

/-- A command that is executed at the wakeup time leaves no time exactly when its duration is
over at once. -/
theorem toUnsigned_addDuration_eq_zero_iff {e : Executor}
    (hnow : e.currentCommandStartTime = e.nextWakeupTime) (duration : ℕ) :
    toUnsigned ((e.addDuration F duration).nextWakeupTime - e.currentCommandStartTime) = 0 ↔
      e.OverAtOnce F duration := by
  have hlt := floatToUnsigned_lt (Rounding.roundAway (F (F e.lastClockResetTime +
    F (F (toSigned ((e.cumulativeDurationSinceStart + duration) % 2 ^ 64)) *
      e.clockSkewCompensationFactor))))
  rw [nextWakeupTime_addDuration, hnow, OverAtOnce, internalToAbsoluteTime, internalToAbsolute,
    toUnsigned]
  omega

/-- **A command at the wakeup time** keeps the start color and the shown color together,
unless it is a fade that changes the color in no time. Every fade starts from the color
that is shown. -/
theorem Smooth.perform {e : Executor} (h : e.Smooth) (hidle : e.transition.active = false)
    (hnow : e.currentCommandStartTime = e.nextWakeupTime) {c : Command} :
    (∀ color duration, e.fadeOf signals c = some (color, duration) →
        (e.perform F signals c).transitionHandler.startColor = e.currentColor ∧
          (¬ e.OverAtOnce F duration → (e.perform F signals c).currentColor = e.currentColor)) ∧
      ((∀ color duration, e.fadeOf signals c = some (color, duration) →
          e.OverAtOnce F duration → color = e.currentColor) →
        (e.perform F signals c).Smooth) := by
  have hstart := h.idle hidle
  have hwakeup : e.nextWakeupTime ≤ (e.perform F signals c).nextWakeupTime := by
    rw [(sameClock_perform F signals e c).wakeup]
    exact nextWakeupTime_le_passTime F e c.timeEffect
  rcases perform_look F signals e c with ⟨color, duration, error, hfade, hperform⟩ |
    ⟨hfade, htransition, hlook⟩
  · -- an error that was set before the fade plays no part in it
    have hover := toUnsigned_addDuration_eq_zero_iff F hnow duration
    have hfaded := startFade_look F ((e.setError error).addDuration F duration) color rfl
    have htime : ((e.setError error).addDuration F duration).currentCommandStartTime =
        e.currentCommandStartTime := rfl
    have hhandler : ((e.setError error).addDuration F duration).transitionHandler =
        e.transitionHandler := rfl
    have htimeout : ((e.setError error).addDuration F duration).nextWakeupTime =
        (e.addDuration F duration).nextWakeupTime := rfl
    rw [htime, hhandler, htimeout, hstart, ← hperform] at hfaded
    obtain ⟨hhandler', htransition', hcolor'⟩ := hfaded
    refine ⟨fun color' duration' hfade' => ?_, fun hinstant => ⟨fun hidle' => ?_, fun _ => ?_⟩⟩
    · obtain ⟨rfl, rfl⟩ : color = color' ∧ duration = duration' := by
        simpa [hfade] using hfade'
      refine ⟨by rw [hhandler'], fun hlasting => ?_⟩
      rw [hcolor', if_neg (mt hover.mp hlasting)]
    · have hzero : toUnsigned ((e.addDuration F duration).nextWakeupTime -
          e.currentCommandStartTime) = 0 := by simpa [htransition'] using hidle'
      rw [hhandler', hcolor', if_pos hzero, hinstant color duration hfade (hover.mp hzero)]
    · have hnext : (e.perform F signals c).nextWakeupTime =
          (e.addDuration F duration).nextWakeupTime := by
        rw [hperform]
        exact htimeout
      have hle := nextWakeupTime_le_passTime F e (.delay duration)
      simp only [passTime] at hle
      simp only [htransition', hnext, toUnsigned]
      omega
  · refine ⟨fun color duration hsome => ?_, fun _ => ⟨fun hidle' => ?_, fun hrun => ?_⟩⟩
    · rw [hfade] at hsome
      cases hsome
    · rcases hlook with ⟨hhandler, hcolor⟩ | hset
      · rw [hhandler, hcolor, hstart]
      · exact hset
    · rw [htransition, hidle] at hrun
      cases hrun

end Executor

/-! ### Runs -/

namespace PlayerStep

variable (F : Rounding) (signals : Signals)

/-- A fade that the step starts begins at the color that was shown before it; and that color
is still shown, unless the fade is over at once. -/
def FadesFromShown (s : PlayerStep) : Prop :=
  ∀ c ∈ s.command F signals, ∀ fade ∈ (s.before F signals).fadeOf signals c,
    (s.after F signals).transitionHandler.startColor = (s.before F signals).currentColor ∧
      (¬ (s.before F signals).OverAtOnce F fade.2 →
        (s.after F signals).currentColor = (s.before F signals).currentColor)

/-- The step starts no fade that is over at once and fades to another color than the one
that is shown. -/
def NoSuddenFade (s : PlayerStep) : Prop :=
  ∀ c ∈ s.command F signals, ∀ fade ∈ (s.before F signals).fadeOf signals c,
    (s.before F signals).OverAtOnce F fade.2 → fade.1 = (s.before F signals).currentColor

instance (s : PlayerStep) : Decidable (s.NoSuddenFade F signals) :=
  inferInstanceAs (Decidable (∀ c ∈ s.command F signals,
    ∀ fade ∈ (s.before F signals).fadeOf signals c, _))

end PlayerStep

namespace BytecodePlayer

variable {F : Rounding} {signals : Signals}

/-- The player paces its executor, and the start color is the shown color or a fade is
running. -/
structure Smooth (p : BytecodePlayer) : Prop extends p.Paced where
  pendingIdle : p.executor.resetClockFlag = true → p.executor.transition.active = false
  smooth : p.executor.resetClockFlag = false → p.executor.ended = false → p.executor.Smooth

theorem smooth_rewound (p : BytecodePlayer) : p.rewound.Smooth where
  toPaced := paced_rewound p
  pendingIdle _ := by
    simp only [rewound, Executor.rewind]
    split <;> rfl
  smooth hflag := by
    rw [rewound, resetClockFlag_rewind] at hflag
    cases hflag

/-- Behind a clock reset that may be pending, the start color is the shown color. -/
theorem Smooth.handleResetClockFlag {p : BytecodePlayer} (h : p.Smooth)
    (hend : p.executor.ended = false) (now : ℕ) :
    (p.executor.handleResetClockFlag F now).Smooth := by
  cases hflag : p.executor.resetClockFlag with
  | false =>
      rw [Executor.handleResetClockFlag_of_not F hflag]
      exact h.smooth hflag hend
  | true =>
      have hidle := h.pendingIdle hflag
      rw [Executor.handleResetClockFlag, if_pos hflag]
      exact ⟨fun _ => rfl, fun hrun => absurd (hidle.symm.trans hrun) (by decide)⟩

/-- **A step of the player**: its fade starts from the shown color, and it keeps the
invariant if its fade is not sudden. -/
theorem Smooth.step {s : PlayerStep} (h : s.player.Smooth) (hnow : s.now ≤ s.player.nextTimestamp) :
    s.FadesFromShown F signals ∧
      (s.NoSuddenFade F signals → (s.after F signals).ended = false →
        (s.after F signals).Smooth) := by
  have hcommand : ∀ c, s.command F signals = some c →
      ∃ store, s.after F signals = ((s.before F signals).withStore store).perform F signals c ∧
        ((s.before F signals).withStore store).Smooth ∧
        (s.before F signals).transition.active = false ∧
        (s.before F signals).currentCommandStartTime = (s.before F signals).nextWakeupTime := by
    intro c hc
    obtain ⟨store, hstore, -, hafter⟩ := Executor.step_of_executes F signals hc
    have hwakeup := (h.toPaced.executes_at_wakeup hnow hc).2
    have hend : s.player.executor.ended = false := by
      cases hend : s.player.executor.ended with
      | false => rfl
      | true =>
          have hnone := Executor.executes_of_ended F signals
            ((Executor.ended_handleResetClockFlag F s.player.executor s.now).trans hend)
          cases hc.symm.trans hnone
    obtain ⟨hsmooth, hidle⟩ :=
      (h.handleResetClockFlag hend s.now).prepare F signals
    exact ⟨_, hafter, hsmooth.withStore _, hidle hwakeup.le, hwakeup.symm⟩
  refine ⟨fun c hc fade hfade => ?_, fun hsudden hend' => ?_⟩
  · obtain ⟨store, hafter, hsmooth, hidle, hstart⟩ := hcommand c hc
    rw [hafter]
    exact (hsmooth.perform F signals hidle hstart (c := c)).1 fade.1 fade.2
      ((Executor.fadeOf_withStore signals _ store c).trans hfade)
  · cases hc : s.command F signals with
    | some c =>
        obtain ⟨store, hafter, hsmooth, hidle, hstart⟩ := hcommand c hc
        rw [hafter]
        exact (hsmooth.perform F signals hidle hstart (c := c)).2
          fun color duration hfade hover => hsudden c hc (color, duration)
            ((Executor.fadeOf_withStore signals _ store c).symm.trans hfade) hover
    | none =>
        have hcase := Executor.step_cases F signals s.player.executor s.now
        rw [PlayerStep.after] at hend' ⊢
        generalize s.player.executor.step F signals s.now = e' at hcase hend' ⊢
        cases hcase with
        | ended hended =>
            have hend'' : (s.player.executor.handleResetClockFlag F s.now).ended = false := hend'
            rw [hended] at hend''
            cases hend''
        | idle hended =>
            have hend := (Executor.ended_handleResetClockFlag F _ _).symm.trans hended
            exact (Executor.smooth_setStart _ s.now).mp
              ((h.handleResetClockFlag hend s.now).prepare F signals).1
        | noStore => cases hend'
        | perform store hended hdue hstore =>
            cases hc.symm.trans (Executor.executes_of_due F signals hended hdue hstore)

/-- A step of the loop keeps the invariant if its fade is not sudden. -/
theorem Smooth.stepToNext {p : BytecodePlayer} (h : p.Smooth)
    (hsudden : PlayerStep.NoSuddenFade F signals ⟨p, p.nextTimestamp⟩) :
    (p.stepToNext F signals).Smooth where
  toPaced := h.toPaced.stepToNext
  pendingIdle hflag := by
    rw [BytecodePlayer.stepToNext, Executor.resetClockFlag_step] at hflag
    cases hflag
  smooth _ hend := (h.step (s := ⟨p, p.nextTimestamp⟩) le_rfl).2 hsudden hend

/-- So does the last step of a seek. -/
theorem Smooth.stepToTarget {p : BytecodePlayer} (h : p.Smooth) {target : ℕ}
    (htarget : target ≤ p.nextTimestamp)
    (hsudden : PlayerStep.NoSuddenFade F signals ⟨p, target⟩) :
    (p.stepToTarget F signals target).Smooth where
  toPaced := h.toPaced.stepToTarget htarget
  pendingIdle hflag := by
    rw [BytecodePlayer.stepToTarget, Executor.resetClockFlag_step] at hflag
    cases hflag
  smooth _ hend := (h.step (s := ⟨p, target⟩) htarget).2 hsudden hend

end BytecodePlayer

/-- **Every fade starts from the color that was shown before it**, in every run in which no
fade that is over at once fades to another color than the one that is shown. -/
theorem fades_start_from_shown (F : Rounding) (signals : Signals) (memory : UninitMemory)
    (program : List UInt8) (fuel : ℕ) (calls : List LightPlayerCall)
    (h : ∀ s ∈ (lightPlayerInit F signals memory program).steps F signals fuel calls,
      s.NoSuddenFade F signals) :
    ∀ s ∈ (lightPlayerInit F signals memory program).steps F signals fuel calls,
      s.FadesFromShown F signals := by
  have hinit : (lightPlayerInit F signals memory program).Smooth :=
    BytecodePlayer.smooth_rewound ⟨{ (Executor.construct memory).step F signals 0 with
      store := some (.ofArray program) }, 0, 0⟩
  have hsteps := BytecodePlayer.steps_invariant (I := BytecodePlayer.Smooth)
    (fun p _ => BytecodePlayer.smooth_rewound p) (fun _ hp hok => hp.stepToNext hok)
    (fun _ _ hp _ htarget hok => hp.stepToTarget htarget hok) hinit fuel calls h
  intro s hs
  obtain ⟨hsmooth, hnow⟩ := hsteps.1 s hs
  exact (hsmooth.step hnow).1

/-- A program that sets white in 20 ms and fades to gray in 100 ms and then to white in
another 100 ms has no sudden fade: its fades start from the shown color. -/
theorem fades_start_from_shown_program :
    let player := lightPlayerInit .exact .silent .zero [0x07, 1, 0x09, 128, 5, 0x0B, 5, 0]
    ∀ s ∈ player.steps .exact .silent 10 [.getColorAt 250, .getColorAt 90],
      s.FadesFromShown .exact .silent := by
  exact fades_start_from_shown .exact .silent .zero _ 10 _ (by decide +kernel)

/-- A program that fades to white in no time and then, in a second, to another color: the
second fade starts from black, and not from the white that is shown. -/
theorem sudden_fade_forgotten :
    ¬ ∀ s ∈ (lightPlayerInit .exact .silent .zero [0x0B, 0, 0x08, 1, 2, 3, 50, 0]).steps
      .exact .silent 10 [.getColorAt 500], s.FadesFromShown .exact .silent := by
  intro h
  have hfade := h _ (List.get_mem _ ⟨1, by decide +kernel⟩) (.fadeToColor ⟨1, 2, 3⟩ 1000)
    (by decide +kernel) (⟨1, 2, 3⟩, 1000) (by decide +kernel)
  exact absurd hfade.1 (by decide +kernel)

end Skybrush
