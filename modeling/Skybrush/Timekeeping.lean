import Skybrush.PlayerSteps

/-!
# Timekeeping

The executor tells the time in two ways: the duration of the commands is added up on its
own clock, and the next wakeup time is kept on the clock of the host. As long as the times
are small enough to be converted without loss, the two never drift apart: while a program
has not ended, the next wakeup time is the origin of the clock plus the cumulative duration.

The player relies on that when it reports the time of the next command: it is never before
the target of a seek, and nothing happens up to it but the advance of the running fade.

## Main results

* `internalToAbsolute_of_le`, `absoluteToInternal_of_le`: small times are converted exactly.
* `BytecodePlayer.OnTime.step`: a step keeps the wakeup time at the origin plus the cumulative
  duration.
* `BytecodePlayer.Paced.seek_between`, `BytecodePlayer.Paced.seek_between_harmless`: a seek to
  a time before the next command.
* `timekeeping_sound`: the timekeeping of the player over every history of seeks.
-/

namespace Skybrush

/-! ### Conversions of small times -/

section

variable {F : Rounding} {bound : ℕ} (hbound : bound < 2 ^ 63) (hF : F.ExactUpTo bound)

include hbound hF

/-- **Small times are converted exactly** to the clock of the host. -/
theorem internalToAbsolute_of_le {origin ms : ℕ} (h : origin + ms ≤ bound) :
    internalToAbsolute F 1 origin (toSigned ms) = origin + ms := by
  have hcast : ((toSigned ms : ℤ) : ℚ) = (ms : ℕ) := by
    rw [toSigned_of_lt (by omega)]
    exact Int.cast_natCast ms
  rw [internalToAbsolute, hcast, hF ms (by omega), mul_one, hF ms (by omega),
    hF origin (by omega), ← Nat.cast_add, hF (origin + ms) h, Rounding.roundAway_natCast,
    floatToUnsigned_natCast (by omega)]

/-- **Small times are converted exactly** to the clock of the executor. -/
theorem absoluteToInternal_of_le {origin ms : ℕ} (horigin : origin ≤ ms) (h : ms ≤ bound) :
    absoluteToInternal F 1 origin ms = (ms - origin : ℕ) := by
  have hdiff : toUnsigned (toSigned ms - origin) = ms - origin := by
    rw [toSigned_of_lt (by omega), ← Nat.cast_sub horigin, toUnsigned_natCast (by omega)]
  rw [absoluteToInternal, hdiff, hF _ (by omega), div_one, hF _ (by omega),
    Rounding.roundAway_natCast, floatToSigned_natCast (by omega)]

end

namespace Executor

variable {F : Rounding} {signals : Signals} {bound : ℕ}

/-- The time on the clock of the host at which a command that starts now is over, in exact
arithmetic. -/
def endTime (e : Executor) : TimeEffect → ℕ
  | .instant => e.lastClockResetTime + e.cumulativeDurationSinceStart
  | .delay duration => e.lastClockResetTime + e.cumulativeDurationSinceStart + duration
  | .waitUntil deadline => e.lastClockResetTime + 20 * deadline.toNat
  | .resetClock => e.currentCommandStartTime

/-- The next wakeup time is the origin of the clock plus the cumulative duration, and the
clock runs at the pace of the host. -/
structure OnTime (e : Executor) : Prop where
  skew : e.clockSkewCompensationFactor = 1
  wakeup : e.nextWakeupTime = e.lastClockResetTime + e.cumulativeDurationSinceStart

theorem OnTime.congr {e e' : Executor} (h : e.OnTime) (hsame : SameClock e e') : e'.OnTime := by
  refine ⟨hsame.skew.trans h.skew, ?_⟩
  rw [hsame.wakeup, hsame.origin, hsame.cumulative]
  exact h.wakeup

theorem OnTime.withStore {e : Executor} (h : e.OnTime) (s : BytecodeStore) :
    (e.withStore s).OnTime := h.congr ⟨rfl, rfl, rfl, rfl⟩

/-- It does not matter when the current command has started. -/
theorem onTime_setStart (e : Executor) (now : ℕ) :
    ({ e with currentCommandStartTime := now } : Executor).OnTime ↔ e.OnTime :=
  ⟨fun h => h.congr ⟨rfl, rfl, rfl, rfl⟩, fun h => h.congr ⟨rfl, rfl, rfl, rfl⟩⟩

/-- **Passing time** at the wakeup time keeps the wakeup time at the origin plus the
cumulative duration. -/
theorem OnTime.passTime {e : Executor} (h : e.OnTime) (hbound : bound < 2 ^ 63)
    (hF : F.ExactUpTo bound) (hnow : e.currentCommandStartTime = e.nextWakeupTime)
    (hsmall : e.nextWakeupTime ≤ bound) {effect : TimeEffect} (hend : e.endTime effect ≤ bound) :
    (e.passTime F effect).OnTime := by
  have hwakeup := h.wakeup
  cases effect with
  | instant => exact h
  | delay duration =>
      simp only [endTime] at hend
      have hsum : (e.cumulativeDurationSinceStart + duration) % 2 ^ 64 =
          e.cumulativeDurationSinceStart + duration := Nat.mod_eq_of_lt (by omega)
      have hnext := nextWakeupTime_addDuration F e duration
      rw [hsum, h.skew, internalToAbsolute_of_le hbound hF (by omega)] at hnext
      refine ⟨h.skew, ?_⟩
      show (e.addDuration F duration).nextWakeupTime =
        e.lastClockResetTime + (e.cumulativeDurationSinceStart + duration) % 2 ^ 64
      rw [hnext, hsum]
      omega
  | waitUntil deadline =>
      simp only [endTime] at hend
      have hdeadline : (deadline * 20).toNat = 20 * deadline.toNat := by
        have htwenty : (20 : UInt64).toNat = 20 := rfl
        rw [UInt64.toNat_mul, htwenty]
        omega
      have hnext : (e.waitUntil F deadline).nextWakeupTime =
          max e.nextWakeupTime (e.lastClockResetTime + 20 * deadline.toNat) := by
        refine (nextWakeupTime_delayExecutionUntilAbsoluteTime e _).trans ?_
        rw [internalToAbsoluteTime, h.skew, hdeadline,
          internalToAbsolute_of_le hbound hF (by omega)]
      have hcumulative : (e.waitUntil F deadline).cumulativeDurationSinceStart =
          toUnsigned (absoluteToInternal F e.clockSkewCompensationFactor e.lastClockResetTime
            (e.waitUntil F deadline).nextWakeupTime) := rfl
      rw [h.skew, absoluteToInternal_of_le hbound hF (by omega) (by omega),
        toUnsigned_natCast (by omega)] at hcumulative
      refine ⟨h.skew, ?_⟩
      show (e.waitUntil F deadline).nextWakeupTime =
        e.lastClockResetTime + (e.waitUntil F deadline).cumulativeDurationSinceStart
      omega
  | resetClock =>
      have hzero := absoluteToInternal_of_le hbound hF (le_refl e.currentCommandStartTime)
        (by omega)
      refine ⟨h.skew, ?_⟩
      show e.nextWakeupTime = e.currentCommandStartTime +
        if absoluteToInternal F e.clockSkewCompensationFactor e.currentCommandStartTime
          e.currentCommandStartTime < 0 then 0 else
          toUnsigned (absoluteToInternal F e.clockSkewCompensationFactor e.currentCommandStartTime
            e.currentCommandStartTime)
      rw [h.skew, hzero, Nat.sub_self]
      simp [toUnsigned, hnow]

/-- Behind a clock reset at time zero, the program is on time. -/
theorem onTime_handleResetClockFlag {e : Executor} (hskew : e.clockSkewCompensationFactor = 1)
    (hflag : e.resetClockFlag = true) : (e.handleResetClockFlag F 0).OnTime := by
  refine ⟨?_, ?_⟩
  · rw [handleResetClockFlag, if_pos hflag]
    exact hskew
  · rw [handleResetClockFlag, if_pos hflag]
    show 0 = 0 + if absoluteToInternal F e.clockSkewCompensationFactor 0 0 < 0 then 0 else
      toUnsigned (absoluteToInternal F e.clockSkewCompensationFactor 0 0)
    rw [hskew, absoluteToInternal_zero]
    rfl

theorem skew_passTime (e : Executor) (effect : TimeEffect) :
    (e.passTime F effect).clockSkewCompensationFactor = e.clockSkewCompensationFactor := by
  cases effect <;> rfl

variable (F signals) in
/-- A step does not change the skew of the clock. -/
theorem skew_step (e : Executor) (now : ℕ) :
    (e.step F signals now).clockSkewCompensationFactor = e.clockSkewCompensationFactor := by
  have hreset : (e.handleResetClockFlag F now).clockSkewCompensationFactor =
      e.clockSkewCompensationFactor := by
    simp only [handleResetClockFlag]
    split <;> rfl
  have hprep := (sameClock_prepare F signals e now).skew.trans hreset
  have hcase := step_cases F signals e now
  generalize e.step F signals now = e' at hcase ⊢
  cases hcase with
  | ended => exact hreset
  | idle => exact hprep
  | noStore => exact hprep
  | perform s =>
      rw [(sameClock_perform F signals _ _).skew, skew_passTime]
      exact hprep

/-- What a step may change while no command is due: it advances the running fade. Apart from
that only active triggers have an effect, and a program that has ended wakes up later. -/
structure OnlyFadeAdvanced (e e' : Executor) : Prop where
  loopStack : e'.loopStack = e.loopStack
  pyroChannels : e'.currentPyroChannels = e.currentPyroChannels
  ended : e'.ended = e.ended
  error : e'.error = e.error
  origin : e'.lastClockResetTime = e.lastClockResetTime
  cumulative : e'.cumulativeDurationSinceStart = e.cumulativeDurationSinceStart
  wakeup : e.ended = false → e'.nextWakeupTime = e.nextWakeupTime
  target : e'.transitionHandler.endColor = e.transitionHandler.endColor
  idle : e.transition.active = false → e'.transition = e.transition ∧
    e'.transitionHandler = e.transitionHandler ∧ e'.currentColor = e.currentColor
  untriggered : (∀ i, (e.triggers i).active = false) →
    e'.store = e.store ∧ e'.triggers = e.triggers

/-- Advancing the running fade only advances the running fade. -/
theorem onlyFadeAdvanced_handleActiveTransition (F : Rounding) (e : Executor) (now : ℕ) :
    OnlyFadeAdvanced e (e.handleActiveTransition F now) := by
  simp only [handleActiveTransition]
  split
  case isTrue hactive =>
    split <;> exact ⟨rfl, rfl, rfl, rfl, rfl, rfl, fun _ => rfl, rfl,
      fun hidle => absurd (hidle.symm.trans hactive) (by decide), fun _ => ⟨rfl, rfl⟩⟩
  case isFalse =>
    exact ⟨rfl, rfl, rfl, rfl, rfl, rfl, fun _ => rfl, rfl, fun _ => ⟨rfl, rfl, rfl⟩,
      fun _ => ⟨rfl, rfl⟩⟩

/-- **A step while no command is due** executes none, and only advances the running fade. -/
theorem onlyFadeAdvanced_step (F : Rounding) (signals : Signals) {e : Executor}
    (hflag : e.resetClockFlag = false) (now : ℕ)
    (hnow : e.ended = false → now < e.nextWakeupTime) :
    e.executes F signals now = none ∧ OnlyFadeAdvanced e (e.step F signals now) := by
  have hreset := handleResetClockFlag_of_not F hflag now
  cases hend : e.ended with
  | true =>
      have hend' : (e.handleResetClockFlag F now).ended = true := by rwa [hreset]
      refine ⟨executes_of_ended F signals hend', ?_⟩
      rw [step, hreset, if_pos hend]
      exact ⟨rfl, rfl, rfl, rfl, rfl, rfl, fun h => absurd (hend.symm.trans h) (by decide), rfl,
        fun _ => ⟨rfl, rfl, rfl⟩, fun _ => ⟨rfl, rfl⟩⟩
  | false =>
      obtain ⟨store, triggers, htrig⟩ := checkAndFireTriggers_frame signals e now
      have hprep := (sameClock_prepare F signals e now).wakeup
      rw [hreset] at hprep
      have hdue : ¬ (e.prepare F signals now).nextWakeupTime ≤ now := by
        rw [hprep]
        exact not_le.mpr (hnow hend)
      refine ⟨executes_of_not_due F signals hdue, ?_⟩
      have hstep : e.step F signals now =
          (e.checkAndFireTriggers signals now).handleActiveTransition F now := by
        simp only [prepare, hreset] at hdue
        simp only [step, hreset, handleDueCommand]
        rw [if_neg (by simp [hend]), if_neg hdue]
      have hsame := sameClock_handleActiveTransition F (e.checkAndFireTriggers signals now) now
      have hframe := onlyFadeAdvanced_handleActiveTransition F
        (e.checkAndFireTriggers signals now) now
      rw [hstep]
      refine ⟨?_, ?_, ?_, ?_, ?_, ?_, fun _ => ?_, ?_, fun hidle => ?_, fun hinactive => ?_⟩
      · exact hframe.loopStack.trans (by rw [htrig])
      · exact hframe.pyroChannels.trans (by rw [htrig])
      · exact hframe.ended.trans (by rw [htrig])
      · exact hframe.error.trans (by rw [htrig])
      · exact hframe.origin.trans (by rw [htrig])
      · exact hframe.cumulative.trans (by rw [htrig])
      · exact hsame.wakeup.trans (by rw [htrig])
      · exact hframe.target.trans (by rw [htrig])
      · obtain ⟨htransition, hhandler, hcolor⟩ := hframe.idle (by rwa [htrig])
        rw [htransition, hhandler, hcolor, htrig]
        exact ⟨rfl, rfl, rfl⟩
      · rw [checkAndFireTriggers_of_inactive signals hinactive] at hframe ⊢
        exact hframe.untriggered hinactive

end Executor

/-! ### The player -/

/-- The times that the step computes are small: the time of the step, and the time at which
its command is over. -/
def PlayerStep.Small (F : Rounding) (signals : Signals) (bound : ℕ) (s : PlayerStep) : Prop :=
  s.now ≤ bound ∧
    ∀ c ∈ s.command F signals, (s.before F signals).endTime c.timeEffect ≤ bound

instance (F : Rounding) (signals : Signals) (bound : ℕ) (s : PlayerStep) :
    Decidable (s.Small F signals bound) :=
  inferInstanceAs (Decidable (_ ∧ ∀ c ∈ s.command F signals, _))

namespace BytecodePlayer

variable {F : Rounding} {signals : Signals} {bound : ℕ}

/-- The player paces its executor and is not ahead of it, and its executor is on time. -/
structure OnTime (p : BytecodePlayer) : Prop extends p.Paced where
  ahead : p.currentTimestamp ≤ p.nextTimestamp
  skew : p.executor.clockSkewCompensationFactor = 1
  onTime : p.executor.resetClockFlag = false → p.executor.ended = false → p.executor.OnTime

theorem onTime_rewound {p : BytecodePlayer} (hskew : p.executor.clockSkewCompensationFactor = 1) :
    p.rewound.OnTime where
  toPaced := paced_rewound p
  ahead := le_rfl
  skew := by
    simp only [rewound, Executor.rewind]
    split <;> exact hskew
  onTime hflag := by
    rw [rewound, resetClockFlag_rewind] at hflag
    cases hflag

/-- Behind a clock reset that may be pending, the program is on time. -/
theorem OnTime.handleResetClockFlag {p : BytecodePlayer} (h : p.OnTime)
    (hend : p.executor.ended = false) {now : ℕ} (hnow : now ≤ p.nextTimestamp) :
    (p.executor.handleResetClockFlag F now).OnTime := by
  cases hflag : p.executor.resetClockFlag with
  | false =>
      rw [Executor.handleResetClockFlag_of_not F hflag]
      exact h.onTime hflag hend
  | true =>
      obtain rfl : now = 0 := Nat.le_zero.mp ((h.pending hflag).2 ▸ hnow)
      exact Executor.onTime_handleResetClockFlag h.skew hflag

/-- **A step on time**: it executes its command exactly at the wakeup time, leaves the wakeup
time at the origin plus the cumulative duration, and does not leave it behind. -/
theorem OnTime.step {s : PlayerStep} (h : s.player.OnTime)
    (hnow : s.now ≤ s.player.nextTimestamp) (hbound : bound + 60000 < 2 ^ 63)
    (hF : F.ExactUpTo bound) (hsmall : s.Small F signals bound) :
    ((s.after F signals).ended = false → (s.after F signals).OnTime) ∧
      s.now ≤ (s.after F signals).nextWakeupTime := by
  obtain ⟨hnowb, hcommand⟩ := hsmall
  cases hend : s.player.executor.ended with
  | true =>
      have hafter : s.after F signals = { s.player.executor.handleResetClockFlag F s.now with
          nextWakeupTime := (s.now + 60000) % 2 ^ 64 } := by
        rw [PlayerStep.after, Executor.step]
        exact if_pos ((Executor.ended_handleResetClockFlag F _ _).trans hend)
      rw [hafter]
      refine ⟨fun hend' => ?_, ?_⟩
      · have hended := (Executor.ended_handleResetClockFlag F s.player.executor s.now).trans hend
        exact absurd (hended.symm.trans hend') (by decide)
      · show s.now ≤ (s.now + 60000) % 2 ^ 64
        omega
  | false =>
      have hwakeup := h.wakeup_handleResetClockFlag (F := F) hnow hend
      have hmono := Executor.nextWakeupTime_step F signals hend s.now
      rw [hwakeup] at hmono
      refine ⟨fun hend' => ?_, hnow.trans hmono⟩
      have hbefore : (s.before F signals).OnTime :=
        (h.handleResetClockFlag hend hnow).congr
          (Executor.sameClock_prepare F signals s.player.executor s.now)
      have hcase := Executor.step_cases F signals s.player.executor s.now
      rw [PlayerStep.after] at hend' ⊢
      generalize s.player.executor.step F signals s.now = e' at hcase hend' ⊢
      cases hcase with
      | ended hended =>
          have hend'' : (s.player.executor.handleResetClockFlag F s.now).ended = false := hend'
          exact absurd (hended.symm.trans hend'') (by decide)
      | idle => exact (Executor.onTime_setStart _ s.now).mp hbefore
      | noStore => cases hend'
      | perform store hended hdue hstore =>
          have hc : s.command F signals = some store.fetch.1 :=
            Executor.executes_of_due F signals hended hdue hstore
          have hat := (h.executes_at_wakeup hnow hc).2
          have hpass := (hbefore.withStore store.fetch.2).passTime (by omega) hF hat.symm
            (hat.trans_le hnowb) (hcommand _ hc)
          exact hpass.congr (Executor.sameClock_perform F signals _ _)

/-- A step of the loop leaves the player on time. -/
theorem OnTime.stepToNext {p : BytecodePlayer} (h : p.OnTime) (hbound : bound + 60000 < 2 ^ 63)
    (hF : F.ExactUpTo bound) (hsmall : PlayerStep.Small F signals bound ⟨p, p.nextTimestamp⟩) :
    (p.stepToNext F signals).OnTime where
  toPaced := h.toPaced.stepToNext
  ahead := by
    obtain ⟨-, hle⟩ := h.step (s := ⟨p, p.nextTimestamp⟩) le_rfl hbound hF hsmall
    exact hle.trans_eq (if_neg (not_lt.mpr hle)).symm
  skew := (Executor.skew_step F signals p.executor p.nextTimestamp).trans h.skew
  onTime _ hend := (h.step (s := ⟨p, p.nextTimestamp⟩) le_rfl hbound hF hsmall).1 hend

/-- So does the last step of a seek. -/
theorem OnTime.stepToTarget {p : BytecodePlayer} (h : p.OnTime) {target : ℕ}
    (htarget : target ≤ p.nextTimestamp) (hbound : bound + 60000 < 2 ^ 63)
    (hF : F.ExactUpTo bound) (hsmall : PlayerStep.Small F signals bound ⟨p, target⟩) :
    (p.stepToTarget F signals target).OnTime where
  toPaced := h.toPaced.stepToTarget htarget
  ahead := (h.step (s := ⟨p, target⟩) htarget hbound hF hsmall).2
  skew := (Executor.skew_step F signals p.executor target).trans h.skew
  onTime _ hend := (h.step (s := ⟨p, target⟩) htarget hbound hF hsmall).1 hend

/-- **Seeking to a time before the next command** makes a single step, which executes no
command and only advances the running fade. -/
theorem Paced.seek_between (F : Rounding) (signals : Signals) {p : BytecodePlayer} (h : p.Paced)
    {time : ℕ}
    (hafter : p.currentTimestamp < time) (hbefore : time < p.nextTimestamp) (fuel : ℕ) :
    p.seekSteps F signals fuel time = [⟨p, time⟩] ∧
      PlayerStep.command F signals ⟨p, time⟩ = none ∧
      ∃ q, p.seek F signals fuel time = some q ∧
        Executor.OnlyFadeAdvanced p.executor q.executor := by
  have hstart : p.rewindIfNeeded time = p := if_neg hafter.not_gt
  have hstop : ¬ Behind time p := hbefore.not_gt
  have hflag : p.executor.resetClockFlag = false := by
    cases hflag : p.executor.resetClockFlag with
    | false => rfl
    | true =>
        have hzero := (h.pending hflag).2
        omega
  obtain ⟨hnone, hframe⟩ := Executor.onlyFadeAdvanced_step F signals hflag time
    fun hend => h.wakeup hflag hend ▸ hbefore
  refine ⟨?_, hnone, p.stepToTarget F signals time, ?_, hframe⟩
  · rw [seekSteps, hstart, WhileLoop.trace_of_not hstop, WhileLoop.run_of_not hstop]
    rfl
  · rw [seek, hstart, WhileLoop.run_of_not hstop]
    rfl

/-- A fresh light player is on time. -/
theorem onTime_lightPlayerInit (F : Rounding) (signals : Signals) (memory : UninitMemory)
    (program : List UInt8) : (lightPlayerInit F signals memory program).OnTime := by
  have h := onTime_rewound (p := ⟨{ (Executor.construct memory).step F signals 0 with
    store := some (.ofArray program) }, 0, 0⟩) (Executor.construct_step F signals memory).1
  exact h

/-- A player of a harmless program never has an active trigger. -/
theorem inactive_lightPlayerAfter {memory : UninitMemory} {program : List UInt8}
    (h : Harmless memory program) {fuel : ℕ} {calls : List LightPlayerCall} {p : BytecodePlayer}
    (hp : p ∈ lightPlayerAfter F signals fuel (lightPlayerInit F signals memory program) calls) :
    ∀ i, (p.executor.triggers i).active = false := by
  have hrewind : ∀ q : BytecodePlayer, q.Playing (.ofArray program) →
      q.rewound.Playing (.ofArray program) := fun q hq =>
    ⟨hq.inert.rewind, fun _ => ⟨rfl, rfl⟩⟩
  have hnext : ∀ q : BytecodePlayer, q.Playing (.ofArray program) → True →
      (q.stepToNext F signals).Playing (.ofArray program) := fun q hq _ =>
    (light_stepToNext F signals hq).2
  have htarget : ∀ (q : BytecodePlayer) (target : ℕ), q.Playing (.ofArray program) →
      q.currentTimestamp ≤ target → target ≤ q.nextTimestamp → True →
      (q.stepToTarget F signals target).Playing (.ofArray program) := by
    intro q target hq _ hle _
    refine (light_stepToTarget F signals hq target fun hflag => ?_).2
    have hzero := (hq.pending hflag).2
    omega
  have hplaying := (steps_invariant (P := fun _ => True) hrewind hnext htarget
    (playing_init F signals h).1 fuel calls fun _ _ => trivial).2 p hp
  exact hplaying.inert.triggers

/-- **Without a signal source**, or without a command that uses one, seeking to a time before the
next command does not touch the position in the program and the triggers either. -/
theorem Paced.seek_between_harmless {memory : UninitMemory} {program : List UInt8}
    (h : Harmless memory program) {fuel : ℕ} {calls : List LightPlayerCall} {p : BytecodePlayer}
    (hp : p ∈ lightPlayerAfter F signals fuel (lightPlayerInit F signals memory program) calls)
    (hpaced : p.Paced) {time : ℕ} (hafter : p.currentTimestamp < time)
    (hbefore : time < p.nextTimestamp) (fuel' : ℕ) :
    ∃ q, p.seek F signals fuel' time = some q ∧
      Executor.OnlyFadeAdvanced p.executor q.executor ∧
      q.executor.store = p.executor.store ∧ q.executor.triggers = p.executor.triggers := by
  obtain ⟨-, -, q, hseek, hframe⟩ := hpaced.seek_between F signals hafter hbefore fuel'
  exact ⟨q, hseek, hframe, hframe.untriggered (inactive_lightPlayerAfter h hp)⟩

end BytecodePlayer

/-- **The timekeeping of the player.** In a history of seeks whose times are small, every
command is executed exactly at the wakeup time, and behind every step of a program that has
not ended the wakeup time is the origin of the clock plus the cumulative duration. A
further seek reports a next timestamp that is not before its target, and seeking on to a
time before that timestamp executes no command. -/
theorem timekeeping_sound {F : Rounding} {bound : ℕ} (hbound : bound + 60000 < 2 ^ 63)
    (hF : F.ExactUpTo bound) (signals : Signals) (memory : UninitMemory)
    (program : List UInt8) (fuel : ℕ) (calls : List LightPlayerCall)
    (hsmall : ∀ s ∈ (lightPlayerInit F signals memory program).steps F signals fuel calls,
      s.Small F signals bound) :
    (∀ s ∈ (lightPlayerInit F signals memory program).steps F signals fuel calls,
      (∀ c ∈ s.command F signals, s.now = (s.before F signals).nextWakeupTime) ∧
        ((s.after F signals).ended = false → (s.after F signals).nextWakeupTime =
          (s.after F signals).lastClockResetTime +
            (s.after F signals).cumulativeDurationSinceStart)) ∧
      ∀ p ∈ lightPlayerAfter F signals fuel (lightPlayerInit F signals memory program) calls,
        ∀ target, (∀ s ∈ p.seekSteps F signals fuel target, s.Small F signals bound) →
          ∀ q ∈ p.seek F signals fuel target,
            target ≤ q.nextTimestamp ∧
              ∀ time fuel', target < time → time < q.nextTimestamp →
                (∀ s ∈ q.seekSteps F signals fuel' time, s.command F signals = none) ∧
                  ∃ r, q.seek F signals fuel' time = some r ∧
                    Executor.OnlyFadeAdvanced q.executor r.executor := by
  have hrewind : ∀ p : BytecodePlayer, p.OnTime → p.rewound.OnTime := fun p h =>
    BytecodePlayer.onTime_rewound h.skew
  have hnext : ∀ p : BytecodePlayer, p.OnTime →
      PlayerStep.Small F signals bound ⟨p, p.nextTimestamp⟩ → (p.stepToNext F signals).OnTime :=
    fun p h hs => h.stepToNext hbound hF hs
  have htarget : ∀ (p : BytecodePlayer) (target : ℕ), p.OnTime → p.currentTimestamp ≤ target →
      target ≤ p.nextTimestamp → PlayerStep.Small F signals bound ⟨p, target⟩ →
      (p.stepToTarget F signals target).OnTime :=
    fun p target h _ hle hs => h.stepToTarget hle hbound hF hs
  obtain ⟨hsteps, hafter⟩ := BytecodePlayer.steps_invariant hrewind hnext htarget
    (BytecodePlayer.onTime_lightPlayerInit F signals memory program) fuel calls hsmall
  refine ⟨fun s hs => ?_, fun p hp target hsmall' q hq => ?_⟩
  · obtain ⟨hon, hnow⟩ := hsteps s hs
    refine ⟨fun c hc => (hon.executes_at_wakeup hnow hc).2.symm, fun hend => ?_⟩
    exact ((hon.step hnow hbound hF (hsmall s hs)).1 hend).wakeup
  · have hon := (BytecodePlayer.seekSteps_invariant hrewind hnext htarget (hafter p hp) fuel
      target hsmall').2 q hq
    obtain ⟨r, -, rfl⟩ := Option.map_eq_some_iff.mp hq
    refine ⟨hon.ahead, fun time fuel' hlt hbefore => ?_⟩
    obtain ⟨hsingle, hnone, hseek⟩ := hon.toPaced.seek_between F signals hlt hbefore
      fuel'
    refine ⟨fun s hs => ?_, hseek⟩
    obtain rfl := List.mem_singleton.mp (hsingle ▸ hs)
    exact hnone

/-- The theorem at a program that sets a color, waits, resets the clock in a loop and fades. -/
theorem timekeeping_sound_program :
    let player := lightPlayerInit .exact .silent .zero
      [0x04, 10, 20, 30, 5, 0x03, 50, 0x0C, 2, 0x0E, 0x0B, 25, 0x0D, 0]
    ∀ s ∈ player.steps .exact .silent 20 [.getColorAt 1700, .getColorAt 300],
      (s.after .exact .silent).ended = false → (s.after .exact .silent).nextWakeupTime =
        (s.after .exact .silent).lastClockResetTime +
          (s.after .exact .silent).cumulativeDurationSinceStart := by
  intro player s hs
  exact ((timekeeping_sound (show 2 ^ 24 + 60000 < 2 ^ 63 by norm_num)
    (Rounding.exactUpTo_exact _) .silent .zero _ 20 _ (by decide +kernel)).1 s hs).2

end Skybrush
