import Skybrush.BytecodePlayer

/-!
# The Steps of a Player

A call on a light player makes the executor do some steps, at times that the loop of the
player chooses. This module lists these steps, each with the player before it, and shows
how the player paces the executor: whatever the program, as long as it has not ended the
next timestamp of the player is the next wakeup time of the executor, so a command is
executed exactly at the time at which it is due.

What a command does to the clocks of the executor depends on its duration only. The
commands are sorted by that (`Command.timeEffect`), so that facts about time do not
distinguish them any further.

## Main results

* `Executor.sameClock_perform`: what a command does to the clocks.
* `BytecodePlayer.steps_invariant`: an invariant of the player, kept as long as the steps
  of a sequence of calls are permitted.
* `BytecodePlayer.paced_steps`: the player paces the executor.
* `BytecodePlayer.Paced.executes_at_wakeup`: commands are executed at the wakeup time.
-/

namespace Skybrush

/-! ### What a command does to the clocks -/

/-- What a command does to the clocks of the executor. -/
inductive TimeEffect where
  | instant
  | delay (duration : ℕ)
  | waitUntil (deadlineInHalfFrames : UInt64)
  | resetClock
  deriving DecidableEq, Repr

/-- The effect of a command on the clocks. -/
def Command.timeEffect : Command → TimeEffect
  | sleep duration | setBlack duration | setWhite duration | fadeToBlack duration
  | fadeToWhite duration => .delay duration
  | setGray _ duration | fadeToGray _ duration => .delay duration
  | setColor _ duration | fadeToColor _ duration | setColorFromChannels _ duration
  | fadeToColorFromChannels _ duration => .delay duration
  | Command.waitUntil deadline => .waitUntil deadline
  | Command.resetClock => .resetClock
  | end_ | nop | loopEnd => .instant
  | loopBegin _ | jump _ | triggeredJump _ _ | setPyro _ | setPyroAll _ | invalid _ => .instant

namespace Executor

variable (F : Rounding) (signals : Signals)

/-- Let the time of a command pass. -/
def passTime (e : Executor) : TimeEffect → Executor
  | .instant => e
  | .delay duration => e.addDuration F duration
  | .waitUntil deadline => e.waitUntil F deadline
  | .resetClock => e.handleResetClockCommand F

/-- The clocks of two executors agree. -/
structure SameClock (e e' : Executor) : Prop where
  origin : e'.lastClockResetTime = e.lastClockResetTime
  cumulative : e'.cumulativeDurationSinceStart = e.cumulativeDurationSinceStart
  wakeup : e'.nextWakeupTime = e.nextWakeupTime
  skew : e'.clockSkewCompensationFactor = e.clockSkewCompensationFactor

theorem nextWakeupTime_delayExecutionUntilAbsoluteTime (e : Executor) (ms : ℕ) :
    (e.delayExecutionUntilAbsoluteTime ms).nextWakeupTime = max e.nextWakeupTime ms :=
  (max_def_lt ..).symm

theorem nextWakeupTime_addDuration (e : Executor) (duration : ℕ) :
    (e.addDuration F duration).nextWakeupTime =
      max e.nextWakeupTime (internalToAbsolute F e.clockSkewCompensationFactor
        e.lastClockResetTime (toSigned ((e.cumulativeDurationSinceStart + duration) % 2 ^ 64))) :=
  nextWakeupTime_delayExecutionUntilAbsoluteTime
    { e with cumulativeDurationSinceStart := (e.cumulativeDurationSinceStart + duration) % 2 ^ 64 }
    _

/-- Only the clocks matter for the time that passes. -/
theorem SameClock.addDuration {e e' : Executor} (h : SameClock e e') (duration : ℕ) :
    SameClock (e.addDuration F duration) (e'.addDuration F duration) := by
  refine ⟨h.origin, ?_, ?_, h.skew⟩
  · simp only [Executor.addDuration, delayExecutionUntil, delayExecutionUntilAbsoluteTime]
    rw [h.cumulative]
  · rw [nextWakeupTime_addDuration, nextWakeupTime_addDuration, h.cumulative, h.wakeup, h.skew,
      h.origin]

/-- Reading channels leaves the clocks alone. -/
theorem sameClock_colorFromChannels (e : Executor) (channels : RgbColor) :
    SameClock e (e.colorFromChannels signals channels).2 := by
  obtain ⟨error, hframe⟩ := colorFromChannels_frame signals e channels
  rw [hframe]
  exact ⟨rfl, rfl, rfl, rfl⟩

/-- **What a command does to the clocks** is to let its time pass. -/
theorem sameClock_perform (e : Executor) (c : Command) :
    SameClock (e.passTime F c.timeEffect) (e.perform F signals c) := by
  cases c with
  | setColorFromChannels channels duration | fadeToColorFromChannels channels duration =>
      obtain ⟨horigin, hcumulative, hwakeup, hskew⟩ :=
        (sameClock_colorFromChannels signals e channels).addDuration F duration
      exact ⟨horigin, hcumulative, hwakeup, hskew⟩
  | jump address =>
      simp only [perform, jumpTo]
      split <;> exact ⟨rfl, rfl, rfl, rfl⟩
  | loopBegin iterations =>
      simp only [perform, beginLoop]
      split <;> exact ⟨rfl, rfl, rfl, rfl⟩
  | loopEnd =>
      simp only [perform, handleLoopEndCommand]
      split <;> exact ⟨rfl, rfl, rfl, rfl⟩
  | triggeredJump triggerParams address =>
      obtain ⟨triggers, ended, error, hframe⟩ := setUpTrigger_frame signals e triggerParams
        address.toNat
      rw [perform, hframe]
      exact ⟨rfl, rfl, rfl, rfl⟩
  | _ => exact ⟨rfl, rfl, rfl, rfl⟩

/-- Time does not pass backwards. -/
theorem nextWakeupTime_le_passTime (e : Executor) (effect : TimeEffect) :
    e.nextWakeupTime ≤ (e.passTime F effect).nextWakeupTime := by
  cases effect with
  | instant => exact le_rfl
  | resetClock => exact le_rfl
  | delay duration => exact (le_max_left _ _).trans_eq (nextWakeupTime_addDuration F e _).symm
  | waitUntil deadline =>
      exact (le_max_left _ _).trans_eq (nextWakeupTime_delayExecutionUntilAbsoluteTime e _).symm

/-! ### The clocks during a step -/

theorem ended_handleResetClockFlag (e : Executor) (now : ℕ) :
    (e.handleResetClockFlag F now).ended = e.ended := by
  simp only [handleResetClockFlag]
  split <;> rfl

/-- Advancing a fade leaves the clocks alone. -/
theorem sameClock_handleActiveTransition (e : Executor) (now : ℕ) :
    SameClock e (e.handleActiveTransition F now) := by
  obtain ⟨color, transition, handler, hframe⟩ := handleActiveTransition_frame F e now
  rw [hframe]
  exact ⟨rfl, rfl, rfl, rfl⟩

/-- What comes before the next command leaves the clocks alone, apart from a pending clock
reset. -/
theorem sameClock_prepare (e : Executor) (now : ℕ) :
    SameClock (e.handleResetClockFlag F now) (e.prepare F signals now) := by
  obtain ⟨store, triggers, color, transition, handler, hframe⟩ := prepare_frame F signals e now
  rw [hframe]
  exact ⟨rfl, rfl, rfl, rfl⟩

/-- A program that has not ended after a step had not ended before. -/
theorem ended_step {e : Executor} {now : ℕ} (h : (e.step F signals now).ended = false) :
    e.ended = false := by
  have hcase := step_cases F signals e now
  generalize e.step F signals now = e' at hcase h
  cases hcase with
  | ended hended =>
      have hend : (e.handleResetClockFlag F now).ended = false := h
      rw [hended] at hend
      cases hend
  | idle hended => exact ended_handleResetClockFlag F e now ▸ hended
  | noStore => cases h
  | perform s hended => exact ended_handleResetClockFlag F e now ▸ hended

/-- **The wakeup time in a step** of a program that has not ended: it does not move back, and
stays where it is if no command is due. -/
theorem nextWakeupTime_step {e : Executor} (h : e.ended = false) (now : ℕ) :
    (e.handleResetClockFlag F now).nextWakeupTime ≤ (e.step F signals now).nextWakeupTime := by
  have hprep := (sameClock_prepare F signals e now).wakeup
  have hcase := step_cases F signals e now
  generalize e.step F signals now = e' at hcase ⊢
  cases hcase with
  | ended hended =>
      rw [ended_handleResetClockFlag, h] at hended
      cases hended
  | idle => exact hprep.ge
  | noStore => exact hprep.ge
  | perform s =>
      have hle := nextWakeupTime_le_passTime F
        ((e.prepare F signals now).withStore s.fetch.2) s.fetch.1.timeEffect
      rw [(sameClock_perform F signals ((e.prepare F signals now).withStore s.fetch.2)
        s.fetch.1).wakeup]
      exact hprep.ge.trans hle

end Executor

/-! ### The steps of a sequence of calls -/

/-- A step that a player makes its executor do: the player before the step, and the time of
the step. -/
structure PlayerStep where
  player : BytecodePlayer
  now : ℕ

namespace PlayerStep

variable (F : Rounding) (signals : Signals)

/-- The command that the step executes, if any. -/
def command (s : PlayerStep) : Option Command := s.player.executor.executes F signals s.now

/-- The executor right before the command of the step. -/
def before (s : PlayerStep) : Executor := s.player.executor.prepare F signals s.now

/-- The executor after the step. -/
def after (s : PlayerStep) : Executor := s.player.executor.step F signals s.now

end PlayerStep

namespace BytecodePlayer

variable (F : Rounding) (signals : Signals)

/-- The steps of a seek, in their order. -/
def seekSteps (fuel : ℕ) (p : BytecodePlayer) (target : ℕ) : List PlayerStep :=
  (WhileLoop.trace (Behind target) (stepToNext F signals) fuel (p.rewindIfNeeded target)).map
      (fun q => ⟨q, q.nextTimestamp⟩) ++
    (WhileLoop.run (Behind target) (stepToNext F signals) fuel
      (p.rewindIfNeeded target)).toList.map (fun q => ⟨q, target⟩)

/-- The steps of a sequence of calls, in their order. A call whose loop needs more fuel is
the last one. -/
def steps (fuel : ℕ) (p : BytecodePlayer) : List LightPlayerCall → List PlayerStep
  | [] => []
  | call :: calls =>
      p.seekSteps F signals fuel call.timestamp.toNat ++
        ((p.seek F signals fuel call.timestamp.toNat).toList.flatMap fun q =>
          steps fuel q calls)

/-- The player at the start of its program. -/
def rewound (p : BytecodePlayer) : BytecodePlayer :=
  { executor := p.executor.rewind, currentTimestamp := 0, nextTimestamp := 0 }

variable {F signals}

/-- **Invariants of a seek.** An invariant that rewinding keeps, and each kind of step in
permitted states, holds before every step of a seek and after it. -/
theorem seekSteps_invariant {I : BytecodePlayer → Prop} {P : PlayerStep → Prop}
    (hrewind : ∀ p, I p → I p.rewound)
    (hnext : ∀ p, I p → P ⟨p, p.nextTimestamp⟩ → I (p.stepToNext F signals))
    (htarget : ∀ p target, I p → p.currentTimestamp ≤ target → target ≤ p.nextTimestamp →
      P ⟨p, target⟩ → I (p.stepToTarget F signals target))
    {p : BytecodePlayer} (hp : I p) (fuel target : ℕ)
    (hok : ∀ s ∈ p.seekSteps F signals fuel target, P s) :
    (∀ s ∈ p.seekSteps F signals fuel target, I s.player ∧ s.now ≤ s.player.nextTimestamp) ∧
      ∀ q ∈ p.seek F signals fuel target, I q := by
  have hstart : I (p.rewindIfNeeded target) ∧
      (p.rewindIfNeeded target).currentTimestamp ≤ target := by
    rw [rewindIfNeeded]
    split
    case isTrue => exact ⟨hrewind p hp, Nat.zero_le _⟩
    case isFalse h => exact ⟨hp, not_lt.mp h⟩
  have hloop : ∀ q ∈ WhileLoop.trace (Behind target) (stepToNext F signals) fuel
      (p.rewindIfNeeded target), P ⟨q, q.nextTimestamp⟩ := fun q hq =>
    hok _ (List.mem_append_left _ (List.mem_map_of_mem hq))
  obtain ⟨htrace, hrun⟩ := WhileLoop.trace_invariant
    (I := fun q => I q ∧ q.currentTimestamp ≤ target) (P := fun q => P ⟨q, q.nextTimestamp⟩)
    (fun q hq hbehind hokq => ⟨hnext q hq.1 hokq, le_of_lt hbehind⟩) hstart hloop
  refine ⟨fun s hs => ?_, fun q hq => ?_⟩
  · rcases List.mem_append.mp hs with hs | hs
    · obtain ⟨q, hq, rfl⟩ := List.mem_map.mp hs
      exact ⟨(htrace q hq).1.1, le_rfl⟩
    · obtain ⟨q, hq, rfl⟩ := List.mem_map.mp hs
      have hres := Option.mem_toList.mp hq
      have hreach : WhileLoop.Reaches (Behind target) (stepToNext F signals) _ q := ⟨fuel, hres⟩
      exact ⟨(hrun q hres).1, not_lt.mp hreach.not_cond⟩
  · obtain ⟨r, hr, rfl⟩ := Option.map_eq_some_iff.mp hq
    have hreach : WhileLoop.Reaches (Behind target) (stepToNext F signals) _ r := ⟨fuel, hr⟩
    obtain ⟨hIr, hcur⟩ := hrun r hr
    exact htarget r target hIr hcur (not_lt.mp hreach.not_cond)
      (hok _ (List.mem_append_right _ (List.mem_map.mpr ⟨r, Option.mem_toList.mpr hr, rfl⟩)))

/-- **Invariants of a sequence of calls.** -/
theorem steps_invariant {I : BytecodePlayer → Prop} {P : PlayerStep → Prop}
    (hrewind : ∀ p, I p → I p.rewound)
    (hnext : ∀ p, I p → P ⟨p, p.nextTimestamp⟩ → I (p.stepToNext F signals))
    (htarget : ∀ p target, I p → p.currentTimestamp ≤ target → target ≤ p.nextTimestamp →
      P ⟨p, target⟩ → I (p.stepToTarget F signals target))
    {p : BytecodePlayer} (hp : I p) (fuel : ℕ) (calls : List LightPlayerCall)
    (hok : ∀ s ∈ p.steps F signals fuel calls, P s) :
    (∀ s ∈ p.steps F signals fuel calls, I s.player ∧ s.now ≤ s.player.nextTimestamp) ∧
      ∀ q ∈ lightPlayerAfter F signals fuel p calls, I q := by
  induction calls generalizing p with
  | nil =>
      refine ⟨by simp [steps], fun q hq => ?_⟩
      obtain rfl : p = q := by simpa [lightPlayerAfter] using hq
      exact hp
  | cons call calls ih =>
      obtain ⟨hseek, hafter⟩ := seekSteps_invariant hrewind hnext htarget hp fuel
        call.timestamp.toNat fun s hs => hok s (List.mem_append_left _ hs)
      have hmore : ∀ q ∈ p.seek F signals fuel call.timestamp.toNat,
          ∀ s ∈ q.steps F signals fuel calls, s ∈ p.steps F signals fuel (call :: calls) :=
        fun q hq s hs => List.mem_append_right _
          (List.mem_flatMap.mpr ⟨q, Option.mem_toList.mpr hq, hs⟩)
      refine ⟨fun s hs => ?_, fun r hr => ?_⟩
      · rcases List.mem_append.mp hs with hs | hs
        · exact hseek s hs
        · obtain ⟨q, hq, hs⟩ := List.mem_flatMap.mp hs
          have hres := Option.mem_toList.mp hq
          exact (ih (hafter q hres) fun s hs => hok s (hmore q hres s hs)).1 s hs
      · obtain ⟨⟨result, q⟩, hrun, hr⟩ := Option.bind_eq_some_iff.mp hr
        have hres : p.seek F signals fuel call.timestamp.toNat = some q := by
          rw [← LightPlayerCall.map_snd_run, hrun, Option.map_some]
        exact (ih (hafter q hres) fun s hs => hok s (hmore q hres s hs)).2 r hr

/-! ### Pacing -/

/-- The player paces its executor: a clock reset is only pending at the start, and otherwise
the next timestamp of a program that has not ended is the next wakeup time. -/
structure Paced (p : BytecodePlayer) : Prop where
  pending : p.executor.resetClockFlag = true → p.currentTimestamp = 0 ∧ p.nextTimestamp = 0
  wakeup : p.executor.resetClockFlag = false → p.executor.ended = false →
    p.nextTimestamp = p.executor.nextWakeupTime
  current_le : p.executor.ended = false → p.currentTimestamp ≤ p.nextTimestamp

theorem resetClockFlag_rewind (e : Executor) : e.rewind.resetClockFlag = true := by
  rw [Executor.rewind]
  rfl

/-- A player at its start is paced. -/
theorem paced_rewound (p : BytecodePlayer) : p.rewound.Paced where
  pending _ := ⟨rfl, rfl⟩
  wakeup hflag := by
    rw [rewound, resetClockFlag_rewind] at hflag
    cases hflag
  current_le _ := le_rfl

variable {p : BytecodePlayer}

/-- The wakeup time behind a clock reset that may be pending. -/
theorem Paced.wakeup_handleResetClockFlag (h : p.Paced) {now : ℕ} (hnow : now ≤ p.nextTimestamp)
    (hend : p.executor.ended = false) :
    (p.executor.handleResetClockFlag F now).nextWakeupTime = p.nextTimestamp := by
  cases hflag : p.executor.resetClockFlag with
  | false => rw [Executor.handleResetClockFlag_of_not F hflag, h.wakeup hflag hend]
  | true =>
      have hnext := (h.pending hflag).2
      rw [Executor.handleResetClockFlag, if_pos hflag]
      show now = p.nextTimestamp
      omega

/-- A step of the loop keeps the pace: the next wakeup time is never too early. -/
theorem Paced.stepToNext (h : p.Paced) : (p.stepToNext F signals).Paced := by
  have hstep : ((p.stepToNext F signals).executor.ended = false) →
      p.nextTimestamp ≤ (p.stepToNext F signals).executor.nextWakeupTime ∧
        (p.stepToNext F signals).nextTimestamp =
          (p.stepToNext F signals).executor.nextWakeupTime := by
    intro hend'
    have hend := Executor.ended_step F signals hend'
    have hle := Executor.nextWakeupTime_step F signals hend p.nextTimestamp
    rw [h.wakeup_handleResetClockFlag le_rfl hend] at hle
    exact ⟨hle, if_neg (not_lt.mpr hle)⟩
  refine ⟨fun hflag => ?_, fun _ hend => (hstep hend).2, fun hend => ?_⟩
  · rw [BytecodePlayer.stepToNext, Executor.resetClockFlag_step] at hflag
    cases hflag
  · rw [(hstep hend).2]
    exact (hstep hend).1

/-- The last step of a seek keeps the pace. -/
theorem Paced.stepToTarget (h : p.Paced) {target : ℕ} (htarget : target ≤ p.nextTimestamp) :
    (p.stepToTarget F signals target).Paced := by
  refine ⟨fun hflag => ?_, fun _ _ => rfl, fun hend' => ?_⟩
  · rw [BytecodePlayer.stepToTarget, Executor.resetClockFlag_step] at hflag
    cases hflag
  · have hend := Executor.ended_step F signals hend'
    have hle := Executor.nextWakeupTime_step F signals hend target
    rw [h.wakeup_handleResetClockFlag htarget hend] at hle
    exact htarget.trans hle

/-- A fresh light player is paced. -/
theorem paced_lightPlayerInit (F : Rounding) (signals : Signals) (memory : UninitMemory)
    (program : List UInt8) : (lightPlayerInit F signals memory program).Paced :=
  paced_rewound ⟨{ (Executor.construct memory).step F signals 0 with
    store := some (.ofArray program) }, 0, 0⟩

/-- **The player paces the executor** before every step of every sequence of calls, and no
step is later than the next timestamp. -/
theorem paced_steps (F : Rounding) (signals : Signals) (memory : UninitMemory)
    (program : List UInt8) (fuel : ℕ) (calls : List LightPlayerCall) :
    (∀ s ∈ (lightPlayerInit F signals memory program).steps F signals fuel calls,
      s.player.Paced ∧ s.now ≤ s.player.nextTimestamp) ∧
      ∀ q ∈ lightPlayerAfter F signals fuel (lightPlayerInit F signals memory program) calls,
        q.Paced :=
  steps_invariant (P := fun _ => True) (fun p _ => paced_rewound p) (fun _ h _ => h.stepToNext)
    (fun _ _ h _ htarget _ => h.stepToTarget htarget)
    (paced_lightPlayerInit F signals memory program) fuel calls fun _ _ => trivial

/-- **Commands are executed at the wakeup time**, which is the next timestamp. -/
theorem Paced.executes_at_wakeup {s : PlayerStep} (h : s.player.Paced)
    (hnow : s.now ≤ s.player.nextTimestamp) {c : Command} (hc : s.command F signals = some c) :
    s.now = s.player.nextTimestamp ∧ (s.before F signals).nextWakeupTime = s.now := by
  simp only [PlayerStep.command, Executor.executes] at hc
  split at hc
  · cases hc
  case isFalse hended =>
    have hend : s.player.executor.ended = false := by
      rwa [Executor.ended_handleResetClockFlag, Bool.not_eq_true] at hended
    have hwakeup : (s.before F signals).nextWakeupTime = s.player.nextTimestamp :=
      (Executor.sameClock_prepare F signals s.player.executor s.now).wakeup.trans
        (h.wakeup_handleResetClockFlag hnow hend)
    split at hc
    case isTrue hdue =>
      have hle : s.player.nextTimestamp ≤ s.now := hwakeup ▸ hdue
      exact ⟨le_antisymm hnow hle, hwakeup.trans (le_antisymm hle hnow)⟩
    case isFalse => cases hc

end BytecodePlayer

end Skybrush
