import Skybrush.FadeStart

/-!
# Where Colors and Pyro Bits Come From

A light program is run whatever its bytes are, and its fades are computed in rounded
arithmetic. Still nothing is shown that no command has asked for. A fade stays between its two
colors, so that every channel of the color is at most as bright as in a color that an executed
command has set or faded to, and a pyro channel is only on if an executed command has switched it
on.

The invariant of the executor is about any values that are closed downwards
(`Executor.Draws`); the values that come from the commands of a run are.

## Main results

* `interpolateChannel_le`: a rounded interpolation does not overshoot.
* `Executor.perform_target`: what a command does to the colors.
* `Executor.Draws.step`, `Executor.Switched.step`: the invariants of a step.
* `light_provenance`: nothing is shown that no command has asked for.
-/

namespace Skybrush

/-! ### Interpolation -/

/-- A clamped value that is at most a byte is truncated to at most that byte. -/
theorem toNat_ofNat_truncate_clamp_le {q : ℚ} {n : ℕ} (hn : n ≤ 255) (hq : q ≤ n) :
    (UInt8.ofNat (Rounding.truncate (clamp q 0 255)).toNat).toNat ≤ n := by
  have hclamp : 0 ≤ clamp q 0 255 ∧ clamp q 0 255 ≤ n := by
    have hcast : (n : ℚ) ≤ 255 := by exact_mod_cast hn
    rw [clamp]
    split
    · exact ⟨le_rfl, Nat.cast_nonneg n⟩
    case isFalse hlow =>
      rw [if_neg (not_lt.2 (hq.trans hcast))]
      exact ⟨not_lt.1 hlow, hq⟩
  have htruncate : Rounding.truncate (clamp q 0 255) ≤ n := by
    rw [Rounding.truncate, if_pos hclamp.1]
    exact_mod_cast (Int.floor_le _).trans hclamp.2
  calc (UInt8.ofNat (Rounding.truncate (clamp q 0 255)).toNat).toNat
      ≤ (Rounding.truncate (clamp q 0 255)).toNat := by
        rw [UInt8.toNat_ofNat']
        exact Nat.mod_le _ _
    _ ≤ n := Int.toNat_le.2 htruncate

/-- **A rounded interpolation** is at most as bright as the brighter end. -/
theorem interpolateChannel_le (F : Rounding) (first second : UInt8) {ratio : ℚ}
    (hnonneg : 0 ≤ ratio) (hle : ratio ≤ 1) :
    (interpolateChannel F first second ratio).toNat ≤ max first.toNat second.toNat := by
  have hfirst := first.toNat_lt
  have hsecond := second.toNat_lt
  have hbound : (((second.toNat : ℤ) - first.toNat : ℤ) : ℚ) * ratio ≤
      ((max first.toNat second.toNat - first.toNat : ℕ) : ℚ) := by
    rcases Nat.le_total first.toNat second.toNat with h | h
    · have hpos : (0 : ℚ) ≤ (second.toNat : ℚ) - first.toNat := by
        rw [sub_nonneg]
        exact_mod_cast h
      rw [max_eq_right h, Nat.cast_sub h]
      push_cast
      exact mul_le_of_le_one_right hpos hle
    · rw [max_eq_left h, Nat.sub_self, Nat.cast_zero]
      refine mul_nonpos_of_nonpos_of_nonneg ?_ hnonneg
      exact_mod_cast (by omega : (second.toNat : ℤ) - first.toNat ≤ 0)
  have hdelta : F ((((second.toNat : ℤ) - first.toNat : ℤ) : ℚ) * ratio) ≤
      (max first.toNat second.toNat : ℕ) - first.toNat := by
    calc F ((((second.toNat : ℤ) - first.toNat : ℤ) : ℚ) * ratio)
        ≤ F ((max first.toNat second.toNat - first.toNat : ℕ) : ℚ) := F.mono hbound
      _ = ((max first.toNat second.toNat - first.toNat : ℕ) : ℚ) := F.apply_natCast (by omega)
      _ = (max first.toNat second.toNat : ℕ) - first.toNat := Nat.cast_sub (le_max_left _ _)
  refine toNat_ofNat_truncate_clamp_le (by omega) ?_
  calc F (first.toNat + F ((((second.toNat : ℤ) - first.toNat : ℤ) : ℚ) * ratio))
      ≤ F ((max first.toNat second.toNat : ℕ) : ℚ) := F.mono (by linarith)
    _ = (max first.toNat second.toNat : ℕ) := F.apply_natCast (by omega)

/-- One of the three channels of a color. -/
inductive Channel where
  | red
  | green
  | blue
  deriving DecidableEq, Repr

/-- The value of a channel. -/
def RgbColor.level (color : RgbColor) : Channel → UInt8
  | .red => color.red
  | .green => color.green
  | .blue => color.blue

theorem RgbColor.level_black (k : Channel) : black.level k = 0 := by
  cases k <;> rfl

/-- Colors are interpolated channel by channel. -/
theorem RgbColor.level_linearInterpolation (F : Rounding) (first second : RgbColor) (ratio : ℚ)
    (k : Channel) :
    (linearInterpolation F first second ratio).level k =
      interpolateChannel F (first.level k) (second.level k) ratio := by
  cases k <;> rfl

/-- Progress is not negative. -/
theorem Transition.progressPreEasing_nonneg (F : Rounding) (tr : Transition) (clock : ℕ) :
    0 ≤ tr.progressPreEasing F clock := by
  by_cases hbefore : clock < tr.start
  · rw [progressPreEasing, if_pos hbefore]
  · have hstart : 0 ≤ tr.progressPreEasing F tr.start := by
      rw [progressPreEasing_start]
      split
      · exact zero_le_one
      · exact le_rfl
    exact hstart.trans (tr.progressPreEasing_mono F (not_lt.1 hbefore))

/-! ### Commands -/

/-- The command switches a pyro channel on. -/
def Command.SwitchesOn (i : ℕ) : Command → Prop
  | setPyro channelMask => channelMask &&& 128 ≠ 0 ∧ channelMask.toNat.testBit i = true
  | setPyroAll channelValues => channelValues.toNat.testBit i = true
  | _ => False

namespace Executor

variable (F : Rounding) (signals : Signals)

/-- The color that a command sets or fades to. -/
def targetOf (e : Executor) : Command → Option RgbColor
  | .setColor color _ | .fadeToColor color _ => some color
  | .setGray value _ | .fadeToGray value _ => some ⟨value, value, value⟩
  | .setBlack _ | .fadeToBlack _ => some .black
  | .setWhite _ | .fadeToWhite _ => some .white
  | .setColorFromChannels channels _ | .fadeToColorFromChannels channels _ =>
      some (e.colorFromChannels signals channels).1
  | .end_ | .nop | .sleep _ | .waitUntil _ | .loopBegin _ | .loopEnd | .resetClock => none
  | .jump _ | .triggeredJump _ _ | .setPyro _ | .setPyroAll _ | .invalid _ => none

/-- Targets do not depend on the location of the store. -/
theorem targetOf_withStore (e : Executor) (s : BytecodeStore) (c : Command) :
    (e.withStore s).targetOf signals c = e.targetOf signals c := by
  cases c with
  | setColorFromChannels channels _ | fadeToColorFromChannels channels _ =>
      simp only [targetOf, colorFromChannels_withStore]
  | _ => rfl

/-- The color of the executor is at some stage between its start color and its end color. -/
structure Blends (e e' : Executor) (color : RgbColor) : Prop where
  shown : ∃ ratio, 0 ≤ ratio ∧ ratio ≤ 1 ∧ e'.currentColor =
    RgbColor.linearInterpolation F e.transitionHandler.startColor color ratio
  start : e'.transitionHandler.startColor = e.transitionHandler.startColor ∨
    e'.transitionHandler.startColor = color
  stop : e'.transitionHandler.endColor = e.transitionHandler.endColor ∨
    e'.transitionHandler.endColor = color

/-- A color that is set is a blend that is complete. -/
theorem blends_set (e e' : Executor) (hhandler : e'.transitionHandler = e.transitionHandler)
    (color : RgbColor) : Blends F e (e'.setCurrentColorAndResetTransition color) color where
  shown := ⟨1, zero_le_one, le_rfl, (RgbColor.linearInterpolation_one ..).symm⟩
  start := .inr rfl
  stop := .inl (congrArg (·.endColor) hhandler)

/-- A fade starts with a blend. -/
theorem blends_startFade (e e' : Executor) (hhandler : e'.transitionHandler = e.transitionHandler)
    (color : RgbColor) (now : ℕ) : Blends F e (e'.startFade F color now) color where
  shown := by
    refine ⟨(Transition.startAt (toUnsigned (e'.nextWakeupTime - now))
      e'.currentCommandStartTime).progressPreEasing F now,
      Transition.progressPreEasing_nonneg F _ now, Transition.progressPreEasing_le_one F _ now, ?_⟩
    rw [← hhandler]
    rfl
  start := .inl (congrArg (·.startColor) hhandler)
  stop := .inr rfl

/-- **What a command does to the colors**: it blends to its target, or leaves them alone. -/
theorem perform_target (e : Executor) (c : Command) :
    (∃ color, e.targetOf signals c = some color ∧ Blends F e (e.perform F signals c) color) ∨
      (e.perform F signals c).currentColor = e.currentColor ∧
        (e.perform F signals c).transitionHandler = e.transitionHandler := by
  cases c with
  | setColor _ duration | setGray _ duration | setBlack duration | setWhite duration =>
      exact .inl ⟨_, rfl, blends_set F e (e.addDuration F duration) rfl _⟩
  | fadeToColor _ duration | fadeToGray _ duration | fadeToBlack duration
  | fadeToWhite duration =>
      exact .inl ⟨_, rfl, blends_startFade F e (e.addDuration F duration) rfl _ _⟩
  | setColorFromChannels channels duration =>
      obtain ⟨error, hframe⟩ := colorFromChannels_frame signals e channels
      refine .inl ⟨_, rfl, ?_⟩
      rw [perform, hframe]
      exact blends_set F e ((e.setError error).addDuration F duration) rfl _
  | fadeToColorFromChannels channels duration =>
      obtain ⟨error, hframe⟩ := colorFromChannels_frame signals e channels
      refine .inl ⟨_, rfl, ?_⟩
      rw [perform, hframe]
      exact blends_startFade F e ((e.setError error).addDuration F duration) rfl _ _
  | jump address =>
      right
      simp only [perform, jumpTo]
      split <;> exact ⟨rfl, rfl⟩
  | loopBegin iterations =>
      right
      simp only [perform, beginLoop]
      split <;> exact ⟨rfl, rfl⟩
  | loopEnd =>
      right
      simp only [perform, handleLoopEndCommand]
      split <;> exact ⟨rfl, rfl⟩
  | triggeredJump triggerParams address =>
      right
      obtain ⟨triggers, ended, error, hframe⟩ := setUpTrigger_frame signals e triggerParams
        address.toNat
      rw [perform, hframe]
      exact ⟨rfl, rfl⟩
  | _ => exact .inr ⟨rfl, rfl⟩

/-- **What a command does to the pyro channels.** -/
theorem testBit_perform (e : Executor) (c : Command) {i : ℕ}
    (h : (e.perform F signals c).currentPyroChannels.toNat.testBit i = true) :
    c.SwitchesOn i ∨ e.currentPyroChannels.toNat.testBit i = true := by
  cases c with
  | setPyro channelMask =>
      have hchannels : (e.perform F signals (.setPyro channelMask)).currentPyroChannels =
          maskPyroChannels e.currentPyroChannels channelMask := rfl
      rw [hchannels, maskPyroChannels] at h
      split at h
      case isTrue hon =>
        rw [UInt8.toNat_or, Nat.testBit_or, Bool.or_eq_true, UInt8.toNat_and, Nat.testBit_and,
          Bool.and_eq_true] at h
        exact h.symm.imp_left fun hbit => ⟨bne_iff_ne.1 hon, hbit.1⟩
      case isFalse =>
        rw [UInt8.toNat_and, Nat.testBit_and, Bool.and_eq_true] at h
        exact .inr h.1
  | setPyroAll channelValues =>
      have hchannels : (e.perform F signals (.setPyroAll channelValues)).currentPyroChannels =
          channelValues &&& 127 := rfl
      rw [hchannels, UInt8.toNat_and, Nat.testBit_and, Bool.and_eq_true] at h
      exact .inl h.1
  | setColorFromChannels channels duration | fadeToColorFromChannels channels duration =>
      obtain ⟨error, hframe⟩ := colorFromChannels_frame signals e channels
      rw [perform, hframe] at h
      exact .inr h
  | jump address =>
      right
      simp only [perform, jumpTo] at h
      split at h <;> exact h
  | loopBegin iterations =>
      right
      simp only [perform, beginLoop] at h
      split at h <;> exact h
  | loopEnd =>
      right
      simp only [perform, handleLoopEndCommand] at h
      split at h <;> exact h
  | triggeredJump triggerParams address =>
      obtain ⟨triggers, ended, error, hframe⟩ := setUpTrigger_frame signals e triggerParams
        address.toNat
      rw [perform, hframe] at h
      exact .inr h
  | _ => exact .inr h

/-! ### The invariants -/

/-- The colors of the executor have channels that are permitted. -/
structure Draws (P : Channel → ℕ → Prop) (e : Executor) : Prop where
  current : ∀ k, P k (e.currentColor.level k).toNat
  start : ∀ k, P k (e.transitionHandler.startColor.level k).toNat
  stop : ∀ k, P k (e.transitionHandler.endColor.level k).toNat

/-- The pyro channels that are on are permitted. -/
def Switched (Q : ℕ → Prop) (e : Executor) : Prop :=
  ∀ i, e.currentPyroChannels.toNat.testBit i = true → Q i

/-- What is permitted is closed downwards, and nothing at all is permitted. -/
structure Closed (P : Channel → ℕ → Prop) : Prop where
  zero : ∀ k, P k 0
  down : ∀ k m n, m ≤ n → P k n → P k m

variable {P : Channel → ℕ → Prop} {Q : ℕ → Prop}

/-- A blend of permitted colors is permitted. -/
theorem Closed.blend (hP : Closed P) {first second : RgbColor}
    (hfirst : ∀ k, P k (first.level k).toNat) (hsecond : ∀ k, P k (second.level k).toNat)
    {ratio : ℚ} (hnonneg : 0 ≤ ratio) (hle : ratio ≤ 1) (k : Channel) :
    P k ((RgbColor.linearInterpolation F first second ratio).level k).toNat := by
  rw [RgbColor.level_linearInterpolation]
  refine hP.down k _ _ (interpolateChannel_le F _ _ hnonneg hle) ?_
  rcases max_choice (first.level k).toNat (second.level k).toNat with h | h
  · rw [h]
    exact hfirst k
  · rw [h]
    exact hsecond k

/-- A command with a permitted target keeps the colors permitted. -/
theorem Draws.perform (hP : Closed P) {e : Executor} (h : e.Draws P) {c : Command}
    (hc : ∀ color ∈ e.targetOf signals c, ∀ k, P k (color.level k).toNat) :
    (e.perform F signals c).Draws P := by
  rcases perform_target F signals e c with ⟨color, htarget, hblends⟩ | ⟨hcolor, hhandler⟩
  · have hcolor := hc color htarget
    obtain ⟨⟨ratio, hnonneg, hle, hshown⟩, hstart, hstop⟩ := hblends
    refine ⟨fun k => ?_, fun k => ?_, fun k => ?_⟩
    · rw [hshown]
      exact hP.blend F h.start hcolor hnonneg hle k
    · rcases hstart with hstart | hstart
      · rw [hstart]
        exact h.start k
      · rw [hstart]
        exact hcolor k
    · rcases hstop with hstop | hstop
      · rw [hstop]
        exact h.stop k
      · rw [hstop]
        exact hcolor k
  · refine ⟨?_, ?_, ?_⟩
    · rw [hcolor]
      exact h.current
    · rw [hhandler]
      exact h.start
    · rw [hhandler]
      exact h.stop

/-- Nothing else matters. -/
theorem Draws.congr {e e' : Executor} (h : e.Draws P) (hcolor : e'.currentColor = e.currentColor)
    (hhandler : e'.transitionHandler = e.transitionHandler) : e'.Draws P := by
  refine ⟨?_, ?_, ?_⟩
  · rw [hcolor]
    exact h.current
  · rw [hhandler]
    exact h.start
  · rw [hhandler]
    exact h.stop

/-- Black is permitted. -/
theorem Closed.black (hP : Closed P) (k : Channel) : P k (RgbColor.black.level k).toNat := by
  rw [RgbColor.level_black]
  exact hP.zero k

theorem Draws.handleResetClockFlag (hP : Closed P) {e : Executor} (h : e.Draws P) (now : ℕ) :
    (e.handleResetClockFlag F now).Draws P := by
  rw [Executor.handleResetClockFlag]
  split
  · exact ⟨hP.black, hP.black, h.stop⟩
  · exact h

/-- Advancing a fade shows another blend. -/
theorem Draws.handleActiveTransition (hP : Closed P) {e : Executor} (h : e.Draws P) (now : ℕ) :
    (e.handleActiveTransition F now).Draws P := by
  have hblend := hP.blend F h.start h.stop (e.transition.progressPreEasing_nonneg F now)
    (e.transition.progressPreEasing_le_one F now)
  rw [Executor.handleActiveTransition]
  split
  · dsimp only [stepTransition, setCurrentColor]
    split
    · exact ⟨hblend, h.start, h.stop⟩
    · exact ⟨hblend, h.stop, h.stop⟩
  · exact h

/-- What comes before the next command keeps the colors permitted. -/
theorem Draws.prepare (hP : Closed P) {e : Executor} (h : e.Draws P) (now : ℕ) :
    (e.prepare F signals now).Draws P := by
  obtain ⟨store, triggers, htrig⟩ :=
    checkAndFireTriggers_frame signals (e.handleResetClockFlag F now) now
  have hready : ((e.handleResetClockFlag F now).checkAndFireTriggers signals now).Draws P := by
    rw [htrig]
    exact (h.handleResetClockFlag F hP now).congr rfl rfl
  exact (hready.handleActiveTransition F hP now).congr rfl rfl

/-- **A step** keeps the colors permitted, if its command has a permitted target. -/
theorem Draws.step (hP : Closed P) {e : Executor} (h : e.Draws P) {now : ℕ}
    (hc : ∀ c ∈ e.executes F signals now,
      ∀ color ∈ (e.prepare F signals now).targetOf signals c, ∀ k, P k (color.level k).toNat) :
    (e.step F signals now).Draws P := by
  have hprepare := h.prepare F signals hP now
  have hcase := step_cases F signals e now
  generalize e.step F signals now = e' at hcase ⊢
  cases hcase with
  | ended => exact (h.handleResetClockFlag F hP now).congr rfl rfl
  | idle => exact hprepare.congr rfl rfl
  | noStore => exact hprepare.congr rfl rfl
  | perform s hended hdue hstore =>
      have hready : ((e.prepare F signals now).withStore s.fetch.2).Draws P :=
        hprepare.congr rfl rfl
      refine hready.perform F signals hP ?_
      rw [targetOf_withStore]
      exact hc _ (executes_of_due F signals hended hdue hstore)

/-- **A step** keeps the pyro channels permitted, if its command switches on permitted ones. -/
theorem Switched.step {e : Executor} (h : e.Switched Q) {now : ℕ}
    (hc : ∀ c ∈ e.executes F signals now, ∀ i, c.SwitchesOn i → Q i) :
    (e.step F signals now).Switched Q := by
  have hreset : (e.handleResetClockFlag F now).currentPyroChannels = e.currentPyroChannels := by
    rw [Executor.handleResetClockFlag]
    split <;> rfl
  have hprepare : (e.prepare F signals now).currentPyroChannels = e.currentPyroChannels := by
    obtain ⟨store, triggers, color, transition, handler, hframe⟩ := prepare_frame F signals e now
    rw [hframe]
    exact hreset
  have hcase := step_cases F signals e now
  generalize e.step F signals now = e' at hcase ⊢
  intro i hi
  cases hcase with
  | ended => exact h i (hreset ▸ hi)
  | idle => exact h i (hprepare ▸ hi)
  | noStore => exact h i (hprepare ▸ hi)
  | perform s hended hdue hstore =>
      rcases testBit_perform F signals _ _ hi with hon | hon
      · exact hc _ (executes_of_due F signals hended hdue hstore) i hon
      · exact h i (hprepare ▸ hon)

/-- A rewound executor is black, with all the pyro channels off. -/
theorem Draws.rewind (hP : Closed P) {e : Executor} (h : e.Draws P) : e.rewind.Draws P := by
  simp only [Executor.rewind]
  split <;> exact ⟨hP.black, h.start, h.stop⟩

/-- A constructed executor has shown nothing but black. -/
theorem Closed.construct (hP : Closed P) (memory : UninitMemory) :
    ((Executor.construct memory).step F signals 0).Draws P := by
  have hstart : (Executor.construct memory).Draws P := ⟨hP.black, hP.black, hP.black⟩
  refine hstart.step F signals hP fun c hc => ?_
  have hnone : (Executor.construct memory).executes F signals 0 = none :=
    executes_of_ended F signals (ended_handleResetClockFlag F _ 0)
  rw [hnone] at hc
  cases hc

theorem switched_rewind (e : Executor) : e.rewind.Switched Q := by
  have hzero : e.rewind.currentPyroChannels = 0 := by
    simp only [Executor.rewind]
    split <;> rfl
  intro i hi
  rw [hzero, UInt8.toNat_zero, Nat.zero_testBit] at hi
  cases hi

end Executor

/-! ### Runs -/

/-- A command of the run sets or fades to a color with this much of a channel. -/
def AsksFor (F : Rounding) (signals : Signals) (steps : List PlayerStep) (k : Channel) (n : ℕ) :
    Prop :=
  ∃ s ∈ steps, ∃ c ∈ s.command F signals, ∃ color ∈ (s.before F signals).targetOf signals c,
    n ≤ (color.level k).toNat

/-- A command of the run switches a pyro channel on. -/
def AsksForPyro (F : Rounding) (signals : Signals) (steps : List PlayerStep) (i : ℕ) : Prop :=
  ∃ s ∈ steps, ∃ c ∈ s.command F signals, c.SwitchesOn i

/-- **Nothing is shown that no command has asked for.** Whatever the bytes of a program are, the
signals, the rounding and the calls on its player: a channel of the color that is shown is off,
or no brighter than a color that an executed command has set or faded to, and a pyro channel that
is on was switched on by an executed command. -/
theorem light_provenance (F : Rounding) (signals : Signals) (memory : UninitMemory)
    (program : List UInt8) (fuel : ℕ) (calls : List LightPlayerCall) {p : BytecodePlayer}
    (hp : lightPlayerAfter F signals fuel (lightPlayerInit F signals memory program) calls =
      some p) :
    let steps := (lightPlayerInit F signals memory program).steps F signals fuel calls
    (∀ k, p.currentColor.level k = 0 ∨
        AsksFor F signals steps k (p.currentColor.level k).toNat) ∧
      ∀ i, p.currentPyroChannels.toNat.testBit i = true → AsksForPyro F signals steps i := by
  intro steps
  let P : Channel → ℕ → Prop := fun k n => n = 0 ∨ AsksFor F signals steps k n
  let Q : ℕ → Prop := AsksForPyro F signals steps
  have hP : Executor.Closed P := by
    refine ⟨fun k => .inl rfl, fun k m n hle h => ?_⟩
    rcases h with rfl | ⟨s, hs, c, hc, color, hcolor, hn⟩
    · exact .inl (Nat.le_zero.1 hle)
    · exact .inr ⟨s, hs, c, hc, color, hcolor, hle.trans hn⟩
  have hinit : (lightPlayerInit F signals memory program).executor.Draws P ∧
      (lightPlayerInit F signals memory program).executor.Switched Q := by
    obtain ⟨hcurrent, hstart, hstop⟩ := hP.construct F signals memory
    have hloaded : ({ (Executor.construct memory).step F signals 0 with
        store := some (.ofArray program) } : Executor).Draws P := ⟨hcurrent, hstart, hstop⟩
    exact ⟨hloaded.rewind hP, Executor.switched_rewind _⟩
  have hstep : ∀ s : PlayerStep, s.player.executor.Draws P ∧ s.player.executor.Switched Q →
      s ∈ steps → (s.after F signals).Draws P ∧ (s.after F signals).Switched Q := by
    rintro s ⟨hdraws, hswitched⟩ hs
    refine ⟨hdraws.step F signals hP fun c hc color hcolor k => ?_,
      hswitched.step F signals fun c hc i hi => ⟨s, hs, c, hc, hi⟩⟩
    exact .inr ⟨s, hs, c, hc, color, hcolor, le_rfl⟩
  have hsteps := BytecodePlayer.steps_invariant
    (I := fun q => q.executor.Draws P ∧ q.executor.Switched Q) (P := fun s => s ∈ steps)
    (fun q hq => ⟨hq.1.rewind hP, Executor.switched_rewind _⟩)
    (fun q hq hs => hstep ⟨q, q.nextTimestamp⟩ hq hs)
    (fun q target hq _ _ hs => hstep ⟨q, target⟩ hq hs) hinit fuel calls fun s hs => hs
  obtain ⟨hdraws, hswitched⟩ := hsteps.2 p hp
  refine ⟨fun k => ?_, fun i hi => ?_⟩
  · exact (hdraws.current k).imp_left fun hzero => UInt8.toNat_inj.1 hzero
  · -- only seven channels are shown
    rw [BytecodePlayer.currentPyroChannels, Executor.shownPyroChannels, UInt8.toNat_and,
      Nat.testBit_and, Bool.and_eq_true] at hi
    exact hswitched i hi.1

/-- Red is set, and a fade to blue is halfway; the first pyro channel is on. -/
theorem light_provenance_redToBlue :
    let player := lightPlayerInit .exact .silent .zero
      [0x14, 0x81, 0x04, 255, 0, 0, 5, 0x08, 0, 0, 255, 5, 0]
    ∃ p, lightPlayerAfter .exact .silent 10 player [.getColorAt 150] = some p ∧
      (p.currentColor, p.currentPyroChannels) = (⟨127, 0, 127⟩, 1) ∧
      AsksFor .exact .silent (player.steps .exact .silent 10 [.getColorAt 150]) .blue 127 ∧
      AsksForPyro .exact .silent (player.steps .exact .silent 10 [.getColorAt 150]) 0 := by
  intro player
  have hrun : (lightPlayerAfter .exact .silent 10 player [.getColorAt 150]).map
      (fun p => (p.currentColor, p.currentPyroChannels)) = some (⟨127, 0, 127⟩, 1) := by
    decide +kernel
  obtain ⟨p, hp, hshown⟩ := Option.map_eq_some_iff.1 hrun
  obtain ⟨hcolor, hpyro⟩ := light_provenance .exact .silent .zero _ 10 [.getColorAt 150] hp
  refine ⟨p, hp, hshown, ?_, ?_⟩
  · have hblue : p.currentColor.level .blue = 127 := by
      rw [show p.currentColor = ⟨127, 0, 127⟩ from congrArg Prod.fst hshown]
      rfl
    have hasks := hcolor .blue
    rw [hblue] at hasks
    exact hasks.resolve_left (by decide)
  · have hon : p.currentPyroChannels = 1 := congrArg Prod.snd hshown
    exact hpyro 0 (by rw [hon]; rfl)

end Skybrush
