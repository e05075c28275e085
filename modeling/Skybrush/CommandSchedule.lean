import Skybrush.LightMachine

/-!
# The Schedule of a Program

A program that is left to itself executes each of its commands at the time at which it wakes up
for it (`Control.onTime`). This is its schedule, and no player is needed to say what it is: how
many commands start before a time (`LightState.CommandsBefore`), which of them follow one another
at once, and which are still due when a time has come (`Control.dueCommands`).

A command that takes no time is over as soon as it starts, so all that it does to the light is done
by its first step. What this is can be looked up (`Picture.paint`): a color that is set is shown, a
fade shows its target if it takes no time and the color that it starts from if it does, and pyro
channels are switched at once.

## Main results

* `LightState.OnTime.step`: on schedule, a fade is over when the next command starts.
* `LightState.OnTime.picture_iterate`: what several steps at the same time show, command by command.
-/

namespace Skybrush

namespace Control

variable (F : Rounding) (code : BytecodeStore)

/-- The program is running, and its next command starts before time `t`. -/
def StartsBefore (t : ℕ) (c : Control) : Prop := c.ended = false ∧ c.wakeup < t

instance (t : ℕ) : DecidablePred (StartsBefore t) := fun c =>
  inferInstanceAs (Decidable (c.ended = false ∧ c.wakeup < t))

/-- The program behind its next command, which is executed when the program wakes up for it. -/
def onTime (c : Control) : Control := c.step F code c.wakeup

/-- The commands that a number of steps at time `t` execute, and whether they take time. -/
def dueCommands (t : ℕ) : ℕ → Control → List (Command × Bool)
  | 0, _ => []
  | n + 1, c =>
      if c.Due t then
        let c' := (c.fetched code).perform F t (c.fetch code).1
        ((c.fetch code).1, decide (t < c'.wakeup)) :: dueCommands t n c'
      else
        []

/-- A command that is executed when the program wakes up for it. -/
theorem onTime_of_running {c : Control} (h : c.ended = false) :
    c.onTime F code = (c.fetched code).perform F c.wakeup (c.fetch code).1 := by
  simp only [onTime, step, h, Bool.false_eq_true, if_false, le_refl, if_true]

/-- The next command does not move the wakeup time back. -/
theorem wakeup_fetched (c : Control) (now : ℕ) :
    c.wakeup ≤ ((c.fetched code).perform F now (c.fetch code).1).wakeup :=
  wakeup_perform F now (c.fetched code) _

/-- The wakeup time remains a number of 64 bits. -/
theorem wakeup_perform_lt (c : Control) (h : c.wakeup < 2 ^ 64) (now : ℕ) (cmd : Command) :
    (c.perform F now cmd).wakeup < 2 ^ 64 := by
  have hdelay : ∀ (c' : Control) (ms : ℕ), c'.wakeup < 2 ^ 64 →
      (c'.delayUntil F ms).wakeup < 2 ^ 64 := fun c' ms hlt => by
    simp only [delayUntil]
    split
    · exact floatToUnsigned_lt _
    · exact hlt
  cases cmd with
  | waitUntil deadline => exact hdelay c _ h
  | jump address | triggeredJump _ address =>
      simp only [perform]
      split <;> exact h
  | sleep _ | setColor _ _ | setGray _ _ | setBlack _ | setWhite _ | fadeToColor _ _
  | fadeToGray _ _ | fadeToBlack _ | fadeToWhite _ | setColorFromChannels _ _
  | fadeToColorFromChannels _ _ => exact hdelay _ _ h
  | _ => exact h

theorem wakeup_fetched_lt {c : Control} (h : c.wakeup < 2 ^ 64) (now : ℕ) :
    ((c.fetched code).perform F now (c.fetch code).1).wakeup < 2 ^ 64 :=
  (c.fetched code).wakeup_perform_lt F h now _

end Control

/-! ### What a command shows when it starts -/

/-- What is shown, and the color that the next fade starts from. -/
structure Picture where
  color : RgbColor
  startColor : RgbColor
  pyroChannels : UInt8
  deriving DecidableEq, Repr

namespace Picture

/-- Show a color, which the next fade starts from. -/
def setColor (p : Picture) (color : RgbColor) : Picture :=
  { p with color := color, startColor := color }

/-- The start of a fade. -/
def fadeTo (p : Picture) (color : RgbColor) (lasts : Bool) : Picture :=
  { p with color := if lasts then p.startColor else color }

/-- What is shown when a command starts. Without a signal source, channels are black. -/
def paint (p : Picture) (lasts : Bool) : Command → Picture
  | .setColor color _ => p.setColor color
  | .setGray value _ => p.setColor ⟨value, value, value⟩
  | .setBlack _ | .setColorFromChannels _ _ => p.setColor .black
  | .setWhite _ => p.setColor .white
  | .fadeToColor color _ => p.fadeTo color lasts
  | .fadeToGray value _ => p.fadeTo ⟨value, value, value⟩ lasts
  | .fadeToBlack _ | .fadeToColorFromChannels _ _ => p.fadeTo .black lasts
  | .fadeToWhite _ => p.fadeTo .white lasts
  | .setPyro channelMask =>
      { p with pyroChannels := Executor.maskPyroChannels p.pyroChannels channelMask }
  | .setPyroAll channelValues => { p with pyroChannels := channelValues &&& 127 }
  | _ => p

/-- What is shown when several commands have started, one after the other. -/
def paintAll (p : Picture) (commands : List (Command × Bool)) : Picture :=
  commands.foldl (fun p c => p.paint c.2 c.1) p

/-- What can be seen: the color and the pyro channels. -/
def shown (p : Picture) : RgbColor × UInt8 := (p.color, p.pyroChannels &&& 127)

end Picture

namespace Look

variable (F : Rounding)

/-- The picture without the fade. -/
def picture (l : Look) : Picture := ⟨l.color, l.startColor, l.pyroChannels⟩

/-- A fade that is running behind a command was running before, or is that of the command. -/
theorem fade_perform {l : Look} {now wakeup : ℕ} {cmd : Command} {f : Fade}
    (h : f ∈ (l.perform F now wakeup cmd).fade) :
    f ∈ l.fade ∨ f.start = now ∧ f.duration = toUnsigned (wakeup - now) := by
  have hfade : ∀ color, f ∈ (l.startFade F color now wakeup).fade →
      f.start = now ∧ f.duration = toUnsigned (wakeup - now) := fun color hf => by
    simp only [startFade] at hf
    split at hf
    · cases hf
      exact ⟨rfl, rfl⟩
    · cases hf
  cases cmd with
  | fadeToColor _ _ | fadeToGray _ _ | fadeToBlack _ | fadeToWhite _
  | fadeToColorFromChannels _ _ => exact .inr (hfade _ h)
  | _ => exact .inl h

/-- Advancing starts no fade. -/
theorem fade_advance {l : Look} {now : ℕ} {f : Fade} (h : f ∈ (l.advance F now).fade) :
    f ∈ l.fade := by
  cases hfade : l.fade with
  | none =>
      rw [advance, hfade] at h
      exact absurd (hfade ▸ h) (Option.not_mem_none f)
  | some f' =>
      simp only [advance, hfade] at h
      split at h
      · exact hfade ▸ h
      · exact absurd h (Option.not_mem_none f)

/-- A fade is over when its time is. -/
theorem fade_advance_eq_none {l : Look} {now : ℕ} (h : ∀ f ∈ l.fade, f.start + f.duration ≤ now) :
    (l.advance F now).fade = none := by
  cases hfade : l.fade with
  | none => simp only [advance, hfade]
  | some f =>
      have hcomplete : progress F f now = 1 :=
        Transition.progressPreEasing_of_complete F (h f (by rw [hfade]; rfl))
      simp only [advance, hfade, hcomplete, lt_irrefl, if_false]

/-- A command that starts when no fade is running leaves nothing to be advanced at that time. -/
theorem advance_perform_self {l : Look} (h : l.fade = none) (now wakeup : ℕ) (cmd : Command) :
    (l.perform F now wakeup cmd).advance F now = l.perform F now wakeup cmd := by
  have hstill : ∀ l' : Look, l'.fade = none → l'.advance F now = l' := fun l' hl' => by
    rw [advance, hl']
  have hfade : ∀ color, (l.startFade F color now wakeup).advance F now =
      l.startFade F color now wakeup := fun color => by
    by_cases hlt : progress F ⟨now, toUnsigned (wakeup - now), color⟩ now < 1
    · simp only [startFade, advance, hlt, if_true]
    · simp only [startFade, advance, hlt, if_false]
  cases cmd with
  | fadeToColor _ _ | fadeToGray _ _ | fadeToBlack _ | fadeToWhite _
  | fadeToColorFromChannels _ _ => exact hfade _
  | _ => exact hstill _ h

/-- **What a command shows** when it starts can be looked up. -/
theorem picture_perform (l : Look) {now wakeup : ℕ} (hle : now ≤ wakeup)
    (hlt : wakeup < 2 ^ 64) (cmd : Command) :
    (l.perform F now wakeup cmd).picture = l.picture.paint (decide (now < wakeup)) cmd := by
  have hduration : toUnsigned (wakeup - now) = wakeup - now := by
    rw [← Nat.cast_sub hle, toUnsigned_natCast (by omega)]
  have hfade : ∀ color, (l.startFade F color now wakeup).picture =
      l.picture.fadeTo color (decide (now < wakeup)) := fun color => by
    have hprogress : (Transition.startAt (wakeup - now) now).progressPreEasing F now =
        if wakeup - now = 0 then 1 else 0 := Transition.progressPreEasing_start F _
    simp only [startFade, picture, Picture.fadeTo, progress, hduration, decide_eq_true_eq]
    by_cases hlasts : now < wakeup
    · rw [if_neg (show ¬ wakeup - now = 0 by omega)] at hprogress
      rw [if_pos hlasts, hprogress, RgbColor.linearInterpolation_zero]
    · rw [if_pos (show wakeup - now = 0 by omega)] at hprogress
      rw [if_neg hlasts, hprogress, RgbColor.linearInterpolation_one]
  cases cmd with
  | fadeToColor _ _ | fadeToGray _ _ | fadeToBlack _ | fadeToWhite _
  | fadeToColorFromChannels _ _ => exact hfade _
  | _ => rfl

end Look

/-! ### The light on schedule -/

namespace LightState

variable (F : Rounding) (code : BytecodeStore)

/-- The state of a program behind its next command, executed when the program wakes up for it. -/
def onTime (st : LightState) : LightState := st.step F code st.control.wakeup

/-- The state of a program behind its first commands, each executed when the program wakes up
for it. -/
def onSchedule (n : ℕ) : LightState := (onTime F code)^[n] (start code)

/-- So many commands of the program start before time `t`: the program ends behind them, or the
next command starts at `t` or later. -/
def CommandsBefore (t n : ℕ) : Prop :=
  (∀ i < n, (onSchedule F code i).control.StartsBefore t) ∧
    ¬ (onSchedule F code n).control.StartsBefore t

/-- The commands that are still due at time `t`, so many of them at most, leave what is shown as
it is. -/
def KeepsShown (t n : ℕ) (st : LightState) : Prop :=
  (st.look.picture.paintAll (st.control.dueCommands F code t n)).shown = st.look.picture.shown

instance (t n : ℕ) (st : LightState) : Decidable (st.KeepsShown F code t n) :=
  inferInstanceAs (Decidable (_ = _))

/-- The program was not kept waiting before time `t`: if it is running, its next command is not
before `t`, and its fade is over by then. -/
def OnTime (t : ℕ) (st : LightState) : Prop :=
  st.control.ended = false →
    t ≤ st.control.wakeup ∧ st.control.wakeup < 2 ^ 64 ∧
      ∀ f ∈ st.look.fade, f.start + f.duration ≤ st.control.wakeup

/-- The step does not begin to run an ended program again. -/
theorem ended_of_step {st : LightState} {now : ℕ}
    (h : (st.step F code now).control.ended = false) : st.control.ended = false := by
  by_contra hended
  rw [Bool.not_eq_false] at hended
  rw [control_step, Control.ended_step F code hended] at h
  cases h

/-- **A step on schedule**: a fade is over when the next command starts. -/
theorem OnTime.step {t : ℕ} {st : LightState} (h : st.OnTime t) : (st.step F code t).OnTime t := by
  intro hrun
  have hbefore := ended_of_step F code hrun
  obtain ⟨hle, hlt, hfades⟩ := h hbefore
  simp only [LightState.step, hbefore, Bool.false_eq_true, if_false]
  split
  case isTrue hdue =>
    obtain rfl : t = st.control.wakeup := le_antisymm hle hdue
    have hmono := st.control.wakeup_fetched F code st.control.wakeup
    have hword := Control.wakeup_fetched_lt F code hlt st.control.wakeup
    refine ⟨hmono, hword, fun f hf => ?_⟩
    rcases Look.fade_perform F hf with hf | ⟨hstart, hduration⟩
    · exact (hfades f (Look.fade_advance F hf)).trans hmono
    · -- the fade of the command lasts until the next one starts
      rw [← Nat.cast_sub hmono, toUnsigned_natCast (by omega)] at hduration
      rw [hstart, hduration]
      exact (Nat.add_sub_cancel' hmono).le
  case isFalse => exact ⟨hle, hlt, fun f hf => hfades f (Look.fade_advance F hf)⟩

/-- Behind a step on schedule, nothing is left to be advanced at that time. -/
theorem OnTime.advance_step {t : ℕ} {st : LightState} (h : st.OnTime t)
    (hrun : st.control.ended = false) :
    (st.step F code t).look.advance F t = (st.step F code t).look := by
  obtain ⟨hle, -, hfades⟩ := h hrun
  simp only [LightState.step, hrun, Bool.false_eq_true, if_false]
  split
  case isTrue hdue =>
    have hnone := Look.fade_advance_eq_none F fun f hf => (hfades f hf).trans hdue
    exact Look.advance_perform_self F hnone t _ _
  case isFalse => exact Look.advance_advance F st.look le_rfl

/-- When no command is due, none will be at that time. -/
theorem dueCommands_of_not_due {t : ℕ} {c : Control} (h : ¬ c.Due t) (n : ℕ) :
    c.dueCommands F code t n = [] := by
  cases n with
  | zero => rfl
  | succ n => rw [Control.dueCommands, if_neg h]

/-- **Several steps at the same time** show what the commands show that they execute. -/
theorem OnTime.picture_iterate {t : ℕ} {st : LightState} (h : st.OnTime t)
    (hstill : st.control.ended = false → st.look.advance F t = st.look) (n : ℕ) :
    ((LightState.step F code t)^[n] st).look.picture =
      st.look.picture.paintAll (st.control.dueCommands F code t n) := by
  induction n generalizing st with
  | zero => rfl
  | succ n ih =>
      have hnext := ih (h.step F code) fun hrun => h.advance_step F code (ended_of_step F code hrun)
      rw [Function.iterate_succ_apply, hnext]
      by_cases hdue : st.control.Due t
      · obtain ⟨hrun, hwakeup⟩ := hdue
        obtain ⟨hle, hlt, -⟩ := h hrun
        obtain rfl : t = st.control.wakeup := le_antisymm hle hwakeup
        have hstep : st.step F code st.control.wakeup = perform F st.control.wakeup
            ⟨st.control.fetched code, st.look⟩ (st.control.fetch code).1 := by
          simp only [LightState.step, hrun, Bool.false_eq_true, if_false, le_refl, if_true,
            hstill hrun]
        have hpicture := st.look.picture_perform F (st.control.wakeup_fetched F code _)
          (Control.wakeup_fetched_lt F code hlt st.control.wakeup) (st.control.fetch code).1
        rw [hstep, Control.dueCommands, if_pos ⟨hrun, le_rfl⟩, Picture.paintAll, Picture.paintAll,
          List.foldl_cons, ← hpicture]
        rfl
      · -- a step at which nothing is due shows nothing new
        have hlook : (st.step F code t).look = st.look := by
          cases hended : st.control.ended with
          | true => simp only [LightState.step, hended, if_true]
          | false =>
              have hwait : ¬ st.control.wakeup ≤ t := fun hle => hdue ⟨hended, hle⟩
              simp only [LightState.step, hended, Bool.false_eq_true, if_false, hwait,
                hstill hended]
        have hnot : ¬ (st.step F code t).control.Due t := by
          rintro ⟨hrun, hwakeup⟩
          have hbefore := ended_of_step F code hrun
          have hmono := Control.wakeup_step F code hbefore t
          rw [← control_step] at hmono
          exact hdue ⟨hbefore, hmono.trans hwakeup⟩
        rw [hlook, dueCommands_of_not_due F code hnot, dueCommands_of_not_due F code hdue]

/-- On schedule, no command is kept waiting. -/
theorem onTime_onSchedule (n : ℕ) :
    (onSchedule F code n).OnTime (onSchedule F code n).control.wakeup := by
  induction n with
  | zero =>
      exact fun _ => ⟨le_rfl, Nat.two_pow_pos 64, fun f hf => absurd hf (Option.not_mem_none f)⟩
  | succ n ih =>
      rw [onSchedule, Function.iterate_succ_apply']
      intro hrun
      obtain ⟨-, hlt, hfades⟩ := ih.step F code hrun
      exact ⟨le_rfl, hlt, hfades⟩

/-- Neither is the command that is next when a time has come. -/
theorem onTime_of_commandsBefore {t n : ℕ} (h : CommandsBefore F code t n) :
    (onSchedule F code n).OnTime t := by
  intro hrun
  obtain ⟨-, hlt, hfades⟩ := onTime_onSchedule F code n hrun
  exact ⟨Nat.le_of_not_lt fun hbefore => h.2 ⟨hrun, hbefore⟩, hlt, hfades⟩

end LightState

end Skybrush
