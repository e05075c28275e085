import Skybrush.LoopUnrolling
import Skybrush.SeekHistory
import Skybrush.Timeline
import Skybrush.UninitialisedMemory

/-!
# Playing Straight-Line Programs

In exact arithmetic the player shows the timeline of a straight-line program. The clocks of
the player stand at the start time of the next command whenever it is about to execute one:
the cumulative duration, the wakeup time and the next timestamp agree, with the origin of
the clock at zero, and the fade before it is complete (`LightPlayer.At`). Executing the
command takes the player to the start of the next one, and on the way there it shows what
the timeline says.

The clocks are machine integers, and signed ones when a `WAIT_UNTIL` reads them, so the total
duration has to fit into 63 bits.

## Main results

* `LightPlayer.At.stepToNext`: a command takes the player to the start of the next one.
* `LightPlayer.At.reaches`: the loop of a seek stops, and shows the timeline.
* `timeline_shown`: the player shows the timeline of a program that fits into 63 bits.
-/

namespace Skybrush

open WhileLoop

/-! ### Exact conversions -/

theorem internalToAbsolute_exact {ms : ℕ} (h : ms < 2 ^ 63) :
    internalToAbsolute .exact 1 0 (toSigned ms) = ms := by
  rw [internalToAbsolute, toSigned_of_lt h]
  simp only [Rounding.exact_apply, Nat.cast_zero, zero_add, mul_one, Rounding.roundAway_intCast]
  exact floatToUnsigned_natCast (by omega)

theorem absoluteToInternal_exact {ms : ℕ} (h : ms < 2 ^ 63) :
    absoluteToInternal .exact 1 0 ms = ms := by
  rw [absoluteToInternal]
  simp only [Rounding.exact_apply, Nat.cast_zero, sub_zero, div_one,
    toUnsigned_toSigned (show ms < 2 ^ 64 by omega), Rounding.roundAway_natCast,
    floatToSigned_natCast h]

/-! ### One command -/

/-- **The clocks** at the start of a command are moved to its end. -/
theorem Control.perform_timed {i : Instruction} (hi : i.IsTimed) {location now : ℕ}
    (hfits : i.stop now < 2 ^ 63) :
    Control.perform .exact now ⟨location, [], false, 0, now, now⟩ i.command =
      ⟨location, [], false, 0, i.stop now, i.stop now⟩ := by
  have hdelay : ∀ v : Varint, now + 20 * v.value < 2 ^ 63 →
      Control.addDuration .exact ⟨location, [], false, 0, now, now⟩ v.duration =
        ⟨location, [], false, 0, now + 20 * v.value, now + 20 * v.value⟩ := by
    intro v hv
    rw [Varint.duration_eq (by omega)]
    have hwakeup : (if now < now + 20 * v.value then now + 20 * v.value else now) =
        now + 20 * v.value := by
      split <;> omega
    simp only [Control.addDuration, Control.delayUntil,
      Nat.mod_eq_of_lt (show now + 20 * v.value < 2 ^ 64 by omega), internalToAbsolute_exact hv,
      hwakeup]
  cases i with
  | nop | setPyro _ | setPyroAll _ => rfl
  | resetClock => exact absurd rfl hi.1
  | setColorFromChannels _ _ | fadeToColorFromChannels _ _ =>
      exact absurd hi.2.1 (by simp [Instruction.code, CommandCode.usesChannels])
  | waitUntil v =>
      simp only [Instruction.stop] at hfits
      have htwenty : (20 : UInt64).toNat = 20 := rfl
      have hdeadline : (v.number * 20).toNat = 20 * v.value := by
        rw [UInt64.toNat_mul, htwenty, v.number_eq_value (by omega)]
        omega
      have hwakeup : (if now < 20 * v.value then 20 * v.value else now) = max now (20 * v.value) :=
        (max_def_lt ..).symm
      simp only [Instruction.command, Control.perform, Control.waitUntil, Control.delayUntil,
        hdeadline, internalToAbsolute_exact (show 20 * v.value < 2 ^ 63 by omega), hwakeup,
        absoluteToInternal_exact hfits,
        toUnsigned_natCast (show max now (20 * v.value) < 2 ^ 64 by omega), Instruction.stop]
  | sleep v | setBlack v | setWhite v | fadeToBlack v | fadeToWhite v => exact hdelay v hfits
  | setGray _ v | fadeToGray _ v | setColor _ v | fadeToColor _ v => exact hdelay v hfits

/-- A fade lasts for its duration, and leaves the pyro channels alone. -/
theorem Instruction.stop_of_fadeDuration (i : Instruction) {v : Varint}
    (h : i.fadeDuration = some v) :
    (∀ now, i.stop now = now + 20 * v.value) ∧ ∀ channels, i.pyroChannels channels = channels := by
  cases i with
  | fadeToColor _ _ | fadeToGray _ _ | fadeToBlack _ | fadeToWhite _ =>
      obtain rfl := Option.some.inj h
      exact ⟨fun _ => rfl, fun _ => rfl⟩
  | _ => cases h

namespace Look

/-- The look at the start of a command, when no fade is running. -/
def still (m : Moment) : Look := ⟨m.color, m.color, none, m.pyroChannels⟩

/-- The look at the start of a fade, which takes some time. -/
def fading (m : Moment) (color : RgbColor) (duration : ℕ) : Look :=
  ⟨m.color, m.color, some ⟨m.time, duration, color⟩, m.pyroChannels⟩

/-- Starting a fade that takes time. -/
theorem startFade_still (m : Moment) (color : RgbColor) {duration : ℕ} (hpos : 0 < duration)
    (hfits : m.time + duration < 2 ^ 63) :
    (still m).startFade .exact color m.time (m.time + duration) = fading m color duration := by
  have hduration : toUnsigned ((m.time + duration : ℕ) - m.time : ℤ) = duration := by
    rw [Nat.cast_add, add_sub_cancel_left]
    exact toUnsigned_natCast (by omega)
  have hprogress : progress .exact ⟨m.time, duration, color⟩ m.time = 0 := by
    have hstart := Transition.progressPreEasing_start .exact (.startAt duration m.time)
    rwa [Transition.startAt, if_neg hpos.ne'] at hstart
  simp only [startFade, still, fading, hduration, hprogress, RgbColor.linearInterpolation_zero,
    zero_lt_one, if_true]

/-- **What a command does to the look** at its start. -/
theorem perform_timed {i : Instruction} (hi : i.IsTimed) {m : Moment}
    (hfits : i.stop m.time < 2 ^ 63) :
    (still m).perform .exact m.time (i.stop m.time) i.command =
      match i.fadeDuration with
      | some v => fading m (i.target.getD m.color) (20 * v.value)
      | none => still (m.after i) := by
  have hfade : ∀ color (v : Varint), v ∈ i.fadeDuration → m.time + 20 * v.value < 2 ^ 63 →
      (still m).startFade .exact color m.time (m.time + 20 * v.value) =
        fading m color (20 * v.value) := fun color v hv hlt =>
    startFade_still m color (Nat.mul_pos (by decide) (hi.2.2 v hv)) hlt
  cases i with
  | resetClock => exact absurd rfl hi.1
  | setColorFromChannels _ _ | fadeToColorFromChannels _ _ =>
      exact absurd hi.2.1 (by simp [Instruction.code, CommandCode.usesChannels])
  | fadeToColor color v | fadeToGray _ v | fadeToBlack v | fadeToWhite v =>
      exact hfade _ v rfl hfits
  | _ => rfl

/-- A fade on its way, in exact arithmetic. -/
theorem advance_fading (m : Moment) (color : RgbColor) {duration t : ℕ} (hstart : m.time ≤ t)
    (hstop : t < m.time + duration) :
    (fading m color duration).advance .exact t =
      { fading m color duration with color := fadeColor m.color color (t - m.time) duration } := by
  have hpos : 0 < duration := by omega
  have hratio : ((t - m.time : ℕ) : ℚ) / duration < 1 := by
    rw [div_lt_one (by exact_mod_cast hpos)]
    exact_mod_cast (show t - m.time < duration by omega)
  have hprogress : progress .exact ⟨m.time, duration, color⟩ t =
      ((t - m.time : ℕ) : ℚ) / duration := by
    simp only [progress, Transition.startAt, Transition.progressPreEasing, Rounding.exact_apply,
      not_lt.mpr hstart, hpos.ne', not_lt.mpr hratio.le, if_false]
  have hchannel : ∀ first second : UInt8,
      interpolateChannel .exact first second (((t - m.time : ℕ) : ℚ) / duration) =
        fadeChannel first second (t - m.time) duration := fun first second =>
    interpolateChannel_eq_fadeChannel first second (by omega) hpos
  have hcolor : RgbColor.linearInterpolation .exact m.color color
      (((t - m.time : ℕ) : ℚ) / duration) = fadeColor m.color color (t - m.time) duration := by
    simp only [RgbColor.linearInterpolation, hchannel, fadeColor]
  simp only [advance, fading, hprogress, hratio, if_true, hcolor]

/-- A fade that is complete. -/
theorem advance_fading_stop (m : Moment) (color : RgbColor) {duration t : ℕ}
    (hstop : m.time + duration ≤ t) :
    (fading m color duration).advance .exact t =
      ⟨color, color, none, m.pyroChannels⟩ := by
  have hprogress : progress .exact ⟨m.time, duration, color⟩ t = 1 :=
    Transition.progressPreEasing_of_complete .exact hstop
  simp only [advance, fading, hprogress, lt_irrefl, if_false, RgbColor.linearInterpolation_one]

/-- A look without a fade is not advanced. -/
theorem advance_still (m : Moment) (t : ℕ) : (still m).advance .exact t = still m := rfl

/-- **While a command is executed**, the timeline is shown. -/
theorem advance_perform {i : Instruction} (hi : i.IsTimed) {m : Moment}
    (hfits : i.stop m.time < 2 ^ 63) {t : ℕ} (hstart : m.time ≤ t) (hstop : t < i.stop m.time) :
    let look := ((still m).perform .exact m.time (i.stop m.time) i.command).advance .exact t
    look.color = (m.during i t).color ∧ look.pyroChannels = (m.during i t).pyroChannels := by
  intro look
  have hlook := perform_timed hi hfits
  cases hfade : i.fadeDuration with
  | none =>
      rw [hfade] at hlook
      simp only [look, hlook, advance_still, Moment.during, hfade]
      exact ⟨rfl, rfl⟩
  | some v =>
      obtain ⟨hduration, hpyro⟩ := i.stop_of_fadeDuration hfade
      rw [hduration] at hstop
      rw [hfade] at hlook
      simp only [look, hlook, advance_fading m _ hstart hstop, Moment.during, hfade, hpyro]
      exact ⟨trivial, rfl⟩

/-- **When a command is over**, its moment is shown and no fade is running. -/
theorem advance_perform_stop {i : Instruction} (hi : i.IsTimed) {m : Moment}
    (hfits : i.stop m.time < 2 ^ 63) :
    ((still m).perform .exact m.time (i.stop m.time) i.command).advance .exact (i.stop m.time) =
      still (m.after i) := by
  have hlook := perform_timed hi hfits
  cases hfade : i.fadeDuration with
  | none =>
      rw [hfade] at hlook
      rw [hlook, advance_still]
  | some v =>
      obtain ⟨hduration, hpyro⟩ := i.stop_of_fadeDuration hfade
      rw [hfade] at hlook
      rw [hlook, advance_fading_stop m _ (hduration m.time).ge]
      simp only [still, Moment.after, hpyro]

end Look

/-! ### The start of a command -/

namespace LightPlayer

variable {code : BytecodeStore}

/-- The player is about to execute the first of the instructions, at the moment `m`. -/
structure At (code : BytecodeStore) (m : Moment) (instructions : List Instruction)
    (p : LightPlayer) : Prop where
  control : ∃ location, p.state.control = ⟨location, [], false, 0, m.time, m.time⟩ ∧
    code.Holds location (Instruction.bytesOf instructions)
  next : p.next = m.time
  look : p.state.look.advance .exact m.time = Look.still m

/-- What the machine shows. -/
def shown (st : LightState) : RgbColor × UInt8 := (st.look.color, st.look.pyroChannels &&& 127)

/-- A fresh player is at the start of its program. -/
theorem at_start {instructions : List Instruction}
    (h : BytecodeStore.Holds code 0 (Instruction.bytesOf instructions))
    (hcode : code.isEmpty = false) : (start code).At code .start instructions where
  control := ⟨0, by simp only [start, LightState.start, hcode]; rfl, h⟩
  next := rfl
  look := rfl

/-- A step that executes an instruction. -/
theorem At.step {m : Moment} {i : Instruction} {rest : List Instruction} {p : LightPlayer}
    (h : p.At code m (i :: rest)) (hi : i.IsTimed) (hfits : i.stop m.time < 2 ^ 63) :
    ∃ location, p.state.step .exact code m.time =
        ⟨⟨location, [], false, 0, i.stop m.time, i.stop m.time⟩,
          (Look.still m).perform .exact m.time (i.stop m.time) i.command⟩ ∧
      code.Holds location (Instruction.bytesOf rest) := by
  obtain ⟨location, hcontrol, hholds⟩ := h.control
  rw [Instruction.bytesOf_cons] at hholds
  have hfetch := BytecodeStore.fetch_instruction hholds.left
  refine ⟨location + i.bytes.length, ?_, hholds.right⟩
  have hclock := @Control.perform_timed i hi (location + i.bytes.length) m.time hfits
  simp only [LightState.step, hcontrol, Bool.false_eq_true, if_false, le_refl, if_true,
    LightState.perform, Control.fetched, Control.fetch, hfetch, h.look]
  simp only [BytecodeStore.nextIndex_skip, BytecodeStore.seek, hclock]

/-- **A command** takes the player to the start of the next one. -/
theorem At.stepToNext {m : Moment} {i : Instruction} {rest : List Instruction} {p : LightPlayer}
    (h : p.At code m (i :: rest)) (hi : i.IsTimed) (hfits : i.stop m.time < 2 ^ 63) :
    (p.stepToNext .exact code).At code (m.after i) rest ∧
      (p.stepToNext .exact code).state.look =
        (Look.still m).perform .exact m.time (i.stop m.time) i.command := by
  obtain ⟨location, hstep, hholds⟩ := h.step hi hfits
  have hle := Timeline.time_le_stop m.time i
  have hnext : p.stepToNext .exact code =
      ⟨p.state.step .exact code m.time, m.time, i.stop m.time⟩ := by
    simp only [LightPlayer.stepToNext, h.next, hstep, if_neg (not_lt.mpr hle)]
  rw [hnext, hstep]
  exact ⟨⟨⟨location, rfl, hholds⟩, rfl, Look.advance_perform_stop hi hfits⟩, rfl⟩

/-- **While a command is executed** no other one is due, and the timeline is shown. -/
theorem At.shown_during {m : Moment} {i : Instruction} {rest : List Instruction} {p : LightPlayer}
    (h : p.At code m (i :: rest)) (hi : i.IsTimed) (hfits : i.stop m.time < 2 ^ 63) {t : ℕ}
    (hstart : m.time ≤ t) (hduring : t < (m.after i).time) :
    ¬ (p.stepToNext .exact code).state.control.Due t ∧
      shown ((p.stepToNext .exact code).state.step .exact code t) = (m.during i t).shown := by
  obtain ⟨hnext, hlook⟩ := h.stepToNext hi hfits
  obtain ⟨location, hcontrol, -⟩ := hnext.control
  have hdue : ¬ (p.stepToNext .exact code).state.control.Due t := by
    rw [hcontrol]
    rintro ⟨-, hle⟩
    exact absurd hduring (not_lt.mpr hle)
  obtain ⟨hcolor, hpyro⟩ := Look.advance_perform hi hfits hstart hduring
  refine ⟨hdue, ?_⟩
  rw [hcontrol] at hdue
  rw [LightState.step, hcontrol, if_neg (by simp), if_neg (fun hle => hdue ⟨rfl, hle⟩), shown,
    hlook, Moment.shown, hcolor, hpyro]

/-- **The end marker** ends the program, and its moment is held. -/
theorem At.stepToEnd {m : Moment} {p : LightPlayer} (h : p.At code m []) :
    (p.stepToNext .exact code).state.control.ended = true ∧
      (p.stepToNext .exact code).state.look = Look.still m := by
  obtain ⟨location, hcontrol, hholds⟩ := h.control
  have hfetch : (code.seek location).fetch = (.end_, (code.seek location).skip 1) :=
    @BytecodeStore.StandsAt.fetch _ _ .end_ hholds
  simp only [LightPlayer.stepToNext, h.next, LightState.step, hcontrol, Bool.false_eq_true,
    if_false, le_refl, if_true, LightState.perform, Control.fetched, Control.fetch, hfetch, h.look]
  exact ⟨rfl, rfl⟩

/-- **The loop of a seek** stops. If it gets behind the start of the first instruction, and
the target is not the start of any of them, no command is due then and the timeline is
shown. -/
theorem At.reaches {t : ℕ} (ht : t < 2 ^ 64) {m : Moment} {instructions : List Instruction}
    (htimed : ∀ i ∈ instructions, i.IsTimed) (hfits : Timeline.finish m instructions < 2 ^ 63)
    {p : LightPlayer} (h : p.At code m instructions) :
    ∃ q, LoopsTo .exact code t p q ∧
      (m.time < t → t ∉ Timeline.starts m instructions →
        ¬ q.state.control.Due t ∧
          shown (q.state.step .exact code t) = Timeline.shownAt t m instructions) := by
  induction instructions generalizing m p with
  | nil =>
      by_cases hbehind : Behind t p
      · obtain ⟨hended, hlook⟩ := h.stepToEnd
        obtain ⟨q, hq⟩ := exists_loopsTo_ended .exact code ht hended
        refine ⟨q, (reaches_of hbehind).mpr hq, fun _ _ => ?_⟩
        have hqended : q.state.control.ended = true := by
          refine Reaches.invariant (I := fun q => q.state.control.ended = true)
            (fun r hr => ?_) hq hended
          exact (congrArg Control.ended (LightState.control_step ..)).trans
            (Control.ended_step _ code hr _)
        refine ⟨fun hdue => absurd (hqended.symm.trans hdue.1) (by decide), ?_⟩
        rw [step_of_loopsTo_ended .exact code hq hended, LightState.step, if_pos hended, shown,
          Timeline.shownAt, Moment.shown, hlook]
        rfl
      · refine ⟨p, (reaches_of_not hbehind).mpr rfl, fun hlt => ?_⟩
        rw [Behind, h.next] at hbehind
        exact absurd hlt hbehind
  | cons i rest ih =>
      by_cases hbehind : Behind t p
      · have hi := htimed i (List.mem_cons_self ..)
        rw [Timeline.finish_cons] at hfits
        have hstop : i.stop m.time < 2 ^ 63 :=
          (Timeline.time_le_finish (m.after i) rest).trans_lt hfits
        obtain ⟨hnext, -⟩ := h.stepToNext hi hstop
        obtain ⟨q, hq, hshown⟩ := ih (fun j hj => htimed j (List.mem_cons_of_mem _ hj)) hfits hnext
        refine ⟨q, (reaches_of hbehind).mpr hq, fun hlt hstarts => ?_⟩
        rw [Timeline.starts, List.mem_cons, not_or] at hstarts
        rw [Timeline.shownAt]
        split
        case isTrue hduring =>
          -- the target comes before the next command: the loop stops at once
          have hnot : ¬ Behind t (p.stepToNext .exact code) := by
            rw [Behind, hnext.next]
            exact not_lt.mpr hduring.le
          obtain rfl := (reaches_of_not hnot).mp hq
          exact h.shown_during hi hstop hlt.le hduring
        case isFalse hafter =>
          have hne : (m.after i).time ≠ t := by
            rintro rfl
            exact hstarts.2 (Timeline.time_mem_starts _ _)
          exact hshown (by omega) hstarts.2
      · refine ⟨p, (reaches_of_not hbehind).mpr rfl, fun hlt => ?_⟩
        rw [Behind, h.next] at hbehind
        exact absurd hlt hbehind

end LightPlayer

/-! ### Whatever the memory held -/

/-- The commands of a straight-line program do not use the signal source, do not jump, and
leave the flow alone. -/
theorem Instruction.IsTimed.command_harmless {i : Instruction} (hi : i.IsTimed) :
    i.command.usesChannels = false ∧ i.command.isJump = false ∧
      ∀ f : Flow, f.perform i.command = f := by
  obtain ⟨-, hchannels, -⟩ := hi
  cases i with
  | setColorFromChannels _ _ | fadeToColorFromChannels _ _ => cases hchannels
  | _ => exact ⟨rfl, rfl, fun _ => rfl⟩

namespace Executor

variable {code : BytecodeStore} {instructions : List Instruction}

/-- The executor follows a straight-line program: no trigger is active, and the code holds
the instructions that have not been executed where the store stands. -/
structure Follows (code : BytecodeStore) (instructions : List Instruction) (e : Executor) : Prop
    extends Untriggered code e where
  holds : e.ended = false → ∃ rest, rest <:+ instructions ∧
    code.Holds e.location (Instruction.bytesOf rest)

/-- The next command of the flow is harmless, and the rest of the program is behind it. -/
theorem Follows.fetch {e : Executor} (h : e.Follows code instructions)
    (htimed : ∀ i ∈ instructions, i.IsTimed) (hend : e.ended = false) :
    (e.flow.fetch code).1.usesChannels = false ∧ (e.flow.fetch code).1.isJump = false ∧
      ((e.flow.step code).ended = false → ∃ rest, rest <:+ instructions ∧
        code.Holds (e.flow.step code).location (Instruction.bytesOf rest)) := by
  obtain ⟨rest, hsuffix, hholds⟩ := h.holds hend
  cases rest with
  | nil =>
      have hfetch : e.flow.fetch code = (.end_, (code.seek e.location).skip 1) :=
        @BytecodeStore.StandsAt.fetch _ _ .end_ hholds
      rw [Flow.step, hfetch]
      refine ⟨rfl, rfl, fun hend' => ?_⟩
      cases hend'
  | cons i rest =>
      obtain ⟨hchannels, hjump, hflow⟩ :=
        (htimed i (hsuffix.subset (List.mem_cons_self ..))).command_harmless
      rw [Instruction.bytesOf_cons] at hholds
      have hfetch : e.flow.fetch code =
          (i.command, (code.seek e.location).skip i.bytes.length) :=
        BytecodeStore.fetch_instruction hholds.left
      rw [Flow.step, hfetch, hflow]
      exact ⟨hchannels, hjump,
        fun _ => ⟨rest, (List.suffix_cons i rest).trans hsuffix, hholds.right⟩⟩

/-- **A step along a straight-line program** stays on it, and does not use the signal
source. -/
theorem Follows.step (F : Rounding) (signals : Signals) {e : Executor}
    (h : e.Follows code instructions) (htimed : ∀ i ∈ instructions, i.IsTimed) (now : ℕ) :
    (e.step F signals now).Follows code instructions ∧
      ∀ c, e.executes F signals now = some c → c.usesChannels = false := by
  obtain ⟨huntriggered, hstep⟩ :=
    h.toUntriggered.step F signals (fun hend => (h.fetch htimed hend).2.1) now
  by_cases hrun : e.ended = false ∧ e.Due now
  · rw [if_pos hrun] at hstep
    obtain ⟨hexec, hflow⟩ := hstep
    obtain ⟨hchannels, -, hrest⟩ := h.fetch htimed hrun.1
    rw [← hflow] at hrest
    exact ⟨⟨huntriggered, hrest⟩, fun c hc => Option.some.inj (hexec.symm.trans hc) ▸ hchannels⟩
  · rw [if_neg hrun] at hstep
    obtain ⟨hexec, hflow⟩ := hstep
    have hholds : (e.step F signals now).flow.ended = false → ∃ rest, rest <:+ instructions ∧
        code.Holds (e.step F signals now).flow.location (Instruction.bytesOf rest) := by
      rw [hflow]
      exact h.holds
    exact ⟨⟨huntriggered, hholds⟩, fun c hc => absurd (hexec.symm.trans hc) (by simp)⟩

end Executor

namespace TimedProgram

/-- The store of a program has all of its bytes. -/
theorem size_ofArray (p : TimedProgram) : (BytecodeStore.ofArray p.bytes).size = p.bytes.length :=
  Nat.mod_eq_of_lt (Nat.lt_succ_of_le p.length_le)

theorem holds (p : TimedProgram) : (BytecodeStore.ofArray p.bytes).Holds 0 p.bytes := by
  refine ⟨rfl, ?_, List.prefix_refl _⟩
  show 0 + p.bytes.length ≤ (BytecodeStore.ofArray p.bytes).size
  rw [p.size_ofArray, Nat.zero_add]

/-- There is an end marker at least. -/
theorem isEmpty_ofArray (p : TimedProgram) : (BytecodeStore.ofArray p.bytes).isEmpty = false := by
  have hpos : 0 < p.bytes.length := by
    simp only [bytes, Instruction.bytesOf, List.length_append, List.length_singleton]
    omega
  simp only [BytecodeStore.isEmpty, p.size_ofArray, decide_eq_false_iff_not]
  omega

/-- Rewinding goes back to the first instruction. -/
theorem follows_rewind (p : TimedProgram) {e : Executor} (h : e.Untriggered (.ofArray p.bytes)) :
    e.rewind.Follows (.ofArray p.bytes) p.instructions := by
  obtain ⟨s, hs, hcode⟩ := h.store
  simp only [Executor.rewind, hs]
  exact ⟨⟨⟨s.rewind, rfl, hcode.seek 0⟩, h.triggers⟩,
    fun _ => ⟨p.instructions, List.suffix_refl _, p.holds⟩⟩

/-- **No step of a straight-line program uses the signal source.** -/
theorem steps_leaveSource (p : TimedProgram) (F : Rounding) (signals : Signals)
    (memory : UninitMemory) (fuel : ℕ) (calls : List LightPlayerCall) :
    ∀ s ∈ (lightPlayerInit F signals memory p.bytes).steps F signals fuel calls,
      s.LeavesSource F signals := by
  obtain ⟨-, htriggers, -⟩ := Executor.construct_step F signals memory
  have hinit : (lightPlayerInit F signals memory p.bytes).executor.Follows (.ofArray p.bytes)
      p.instructions :=
    p.follows_rewind (e := { (Executor.construct memory).step F signals 0 with
      store := some (.ofArray p.bytes) }) ⟨⟨_, rfl, .refl _⟩, htriggers⟩
  have hsteps := BytecodePlayer.steps_invariant
    (I := fun q => q.executor.Follows (.ofArray p.bytes) p.instructions) (P := fun _ => True)
    (fun _ hq => p.follows_rewind hq.toUntriggered) (fun q hq _ => (hq.step F signals p.timed _).1)
    (fun q target hq _ _ _ => (hq.step F signals p.timed target).1) hinit fuel calls
    fun _ _ => trivial
  intro s hs
  exact ((hsteps.1 s hs).1.step F signals p.timed s.now).2

/-- **Where a fresh player lands**: no command is due at a time that is not the start of one,
and the machine shows the timeline. -/
theorem landed_shown (p : TimedProgram) (hfits : p.duration < 2 ^ 63) {t r : ℕ}
    (ht : t < 2 ^ 64) (hstarts : t ∉ p.starts) {player : LightPlayer}
    (h : player.Landed .exact (.ofArray p.bytes) t r) :
    LightPlayer.shown player.state = p.shownAt t := by
  obtain ⟨q, hq, rfl⟩ := h
  obtain ⟨q', hq', hshown⟩ :=
    (LightPlayer.at_start p.holds p.isEmpty_ofArray).reaches ht p.timed hfits
  obtain rfl := Reaches.unique hq hq'
  have hpos : Moment.start.time < t := by
    refine Nat.pos_of_ne_zero ?_
    rintro rfl
    exact hstarts (Timeline.time_mem_starts .start p.instructions)
  obtain ⟨hdue, hstep⟩ := hshown hpos hstarts
  rw [LightPlayer.state_iterate_of_not_due .exact _ hdue, hstep]
  rfl

end TimedProgram

/-- **A player shows the timeline of its program**, whatever was asked before, at every time
at which no command starts. The program has to be over before a signed clock wraps around. -/
theorem timeline_shown (signals : Signals) (memory : UninitMemory) (program : TimedProgram)
    (hfits : program.duration < 2 ^ 63) (calls : List LightPlayerCall) (call : LightPlayerCall)
    (hstarts : call.timestamp.toNat ∉ program.starts) :
    ∃ fuel₀, ∀ fuel ≥ fuel₀, ∃ p,
      lightPlayerAfter .exact signals fuel
          (lightPlayerInit .exact signals memory program.bytes) (calls ++ [call]) = some p ∧
        p.shown = program.shownAt call.timestamp.toNat := by
  have hzero : BytecodePlayer.Harmless .zero program.bytes := Or.inl rfl
  have hreach : ∀ t < 2 ^ 64, ∃ v, LightPlayer.LoopsTo .exact (.ofArray program.bytes) t
      (.start (.ofArray program.bytes)) v := fun t ht =>
    let ⟨v, hv, _⟩ := (LightPlayer.at_start program.holds program.isEmpty_ofArray).reaches ht
      program.timed hfits
    ⟨v, hv⟩
  obtain ⟨fuel₀, p, hp⟩ :=
    BytecodePlayer.exists_lightPlayerAfter .exact signals hzero hreach (calls ++ [call])
  refine ⟨fuel₀, fun fuel hle => ?_⟩
  have hafter := BytecodePlayer.lightPlayerAfter_mono .exact signals hle hp
  obtain ⟨-, hflag, hlanded⟩ := BytecodePlayer.landed_after .exact signals hzero calls call hafter
  have hshown : p.shown = program.shownAt call.timestamp.toNat := by
    obtain ⟨hcolor, hpyro⟩ := BytecodePlayer.light_shown .exact hflag
    rw [← program.landed_shown hfits call.timestamp.toNat_lt hstarts hlanded,
      BytecodePlayer.shown, hcolor, hpyro]
    rfl
  -- what the memory held makes no difference
  obtain ⟨-, -, hrel⟩ := BytecodePlayer.steps_differ
    (BytecodePlayer.differ_lightPlayerInit .exact signals .zero memory program.bytes) fuel
    (calls ++ [call]) (program.steps_leaveSource .exact signals .zero fuel _)
  rw [hafter] at hrel
  generalize lightPlayerAfter .exact signals fuel
    (lightPlayerInit .exact signals memory program.bytes) (calls ++ [call]) = after at hrel ⊢
  cases hrel with
  | some hdiffer =>
      obtain ⟨source, start, rfl⟩ := hdiffer
      exact ⟨_, rfl, hshown⟩

/-- Red for 100 ms, and then a fade to white in 200 ms: halfway the fade is at a light red, also
if the end of the program was asked for before. -/
theorem timeline_shown_program :
    let program : TimedProgram :=
      ⟨[.setColor ⟨255, 0, 0⟩ ⟨[5], by decide⟩, .fadeToWhite ⟨[10], by decide⟩], by decide,
        by decide⟩
    200 ∉ program.starts ∧ program.shownAt 200 = (⟨255, 127, 127⟩, 0) ∧
      ∃ fuel₀, ∀ fuel ≥ fuel₀, ∃ p,
        lightPlayerAfter .exact .silent fuel
            (lightPlayerInit .exact .silent .zero program.bytes)
            ([.seek 1000] ++ [.getColorAt 200]) = some p ∧
          p.shown = program.shownAt 200 :=
  ⟨by decide, by decide,
    timeline_shown .silent .zero _ (by decide) [.seek 1000] (.getColorAt 200) (by decide)⟩

/-- A program that sleeps for `20 * 2 ^ 62` milliseconds and then sets red. -/
def sleepTooLong : TimedProgram where
  instructions :=
    [.sleep ⟨[128, 128, 128, 128, 128, 128, 128, 128, 64], by decide⟩,
      .setColor ⟨255, 0, 0⟩ ⟨[50], by decide⟩]
  timed := by decide
  length_le := by decide

/-- **A program that is too long**: the duration of the sleep wraps around to zero, and red is
shown at once. -/
theorem sleepTooLong_red :
    ¬ ∀ (memory : UninitMemory) (program : TimedProgram) (calls : List LightPlayerCall)
        (call : LightPlayerCall), call.timestamp.toNat ∉ program.starts →
      ∃ fuel₀, ∀ fuel ≥ fuel₀, ∃ p,
        lightPlayerAfter .exact .silent fuel
            (lightPlayerInit .exact .silent memory program.bytes) (calls ++ [call]) = some p ∧
          p.shown = program.shownAt call.timestamp.toNat := by
  intro h
  obtain ⟨fuel₀, hshown⟩ := h .zero sleepTooLong [] (.getColorAt 500) (by decide)
  obtain ⟨p, hp, hblack⟩ := hshown (max fuel₀ 10) (le_max_left _ _)
  have hrun : (lightPlayerAfter .exact .silent 10
      (lightPlayerInit .exact .silent .zero sleepTooLong.bytes) [.getColorAt 500]).map
        BytecodePlayer.shown = some (⟨255, 0, 0⟩, 0) := by decide +kernel
  obtain ⟨q, hq, hred⟩ := Option.map_eq_some_iff.mp hrun
  have hsame := BytecodePlayer.lightPlayerAfter_mono .exact .silent (le_max_right fuel₀ 10) hq
  obtain rfl : p = q := Option.some.inj (hp.symm.trans hsame)
  rw [hred] at hblack
  exact absurd hblack (by decide)

end Skybrush
