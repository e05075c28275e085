import Skybrush.StructuredProgram

/-!
# Timelines of Straight-Line Programs

What a straight-line program is meant to show. A command starts at a `Moment`: a time, with
the color and the pyro channels that hold then. It is over after the duration that is
written in it, and leaves a moment for the next one. In between, a color that is set is
shown all the time, and a fade shows a mean of its two colors, weighted by the time that has
elapsed and the time that is left. Behind the last command its moment is held.

The timeline is stated in whole numbers, without clocks, rounding or machine integers; that
the player shows it is a matter of its own.

## Main results

* `Timeline.time_le_finish`: a command is over when the program is.
* `interpolateChannel_eq_fadeChannel`: an exact interpolation is the weighted mean, rounded
  down.
-/

namespace Skybrush

/-- A time, with what is shown then. -/
structure Moment where
  time : ℕ
  color : RgbColor
  pyroChannels : UInt8
  deriving DecidableEq, Repr

namespace Moment

/-- The start of a program. -/
def start : Moment := ⟨0, .black, 0⟩

/-- The color and the seven pyro channels of a moment. -/
def shown (m : Moment) : RgbColor × UInt8 := (m.color, m.pyroChannels &&& 127)

end Moment

/-- One channel of a fade: the mean of its two values, weighted by the time that is left and
the time that has elapsed, and rounded down. -/
def fadeChannel (first second : UInt8) (elapsed duration : ℕ) : UInt8 :=
  UInt8.ofNat ((first.toNat * (duration - elapsed) + second.toNat * elapsed) / duration)

/-- The color of a fade. -/
def fadeColor (first second : RgbColor) (elapsed duration : ℕ) : RgbColor where
  red := fadeChannel first.red second.red elapsed duration
  green := fadeChannel first.green second.green elapsed duration
  blue := fadeChannel first.blue second.blue elapsed duration

/-- Halfway from black to white. -/
example : fadeColor .black .white 100 200 = ⟨127, 127, 127⟩ := by decide

/-! ### One command -/

namespace Instruction

/-- The duration of a fade. -/
def fadeDuration : Instruction → Option Varint
  | fadeToColor _ v | fadeToGray _ v | fadeToBlack v | fadeToWhite v => some v
  | nop | resetClock | setPyro _ | setPyroAll _ => none
  | sleep _ | waitUntil _ | setBlack _ | setWhite _ => none
  | setColor _ _ | setGray _ _ | setColorFromChannels _ _ | fadeToColorFromChannels _ _ => none

/-- The instruction has a place on a timeline: it does not reset the clock or read channels,
and a fade takes time. -/
def IsTimed (i : Instruction) : Prop :=
  i.code ≠ .resetClock ∧ i.code.usesChannels = false ∧ ∀ v ∈ i.fadeDuration, 0 < v.value

instance (i : Instruction) : Decidable i.IsTimed :=
  inferInstanceAs (Decidable (_ ∧ _ ∧ ∀ v ∈ i.fadeDuration, 0 < v.value))

/-- The time at which an instruction that starts at `now` is over. -/
def stop (now : ℕ) : Instruction → ℕ
  | nop | resetClock | setPyro _ | setPyroAll _ => now
  | waitUntil v => max now (20 * v.value)
  | sleep v | setBlack v | setWhite v | fadeToBlack v | fadeToWhite v => now + 20 * v.value
  | setGray _ v | fadeToGray _ v => now + 20 * v.value
  | setColor _ v | fadeToColor _ v | setColorFromChannels _ v | fadeToColorFromChannels _ v =>
      now + 20 * v.value

/-- The color that an instruction sets or fades to. -/
def target : Instruction → Option RgbColor
  | setColor color _ | fadeToColor color _ => some color
  | setGray value _ | fadeToGray value _ => some ⟨value, value, value⟩
  | setBlack _ | fadeToBlack _ => some .black
  | setWhite _ | fadeToWhite _ => some .white
  | nop | resetClock | setPyro _ | setPyroAll _ | sleep _ | waitUntil _ => none
  | setColorFromChannels _ _ | fadeToColorFromChannels _ _ => none

/-- The pyro channels once an instruction has started. -/
def pyroChannels (channels : UInt8) : Instruction → UInt8
  | setPyro mask =>
      if mask &&& 128 != 0 then channels ||| (mask &&& 127) else channels &&& ~~~(mask ||| 128)
  | setPyroAll values => values &&& 127
  | nop | resetClock | sleep _ | waitUntil _ | setBlack _ | setWhite _ => channels
  | fadeToBlack _ | fadeToWhite _ | setGray _ _ | fadeToGray _ _ => channels
  | setColor _ _ | fadeToColor _ _ => channels
  | setColorFromChannels _ _ | fadeToColorFromChannels _ _ => channels

end Instruction

namespace Moment

/-- The moment at which an instruction is over. -/
def after (m : Moment) (i : Instruction) : Moment where
  time := i.stop m.time
  color := i.target.getD m.color
  pyroChannels := i.pyroChannels m.pyroChannels

/-- What holds at time `t` while an instruction is executed: a fade is on its way, and a
color that is set is shown. -/
def during (m : Moment) (i : Instruction) (t : ℕ) : Moment where
  time := t
  color :=
    match i.fadeDuration with
    | some v => fadeColor m.color (i.target.getD m.color) (t - m.time) (20 * v.value)
    | none => i.target.getD m.color
  pyroChannels := i.pyroChannels m.pyroChannels

end Moment

/-! ### Programs -/

/-- The bytes of instructions, with the end marker behind them. -/
def Instruction.bytesOf (instructions : List Instruction) : List UInt8 :=
  instructions.flatMap bytes ++ [CommandCode.end_.toByte]

theorem Instruction.bytesOf_cons (i : Instruction) (rest : List Instruction) :
    bytesOf (i :: rest) = i.bytes ++ bytesOf rest := by
  simp only [bytesOf, List.flatMap_cons, List.append_assoc]

/-- A straight-line program: instructions with a place on the timeline. Its bytes have to fit
into a bytecode store. -/
structure TimedProgram where
  instructions : List Instruction
  timed : ∀ i ∈ instructions, i.IsTimed
  length_le : (Instruction.bytesOf instructions).length ≤ 65535

/-- The bytes of a program. -/
def TimedProgram.bytes (p : TimedProgram) : List UInt8 := Instruction.bytesOf p.instructions

namespace Timeline

/-- What instructions that start at moment `m` are meant to show at time `t`. -/
def shownAt (t : ℕ) (m : Moment) : List Instruction → RgbColor × UInt8
  | [] => m.shown
  | i :: rest =>
      if t < (m.after i).time then (m.during i t).shown else shownAt t (m.after i) rest

/-- The times at which the instructions start, and the end marker behind them. -/
def starts (m : Moment) : List Instruction → List ℕ
  | [] => [m.time]
  | i :: rest => m.time :: starts (m.after i) rest

/-- The time at which the last instruction is over. -/
def finish (m : Moment) (instructions : List Instruction) : ℕ :=
  (instructions.foldl Moment.after m).time

theorem finish_cons (m : Moment) (i : Instruction) (rest : List Instruction) :
    finish m (i :: rest) = finish (m.after i) rest := rfl

/-- No instruction is over before it starts. -/
theorem time_le_stop (now : ℕ) (i : Instruction) : now ≤ i.stop now := by
  cases i <;> simp only [Instruction.stop] <;> omega

/-- **An instruction starts** before the program is over. -/
theorem time_le_finish (m : Moment) (instructions : List Instruction) :
    m.time ≤ finish m instructions := by
  induction instructions generalizing m with
  | nil => exact le_rfl
  | cons i rest ih => exact (time_le_stop m.time i).trans (ih (m.after i))

theorem time_mem_starts (m : Moment) (instructions : List Instruction) :
    m.time ∈ starts m instructions := by
  cases instructions <;> exact List.mem_cons_self ..

end Timeline

namespace TimedProgram

/-- What a program is meant to show at time `t`. -/
def shownAt (p : TimedProgram) (t : ℕ) : RgbColor × UInt8 :=
  Timeline.shownAt t .start p.instructions

/-- The start times of the commands of a program. -/
def starts (p : TimedProgram) : List ℕ := Timeline.starts .start p.instructions

/-- The total duration of a program. -/
def duration (p : TimedProgram) : ℕ := Timeline.finish .start p.instructions

end TimedProgram

/-! ### Exact interpolation -/

/-- **An exact interpolation is the weighted mean**, rounded down. -/
theorem interpolateChannel_eq_fadeChannel (first second : UInt8) {elapsed duration : ℕ}
    (h : elapsed ≤ duration) (hpos : 0 < duration) :
    interpolateChannel .exact first second ((elapsed : ℚ) / duration) =
      fadeChannel first second elapsed duration := by
  have hfirst : first.toNat ≤ 255 := Nat.le_of_lt_succ first.toNat_lt
  have hsecond : second.toNat ≤ 255 := Nat.le_of_lt_succ second.toNat_lt
  have hne : (duration : ℚ) ≠ 0 := by exact_mod_cast hpos.ne'
  have hvalue : (first.toNat : ℚ) + ((second.toNat : ℤ) - first.toNat : ℤ) *
      ((elapsed : ℚ) / duration) =
        ((first.toNat * (duration - elapsed) + second.toNat * elapsed : ℕ) : ℚ) /
          (duration : ℕ) := by
    push_cast [Nat.cast_sub h]
    field_simp
    ring
  set total := first.toNat * (duration - elapsed) + second.toNat * elapsed with htotal
  have hle : total ≤ 255 * duration := by
    calc total ≤ 255 * (duration - elapsed) + 255 * elapsed :=
          Nat.add_le_add (Nat.mul_le_mul_right _ hfirst) (Nat.mul_le_mul_right _ hsecond)
      _ = 255 * duration := by rw [← Nat.mul_add, Nat.sub_add_cancel h]
  have hclamp : clamp ((total : ℚ) / duration) 0 255 = (total : ℚ) / duration := by
    have hlow : (0 : ℚ) ≤ (total : ℚ) / duration := by positivity
    have hhigh : (total : ℚ) / duration ≤ 255 := by
      rw [div_le_iff₀ (by exact_mod_cast hpos)]
      exact_mod_cast hle
    rw [clamp, if_neg (not_lt.mpr hlow), if_neg (not_lt.mpr hhigh)]
  have hfloor : Rounding.truncate ((total : ℚ) / duration) = ((total / duration : ℕ) : ℤ) := by
    rw [Rounding.truncate, if_pos (by positivity)]
    exact Rat.floor_natCast_div_natCast total duration
  simp only [interpolateChannel, Rounding.exact_apply]
  rw [hvalue, hclamp, hfloor, Int.toNat_natCast, fadeChannel]

end Skybrush
