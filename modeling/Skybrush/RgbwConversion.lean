import Mathlib.Data.Rat.Floor
import Skybrush.Color

/-!
# Converting Colors to Four Channels

The conversion of RGB colors to colors with a white channel, as in `colors.c`: the functions that
set up a conversion object, and the conversion itself. The parameters of an object are a
union. Its member for a reference color remembers the temperature that it was made for, so
that the same temperature need not be worked out again.

What one member of the union reads as when the other one was written last is left open
(`UnionLayout`), and so is the color of a black body at a temperature.

## Main results

* `RgbwConversion.Consistent.exec`, `RgbwConversion.consistent_exec`: what the calls keep of an
  object.
* `RgbwConversion.Consistent.useColorTemperature`: the result of setting a temperature, by either
  path.
* `colorTemperature_ignores_history`: nothing is left of the calls before.
-/

namespace Skybrush

open Rounding

/-! ### The types -/

/-- A color of three 8-bit channels and a white one: `sb_rgbw_color_t`. -/
structure RgbwColor where
  red : UInt8
  green : UInt8
  blue : UInt8
  white : UInt8
  deriving DecidableEq, Repr

/-- The channels of a color, in order. -/
def RgbColor.channel (color : RgbColor) : Fin 3 → UInt8
  | 0 => color.red
  | 1 => color.green
  | 2 => color.blue

/-- `sb_rgbw_conversion_method_t`. -/
inductive ConversionMethod where
  | fixedValue
  | subtractMin
  | useReference
  deriving DecidableEq, Repr

/-- A temperature in Kelvins, any floating-point number. -/
inductive Temperature where
  | nan
  | negInfinity
  | negZero
  | finite (t : ℚ)
  | infinity
  deriving DecidableEq, Repr

namespace Temperature

/-- The comparison `==` of floating-point numbers. -/
def equals : Temperature → Temperature → Bool
  | nan, _ => false
  | _, nan => false
  | negZero, t => t = negZero ∨ t = finite 0
  | t, negZero => t = finite 0
  | t, t' => t = t'

/-- The temperatures that the documentation asks for, from 1000 to 40000 Kelvin. -/
def Admissible (temperature : Temperature) : Prop :=
  ∃ t : ℚ, temperature = finite t ∧ 1000 ≤ t ∧ t ≤ 40000

end Temperature

/-- The parameters for a reference color: `color_ref`. -/
structure ColorReference where
  mul : Fin 3 → ℚ
  div : Fin 3 → ℚ
  temperature : Temperature

/-- The union `params`, by the member that was written last. -/
inductive ConversionParams where
  | fixedValue (value : UInt8)
  | colorRef (ref : ColorReference)

/-- What the members of the union read as when the other one was written last. -/
structure UnionLayout where
  fixedValueOf : ColorReference → UInt8
  colorRefOf : UInt8 → ColorReference

namespace ConversionParams

variable (layout : UnionLayout)

/-- Read the member `fixed_value`. -/
def asFixedValue : ConversionParams → UInt8
  | fixedValue value => value
  | colorRef ref => layout.fixedValueOf ref

/-- Read the member `color_ref`. -/
def asColorRef : ConversionParams → ColorReference
  | fixedValue value => layout.colorRefOf value
  | colorRef ref => ref

end ConversionParams

/-- The conversion object: `sb_rgbw_conversion_t`. -/
structure RgbwConversion where
  method : ConversionMethod
  params : ConversionParams

variable (F : Rounding) (layout : UnionLayout) (colorOf : Temperature → RgbColor)

/-! ### Converting a color -/

/-- What is left of a channel when the white light is taken away. -/
def removeWhite (white : UInt8) (div : ℚ) (channel : UInt8) : UInt8 :=
  let correction := F (white.toNat * div)
  if correction < channel.toNat then
    UInt8.ofNat (truncate (F (channel.toNat - correction))).toNat
  else
    0

/-- The white light of a color with a reference color: the least of the scaled channels. -/
def whiteOf (mul : Fin 3 → ℚ) (color : RgbColor) : UInt8 :=
  let scaled := fun i => F ((color.channel i).toNat * mul i)
  let minScaled := min (min (scaled 0) (scaled 1)) (scaled 2)
  if minScaled ≤ 0 then 0
  else if minScaled ≤ 255 then UInt8.ofNat (truncate minScaled).toNat
  else 255

/-- `sb_rgb_color_to_rgbw`. -/
def RgbColor.toRgbw (color : RgbColor) (conv : RgbwConversion) : RgbwColor :=
  match conv.method with
  | .subtractMin =>
      let value := min (min color.red color.green) color.blue
      ⟨color.red - value, color.green - value, color.blue - value, value⟩
  | .fixedValue => ⟨color.red, color.green, color.blue, conv.params.asFixedValue layout⟩
  | .useReference =>
      let ref := conv.params.asColorRef layout
      let white := whiteOf F ref.mul color
      ⟨removeWhite F white (ref.div 0) color.red, removeWhite F white (ref.div 1) color.green,
        removeWhite F white (ref.div 2) color.blue, white⟩

/-! ### Setting up a conversion -/

/-- The parameters that `sb_rgbw_conversion_use_reference_color` writes. -/
def ColorReference.ofColor (reference : RgbColor) : ColorReference :=
  let maxValue := max (max (max 1 reference.red.toNat) reference.green.toNat) reference.blue.toNat
  let mul := fun i =>
    if 1 ≤ (reference.channel i).toNat then F ((maxValue : ℚ) / (reference.channel i).toNat)
    else 255
  { mul := mul
    div := fun i => F (1 / mul i)
    temperature := .finite 0 }

namespace RgbwConversion

/-- `sb_rgbw_conversion_use_fixed_value`. -/
def useFixedValue (_conv : RgbwConversion) (value : UInt8) : RgbwConversion :=
  { method := .fixedValue, params := .fixedValue value }

/-- `sb_rgbw_conversion_turn_off`. -/
def turnOff (conv : RgbwConversion) : RgbwConversion := conv.useFixedValue 0

/-- `sb_rgbw_conversion_use_min_subtraction`. -/
def useMinSubtraction (conv : RgbwConversion) : RgbwConversion :=
  { conv with method := .subtractMin }

/-- `sb_rgbw_conversion_use_reference_color`. -/
def useReferenceColor (_conv : RgbwConversion) (reference : RgbColor) : RgbwConversion :=
  { method := .useReference, params := .colorRef (.ofColor F reference) }

/-- `sb_rgbw_conversion_use_color_temperature`. -/
def useColorTemperature (conv : RgbwConversion) (temperature : Temperature) : RgbwConversion :=
  if conv.method = .useReference ∧
      (conv.params.asColorRef layout).temperature.equals temperature then
    conv
  else
    let conv := conv.useReferenceColor F (colorOf temperature)
    { conv with
      params := .colorRef { conv.params.asColorRef layout with temperature := temperature } }

/-- An object that no one has set up yet, with all bits zero. -/
def zero : RgbwConversion := { method := .fixedValue, params := .fixedValue 0 }

end RgbwConversion

/-! ### Histories of calls -/

/-- A call that sets up a conversion object. -/
inductive ConversionCall where
  | turnOff
  | useFixedValue (value : UInt8)
  | useMinSubtraction
  | useReferenceColor (reference : RgbColor)
  | useColorTemperature (temperature : Temperature)
  deriving DecidableEq, Repr

namespace ConversionCall

/-- Perform a call. -/
def exec (conv : RgbwConversion) : ConversionCall → RgbwConversion
  | turnOff => conv.turnOff
  | useFixedValue value => conv.useFixedValue value
  | useMinSubtraction => conv.useMinSubtraction
  | useReferenceColor reference => conv.useReferenceColor F reference
  | useColorTemperature temperature => conv.useColorTemperature F layout colorOf temperature

/-- Perform calls, one after the other. -/
def run (conv : RgbwConversion) (calls : List ConversionCall) : RgbwConversion :=
  calls.foldl (exec F layout colorOf) conv

/-- The call sets the method without looking at it; all but `useColorTemperature` do. -/
def SetsMethod (call : ConversionCall) : Prop :=
  ∀ temperature, call ≠ useColorTemperature temperature

end ConversionCall

/-! ### What the calls keep -/

namespace Temperature

/-- A number is equal to itself and, unless it is zero, to nothing else. -/
theorem equals_finite_iff {temperature : Temperature} {t : ℚ} (ht : t ≠ 0) :
    temperature.equals (finite t) = true ↔ temperature = finite t := by
  cases temperature <;> simp [equals, ht]

theorem Admissible.exists_finite {temperature : Temperature} (h : temperature.Admissible) :
    ∃ t, temperature = finite t ∧ t ≠ 0 := by
  obtain ⟨t, rfl, hlow, -⟩ := h
  exact ⟨t, rfl, by linarith⟩

end Temperature

/-- The parameters that are made for a temperature. -/
def ColorReference.ofTemperature (temperature : Temperature) : ColorReference :=
  { ColorReference.ofColor F (colorOf temperature) with temperature := temperature }

namespace RgbwConversion

/-- Parameters for a reference color say that they are not made for a temperature, or they are
made for the one that they remember. -/
def Consistent (conv : RgbwConversion) : Prop :=
  conv.method = .useReference →
    ∃ ref, conv.params = .colorRef ref ∧
      (ref.temperature = .finite 0 ∨ ref = .ofTemperature F colorOf ref.temperature)

variable {F layout colorOf} {conv : RgbwConversion} {temperature : Temperature}

/-- An object that does not use a reference color has nothing to remember. -/
theorem consistent_of_ne (h : conv.method ≠ .useReference) : conv.Consistent F colorOf :=
  fun hmethod => absurd hmethod h

/-- Setting a temperature without the shortcut. -/
theorem useColorTemperature_of_not
    (h : ¬ (conv.method = .useReference ∧
      (conv.params.asColorRef layout).temperature.equals temperature = true)) :
    conv.useColorTemperature F layout colorOf temperature =
      ⟨.useReference, .colorRef (.ofTemperature F colorOf temperature)⟩ := if_neg h

/-- **The shortcut is right**: a consistent object is left as if it had been worked out again, at
any temperature that differs from zero. -/
theorem Consistent.useColorTemperature (h : conv.Consistent F colorOf) {t : ℚ} (ht : t ≠ 0) :
    conv.useColorTemperature F layout colorOf (.finite t) =
      ⟨.useReference, .colorRef (.ofTemperature F colorOf (.finite t))⟩ := by
  by_cases hshortcut : conv.method = .useReference ∧
      (conv.params.asColorRef layout).temperature.equals (.finite t) = true
  · obtain ⟨hmethod, hequals⟩ := hshortcut
    obtain ⟨ref, hparams, hmade⟩ := h hmethod
    have hsame : ref.temperature = .finite t := by
      rw [hparams, ConversionParams.asColorRef, Temperature.equals_finite_iff ht] at hequals
      exact hequals
    have href : ref = .ofTemperature F colorOf (.finite t) := by
      rcases hmade with hzero | hmade
      · rw [hsame, Temperature.finite.injEq] at hzero
        exact absurd hzero ht
      · rwa [hsame] at hmade
    obtain ⟨method, params⟩ := conv
    subst hmethod hparams
    rw [RgbwConversion.useColorTemperature, if_pos ⟨rfl, hequals⟩, href]
  · exact useColorTemperature_of_not hshortcut

/-- A call that sets the method makes any object consistent. -/
theorem consistent_exec {call : ConversionCall} (h : call.SetsMethod) (conv : RgbwConversion) :
    (call.exec F layout colorOf conv).Consistent F colorOf := by
  cases call with
  | turnOff => exact consistent_of_ne nofun
  | useFixedValue value => exact consistent_of_ne nofun
  | useMinSubtraction => exact consistent_of_ne nofun
  | useReferenceColor reference => exact fun _ => ⟨_, rfl, .inl rfl⟩
  | useColorTemperature temperature => exact absurd rfl (h temperature)

/-- **Every call keeps** an object consistent. -/
theorem Consistent.exec (h : conv.Consistent F colorOf) (call : ConversionCall) :
    (call.exec F layout colorOf conv).Consistent F colorOf := by
  by_cases hsets : call.SetsMethod
  · exact consistent_exec hsets conv
  · obtain ⟨temperature, hcall⟩ := not_forall_not.mp hsets
    subst hcall
    by_cases hshortcut : conv.method = .useReference ∧
        (conv.params.asColorRef layout).temperature.equals temperature = true
    · rw [ConversionCall.exec, RgbwConversion.useColorTemperature, if_pos hshortcut]
      exact h
    · rw [ConversionCall.exec, useColorTemperature_of_not hshortcut]
      exact fun _ => ⟨_, rfl, .inr rfl⟩

/-- A whole history keeps an object consistent. -/
theorem Consistent.run (h : conv.Consistent F colorOf) (calls : List ConversionCall) :
    (ConversionCall.run F layout colorOf conv calls).Consistent F colorOf := by
  induction calls generalizing conv with
  | nil => exact h
  | cons call calls ih => exact ih (h.exec call)

/-- **Behind a history**, an object is consistent if it was not set up for a reference color, or if
any call of the history sets the method. -/
theorem consistent_run {calls : List ConversionCall}
    (h : conv.method ≠ .useReference ∨ ∃ call ∈ calls, call.SetsMethod) :
    (ConversionCall.run F layout colorOf conv calls).Consistent F colorOf := by
  rcases h with hmethod | ⟨call, hcall, hsets⟩
  · exact (consistent_of_ne hmethod).run calls
  · obtain ⟨before, after, rfl⟩ := List.append_of_mem hcall
    rw [ConversionCall.run, List.foldl_append, List.foldl_cons]
    exact (consistent_exec hsets _).run after

end RgbwConversion

/-- **Nothing is left of the calls before**: an object that is set to a temperature converts every
color as a fresh one does that was only set to this temperature, whatever calls were made on it
before. Both may hold anything, as long as they are not set up for a reference color already; the
object with a history may even be, if one of its calls sets the method. -/
theorem colorTemperature_ignores_history {conv fresh : RgbwConversion}
    {calls : List ConversionCall} {temperature : Temperature}
    (hconv : conv.method ≠ .useReference ∨ ∃ call ∈ calls, call.SetsMethod)
    (hfresh : fresh.method ≠ .useReference) (ht : temperature.Admissible) (color : RgbColor) :
    color.toRgbw F layout
        (ConversionCall.run F layout colorOf conv (calls ++ [.useColorTemperature temperature])) =
      color.toRgbw F layout
        (ConversionCall.run F layout colorOf fresh [.useColorTemperature temperature]) := by
  obtain ⟨t, rfl, hne⟩ := ht.exists_finite
  have hhistory : ConversionCall.run F layout colorOf conv
      (calls ++ [.useColorTemperature (.finite t)]) =
        ⟨.useReference, .colorRef (.ofTemperature F colorOf (.finite t))⟩ := by
    rw [ConversionCall.run, List.foldl_append]
    exact (RgbwConversion.consistent_run hconv).useColorTemperature hne
  have hdirect : ConversionCall.run F layout colorOf fresh [.useColorTemperature (.finite t)] =
      ⟨.useReference, .colorRef (.ofTemperature F colorOf (.finite t))⟩ :=
    (RgbwConversion.consistent_of_ne hfresh).useColorTemperature hne
  rw [hhistory, hdirect]

/-- A union whose members have nothing to do with each other. -/
def separateLayout : UnionLayout := ⟨fun _ => 0, fun _ => .ofColor .exact .black⟩

/-- The warm white of 3000 Kelvin, after two other ways to set up the conversion. -/
theorem colorTemperature_ignores_history_warmWhite :
    RgbColor.toRgbw .exact separateLayout ⟨128, 192, 254⟩
        (ConversionCall.run .exact separateLayout (fun _ => ⟨255, 177, 109⟩) .zero
          ([.useReferenceColor ⟨255, 219, 186⟩, .useMinSubtraction] ++
            [.useColorTemperature (.finite 3000)])) =
      RgbColor.toRgbw .exact separateLayout ⟨128, 192, 254⟩
        (ConversionCall.run .exact separateLayout (fun _ => ⟨255, 177, 109⟩) .zero
          [.useColorTemperature (.finite 3000)]) :=
  colorTemperature_ignores_history _ _ _ (.inl (by decide)) (by decide)
    ⟨3000, rfl, by norm_num, by norm_num⟩ _

/-- A warm white LED of 3000 Kelvin. -/
example : RgbColor.toRgbw .exact separateLayout ⟨128, 192, 254⟩
    ⟨.useReference, .colorRef (.ofColor .exact ⟨255, 177, 109⟩)⟩ = ⟨0, 103, 199, 128⟩ := by
  decide +kernel

/-- At zero, which is no temperature to ask for, a reference color that was set before would
be kept. -/
example : (RgbwConversion.useReferenceColor .exact .zero .white).useColorTemperature .exact
    separateLayout (fun _ => .black) (.finite 0) =
      RgbwConversion.useReferenceColor .exact .zero .white := rfl

end Skybrush
