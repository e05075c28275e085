import Skybrush.RgbwConversion

/-!
# The Light of Four Channels

A color with a white channel shows the light of its red, green and blue channels and that of the
white LED, which gives a share of its brightness to each of them (`RgbwColor.light`). The
conversion is made so that this is the light of the color that was converted: the white LED takes
over as much as it can without making a channel too bright, and the other channels give what is
left. What the white LED emits is what the last call on the conversion object says.

## Main results

* `RgbColor.channel_toRgbw_le`: no channel becomes brighter, in whatever way numbers are rounded.
* `shows_useReference`: with a reference color, no channel loses more than one step of its light.
* `light_preserved`: the light of every conversion, behind any history of calls.
-/

namespace Skybrush

open Rounding

/-- The red, green and blue channels, in order. -/
def RgbwColor.channel (color : RgbwColor) : Fin 3 → UInt8
  | 0 => color.red
  | 1 => color.green
  | 2 => color.blue

/-- The light that a color shows in a channel, if the white LED gives each channel a share of its
brightness. -/
def RgbwColor.light (color : RgbwColor) (share : Fin 3 → ℚ) (i : Fin 3) : ℚ :=
  (color.channel i).toNat + color.white.toNat * share i

/-- The share of each channel in the light of a reference color, measured by the strongest one. A
channel that is missing in the reference color is not taken to be quite dark. -/
def RgbColor.share (reference : RgbColor) (i : Fin 3) : ℚ :=
  if 1 ≤ (reference.channel i).toNat then
    (reference.channel i).toNat / max (max (max 1 reference.red.toNat) reference.green.toNat)
      reference.blue.toNat
  else
    1 / 255

/-! ### Bytes -/

/-- A number that is converted to a byte loses what is behind the point. -/
theorem toNat_ofNat_truncate {q : ℚ} (hnonneg : 0 ≤ q) (hlt : q < 256) :
    ((UInt8.ofNat (truncate q).toNat).toNat : ℚ) ≤ q ∧
      q < (UInt8.ofNat (truncate q).toNat).toNat + 1 := by
  have hfloor : (truncate q).toNat = ⌊q⌋₊ := by
    rw [truncate, if_pos hnonneg]
    exact Int.floor_toNat q
  have hbyte : ⌊q⌋₊ < 256 := (Nat.floor_lt hnonneg).2 (by exact_mod_cast hlt)
  rw [hfloor, UInt8.toNat_ofNat', Nat.mod_eq_of_lt hbyte]
  exact ⟨Nat.floor_le hnonneg, Nat.lt_floor_add_one q⟩

/-! ### Taking the white light away -/

section Remove

variable {F : Rounding} {white channel : UInt8} {div : ℚ}

theorem removeWhite_of_lt (h : F (white.toNat * div) < channel.toNat) :
    removeWhite F white div channel =
      UInt8.ofNat (truncate (F (channel.toNat - F (white.toNat * div)))).toNat := if_pos h

theorem removeWhite_of_le (h : channel.toNat ≤ F (white.toNat * div)) :
    removeWhite F white div channel = 0 := if_neg h.not_gt

/-- A channel is not brighter behind the conversion, in whatever way numbers are rounded. -/
theorem removeWhite_le (hdiv : 0 ≤ div) : removeWhite F white div channel ≤ channel := by
  have hlt := channel.toNat_lt
  have hcorrection : 0 ≤ F (white.toNat * div) :=
    F.nonneg (mul_nonneg (Nat.cast_nonneg _) hdiv)
  rw [UInt8.le_iff_toNat_le]
  rcases lt_or_ge (F (white.toNat * div)) channel.toNat with hbrighter | hdark
  · have hleft : F (channel.toNat - F (white.toNat * div)) ≤ channel.toNat := by
      have hmono := F.mono (sub_le_self (channel.toNat : ℚ) hcorrection)
      rwa [F.apply_natCast (by omega : channel.toNat ≤ 2 ^ 24)] at hmono
    have hbyte : (channel.toNat : ℚ) < 256 := by exact_mod_cast hlt
    obtain ⟨hle, -⟩ := toNat_ofNat_truncate (F.nonneg (sub_nonneg.2 hbrighter.le))
      (hleft.trans_lt hbyte)
    rw [removeWhite_of_lt hbrighter]
    exact_mod_cast hle.trans hleft
  · rw [removeWhite_of_le hdark]
    exact Nat.zero_le _

/-- A channel that is at least as bright as the white light gives what is left. -/
theorem removeWhite_light (hdiv : 0 ≤ div) (hbright : white.toNat * div ≤ channel.toNat) :
    (removeWhite .exact white div channel).toNat + white.toNat * div ≤ channel.toNat ∧
      (channel.toNat : ℚ) <
        (removeWhite .exact white div channel).toNat + white.toNat * div + 1 := by
  have hcorrection : (0 : ℚ) ≤ white.toNat * div := mul_nonneg (Nat.cast_nonneg _) hdiv
  have hbyte : (channel.toNat : ℚ) < 256 := by exact_mod_cast channel.toNat_lt
  rcases hbright.lt_or_eq with hbrighter | hequal
  · obtain ⟨hle, hlt⟩ := toNat_ofNat_truncate (sub_nonneg.2 hbright)
      (show (channel.toNat : ℚ) - white.toNat * div < 256 by linarith)
    rw [removeWhite_of_lt hbrighter]
    simp only [exact_apply]
    constructor <;> linarith
  · have hzero : ((0 : UInt8).toNat : ℚ) = 0 := rfl
    rw [removeWhite_of_le hequal.ge, hzero]
    constructor <;> linarith

end Remove

/-! ### The white light -/

section White

variable {mul : Fin 3 → ℚ} (hmul : ∀ i, 0 < mul i) (color : RgbColor)
include hmul

/-- The least of the scaled channels. -/
theorem exists_minScaled :
    ∃ least : ℚ, 0 ≤ least ∧ (∀ i, least ≤ (color.channel i).toNat * mul i) ∧
      (∃ i, least = (color.channel i).toNat * mul i) ∧
      whiteOf .exact mul color =
        if least ≤ 0 then 0
        else if least ≤ 255 then UInt8.ofNat (truncate least).toNat else 255 := by
  have hscaled : ∀ i, 0 ≤ ((color.channel i).toNat : ℚ) * mul i := fun i =>
    mul_nonneg (Nat.cast_nonneg _) (hmul i).le
  refine ⟨_, le_min (le_min (hscaled 0) (hscaled 1)) (hscaled 2), ?_, ?_, rfl⟩
  · intro i
    match i with
    | 0 => exact (min_le_left _ _).trans (min_le_left _ _)
    | 1 => exact (min_le_left _ _).trans (min_le_right _ _)
    | 2 => exact min_le_right _ _
  · rcases min_choice (min (((color.channel 0).toNat : ℚ) * mul 0)
      ((color.channel 1).toNat * mul 1)) ((color.channel 2).toNat * mul 2) with h | h
    · rcases min_choice (((color.channel 0).toNat : ℚ) * mul 0)
        ((color.channel 1).toNat * mul 1) with h' | h'
      · exact ⟨0, h.trans h'⟩
      · exact ⟨1, h.trans h'⟩
    · exact ⟨2, h⟩

/-- **The white light** is not brighter than any scaled channel, and brighter by one step it would
be, unless it is as bright as it can. -/
theorem whiteOf_greatest :
    (∀ i, ((whiteOf .exact mul color).toNat : ℚ) ≤ (color.channel i).toNat * mul i) ∧
      (whiteOf .exact mul color = 255 ∨
        ∃ i, (color.channel i).toNat * mul i < (whiteOf .exact mul color).toNat + 1) := by
  obtain ⟨least, hnonneg, hleast, ⟨j, hj⟩, hwhite⟩ := exists_minScaled hmul color
  rw [hwhite]
  split
  case isTrue hdark =>
    have hzero : ((0 : UInt8).toNat : ℚ) = 0 := rfl
    rw [hzero]
    refine ⟨fun i => hnonneg.trans (hleast i), .inr ⟨j, ?_⟩⟩
    linarith
  case isFalse =>
    split
    case isTrue hbyte =>
      obtain ⟨hle, hlt⟩ := toNat_ofNat_truncate hnonneg (show least < 256 by linarith)
      exact ⟨fun i => hle.trans (hleast i), .inr ⟨j, hj ▸ hlt⟩⟩
    case isFalse hbright =>
      have hfull : ((255 : UInt8).toNat : ℚ) = 255 := rfl
      refine ⟨fun i => ?_, .inl rfl⟩
      rw [hfull]
      exact (not_le.1 hbright).le.trans (hleast i)

end White

/-! ### Conversions -/

/-- With a white LED that emits a reference color, a four-channel color shows what a color does:
no channel is brighter, none loses a step of its light, and the white LED could not be any
brighter. -/
structure RgbwColor.Shows (converted : RgbwColor) (reference color : RgbColor) : Prop where
  le : ∀ i, converted.light reference.share i ≤ (color.channel i).toNat
  lt : ∀ i, ((color.channel i).toNat : ℚ) < converted.light reference.share i + 1
  greatest : converted.white = 255 ∨
    ∃ i, ((color.channel i).toNat : ℚ) < (converted.white.toNat + 1) * reference.share i

/-- The parameters for a reference color scale its channels to the strongest one. -/
theorem ofColor_exact (reference : RgbColor) (i : Fin 3) :
    0 < (ColorReference.ofColor .exact reference).mul i ∧
      (ColorReference.ofColor .exact reference).div i = reference.share i ∧
      (ColorReference.ofColor .exact reference).mul i * reference.share i = 1 := by
  have hmax : (0 : ℚ) < (max (max (max 1 reference.red.toNat) reference.green.toNat)
      reference.blue.toNat : ℕ) := by
    have hone : 1 ≤ max (max (max 1 reference.red.toNat) reference.green.toNat)
        reference.blue.toNat := by
      omega
    exact_mod_cast hone
  simp only [ColorReference.ofColor, RgbColor.share, exact_apply]
  push_cast at hmax ⊢
  split
  case isTrue hpresent =>
    have hchannel : (0 : ℚ) < (reference.channel i).toNat := by exact_mod_cast hpresent
    exact ⟨div_pos hmax hchannel, one_div_div _ _, by field_simp⟩
  case isFalse => norm_num

theorem channel_useReference (F : Rounding) (layout : UnionLayout) (color : RgbColor)
    (ref : ColorReference) (i : Fin 3) :
    (color.toRgbw F layout ⟨.useReference, .colorRef ref⟩).channel i =
      removeWhite F (whiteOf F ref.mul color) (ref.div i) (color.channel i) := by
  match i with
  | 0 | 1 | 2 => rfl

/-- **With a reference color**, the light is that of the color. -/
theorem shows_useReference (layout : UnionLayout) (reference color : RgbColor)
    (ref : ColorReference) (hmul : ref.mul = (ColorReference.ofColor .exact reference).mul)
    (hdiv : ref.div = (ColorReference.ofColor .exact reference).div) :
    (color.toRgbw .exact layout ⟨.useReference, .colorRef ref⟩).Shows reference color := by
  have hpos : ∀ i, 0 < ref.mul i := fun i => hmul ▸ (ofColor_exact reference i).1
  have hshare : ∀ i, ref.div i = reference.share i := fun i =>
    hdiv ▸ (ofColor_exact reference i).2.1
  have hinverse : ∀ i, ref.mul i * reference.share i = 1 := fun i =>
    hmul ▸ (ofColor_exact reference i).2.2
  have hnonneg : ∀ i, 0 ≤ reference.share i := by
    intro i
    by_contra hneg
    have hmulneg := mul_neg_of_pos_of_neg (hpos i) (not_le.1 hneg)
    rw [hinverse i] at hmulneg
    linarith
  obtain ⟨hwhite, hgreatest⟩ := whiteOf_greatest hpos color
  -- a channel is at least as bright as its share of the white light
  have hbright : ∀ i, ((whiteOf .exact ref.mul color).toNat : ℚ) * ref.div i ≤
      (color.channel i).toNat := by
    intro i
    have hscaled := mul_le_mul_of_nonneg_right (hwhite i) (hnonneg i)
    rw [mul_assoc, hinverse i, mul_one] at hscaled
    rwa [hshare i]
  have hlight : ∀ i, (color.toRgbw .exact layout ⟨.useReference, .colorRef ref⟩).light
      reference.share i ≤ (color.channel i).toNat ∧
        ((color.channel i).toNat : ℚ) <
          (color.toRgbw .exact layout ⟨.useReference, .colorRef ref⟩).light reference.share i +
            1 := by
    intro i
    rw [RgbwColor.light, channel_useReference, ← hshare i]
    exact removeWhite_light (by rw [hshare i]; exact hnonneg i) (hbright i)
  refine ⟨fun i => (hlight i).1, fun i => (hlight i).2, ?_⟩
  rcases hgreatest with hfull | ⟨i, hi⟩
  · exact .inl hfull
  · refine .inr ⟨i, ?_⟩
    have hscaled := mul_lt_mul_of_pos_right hi
      ((hnonneg i).lt_of_ne fun hzero => by simpa [← hzero] using hinverse i)
    rwa [mul_assoc, hinverse i, mul_one] at hscaled

/-- The lesser of two bytes. -/
theorem min_byte (a b : UInt8) : (min a b ≤ a ∧ min a b ≤ b) ∧ (min a b = a ∨ min a b = b) := by
  have hmin : min a b = if a ≤ b then a else b := rfl
  rw [hmin]
  split
  case isTrue hle => exact ⟨⟨UInt8.le_refl a, hle⟩, .inl rfl⟩
  case isFalse hgt => exact ⟨⟨UInt8.le_of_lt (UInt8.not_le.1 hgt), UInt8.le_refl b⟩, .inr rfl⟩

/-- With the least of its channels taken to white, a color has the same light. -/
theorem light_subtractMin (F : Rounding) (layout : UnionLayout) (color : RgbColor)
    (params : ConversionParams) :
    (∀ i, (color.toRgbw F layout ⟨.subtractMin, params⟩).light (fun _ => 1) i =
        (color.channel i).toNat) ∧
      ∃ i, (color.toRgbw F layout ⟨.subtractMin, params⟩).channel i = 0 := by
  obtain ⟨red, green, blue⟩ := color
  obtain ⟨⟨hred, hgreen⟩, hpair⟩ := min_byte red green
  obtain ⟨⟨hleast, hblue⟩, hall⟩ := min_byte (min red green) blue
  have hsum : ∀ {channel : UInt8}, min (min red green) blue ≤ channel →
      ((channel - min (min red green) blue).toNat : ℚ) +
        (min (min red green) blue).toNat * 1 = channel.toNat := by
    intro channel hle
    rw [UInt8.toNat_sub_of_le _ _ hle, mul_one]
    exact_mod_cast Nat.sub_add_cancel (UInt8.le_iff_toNat_le.1 hle)
  constructor
  · intro i
    match i with
    | 0 => exact hsum (UInt8.le_trans hleast hred)
    | 1 => exact hsum (UInt8.le_trans hleast hgreen)
    | 2 => exact hsum hblue
  · rcases hall with h | h
    · rcases hpair with h' | h'
      · exact ⟨0, show red - min (min red green) blue = 0 by rw [h, h', UInt8.sub_self]⟩
      · exact ⟨1, show green - min (min red green) blue = 0 by rw [h, h', UInt8.sub_self]⟩
    · exact ⟨2, show blue - min (min red green) blue = 0 by rw [h, UInt8.sub_self]⟩

/-! ### Calls -/

variable {layout : UnionLayout} {colorOf : Temperature → RgbColor}

namespace ConversionCall

/-- What a call asks of the conversions behind it. -/
def Asks (colorOf : Temperature → RgbColor) (call : ConversionCall) (color : RgbColor)
    (converted : RgbwColor) : Prop :=
  match call with
  | turnOff => (∀ i, converted.channel i = color.channel i) ∧ converted.white = 0
  | useFixedValue value => (∀ i, converted.channel i = color.channel i) ∧ converted.white = value
  | useMinSubtraction =>
      (∀ i, converted.light (fun _ => 1) i = (color.channel i).toNat) ∧
        ∃ i, converted.channel i = 0
  | useReferenceColor reference => converted.Shows reference color
  | useColorTemperature temperature => converted.Shows (colorOf temperature) color

/-- What is known of an object before a call: only for a temperature, it matters. The temperature
must be one that the documentation allows, and the object must not be set up for a reference
color by anything but calls. -/
def MayFollow (conv : RgbwConversion) (calls : List ConversionCall) : ConversionCall → Prop
  | useColorTemperature temperature => temperature.Admissible ∧
      (conv.method ≠ .useReference ∨ ∃ call ∈ calls, call.SetsMethod)
  | _ => True

/-- **The last call** decides how an object converts. -/
theorem run_concat (F : Rounding) {conv : RgbwConversion} {calls : List ConversionCall}
    {call : ConversionCall} (h : call.MayFollow conv calls) :
    match call with
    | turnOff => run F layout colorOf conv (calls ++ [call]) = ⟨.fixedValue, .fixedValue 0⟩
    | useFixedValue value =>
        run F layout colorOf conv (calls ++ [call]) = ⟨.fixedValue, .fixedValue value⟩
    | useMinSubtraction => ∃ params, run F layout colorOf conv (calls ++ [call]) =
        ⟨.subtractMin, params⟩
    | useReferenceColor reference => run F layout colorOf conv (calls ++ [call]) =
        ⟨.useReference, .colorRef (.ofColor F reference)⟩
    | useColorTemperature temperature => run F layout colorOf conv (calls ++ [call]) =
        ⟨.useReference, .colorRef (.ofTemperature F colorOf temperature)⟩ := by
  have hrun : run F layout colorOf conv (calls ++ [call]) =
      call.exec F layout colorOf (run F layout colorOf conv calls) := List.foldl_append
  rw [hrun]
  cases call with
  | turnOff | useFixedValue | useReferenceColor => rfl
  | useMinSubtraction => exact ⟨_, rfl⟩
  | useColorTemperature temperature =>
      obtain ⟨hadmissible, hconv⟩ := h
      obtain ⟨t, rfl, hne⟩ := hadmissible.exists_finite
      exact (RgbwConversion.consistent_run hconv).useColorTemperature hne

end ConversionCall

/-- A conversion makes no channel brighter, in whatever way numbers are rounded. -/
theorem RgbColor.channel_toRgbw_le (F : Rounding) {conv : RgbwConversion}
    (hdiv : conv.method = .useReference → ∀ i, 0 ≤ (conv.params.asColorRef layout).div i)
    (color : RgbColor) (i : Fin 3) :
    (color.toRgbw F layout conv).channel i ≤ color.channel i := by
  obtain ⟨method, params⟩ := conv
  cases method with
  | fixedValue =>
      match i with
      | 0 | 1 | 2 => exact UInt8.le_refl _
  | subtractMin =>
      obtain ⟨hlight, -⟩ := light_subtractMin F layout color params
      have hchannel := hlight i
      rw [RgbwColor.light] at hchannel
      have hwhite : (0 : ℚ) ≤ (color.toRgbw F layout ⟨.subtractMin, params⟩).white.toNat * 1 :=
        mul_nonneg (Nat.cast_nonneg _) zero_le_one
      have hle : ((color.toRgbw F layout ⟨.subtractMin, params⟩).channel i).toNat ≤
          ((color.channel i).toNat : ℚ) := by
        linarith
      rw [UInt8.le_iff_toNat_le]
      exact_mod_cast hle
  | useReference =>
      match i with
      | 0 | 1 | 2 => exact removeWhite_le (hdiv rfl _)

/-- The share that is taken away is not negative. -/
theorem ColorReference.div_nonneg (F : Rounding) (reference : RgbColor) (i : Fin 3) :
    0 ≤ (ColorReference.ofColor F reference).div i := by
  rw [ofColor]
  dsimp only
  refine F.nonneg (one_div_nonneg.2 ?_)
  split
  · exact F.nonneg (by positivity)
  · norm_num

/-- **Conversions keep the light**: behind any history of calls, the last call decides how colors
are converted. No channel becomes brighter, in whatever way numbers are rounded; and in exact
arithmetic, the four channels show the light of the color, as the last call asks for it. -/
theorem light_preserved {conv : RgbwConversion} {calls : List ConversionCall}
    {call : ConversionCall} (h : call.MayFollow conv calls) (color : RgbColor) :
    (∀ (F : Rounding) (i : Fin 3),
      (color.toRgbw F layout (ConversionCall.run F layout colorOf conv (calls ++ [call]))).channel i
        ≤ color.channel i) ∧
      call.Asks colorOf color (color.toRgbw .exact layout
        (ConversionCall.run .exact layout colorOf conv (calls ++ [call]))) := by
  have hlast := fun F => @ConversionCall.run_concat layout colorOf F conv calls call h
  constructor
  · intro F i
    have hlast := hlast F
    refine RgbColor.channel_toRgbw_le F ?_ color i
    cases call with
    | turnOff | useFixedValue => exact fun hmethod => absurd (hlast ▸ hmethod) nofun
    | useMinSubtraction =>
        obtain ⟨params, hparams⟩ := hlast
        exact fun hmethod => absurd (hparams ▸ hmethod) nofun
    | useReferenceColor reference =>
        rw [hlast]
        exact fun _ => ColorReference.div_nonneg F reference
    | useColorTemperature temperature =>
        rw [hlast]
        exact fun _ => ColorReference.div_nonneg F (colorOf temperature)
  · have hlast := hlast .exact
    cases call with
    | turnOff | useFixedValue =>
        rw [hlast]
        refine ⟨fun i => ?_, rfl⟩
        match i with
        | 0 | 1 | 2 => rfl
    | useMinSubtraction =>
        obtain ⟨params, hparams⟩ := hlast
        rw [hparams]
        exact light_subtractMin .exact layout color params
    | useReferenceColor reference =>
        rw [hlast]
        exact shows_useReference layout reference color _ rfl rfl
    | useColorTemperature temperature =>
        rw [hlast]
        exact shows_useReference layout (colorOf temperature) color _ rfl rfl

/-- A warm white LED of 3000 Kelvin, after another way to set up the conversion. -/
theorem light_preserved_warmWhite :
    (∀ (F : Rounding) (i : Fin 3),
      (RgbColor.toRgbw F separateLayout ⟨128, 192, 254⟩
        (ConversionCall.run F separateLayout (fun _ => ⟨255, 177, 109⟩) .zero
          ([.useMinSubtraction] ++ [.useColorTemperature (.finite 3000)]))).channel i ≤
        RgbColor.channel ⟨128, 192, 254⟩ i) ∧
      RgbwColor.Shows (RgbColor.toRgbw .exact separateLayout ⟨128, 192, 254⟩
        (ConversionCall.run .exact separateLayout (fun _ => ⟨255, 177, 109⟩) .zero
          ([.useMinSubtraction] ++ [.useColorTemperature (.finite 3000)])))
        ⟨255, 177, 109⟩ ⟨128, 192, 254⟩ :=
  @light_preserved separateLayout _ .zero [.useMinSubtraction] (.useColorTemperature (.finite 3000))
    ⟨⟨3000, rfl, by norm_num, by norm_num⟩, .inl (by decide)⟩ ⟨128, 192, 254⟩

end Skybrush
