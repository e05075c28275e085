import Skybrush.Library.Binary32
import Skybrush.RthPlan
import Skybrush.BuilderRoundTrip

/-!
# Converting Return-to-Home Entries

The conversion of an entry of a return-to-home plan into a trajectory: the end of
`rth_plan/rth_plan.c`, and the functions of `utils.c` that pick the scale of a trajectory
and convert durations to milliseconds. The scale is picked first, from the coordinates
that will be written later; then a builder holds the start position, climbs or sinks along the
neck, flies to the target and holds the position there.

An entry that was evaluated from a plan has more structure than its type says: it says what to
do, no duration is negative, and only an action with a neck has one
(`RthPlanEntry.Evaluated`).

## Main results

* `scaleUpdate_ok`, `scaleUpdate_error`: the scale grows as far as it has to, unless a
  coordinate is too large for the largest one.
* `RthPlan.evaluated_of_evaluateAt`: what is known of the entries that are evaluated from a plan.
* `scaleFor_ok`, `scaleFor_error`: the scale suffices for everything that is written with it.
-/

namespace Skybrush

open Checked Rounding

/-- `INT16_MAX`. -/
def int16Max : ℕ := 32767

/-- `UINT32_MAX`. -/
def uint32Max : ℕ := 2 ^ 32 - 1

variable (F : Rounding)

/-! ### Scales -/

/-- `sb_i_scale_update`. -/
def scaleUpdate (scale : UInt8) (x y z : ℚ) : Except SbError UInt8 :=
  let scale := if scale = 0 then 1 else scale
  let maxCoord := max (max |x| |y|) |z|
  if ((scale.toNat * int16Max : ℕ) : ℚ) < maxCoord then
    let newScale := ⌈F (maxCoord / int16Max)⌉
    if newScale ≤ 127 then .ok (UInt8.ofNat newScale.toNat) else .error .eoverflow
  else
    .ok scale

/-- `sb_scale_update_altitude`. -/
def scaleUpdateAltitude (scale : UInt8) (altitude : ℚ) : Except SbError UInt8 :=
  scaleUpdate F scale 0 0 altitude

/-- `sb_scale_update_vector2`. -/
def scaleUpdateVector2 (scale : UInt8) (point : Vector2) : Except SbError UInt8 :=
  scaleUpdate F scale point.x point.y 0

/-- `sb_scale_update_vector3_with_yaw`. -/
def scaleUpdateVector3WithYaw (scale : UInt8) (point : Vector3WithYaw) : Except SbError UInt8 :=
  scaleUpdate F scale point.x point.y point.z

/-! ### Durations -/

/-- `MAX_DURATION_SEC`. -/
def maxDurationSec : ℚ := F (F uint32Max / 1000)

/-- `sb_uint32_msec_duration_from_float_seconds`. In single precision `MAX_DURATION_SEC` is rounded
up, and the conversion to `uint32_t` can be out of range; it is undefined then, and wraps around
on x86-64. -/
def uint32MsecDurationFromFloatSeconds : TimeSec → Except SbError ℕ
  | .nan => .error .einval
  | .negInfinity => .error .einval
  | .finite duration =>
      if duration < 0 then
        .error .einval
      else if maxDurationSec F < duration then
        .error .eoverflow
      else
        .ok ((truncate (F (duration * 1000))).toNat % 2 ^ 32)
  | .infinity => .error .eoverflow

/-- A time after a delay. -/
def TimeSec.delayed : TimeSec → ℚ → TimeSec
  | nan, _ => nan
  | negInfinity, _ => negInfinity
  | finite t, delay => finite (F (t + delay))
  | infinity, _ => infinity

/-! ### The conversion -/

/-- The part of `sb_trajectory_init_from_rth_plan_entry` that determines the scale of the
trajectory. -/
def scaleFor (entry : RthPlanEntry) (start : Vector3WithYaw) : Except SbError UInt8 := do
  let scale ← scaleUpdateVector3WithYaw F 1 start
  let scale ← (if entry.action.hasNeck then
      scaleUpdateAltitude F scale (F (start.z + entry.preNeckMm)) else pure scale)
  let scale ← (if entry.action.hasTarget then
      scaleUpdateVector2 F scale entry.target else pure scale)
  if entry.action.hasTargetAltitude then
    scaleUpdateAltitude F scale entry.targetAltitude else pure scale

namespace TrajectoryBuilder

variable (alloc : Allocator)

/-- Convert a duration and append a line: what the conversion does for the neck and for the
action. -/
def appendLineFor (target : Vector3WithYaw) (durationSec : ℚ) : Action Unit := do
  let durationMsec ← ofExcept (uint32MsecDurationFromFloatSeconds F (.finite durationSec))
  appendLine F alloc target durationMsec

/-- The part of `sb_trajectory_init_from_rth_plan_entry` that adds the neck. It returns the
target behind the neck. -/
def addPreNeck (entry : RthPlanEntry) (target : Vector3WithYaw) : Action Vector3WithYaw := do
  if entry.preNeckMm ≠ 0 ∨ entry.preNeckDurationSec ≠ 0 then
    let target := { target with z := F (target.z + entry.preNeckMm) }
    appendLineFor F alloc target entry.preNeckDurationSec
    pure target
  else
    pure target

/-- The part of `sb_trajectory_init_from_rth_plan_entry` that adds the action. -/
def addAction (entry : RthPlanEntry) (target : Vector3WithYaw) : Action Unit :=
  match entry.action with
  | .land => pure ()
  | .goToKeepingAltitude =>
      appendLineFor F alloc { target with x := entry.target.x, y := entry.target.y }
        entry.durationSec
  | .goToWithAltitude =>
      appendLineFor F alloc
        { target with x := entry.target.x, y := entry.target.y, z := entry.targetAltitude }
        entry.durationSec
  | .sameAsPrevious => throw .einval

/-- The part of `sb_trajectory_init_from_rth_plan_entry` that adds the delay behind the
action. -/
def addPostDelay (entry : RthPlanEntry) : Action Unit := do
  if 0 < entry.postDelaySec then
    let durationMsec ← ofExcept (uint32MsecDurationFromFloatSeconds F (.finite entry.postDelaySec))
    holdPositionFor F alloc durationMsec

/-- The calls of `sb_trajectory_init_from_rth_plan_entry` on its builder. -/
def addRthPlanEntry (entry : RthPlanEntry) (start : Vector3WithYaw) (durationMsec : ℕ) :
    Action Unit := do
  setStartPosition F start
  holdPositionFor F alloc durationMsec
  let target ← addPreNeck F alloc entry start
  addAction F alloc entry target
  addPostDelay F alloc entry

end TrajectoryBuilder

/-- How long the conversion stays at the start position: until the time of the entry, and for
its delay. -/
def startHoldSec (entry : RthPlanEntry) : TimeSec :=
  let startTime := if entry.timeSec.isBefore 0 then .finite 0 else entry.timeSec
  startTime.delayed F (if 0 < entry.preDelaySec then entry.preDelaySec else 0)

/-- The memory that `sb_buffer_init` asks for when a builder gets a new buffer. -/
def allocateHeader (alloc : Allocator) : Checked SbError Unit :=
  if alloc headerLength then ok () else error .enomem

/-- `sb_trajectory_init_from_rth_plan_entry`. The builder gets a buffer twice: at the start, and
when its bytes have been handed over. -/
def Trajectory.initFromRthPlanEntry (alloc : Allocator) (entry : RthPlanEntry)
    (start : Vector3WithYaw) : Checked SbError Trajectory := do
  let scale ← Checked.lift (scaleFor F entry start)
  let durationMsec ← Checked.lift
    (uint32MsecDurationFromFloatSeconds F (startHoldSec F entry))
  let builder ← Checked.lift (TrajectoryBuilder.init scale 0)
  allocateHeader alloc
  match (TrajectoryBuilder.addRthPlanEntry F alloc entry start durationMsec).run builder with
  | .error e _ => error e
  | .ok _ builder =>
      let (trajectory, _) ← Trajectory.initFromBuilder F builder
      allocateHeader alloc
      pure trajectory

/-! ### What is known of scales -/

/-- A coordinate is too large for the largest scale. -/
def TooFar (coordinate : ℚ) : Prop := ((127 * int16Max : ℕ) : ℚ) < |coordinate|

/-- A coordinate is small enough for a scale. -/
def InReach (scale : UInt8) (coordinate : ℚ) : Prop :=
  |coordinate| ≤ ((scale.toNat * int16Max : ℕ) : ℚ)

theorem InReach.mono {scale scale' : UInt8} {coordinate : ℚ} (h : InReach scale coordinate)
    (hle : scale ≤ scale') : InReach scale' coordinate := by
  have hle' : scale.toNat * int16Max ≤ scale'.toNat * int16Max := Nat.mul_le_mul_right _ hle
  exact h.trans (by exact_mod_cast hle')

/-- Nothing in reach is too far. -/
theorem InReach.not_tooFar {scale : UInt8} {coordinate : ℚ} (h : InReach scale coordinate)
    (hscale : scale ≤ 127) : ¬ TooFar coordinate := by
  have hmax : (127 : UInt8).toNat = 127 := rfl
  have hle := h.mono hscale
  rw [InReach, hmax] at hle
  exact not_lt.mpr hle

variable {scale scale' : UInt8} {x y z : ℚ}

/-- **The scale grows** as far as it has to. -/
theorem scaleUpdate_ok (hpos : 1 ≤ scale) (hle : scale ≤ 127)
    (h : scaleUpdate .exact scale x y z = .ok scale') :
    scale ≤ scale' ∧ scale' ≤ 127 ∧ InReach scale' x ∧ InReach scale' y ∧ InReach scale' z := by
  have hne : scale ≠ 0 := by
    rintro rfl
    exact absurd hpos (by decide)
  have hmax : ∀ {scale : UInt8},
      max (max |x| |y|) |z| ≤ ((scale.toNat * int16Max : ℕ) : ℚ) →
        InReach scale x ∧ InReach scale y ∧ InReach scale z := by
    intro scale hmax
    exact ⟨(le_max_left _ _).trans ((le_max_left _ _).trans hmax),
      (le_max_right _ _).trans ((le_max_left _ _).trans hmax), (le_max_right _ _).trans hmax⟩
  simp only [scaleUpdate, if_neg hne] at h
  generalize max (max |x| |y|) |z| = m at h hmax
  split at h
  case isTrue hlt =>
    split at h
    case isTrue hnew =>
      obtain rfl := Except.ok.inj h
      have hquot : m ≤ (⌈(Rounding.exact (m / int16Max) : ℚ)⌉ : ℤ) * int16Max := by
        rw [← div_le_iff₀ (by norm_num [int16Max])]
        exact Int.le_ceil _
      have hgrow : (scale.toNat : ℤ) < ⌈(Rounding.exact (m / int16Max) : ℚ)⌉ := by
        rw [Int.lt_ceil, exact_apply, lt_div_iff₀ (by norm_num [int16Max])]
        exact_mod_cast hlt
      generalize ⌈(Rounding.exact (m / int16Max) : ℚ)⌉ = n at hnew hquot hgrow
      obtain ⟨k, rfl⟩ : ∃ k : ℕ, n = k := ⟨n.toNat, by omega⟩
      have hk : (UInt8.ofNat k).toNat = k := by
        rw [UInt8.toNat_ofNat']
        omega
      rw [Int.toNat_natCast]
      refine ⟨?_, ?_, hmax ?_⟩
      · rw [UInt8.le_iff_toNat_le, hk]
        omega
      · rw [UInt8.le_iff_toNat_le, hk]
        exact_mod_cast hnew
      · rw [hk]
        exact_mod_cast hquot
    case isFalse => cases h
  case isFalse hle' =>
    obtain rfl := Except.ok.inj h
    exact ⟨UInt8.le_refl _, hle, hmax (not_lt.mp hle')⟩

/-- The new scale may be taken if the largest scale has room. -/
theorem ceil_le_iff {maxCoord : ℚ} :
    ⌈Rounding.exact (maxCoord / int16Max)⌉ ≤ 127 ↔ maxCoord ≤ ((127 * int16Max : ℕ) : ℚ) := by
  rw [exact_apply, Int.ceil_le, div_le_iff₀ (by norm_num [int16Max]), Nat.cast_mul]
  norm_cast

section Scales

variable {F : Rounding}

/-- The scale cannot grow enough for a coordinate that is too far. -/
theorem scaleUpdate_error {e : SbError} (h : scaleUpdate F scale x y z = .error e) :
    e = .eoverflow ∧ (TooFar x ∨ TooFar y ∨ TooFar z) := by
  simp only [scaleUpdate] at h
  generalize (if scale = 0 then 1 else scale) = scale at h
  split at h
  · split at h
    · cases h
    case isFalse hnew =>
      refine ⟨(Except.error.inj h).symm, ?_⟩
      have hfar : ((127 * int16Max : ℕ) : ℚ) < max (max |x| |y|) |z| := by
        by_contra hnear
        have hquot : max (max |x| |y|) |z| / int16Max ≤ (127 : ℕ) := by
          rw [div_le_iff₀ (by norm_num [int16Max])]
          exact_mod_cast not_lt.mp hnear
        have hround := F.mono hquot
        rw [F.apply_natCast (by decide)] at hround
        exact hnew (Int.ceil_le.mpr (by exact_mod_cast hround))
      rw [lt_max_iff, lt_max_iff] at hfar
      simpa only [TooFar, or_assoc] using hfar
  · cases h

/-- What it means that coordinates are in reach of a scale: they are in reach of larger scales,
too, and the scale is updated until they are. -/
structure ReachedBy (F : Rounding) (R : UInt8 → ℚ → Prop) : Prop where
  mono : ∀ {scale scale' : UInt8} {coordinate : ℚ}, R scale coordinate → scale ≤ scale' →
    R scale' coordinate
  update : ∀ {scale scale' : UInt8} {x y z : ℚ}, 1 ≤ scale → scale ≤ 127 →
    scaleUpdate F scale x y z = .ok scale' →
      scale ≤ scale' ∧ scale' ≤ 127 ∧ R scale' x ∧ R scale' y ∧ R scale' z

/-- In exact arithmetic the scale is large enough. -/
theorem reachedBy_exact : ReachedBy .exact InReach := ⟨InReach.mono, scaleUpdate_ok⟩

variable {R : UInt8 → ℚ → Prop}

/-- An update that is made under a condition. -/
theorem ReachedBy.updateIf {condition : Bool} (hR : ReachedBy F R) (hpos : 1 ≤ scale)
    (hle : scale ≤ 127)
    (h : (if condition then scaleUpdate F scale x y z else pure scale) = .ok scale') :
    scale ≤ scale' ∧ scale' ≤ 127 ∧
      (condition = true → R scale' x ∧ R scale' y ∧ R scale' z) := by
  split at h
  case isTrue =>
    obtain ⟨hgrow, hle', hreach⟩ := hR.update hpos hle h
    exact ⟨hgrow, hle', fun _ => hreach⟩
  case isFalse hnot =>
    cases h
    exact ⟨UInt8.le_refl _, hle, fun htrue => absurd htrue hnot⟩

theorem updateIf_error {condition : Bool} {e : SbError}
    (h : (if condition then scaleUpdate F scale x y z else pure scale) = .error e) :
    e = .eoverflow ∧ condition = true ∧ (TooFar x ∨ TooFar y ∨ TooFar z) := by
  split at h
  case isTrue htrue =>
    obtain ⟨he, hfar⟩ := scaleUpdate_error h
    exact ⟨he, htrue, hfar⟩
  case isFalse => cases h

/-- A scale that suffices for what is written for an entry. -/
structure Suffices (F : Rounding) (R : UInt8 → ℚ → Prop) (entry : RthPlanEntry)
    (start : Vector3WithYaw) (scale : UInt8) : Prop where
  pos : 1 ≤ scale
  le : scale ≤ 127
  position : R scale start.x ∧ R scale start.y ∧ R scale start.z
  neck : entry.action.hasNeck = true → R scale (F (start.z + entry.preNeckMm))
  target : entry.action.hasTarget = true → R scale entry.target.x ∧ R scale entry.target.y
  altitude : entry.action.hasTargetAltitude = true → R scale entry.targetAltitude

/-- Something that is written for an entry is too far. -/
def SomethingTooFar (F : Rounding) (entry : RthPlanEntry) (start : Vector3WithYaw) : Prop :=
  (TooFar start.x ∨ TooFar start.y ∨ TooFar start.z) ∨
    (entry.action.hasNeck = true ∧ TooFar (F (start.z + entry.preNeckMm))) ∨
    (entry.action.hasTarget = true ∧ (TooFar entry.target.x ∨ TooFar entry.target.y)) ∨
    (entry.action.hasTargetAltitude = true ∧ TooFar entry.targetAltitude)

/-- A sufficient scale leaves nothing too far. -/
theorem Suffices.not_somethingTooFar {entry : RthPlanEntry} {start : Vector3WithYaw}
    (h : Suffices F InReach entry start scale) : ¬ SomethingTooFar F entry start := by
  have hnear : ∀ {coordinate : ℚ}, InReach scale coordinate → ¬ TooFar coordinate :=
    fun hreach => hreach.not_tooFar h.le
  obtain ⟨hx, hy, hz⟩ := h.position
  rintro ((hfar | hfar | hfar) | ⟨haction, hfar⟩ | ⟨haction, hfar | hfar⟩ | ⟨haction, hfar⟩)
  · exact hnear hx hfar
  · exact hnear hy hfar
  · exact hnear hz hfar
  · exact hnear (h.neck haction) hfar
  · exact hnear (h.target haction).1 hfar
  · exact hnear (h.target haction).2 hfar
  · exact hnear (h.altitude haction) hfar

/-- Zero is not too far. -/
theorem not_tooFar_zero : ¬ TooFar 0 := by
  rw [TooFar, abs_zero, not_lt]
  exact Nat.cast_nonneg _

/-- **The scale suffices** for everything that is written with it. -/
theorem scaleFor_ok (hR : ReachedBy F R) {entry : RthPlanEntry} {start : Vector3WithYaw}
    (h : scaleFor F entry start = .ok scale) : Suffices F R entry start scale := by
  simp only [scaleFor, scaleUpdateVector3WithYaw, scaleUpdateAltitude, scaleUpdateVector2] at h
  obtain ⟨s₁, h₁, h⟩ := except_bind_eq_ok.mp h
  obtain ⟨s₂, h₂, h⟩ := except_bind_eq_ok.mp h
  obtain ⟨s₃, h₃, h₄⟩ := except_bind_eq_ok.mp h
  obtain ⟨hpos₁, hle₁, hx, hy, hz⟩ := hR.update (UInt8.le_refl 1) (by decide) h₁
  obtain ⟨hgrow₂, hle₂, hneck⟩ := hR.updateIf hpos₁ hle₁ h₂
  have hpos₂ := UInt8.le_trans hpos₁ hgrow₂
  obtain ⟨hgrow₃, hle₃, htarget⟩ := hR.updateIf hpos₂ hle₂ h₃
  have hpos₃ := UInt8.le_trans hpos₂ hgrow₃
  obtain ⟨hgrow₄, hle₄, haltitude⟩ := hR.updateIf hpos₃ hle₃ h₄
  have hgrow₂₄ := UInt8.le_trans hgrow₃ hgrow₄
  have hgrow := UInt8.le_trans hgrow₂ hgrow₂₄
  exact
    { pos := UInt8.le_trans hpos₃ hgrow₄
      le := hle₄
      position := ⟨hR.mono hx hgrow, hR.mono hy hgrow, hR.mono hz hgrow⟩
      neck := fun haction => hR.mono (hneck haction).2.2 hgrow₂₄
      target := fun haction =>
        ⟨hR.mono (htarget haction).1 hgrow₄, hR.mono (htarget haction).2.1 hgrow₄⟩
      altitude := fun haction => (haltitude haction).2.2 }

/-- There is no scale only if something is too far. -/
theorem scaleFor_error {entry : RthPlanEntry} {start : Vector3WithYaw} {e : SbError}
    (h : scaleFor F entry start = .error e) :
    e = .eoverflow ∧ SomethingTooFar F entry start := by
  simp only [scaleFor, scaleUpdateVector3WithYaw, scaleUpdateAltitude, scaleUpdateVector2] at h
  rcases except_bind_eq_error.mp h with h | ⟨s₁, -, h⟩
  · obtain ⟨rfl, hfar⟩ := scaleUpdate_error h
    exact ⟨rfl, .inl hfar⟩
  rcases except_bind_eq_error.mp h with h | ⟨s₂, -, h⟩
  · obtain ⟨rfl, haction, hfar⟩ := updateIf_error h
    have hfar := (hfar.resolve_left not_tooFar_zero).resolve_left not_tooFar_zero
    exact ⟨rfl, .inr (.inl ⟨haction, hfar⟩)⟩
  rcases except_bind_eq_error.mp h with h | ⟨s₃, -, h⟩
  · obtain ⟨rfl, haction, hfar⟩ := updateIf_error h
    rw [← or_assoc] at hfar
    exact ⟨rfl, .inr (.inr (.inl ⟨haction, hfar.resolve_right not_tooFar_zero⟩))⟩
  · obtain ⟨rfl, haction, hfar⟩ := updateIf_error h
    have hfar := (hfar.resolve_left not_tooFar_zero).resolve_left not_tooFar_zero
    exact ⟨rfl, .inr (.inr (.inr ⟨haction, hfar⟩))⟩

end Scales

/-! ### Scales in single precision -/

/-- A coordinate that rounds to one that is small enough for a scale, give or take half of
the scale. -/
def NearReach (scale : UInt8) (coordinate : ℚ) : Prop := |coordinate| ≤ scale.toNat * 65535 / 2

theorem NearReach.mono {coordinate : ℚ} (h : NearReach scale coordinate) (hle : scale ≤ scale') :
    NearReach scale' coordinate := by
  have hle' : (scale.toNat : ℚ) ≤ scale'.toNat := by exact_mod_cast UInt8.le_iff_toNat_le.mp hle
  rw [NearReach] at *
  linarith

/-- The new scale is large enough, up to rounding: a float lies between it and what is too
large for it. -/
theorem le_of_ceil_le {F : Rounding} (hF : F.KeepsBinary32) {maxCoord : ℚ} {n : ℕ} (hpos : 1 ≤ n)
    (hn : n ≤ 127) (h : ⌈F (maxCoord / int16Max)⌉ ≤ n) : maxCoord ≤ n * 65535 / 2 := by
  by_contra hlt
  rw [not_le] at hlt
  have hone : (1 : ℚ) ≤ n := by exact_mod_cast hpos
  have hfloat : F (((n * 65537 : ℤ) : ℚ) * 2 ^ (-16 : ℤ)) = ((n * 65537 : ℤ) : ℚ) * 2 ^ (-16 : ℤ) :=
    hF _ _ (by decide) (by rw [abs_of_nonneg (by positivity)]; omega)
  have hbelow : ((n * 65537 : ℤ) : ℚ) * 2 ^ (-16 : ℤ) ≤ maxCoord / int16Max := by
    rw [le_div_iff₀ (by norm_num [int16Max])]
    norm_num [int16Max] at hlt ⊢
    linarith
  have hround := F.mono hbelow
  rw [hfloat] at hround
  have hceil : F (maxCoord / int16Max) ≤ (n : ℤ) := Int.ceil_le.mp h
  norm_num at hround hceil
  linarith

/-- **In single precision** the scale is large enough, up to rounding. -/
theorem reachedBy_keepsBinary32 {F : Rounding} (hF : F.KeepsBinary32) :
    ReachedBy F NearReach where
  mono := NearReach.mono
  update := by
    intro scale scale' x y z hpos hle h
    have hne : scale ≠ 0 := by
      rintro rfl
      exact absurd hpos (by decide)
    have hpos' : 1 ≤ scale.toNat := hpos
    have hmax : ∀ {scale : UInt8}, max (max |x| |y|) |z| ≤ scale.toNat * 65535 / 2 →
        NearReach scale x ∧ NearReach scale y ∧ NearReach scale z := by
      intro scale hmax
      exact ⟨(le_max_left _ _).trans ((le_max_left _ _).trans hmax),
        (le_max_right _ _).trans ((le_max_left _ _).trans hmax), (le_max_right _ _).trans hmax⟩
    simp only [scaleUpdate, if_neg hne] at h
    generalize max (max |x| |y|) |z| = m at h hmax
    split at h
    case isTrue hlt =>
      split at h
      case isTrue hnew =>
        obtain rfl := Except.ok.inj h
        have hgrow : (scale.toNat : ℤ) ≤ ⌈F (m / int16Max)⌉ := by
          have hquot : ((scale.toNat : ℕ) : ℚ) ≤ m / int16Max := by
            rw [le_div_iff₀ (by norm_num [int16Max])]
            exact_mod_cast hlt.le
          have hround := F.mono hquot
          rw [F.apply_natCast (show scale.toNat ≤ 2 ^ 24 by
            have := scale.toNat_lt
            omega)] at hround
          exact_mod_cast hround.trans (Int.le_ceil _)
        obtain ⟨k, hk⟩ : ∃ k : ℕ, ⌈F (m / int16Max)⌉ = k := ⟨⌈F (m / int16Max)⌉.toNat, by omega⟩
        have hle' : m ≤ k * 65535 / 2 :=
          le_of_ceil_le hF (by omega) (by omega) (le_of_eq hk)
        rw [hk, Int.toNat_natCast]
        rw [hk] at hnew hgrow
        have hnat : (UInt8.ofNat k).toNat = k := by
          rw [UInt8.toNat_ofNat']
          omega
        refine ⟨?_, ?_, hmax ?_⟩
        · rw [UInt8.le_iff_toNat_le, hnat]
          omega
        · rw [UInt8.le_iff_toNat_le, hnat]
          exact_mod_cast hnew
        · rw [hnat]
          exact hle'
      case isFalse => cases h
    case isFalse hle' =>
      obtain rfl := Except.ok.inj h
      refine ⟨UInt8.le_refl _, hle, hmax ((not_lt.mp hle').trans ?_)⟩
      norm_num [int16Max]
      linarith

/-! ### What is known of entries -/

/-- What is known of an entry that was evaluated from a plan at a time: it says what to do, no
duration is negative, and only an action with a neck has one. Its time is the one that was
asked for or a time of the plan. -/
structure RthPlanEntry.Evaluated (time : TimeSec) (entry : RthPlanEntry) : Prop where
  timeSec : entry.timeSec = time ∨ ∃ t, entry.timeSec = .finite t
  action_ne : entry.action ≠ .sameAsPrevious
  durationSec_nonneg : 0 ≤ entry.durationSec
  preDelaySec_nonneg : 0 ≤ entry.preDelaySec
  postDelaySec_nonneg : 0 ≤ entry.postDelaySec
  preNeckDurationSec_nonneg : 0 ≤ entry.preNeckDurationSec
  neck : entry.action.hasNeck = false → entry.preNeckMm = 0 ∧ entry.preNeckDurationSec = 0

namespace RthPlan

variable {F : Rounding} {time : TimeSec}

theorem ensures_parseDuration : (parseDuration F).Ensures fun duration => 0 ≤ duration := by
  refine (Parser.ensures_true _).bind fun value _ => ?_
  split
  · exact Parser.ensures_throw _ _
  · exact Parser.ensures_pure (F.nonneg (Nat.cast_nonneg value))

/-- A duration that may be missing is not negative. -/
theorem ensures_optionalDuration {condition : Prop} [Decidable condition] :
    (Parser.optional condition (parseDuration F) 0).Ensures fun duration => 0 ≤ duration :=
  .optional (fun _ => ensures_parseDuration) fun _ => le_rfl

theorem ensures_parseTime {s : EntryState} (h : s.entry.Evaluated time) :
    (parseTime F s).Ensures fun s' => s'.entry.Evaluated time := by
  refine (Parser.ensures_true _).bind fun timeDiffS _ => ?_
  split
  · exact Parser.ensures_throw _ _
  · exact Parser.ensures_pure { h with timeSec := .inr ⟨_, rfl⟩ }

/-- The parameters of an action: only one with a neck gets one. -/
theorem ensures_parseAction {scale : ℕ} {action : RthAction} {s : EntryState}
    (h : s.entry.Evaluated time) :
    (parseAction F scale action s).Ensures fun s' => s'.entry.Evaluated time := by
  rw [parseAction]
  split
  case isFalse => exact Parser.ensures_pure h
  case isTrue hne =>
    have hmm : (Parser.optional (action.hasNeck = true) (parseCoordinate F scale) 0).Ensures
        fun mm => action.hasNeck = false → mm = 0 := by
      refine .optional (fun htrue => ?_) fun _ _ => rfl
      exact fun _ _ _ _ _ hfalse => absurd (htrue.symm.trans hfalse) (by decide)
    have hduration : (Parser.optional (action.hasNeck = true) (parseDuration F) 0).Ensures
        fun duration => 0 ≤ duration ∧ (action.hasNeck = false → duration = 0) := by
      refine .optional (fun htrue => ?_) fun _ => ⟨le_rfl, fun _ => rfl⟩
      intro mem cursor duration cursor' hok
      exact ⟨ensures_parseDuration mem cursor duration cursor' hok,
        fun hfalse => absurd (htrue.symm.trans hfalse) (by decide)⟩
    refine (Parser.ensures_true _).bind fun pointIndex _ => (Parser.ensures_true _).bind
      fun targetAltitude _ => hmm.bind fun preNeckMm hmm => hduration.bind
        fun preNeckDurationSec hduration => Parser.ensures_pure ?_
    exact { h with
      action_ne := hne
      preNeckDurationSec_nonneg := hduration.1
      neck := fun hfalse => ⟨hmm hfalse, hduration.2 hfalse⟩ }

theorem ensures_parseDurations {flags : UInt8} {s : EntryState} (h : s.entry.Evaluated time) :
    (parseDurations F flags s).Ensures fun s' => s'.entry.Evaluated time :=
  ensures_optionalDuration.bind fun _ hduration => ensures_optionalDuration.bind fun _ hpre =>
    ensures_optionalDuration.bind fun _ hpost => Parser.ensures_pure
      { h with
        durationSec_nonneg := hduration
        preDelaySec_nonneg := hpre
        postDelaySec_nonneg := hpost }

/-- One entry keeps what is known. -/
theorem ensures_parseEntry {scale : ℕ} {s : EntryState} (h : s.entry.Evaluated time) :
    (parseEntry F scale s).Ensures fun s' => s'.entry.Evaluated time :=
  (Parser.ensures_true _).bind fun _ _ => (ensures_parseTime h).bind fun _ htime =>
    (ensures_parseAction htime).bind fun _ haction => ensures_parseDurations haction

/-- All entries keep what is known. -/
theorem ensures_parseEntries {scale : ℕ} (limit : TimeSec) (numEntries : ℕ) {s : EntryState}
    (h : s.entry.Evaluated time) :
    (parseEntries F scale limit numEntries s).Ensures fun s' => s'.entry.Evaluated time := by
  induction numEntries generalizing s with
  | zero => exact Parser.ensures_pure h
  | succ numEntries ih =>
      refine (ensures_parseEntry h).bind fun s' hs' => ?_
      split
      · exact Parser.ensures_pure hs'
      · exact ih hs'

/-- **What is known of an entry** that was evaluated from any plan. -/
theorem evaluated_of_evaluateAt {plan : RthPlan} {entry : RthPlanEntry}
    (h : plan.evaluateAt F time = ok entry) : entry.Evaluated time := by
  have hinitial : (EntryState.initial time).entry.Evaluated time :=
    ⟨.inl rfl, (by decide : RthAction.land ≠ .sameAsPrevious), le_rfl, le_rfl, le_rfl, le_rfl,
      fun _ => ⟨rfl, rfl⟩⟩
  obtain ⟨numEntries, -, hloop⟩ := bind_eq_ok.mp h
  obtain ⟨⟨s, offset⟩, hparse, htarget⟩ := bind_eq_ok.mp hloop
  obtain ⟨target, -, hentry⟩ := bind_eq_ok.mp htarget
  cases hentry
  exact { ensures_parseEntries time _ hinitial _ _ _ _ hparse with }

end RthPlan

end Skybrush
