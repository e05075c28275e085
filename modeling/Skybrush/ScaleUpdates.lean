import Skybrush.BuilderFlight
import Skybrush.RthConversion

/-!
# Picking a Scale

The functions of `utils.c` that pick the scale of a trajectory, on a scale that they update in
place: what a call leaves behind when it fails counts here. A scale is picked with a ceiling,
the builder encodes with a floor, and both have to agree on every coordinate that was accepted
on the way.

## Main results

* `run_updateScale`: the update in place, in terms of the one that returns the scale.
* `ScaleCall.run_exec_ok`, `ScaleCall.run_exec_error`: what a call does.
* `toNat_runScale`: the scale behind a sequence of calls.
* `exists_builder`, `storable_of_accepted`: what a builder can do with the last scale.
* `scale_updates`: everything that was accepted fits into the last scale.
-/

namespace Skybrush

open Rounding

variable (F : Rounding)

/-! ### Updates in place -/

/-- The part of `sb_i_scale_update` that expands a positive scale. -/
def expandScale (maxCoord : ℚ) : EStateM SbError UInt8 Unit := do
  let scale ← get
  if ((scale.toNat * int16Max : ℕ) : ℚ) < maxCoord then
    let newScale := ⌈F (maxCoord / int16Max)⌉
    if newScale ≤ 127 then set (UInt8.ofNat newScale.toNat) else throw .eoverflow

/-- `sb_i_scale_update`, on the scale in place. -/
def updateScale (x y z : ℚ) : EStateM SbError UInt8 Unit := do
  modify fun scale => if scale = 0 then 1 else scale
  expandScale F (max (max |x| |y|) |z|)

theorem run_updateScale_bind (scale : UInt8) (x y z : ℚ) :
    (updateScale F x y z).run scale =
      (expandScale F (max (max |x| |y|) |z|)).run (if scale = 0 then 1 else scale) := rfl

theorem run_expandScale (scale : UInt8) (maxCoord : ℚ) :
    (expandScale F maxCoord).run scale =
      if ((scale.toNat * int16Max : ℕ) : ℚ) < maxCoord then
        if ⌈F (maxCoord / int16Max)⌉ ≤ 127 then
          .ok () (UInt8.ofNat ⌈F (maxCoord / int16Max)⌉.toNat)
        else
          .error .eoverflow scale
      else
        .ok () scale := by
  have hget : (expandScale F maxCoord).run scale =
      EStateM.run (if ((scale.toNat * int16Max : ℕ) : ℚ) < maxCoord then
        if ⌈F (maxCoord / int16Max)⌉ ≤ 127 then
          set (UInt8.ofNat ⌈F (maxCoord / int16Max)⌉.toNat)
        else
          throw SbError.eoverflow
      else
        pure ()) scale := rfl
  rw [hget]
  split
  · split <;> rfl
  · rfl

/-- **The update in place** stores what the other one returns. If it fails, only a scale of zero
is changed. -/
theorem run_updateScale (scale : UInt8) (x y z : ℚ) :
    (updateScale F x y z).run scale =
      match scaleUpdate F scale x y z with
      | .ok scale' => .ok () scale'
      | .error e => .error e (if scale = 0 then 1 else scale) := by
  rw [run_updateScale_bind, run_expandScale, scaleUpdate]
  generalize (if scale = 0 then 1 else scale) = scale'
  simp only
  split
  · split <;> rfl
  · rfl

/-! ### Calls -/

/-- A call that updates a scale. -/
inductive ScaleCall where
  | altitude (z : ℚ)
  | vector2 (point : Vector2)
  | vector3WithYaw (point : Vector3WithYaw)
  deriving DecidableEq, Repr

namespace ScaleCall

/-- Perform a call: `sb_scale_update_altitude`, `sb_scale_update_vector2` or
`sb_scale_update_vector3_with_yaw`. -/
def exec : ScaleCall → EStateM SbError UInt8 Unit
  | altitude z => updateScale F 0 0 z
  | vector2 point => updateScale F point.x point.y 0
  | vector3WithYaw point => updateScale F point.x point.y point.z

/-- The coordinates of a call. -/
def coordinates : ScaleCall → List ℚ
  | altitude z => [z]
  | vector2 point => [point.x, point.y]
  | vector3WithYaw point => [point.x, point.y, point.z]

/-- The largest absolute coordinate of a call. -/
def maxCoord (call : ScaleCall) : ℚ := (call.coordinates.map abs).foldr max 0

/-- The scale that the coordinates of a call need. -/
def needed (call : ScaleCall) : ℕ := ⌈call.maxCoord / int16Max⌉₊

/-- The coordinates of a call exceed the range of a scale and the one of the largest scale. -/
def TooLarge (call : ScaleCall) (scale : UInt8) : Prop :=
  ((scale.toNat * int16Max : ℕ) : ℚ) < call.maxCoord ∧
    ((127 * int16Max : ℕ) : ℚ) < call.maxCoord

variable {F} {call : ScaleCall} {scale : UInt8}

/-- All calls come down to their largest coordinate. -/
theorem run_exec (call : ScaleCall) (scale : UInt8) :
    (call.exec F).run scale =
      (expandScale F call.maxCoord).run (if scale = 0 then 1 else scale) := by
  cases call with
  | altitude z =>
      rw [exec, run_updateScale_bind]
      simp [maxCoord, coordinates]
  | vector2 point =>
      rw [exec, run_updateScale_bind]
      simp [maxCoord, coordinates]
  | vector3WithYaw point =>
      rw [exec, run_updateScale_bind]
      simp [maxCoord, coordinates, max_assoc]

/-- No coordinate is larger than the largest one. -/
theorem abs_le_maxCoord {coordinate : ℚ} (h : coordinate ∈ call.coordinates) :
    |coordinate| ≤ call.maxCoord := by
  rw [maxCoord]
  generalize call.coordinates = coordinates at h ⊢
  induction coordinates with
  | nil => cases h
  | cons first rest ih =>
      rw [List.map_cons, List.foldr_cons]
      rcases List.mem_cons.mp h with rfl | hrest
      · exact le_max_left _ _
      · exact (ih hrest).trans (le_max_right _ _)

/-- A scale suffices for a call exactly if its range does. -/
theorem needed_le_iff {n : ℕ} : call.needed ≤ n ↔ call.maxCoord ≤ ((n * int16Max : ℕ) : ℚ) := by
  rw [needed, Nat.ceil_le, div_le_iff₀ (by norm_num [int16Max]), Nat.cast_mul]

/-- The scale that is really updated. -/
theorem toNat_positive (scale : UInt8) :
    (if scale = 0 then 1 else scale).toNat = max scale.toNat 1 := by
  split
  case isTrue hzero =>
    rw [hzero]
    rfl
  case isFalse hpos =>
    have : scale.toNat ≠ 0 := fun h => hpos (UInt8.toNat_inj.mp h)
    omega

/-- Behind the first test nothing is larger than the smallest scale but not the scale. -/
theorem tooLarge_iff : call.TooLarge scale ↔
    (((max scale.toNat 1) * int16Max : ℕ) : ℚ) < call.maxCoord ∧
      ((127 * int16Max : ℕ) : ℚ) < call.maxCoord := by
  rw [TooLarge]
  refine and_congr_left fun hlarge => ?_
  rcases Nat.eq_zero_or_pos scale.toNat with hzero | hpos
  · have hone : ((1 * int16Max : ℕ) : ℚ) ≤ ((127 * int16Max : ℕ) : ℚ) := by norm_num [int16Max]
    have hnone : ((0 * int16Max : ℕ) : ℚ) ≤ ((127 * int16Max : ℕ) : ℚ) := by norm_num [int16Max]
    rw [hzero]
    exact iff_of_true (hnone.trans_lt hlarge) (hone.trans_lt hlarge)
  · rw [Nat.max_eq_left hpos]

/-- **A call that fails**: its coordinates are too large, and only a scale of zero is changed. -/
theorem run_exec_error (h : call.TooLarge scale) :
    (call.exec .exact).run scale = .error .eoverflow (if scale = 0 then 1 else scale) := by
  obtain ⟨hscale, hlargest⟩ := tooLarge_iff.mp h
  rw [run_exec, run_expandScale, toNat_positive, if_pos hscale,
    if_neg (ceil_le_iff.not.mpr (not_le.mpr hlargest))]

/-- **A call that succeeds** takes the scale that it needs, if it is larger. -/
theorem run_exec_ok (h : ¬ call.TooLarge scale) :
    ∃ scale', (call.exec .exact).run scale = .ok () scale' ∧
      scale'.toNat = max (max scale.toNat 1) call.needed := by
  rw [run_exec, run_expandScale, toNat_positive]
  split
  case isTrue hgrow =>
    have hroom : call.maxCoord ≤ ((127 * int16Max : ℕ) : ℚ) :=
      not_lt.mp fun hlargest => h (tooLarge_iff.mpr ⟨hgrow, hlargest⟩)
    have hneeded : call.needed ≤ 127 := needed_le_iff.mpr hroom
    have hlarger : max scale.toNat 1 < call.needed := by
      rw [← not_le, needed_le_iff, not_le]
      exact hgrow
    have hceil : ⌈Rounding.exact (call.maxCoord / int16Max)⌉.toNat = call.needed := Int.ceil_toNat _
    rw [if_pos (ceil_le_iff.mpr hroom), hceil]
    refine ⟨_, rfl, ?_⟩
    rw [UInt8.toNat_ofNat_of_lt' (show call.needed < 256 by omega), max_eq_right hlarger.le]
  case isFalse hinside =>
    refine ⟨_, rfl, ?_⟩
    rw [toNat_positive, max_eq_left (needed_le_iff.mpr (not_lt.mp hinside))]

/-- A call does to a scale what it should: it fails with `SB_EOVERFLOW` if its coordinates are too
large, and leaves a positive scale alone then, and otherwise the scale does not decrease. -/
def UpdatesRight (call : ScaleCall) (scale : UInt8) : Prop :=
  match (call.exec .exact).run scale with
  | .ok _ scale' => ¬ call.TooLarge scale ∧ scale ≤ scale'
  | .error e scale' => e = .eoverflow ∧ call.TooLarge scale ∧ (0 < scale → scale' = scale)

theorem updatesRight (call : ScaleCall) (scale : UInt8) : call.UpdatesRight scale := by
  by_cases h : call.TooLarge scale
  · rw [UpdatesRight, run_exec_error h]
    refine ⟨rfl, h, fun hpos => if_neg ?_⟩
    rintro rfl
    exact absurd hpos (by decide)
  · obtain ⟨scale', hrun, hscale'⟩ := run_exec_ok h
    rw [UpdatesRight, hrun]
    refine ⟨h, ?_⟩
    rw [UInt8.le_iff_toNat_le, hscale']
    exact (le_max_left _ _).trans (le_max_left _ _)

end ScaleCall

/-! ### Sequences of calls -/

/-- Perform calls on a scale, one after the other: the calls that were accepted, and the last
scale. -/
def runScale (scale : UInt8) : List ScaleCall → List ScaleCall × UInt8
  | [] => ([], scale)
  | call :: calls =>
      match (call.exec F).run scale with
      | .ok _ scale' => (call :: (runScale scale' calls).1, (runScale scale' calls).2)
      | .error _ scale' => runScale scale' calls

/-- The largest scale that some calls need, and at least a given one. -/
def largestNeeded (scale : ℕ) (calls : List ScaleCall) : ℕ :=
  (calls.map ScaleCall.needed).foldr max scale

theorem largestNeeded_cons (scale : ℕ) (call : ScaleCall) (calls : List ScaleCall) :
    largestNeeded scale (call :: calls) = max call.needed (largestNeeded scale calls) := rfl

/-- The given scale may be made larger first. -/
theorem largestNeeded_max (scale n : ℕ) (calls : List ScaleCall) :
    largestNeeded (max scale n) calls = max n (largestNeeded scale calls) := by
  induction calls with
  | nil => exact max_comm scale n
  | cons call calls ih => rw [largestNeeded_cons, ih, largestNeeded_cons, max_left_comm]

theorem le_largestNeeded {scale n : ℕ} {calls : List ScaleCall} (h : n ≤ scale) :
    n ≤ largestNeeded scale calls := by
  induction calls with
  | nil => exact h
  | cons first rest ih =>
      rw [largestNeeded_cons]
      exact ih.trans (le_max_right _ _)

theorem needed_le_largestNeeded {scale : ℕ} {call : ScaleCall} {calls : List ScaleCall}
    (h : call ∈ calls) : call.needed ≤ largestNeeded scale calls := by
  induction calls with
  | nil => cases h
  | cons first rest ih =>
      rw [largestNeeded_cons]
      rcases List.mem_cons.mp h with rfl | hrest
      · exact le_max_left _ _
      · exact (ih hrest).trans (le_max_right _ _)

section Run

variable {scale : UInt8} {call : ScaleCall} {calls : List ScaleCall}

/-- The scale behind calls on a positive scale: by induction on the calls, of which each one
raises the scale to what it needs or is not accepted. -/
theorem toNat_runScale_of_pos (h : 0 < scale.toNat) (calls : List ScaleCall) :
    (runScale .exact scale calls).2.toNat =
      largestNeeded scale.toNat (runScale .exact scale calls).1 := by
  induction calls generalizing scale with
  | nil => rfl
  | cons call calls ih =>
      by_cases hlarge : call.TooLarge scale
      · have hne : ¬ scale = 0 := by
          rintro rfl
          exact absurd h (by decide)
        have hrun := ScaleCall.run_exec_error hlarge
        rw [if_neg hne] at hrun
        simp only [runScale, hrun]
        exact ih h
      · obtain ⟨scale', hrun, hscale'⟩ := ScaleCall.run_exec_ok hlarge
        have hmax : max scale.toNat 1 = scale.toNat := max_eq_left h
        rw [hmax] at hscale'
        have hpos : 0 < scale'.toNat := by omega
        simp only [runScale, hrun]
        rw [ih hpos, hscale', largestNeeded_max, largestNeeded_cons]

/-- The first call makes a scale of zero the scale one. -/
theorem runScale_cons_positive (scale : UInt8) (call : ScaleCall) (calls : List ScaleCall) :
    runScale .exact scale (call :: calls) =
      runScale .exact (if scale = 0 then 1 else scale) (call :: calls) := by
  have hone : ¬ (1 : UInt8) = 0 := by decide
  split
  case isTrue hzero => rw [runScale, runScale, ScaleCall.run_exec, ScaleCall.run_exec, if_pos hzero,
    if_neg hone]
  case isFalse => rfl

/-- **The scale behind a sequence of calls** is the largest one that the accepted calls need, and at
least the first one. -/
theorem toNat_runScale (scale : UInt8) (calls : List ScaleCall) :
    (runScale .exact scale calls).2.toNat =
      if calls = [] then scale.toNat
      else largestNeeded (max scale.toNat 1) (runScale .exact scale calls).1 := by
  cases calls with
  | nil => rfl
  | cons call calls =>
      have hpositive := ScaleCall.toNat_positive scale
      have hpos : 0 < (if scale = 0 then 1 else scale).toNat := by omega
      rw [if_neg (List.cons_ne_nil call calls), runScale_cons_positive,
        toNat_runScale_of_pos hpos, hpositive]

/-- A scale that a builder may have stays one. -/
theorem toNat_runScale_le (h : scale.toNat ≤ 127) (calls : List ScaleCall) :
    (runScale .exact scale calls).2.toNat ≤ 127 := by
  induction calls generalizing scale with
  | nil => exact h
  | cons call calls ih =>
      by_cases hlarge : call.TooLarge scale
      · have hrun := ScaleCall.run_exec_error hlarge
        have hpositive := ScaleCall.toNat_positive scale
        simp only [runScale, hrun]
        exact ih (by omega)
      · obtain ⟨scale', hrun, hscale'⟩ := ScaleCall.run_exec_ok hlarge
        have hneeded : call.needed ≤ 127 := by
          rw [ScaleCall.tooLarge_iff, not_and_or, not_lt, not_lt, ← ScaleCall.needed_le_iff,
            ← ScaleCall.needed_le_iff] at hlarge
          rcases hlarge with hinside | hroom
          · exact hinside.trans (max_le h (by decide))
          · exact hroom
        simp only [runScale, hrun]
        exact ih (by omega)

/-- What a scale has to do for a coordinate: the floor that is written fits into 16 bits, and every
builder with that scale accepts it and writes it. -/
structure Encodes (scale : UInt8) (coordinate : ℚ) : Prop where
  low : -32768 ≤ ⌊coordinate / scale.toNat⌋
  high : ⌊coordinate / scale.toNat⌋ ≤ 32767
  scaled : TrajectoryBuilder.scaleCoordinate .exact scale.toNat coordinate =
    .ok ⌊coordinate / scale.toNat⌋
  written : ∀ (b : TrajectoryBuilder) (offset : ℕ), b.scale = scale.toNat →
    (TrajectoryBuilder.store.writeCoordinate .exact coordinate offset).run b =
      .ok (offset + 2) (b.withBytes (writeInt16 b.bytes offset ⌊coordinate / scale.toNat⌋))

/-- Everything that is inside the range of a scale is encoded with it. -/
theorem encodes_of_inReach {coordinate : ℚ} (hpos : 0 < scale.toNat)
    (h : InReach scale coordinate) : Encodes scale coordinate := by
  have hfits := TrajectoryBuilder.coordinateFits_of_abs_le hpos h
  have hscaled := TrajectoryBuilder.scaleCoordinate_of_fits .exact hfits
  refine ⟨hfits.1, hfits.2, hscaled, fun b offset hb => ?_⟩
  rw [TrajectoryBuilder.writes_writeCoordinate .exact scale.toNat coordinate b hb offset, hscaled]
  rfl

/-- The coordinates of the calls that were accepted. -/
def acceptedCoordinates (scale : UInt8) (calls : List ScaleCall) : List ℚ :=
  (runScale .exact scale calls).1.flatMap ScaleCall.coordinates

/-- What was accepted is inside the range of the last scale. -/
theorem inReach_of_accepted {coordinate : ℚ} (h : coordinate ∈ acceptedCoordinates scale calls) :
    0 < (runScale .exact scale calls).2.toNat ∧
      InReach (runScale .exact scale calls).2 coordinate := by
  obtain ⟨call, hcall, hcoordinate⟩ := List.mem_flatMap.mp h
  have hne : calls ≠ [] := by
    rintro rfl
    cases hcall
  have hlast := toNat_runScale scale calls
  rw [if_neg hne] at hlast
  have hneeded : call.needed ≤ (runScale .exact scale calls).2.toNat := by
    rw [hlast]
    exact needed_le_largestNeeded hcall
  refine ⟨?_, (ScaleCall.abs_le_maxCoord hcoordinate).trans (ScaleCall.needed_le_iff.mp hneeded)⟩
  rw [hlast]
  exact le_largestNeeded (le_max_right _ _)

/-- An accepted point may be flown to: the calls of a builder with the last scale store it. -/
theorem storable_of_accepted {point : Vector3WithYaw}
    (h : .vector3WithYaw point ∈ (runScale .exact scale calls).1) :
    Storable (runScale .exact scale calls).2.toNat point := by
  have hreach : ∀ c ∈ [point.x, point.y, point.z], InReach (runScale .exact scale calls).2 c :=
    fun c hc => (inReach_of_accepted (List.mem_flatMap.mpr ⟨_, h, hc⟩)).2
  exact ⟨hreach _ (by simp), hreach _ (by simp), hreach _ (by simp)⟩

/-- A builder can be made with the last scale, unless the first one was too large already. -/
theorem exists_builder (hscale : scale.toNat ≤ 127)
    (hpos : 0 < (runScale .exact scale calls).2.toNat) (flags : UInt8) :
    ∃ b, TrajectoryBuilder.init (runScale .exact scale calls).2 flags = .ok b ∧
      b.scale = (runScale .exact scale calls).2.toNat := by
  have hle := toNat_runScale_le hscale calls
  have hvalid : ¬ ((runScale .exact scale calls).2 = 0 ∨
      127 < (runScale .exact scale calls).2) := by
    rw [UInt8.lt_iff_toNat_lt, ← UInt8.toNat_inj]
    rintro (hzero | hlarge)
    · exact absurd hpos (by rw [hzero]; decide)
    · exact absurd hlarge (not_lt.mpr hle)
  exact ⟨_, if_neg hvalid, rfl⟩

/-- Halfway between two coordinates in range. -/
theorem InReach.midpoint {c c' : ℚ} (h : InReach scale c) (h' : InReach scale c') :
    InReach scale ((c + c') / 2) :=
  TrajectoryBuilder.abs_midpoint_le h h'

/-- **Scales are picked as they should be**: every call fails exactly if its coordinates are too
large, and leaves a positive scale alone then; the scale behind a sequence of calls is the largest
one that was needed; and every coordinate that was accepted on the way, and every midpoint of two
of them, is encoded with the last scale. -/
theorem scale_updates :
    (∀ (call : ScaleCall) (scale : UInt8), call.UpdatesRight scale) ∧
      ∀ (scale : UInt8) (calls : List ScaleCall),
        (runScale .exact scale calls).2.toNat =
            (if calls = [] then scale.toNat
            else largestNeeded (max scale.toNat 1) (runScale .exact scale calls).1) ∧
          ∀ c ∈ acceptedCoordinates scale calls, ∀ c' ∈ acceptedCoordinates scale calls,
            Encodes (runScale .exact scale calls).2 c ∧
              Encodes (runScale .exact scale calls).2 ((c + c') / 2) := by
  refine ⟨ScaleCall.updatesRight, fun scale calls => ⟨toNat_runScale scale calls, ?_⟩⟩
  intro c hc c' hc'
  obtain ⟨hpos, hreach⟩ := inReach_of_accepted hc
  obtain ⟨-, hreach'⟩ := inReach_of_accepted hc'
  exact ⟨encodes_of_inReach hpos hreach, encodes_of_inReach hpos (hreach.midpoint hreach')⟩

/-- Halfway between an exact multiple of the range and another coordinate. -/
theorem scale_updates_vector2 : Encodes 2 ((65534 + -3) / 2) := by
  have hrun : runScale .exact 0 [.vector2 ⟨65534, -3⟩] = ([.vector2 ⟨65534, -3⟩], 2) := by
    decide +kernel
  have haccepted : acceptedCoordinates 0 [.vector2 ⟨65534, -3⟩] = [65534, -3] := by
    rw [acceptedCoordinates, hrun]
    rfl
  have hencodes := (scale_updates.2 0 [.vector2 ⟨65534, -3⟩]).2 65534 (by rw [haccepted]; simp) (-3)
    (by rw [haccepted]; simp)
  rw [hrun] at hencodes
  exact hencodes.2

/-- An exact multiple of the range still fits, one more does not; what is too large for the largest
scale is not accepted. -/
example : runScale .exact 2 [.vector2 ⟨65534, -65535⟩, .altitude 4161410] =
    ([.vector2 ⟨65534, -65535⟩], 3) := by
  decide +kernel

end Run

end Skybrush
