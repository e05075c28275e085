import Skybrush.BoundingBox
import Skybrush.Library.BezierBounds

/-!
# Safety Margins

A box around all control points of a trajectory is a box around the trajectory, of whatever degree
its curves are, and however long its segments take. With a margin added (`sb_bounding_box_expand`),
it also contains every vehicle that is no further than the margin from where it should be.

An interval that is made smaller than it is wide does not turn around: it becomes its middle.

## Main results

* `Interval.expand_eq`: what becomes of an interval.
* `StoredTrajectory.values_subset`: the curves stay between the control points.
* `position_in_fence`: every position that a player returns is inside the box, and what is near
  it inside the expanded box.
-/

namespace Skybrush

open Checked CriticalPoints TrajectoryPlayer

/-! ### Expanding intervals -/

section Expand

variable {K : Type} [Field K] [LinearOrder K]

/-- `sb_interval_expand`. -/
def Interval.expand (interval : Interval K) (offset : K) : Interval K :=
  let interval : Interval K := ⟨interval.min - offset, interval.max + offset⟩
  if interval.max < interval.min then
    let middle := interval.min + (interval.max - interval.min) / (2 : ℕ)
    ⟨middle, middle⟩
  else
    interval

/-- `sb_bounding_box_expand`. -/
def BoundingBox.expand (box : BoundingBox K) (offset : K) : BoundingBox K :=
  ⟨box.x.expand offset, box.y.expand offset, box.z.expand offset⟩

theorem Axis.interval_expand (axis : Axis) (box : BoundingBox K) (offset : K) :
    axis.interval (box.expand offset) = (axis.interval box).expand offset := by
  cases axis <;> rfl

variable [IsStrictOrderedRing K]

/-- **An interval** that is expanded moves its ends, unless they would change places; then it
becomes its middle. -/
theorem Interval.expand_eq (interval : Interval K) (offset : K) :
    interval.expand offset =
      if 0 ≤ interval.max - interval.min + 2 * offset then
        ⟨interval.min - offset, interval.max + offset⟩
      else
        ⟨(interval.min + interval.max) / 2, (interval.min + interval.max) / 2⟩ := by
  rw [expand]
  dsimp only
  by_cases h : 0 ≤ interval.max - interval.min + 2 * offset
  · have hordered : ¬ interval.max + offset < interval.min - offset := by
      rw [not_lt]
      linarith
    rw [if_neg hordered, if_pos h]
  · have hturned : interval.max + offset < interval.min - offset := by linarith
    have hmiddle : interval.min - offset +
        (interval.max + offset - (interval.min - offset)) / (2 : ℕ) =
          (interval.min + interval.max) / 2 := by
      push_cast
      ring
    rw [if_pos hturned, if_neg h, hmiddle]

/-- What is near a number of an interval is in the expanded interval. -/
theorem Interval.mem_expand {interval : Interval K} {p q margin : K}
    (hp : p ∈ Set.Icc interval.min interval.max) (hq : |q - p| ≤ margin) :
    q ∈ Set.Icc (interval.expand margin).min (interval.expand margin).max := by
  obtain ⟨hlow, hhigh⟩ := hp
  obtain ⟨hleft, hright⟩ := abs_le.1 hq
  rw [expand_eq, if_pos (by linarith)]
  constructor
  · dsimp only
    linarith
  · dsimp only
    linarith

end Expand

/-! ### Control points -/

namespace StoredSegment

variable {scale : ℕ} {axis : Axis} {low high : ℚ}

/-- A curve stays between its control points. -/
theorem curveValues_subset_Icc {points : List ℚ} (hne : points ≠ [])
    (h : ∀ p ∈ points, p ∈ Set.Icc low high) :
    curveValues points ⊆ Set.Icc (low : ℝ) (high : ℝ) := by
  rintro _ ⟨u, ⟨hnonneg, hle⟩, rfl⟩
  refine Bezier.curve_mem_Icc (by simpa using hne) ?_ hnonneg hle
  intro p hp
  obtain ⟨q, hq, rfl⟩ := List.mem_map.1 hp
  obtain ⟨hlow, hhigh⟩ := h q hq
  exact ⟨by exact_mod_cast hlow, by exact_mod_cast hhigh⟩

/-- The end of a curve is a control point, or its start. -/
theorem coordinate_curve_one_mem (scale : ℕ) (start : Vector3WithYaw) (s : StoredSegment)
    (axis : Axis) :
    axis.coordinate (s.curve scale start 1) ∈ axis.controlPoints scale start s := by
  rw [curve_one]
  cases axis <;> exact List.getLastD_mem_cons

/-- **The curves of segments** stay between all control points. -/
theorem curvesValues_subset_Icc {start : Vector3WithYaw} {segments : List StoredSegment}
    (hstart : axis.coordinate start ∈ Set.Icc low high)
    (h : ∀ s ∈ segments, ∀ p ∈ (axis.points s).coordinates scale, p ∈ Set.Icc low high) :
    curvesValues scale axis start segments ⊆ Set.Icc (low : ℝ) (high : ℝ) := by
  induction segments generalizing start with
  | nil => exact Set.empty_subset _
  | cons s rest ih =>
      have hpoints : ∀ p ∈ axis.controlPoints scale start s, p ∈ Set.Icc low high := by
        intro p hp
        rcases List.mem_cons.1 hp with rfl | hp
        · exact hstart
        · exact h s List.mem_cons_self p hp
      refine Set.union_subset (curveValues_subset_Icc (List.cons_ne_nil _ _) hpoints) ?_
      exact ih (hpoints _ (coordinate_curve_one_mem scale start s axis))
        fun s hs => h s (List.mem_cons_of_mem _ hs)

end StoredSegment

namespace StoredTrajectory

variable {t : StoredTrajectory} {axis : Axis}

/-- All control points of a trajectory in a coordinate: its start, and what its segments store. -/
def controlPoints (t : StoredTrajectory) (axis : Axis) : List ℚ :=
  axis.coordinate t.start :: t.segments.flatMap fun s => (axis.points s).coordinates t.scale

/-- **The curves** of a trajectory stay between its control points. -/
theorem values_subset {low high : ℚ} (h : ∀ p ∈ t.controlPoints axis, p ∈ Set.Icc low high) :
    t.values axis ⊆ Set.Icc (low : ℝ) (high : ℝ) := by
  refine StoredSegment.curvesValues_subset_Icc (h _ List.mem_cons_self) ?_
  intro s hs p hp
  exact h p (List.mem_cons_of_mem _ (List.mem_flatMap.2 ⟨s, hs, hp⟩))

/-- A player of a trajectory without segments is at its start. -/
theorem Visits.position_of_nil (hnil : t.segments = []) {player player' : TrajectoryPlayer}
    (h : t.Visits player) {fuel : ℕ} {time : TimeSec} {position : Vector3WithYaw}
    (hrun : player.getPositionAt .exact fuel time = ok (position, player')) :
    position = t.start := by
  rw [getPositionAt, bind_eq_ok] at hrun
  obtain ⟨⟨rel, player₁⟩, hseek, hrun⟩ := hrun
  cases hrun
  have hkeeps : Keeps t.Visits (seekLoop .exact time.clip fuel player) :=
    t.invariant_visits.seekLoop time.clip h
  rw [seekToTime] at hseek
  rw [hseek] at hkeeps
  obtain hfuel | ⟨rel', player₂, hsame, hvisits⟩ := hkeeps
  · cases hfuel
  cases hsame
  obtain @⟨done, rest, start, hsplit⟩ := hvisits
  obtain ⟨rfl, rfl⟩ := List.append_eq_nil_iff.1 (hsplit.symm.trans hnil)
  exact eval_restSegment start t.start rel

/-- **Every position that a player returns** is between the control points. -/
theorem Visits.coordinate_mem {low high : ℚ}
    (h : ∀ p ∈ t.controlPoints axis, p ∈ Set.Icc low high) {player player' : TrajectoryPlayer}
    (hvisits : t.Visits player) {fuel : ℕ} {time : TimeSec} {position : Vector3WithYaw}
    (hrun : player.getPositionAt .exact fuel time = ok (position, player')) :
    axis.coordinate position ∈ Set.Icc low high := by
  rcases eq_or_ne t.segments [] with hnil | hne
  · rw [hvisits.position_of_nil hnil hrun]
    exact h _ List.mem_cons_self
  · obtain ⟨hlow, hhigh⟩ := values_subset h (hvisits.position_mem hne hrun axis)
    exact ⟨by exact_mod_cast hlow, by exact_mod_cast hhigh⟩

end StoredTrajectory

open StoredTrajectory in
/-- **A box around the control points** contains every position that a player returns, at any time
and whatever it was asked before, for curves of any degree and segments of any durations. What is
no further away than a margin is in the box that is expanded by the margin. -/
theorem position_in_fence (t : StoredTrajectory) {fence : BoundingBox ℚ}
    (hfence : ∀ axis : Axis, ∀ p ∈ t.controlPoints axis,
      p ∈ Set.Icc (axis.interval fence).min (axis.interval fence).max)
    {owned : Bool} {fuel : ℕ} {ops : List PlayerOp} {player : TrajectoryPlayer}
    (hsession : trajectorySession .exact owned t.bytes fuel ops = ok player) {fuel' : ℕ}
    {time : TimeSec} {position : Vector3WithYaw} {player' : TrajectoryPlayer}
    (hrun : player.getPositionAt .exact fuel' time = ok (position, player')) (axis : Axis) :
    axis.coordinate position ∈ Set.Icc (axis.interval fence).min (axis.interval fence).max ∧
      ∀ margin q : ℚ, |q - axis.coordinate position| ≤ margin →
        q ∈ Set.Icc (axis.interval (fence.expand margin)).min
          (axis.interval (fence.expand margin)).max := by
  rw [trajectorySession, t.initFromBytes, ok_bind, t.rewind, ok_bind] at hsession
  have hplayer : TrajectoryPlayer.run .exact fuel _ ops = outOfFuel ∨
      ∃ player, TrajectoryPlayer.run .exact fuel _ ops = ok player ∧ t.Visits player :=
    t.invariant_visits.run fuel t.visits_rewind ops
  rw [hsession] at hplayer
  obtain hfuel | ⟨player₁, hsame, hvisits⟩ := hplayer
  · cases hfuel
  cases hsame
  have hinside := hvisits.coordinate_mem (hfence axis) hrun
  refine ⟨hinside, fun margin q hq => ?_⟩
  rw [axis.interval_expand]
  exact Interval.mem_expand hinside hq

open StoredTrajectory in
/-- Two meters along x, half a second in, after a look at the end. -/
theorem position_in_fence_twoMeters :
    ∃ player position player',
      trajectorySession .exact false twoMeters.bytes 4 [.getPositionAt .infinity] = ok player ∧
      player.getPositionAt .exact 4 (.finite (1 / 2)) = ok (position, player') ∧
      ∀ axis : Axis, axis.coordinate position ∈
          Set.Icc (axis.interval (⟨⟨0, 2000⟩, ⟨0, 0⟩, ⟨0, 0⟩⟩ : BoundingBox ℚ)).min
            (axis.interval (⟨⟨0, 2000⟩, ⟨0, 0⟩, ⟨0, 0⟩⟩ : BoundingBox ℚ)).max ∧
        ∀ margin q : ℚ, |q - axis.coordinate position| ≤ margin →
          q ∈ Set.Icc
            (axis.interval (BoundingBox.expand ⟨⟨0, 2000⟩, ⟨0, 0⟩, ⟨0, 0⟩⟩ margin)).min
            (axis.interval (BoundingBox.expand ⟨⟨0, 2000⟩, ⟨0, 0⟩, ⟨0, 0⟩⟩ margin)).max := by
  have hfence : ∀ axis : Axis, ∀ p ∈ twoMeters.controlPoints axis,
      p ∈ Set.Icc (axis.interval (⟨⟨0, 2000⟩, ⟨0, 0⟩, ⟨0, 0⟩⟩ : BoundingBox ℚ)).min
        (axis.interval (⟨⟨0, 2000⟩, ⟨0, 0⟩, ⟨0, 0⟩⟩ : BoundingBox ℚ)).max := by
    intro axis
    cases axis <;> decide +kernel
  have htimed : twoMeters.Timed := ⟨by decide, by decide⟩
  obtain ⟨segment, hrun, hstands⟩ := @Timed.run twoMeters htimed _ twoMeters.stands_rewind 4
    (by decide) [.getPositionAt .infinity]
  obtain ⟨rel, segment', hseek, -⟩ := @Timed.seekToTime twoMeters htimed segment hstands
    (.finite (1 / 2)) nofun 4 (by decide)
  have hsession : trajectorySession .exact false twoMeters.bytes 4 [.getPositionAt .infinity] =
      ok ⟨twoMeters.trajectory, segment⟩ := by
    rw [trajectorySession, twoMeters.initFromBytes, ok_bind, twoMeters.rewind, ok_bind]
    exact hrun
  have hposition : getPositionAt .exact 4 ⟨twoMeters.trajectory, segment⟩ (.finite (1 / 2)) =
      ok (segment'.data.poly.eval .exact rel, ⟨twoMeters.trajectory, segment'⟩) := by
    rw [getPositionAt, hseek, ok_bind]
    rfl
  exact ⟨_, _, _, hsession, hposition, fun axis =>
    position_in_fence twoMeters hfence hsession hposition axis⟩

end Skybrush
