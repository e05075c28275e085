import Skybrush.TrajectoryEvaluation

/-!
# Ends of Trajectories

The start and the end position of a trajectory (`sb_trajectory_get_start_position` and
`sb_trajectory_get_end_position`) are asked from a new player, at time zero and at infinity.
Segments of zero duration make no difference at the end. At the start they do: the relative time
in such a segment is one half, and the position that is returned is the one in the middle of the
curve.

## Main results

* `getStartPosition_of_cons`, `getStartPosition_of_nil`: the start position.
* `getEndPosition_stored`: the end position is the one behind the last segment.
* `ends_iff`: both are right exactly when the first segment takes some time, or its curve is at
  its start halfway through.
-/

namespace Skybrush

open Checked

namespace Trajectory

variable (F : Rounding)

/-- `sb_trajectory_get_end_position`. -/
def getEndPosition (fuel : ℕ) (trajectory : Trajectory) : Checked SbError Vector3WithYaw := do
  let player ← TrajectoryPlayer.rewind F trajectory
  let (result, _) ← TrajectoryPlayer.getPositionAt F fuel player .infinity
  pure result

/-- `sb_trajectory_get_start_position`. -/
def getStartPosition (fuel : ℕ) (trajectory : Trajectory) : Checked SbError Vector3WithYaw := do
  let player ← TrajectoryPlayer.rewind F trajectory
  let (result, _) ← TrajectoryPlayer.getPositionAt F fuel player (.finite 0)
  pure result

end Trajectory

namespace StoredTrajectory

open StoredSegment TrajectoryPlayer

variable {t : StoredTrajectory}

/-! ### The start -/

/-- The parameter at which a segment is found when it starts. -/
def startParameter (s : StoredSegment) : ℚ := if s.durationMsec.toNat = 0 then 1 / 2 else 0

/-- In a segment that takes no time, the relative time is one half. -/
theorem relativeTime_of_zero (time : ℕ) (poly : Poly4D) (x : ℚ) :
    relativeTime .exact (curveSegment .exact time 0 poly) (.finite x) = 1 / 2 := by
  have hduration : toSeconds .exact 0 = 0 := by simp [toSeconds_exact]
  have hlong : ¬ (Rounding.exact (1 / 10 ^ 6) < |(0 : ℚ)|) := by norm_num [Rounding.exact_apply]
  simp only [relativeTime, curveSegment, hduration, hlong, if_false]

/-- At its start, a segment is found at the relative time zero, and at one half if it takes no
time. -/
theorem relativeTime_start (time : ℕ) (poly : Poly4D) (s : StoredSegment) :
    relativeTime .exact (curveSegment .exact time s.durationMsec.toNat poly)
      (.finite ((time : ℚ) / 1000)) = startParameter s := by
  rw [startParameter]
  split
  case isTrue hzero => rw [hzero, relativeTime_of_zero]
  case isFalse hne =>
    rw [relativeTime_curveSegment time poly (Nat.pos_of_ne_zero hne),
      mul_div_cancel₀ _ (by norm_num), sub_self, zero_div]

/-- At time zero, a player at the beginning is in its first segment. -/
theorem seekToTime_start {s : StoredSegment} {rest : List StoredSegment} (fuel : ℕ) :
    seekToTime .exact (fuel + 1)
        ⟨t.trajectory, current t.scale t.header.length 0 t.start (s :: rest)⟩ (.finite 0) =
      ok (startParameter s,
        ⟨t.trajectory, current t.scale t.header.length 0 t.start (s :: rest)⟩) := by
  have hrel := relativeTime_start 0 (s.poly t.scale t.start) s
  have hstart : (TimeSec.finite 0).isBefore (toSeconds .exact 0) = false := by
    rw [isBefore_toSeconds]
    simp
  have hend : ∀ msec : ℕ, (TimeSec.finite 0).isAfter (toSeconds .exact msec : ℚ) = false := by
    intro msec
    rw [isAfter_toSeconds]
    simp
  rw [Nat.cast_zero, zero_div] at hrel
  rw [seekToTime, show (TimeSec.finite 0).clip = .finite 0 from rfl, seekLoop]
  simp only [current, curveSegment, hstart, hend, Bool.false_eq_true, if_false]
  exact congrArg (fun rel => ok (rel, _)) hrel

/-- **The start position** is on the first segment, at its start or, if it takes no time, halfway
through. -/
theorem getStartPosition_of_cons {s : StoredSegment} {rest : List StoredSegment}
    (hsegments : t.segments = s :: rest) (fuel : ℕ) :
    Trajectory.getStartPosition .exact (fuel + 1) t.trajectory =
      ok (s.curve t.scale t.start (startParameter s)) := by
  have hposition := s.eval_poly t.scale t.start (startParameter s)
  rw [Trajectory.getStartPosition, t.rewind, ok_bind, getPositionAt, hsegments,
    seekToTime_start, ok_bind]
  exact congrArg ok hposition

/-- **Without segments**, the start position is the stored one. -/
theorem getStartPosition_of_nil (hsegments : t.segments = []) (fuel : ℕ) :
    Trajectory.getStartPosition .exact (fuel + 1) t.trajectory = ok t.start := by
  have hlength : t.header.length = t.bytes.length := by
    rw [bytes, hsegments, List.flatMap_nil, List.append_nil]
  have hseek := @seekLoop_rest t 0 0 (by simp) fuel t.start
  rw [Trajectory.getStartPosition, t.rewind, ok_bind, getPositionAt, hsegments, hlength,
    seekToTime, show (TimeSec.finite 0).clip = .finite 0 from rfl, hseek, ok_bind]
  exact congrArg ok (eval_restSegment 0 t.start 0)

/-! ### The end -/

/-- **The end position** is the one behind the last segment. -/
theorem getEndPosition_stored (t : StoredTrajectory) {fuel : ℕ}
    (hfuel : t.segments.length < fuel) :
    Trajectory.getEndPosition .exact fuel t.trajectory = ok t.finalPosition := by
  have hseek := @seekLoop_end t [] t.segments rfl 0 fuel hfuel
  rw [List.flatMap_nil, List.append_nil, show endPosition t.scale t.start [] = t.start from rfl]
    at hseek
  rw [Trajectory.getEndPosition, t.rewind, ok_bind, getPositionAt, seekToTime,
    show TimeSec.infinity.clip = .infinity from rfl, hseek, ok_bind]
  exact congrArg ok (eval_restSegment _ t.finalPosition 1)

/-! ### Both ends -/

/-- A trajectory whose first segment, if there is one, takes some time or is at its start
halfway through. -/
def StartsAtOnce (t : StoredTrajectory) : Prop :=
  ∀ s rest, t.segments = s :: rest →
    0 < s.durationMsec.toNat ∨ s.curve t.scale t.start (1 / 2) = t.start

/-- The start position is the stored one for such trajectories. -/
theorem getStartPosition_iff (t : StoredTrajectory) (fuel : ℕ) :
    Trajectory.getStartPosition .exact (fuel + 1) t.trajectory = ok t.start ↔ t.StartsAtOnce := by
  match hsegments : t.segments with
  | [] =>
      rw [getStartPosition_of_nil hsegments]
      simp [StartsAtOnce, hsegments]
  | s :: rest =>
      rw [getStartPosition_of_cons hsegments, Checked.ok.injEq, startParameter]
      have hstarts : t.StartsAtOnce ↔
          0 < s.durationMsec.toNat ∨ s.curve t.scale t.start (1 / 2) = t.start := by
        refine ⟨fun h => h s rest hsegments, fun h s' rest' hsegments' => ?_⟩
        rw [hsegments] at hsegments'
        cases hsegments'
        exact h
      rw [hstarts]
      split
      case isTrue hzero => simp [hzero]
      case isFalse hne => simp [curve_zero, Nat.pos_of_ne_zero hne]

end StoredTrajectory

open StoredTrajectory in
/-- **The ends of a trajectory** that was read from its bytes are the stored start and the end
point of the last segment, exactly when the first segment takes some time or is at its start
halfway through. -/
theorem ends_iff (t : StoredTrajectory) (owned : Bool) :
    (∃ fuel₀, ∀ fuel ≥ fuel₀, ∃ trajectory,
      Trajectory.initFromBytes .exact owned t.bytes = ok trajectory ∧
      trajectory.getStartPosition .exact fuel = ok t.start ∧
      trajectory.getEndPosition .exact fuel = ok t.finalPosition) ↔ t.StartsAtOnce := by
  constructor
  · rintro ⟨fuel₀, h⟩
    obtain ⟨trajectory, hinit, hstart, -⟩ := h (fuel₀ + 1) (Nat.le_succ fuel₀)
    rw [t.initFromBytes, Checked.ok.injEq] at hinit
    rw [← hinit] at hstart
    exact (t.getStartPosition_iff fuel₀).mp hstart
  · intro hstarts
    refine ⟨t.segments.length + 1, fun fuel hfuel => ⟨t.trajectory, t.initFromBytes owned, ?_,
      t.getEndPosition_stored hfuel⟩⟩
    obtain ⟨fuel, rfl⟩ := Nat.exists_eq_succ_of_ne_zero (Nat.ne_of_gt (Nat.zero_lt_of_lt hfuel))
    exact (t.getStartPosition_iff fuel).mpr hstarts

theorem StoredPoints.length_constant :
    ([] : List Int16).length = numCoords CurveFormat.constant.code := rfl

/-- A coordinate that is held. -/
def StoredPoints.held : StoredPoints := ⟨.constant, [], length_constant⟩

/-- A coordinate on a line. -/
def StoredPoints.line (v : Int16) : StoredPoints := ⟨.linear, [v], rfl⟩

/-- A trajectory from the origin, in millimetres. -/
def StoredTrajectory.fromOrigin (segments : List StoredSegment) : StoredTrajectory where
  scale := 1
  useYaw := false
  x := 0
  y := 0
  z := 0
  yaw := 0
  segments := segments
  scale_le := by decide
  scale_ne _ := by decide

/-- A jump of ten millimetres along x, in a segment that takes no time. -/
def jump : StoredTrajectory := .fromOrigin [⟨0, .line 10, .held, .held, .held⟩]

/-- The jump is found to start in the middle. -/
theorem jump_startsInTheMiddle :
    jump.start = ⟨0, 0, 0, 0⟩ ∧
      (∀ fuel, jump.trajectory.getStartPosition .exact (fuel + 1) = ok ⟨5, 0, 0, 0⟩) ∧
      ¬ ∃ fuel₀, ∀ fuel ≥ fuel₀, ∃ trajectory,
        Trajectory.initFromBytes .exact true jump.bytes = ok trajectory ∧
        trajectory.getStartPosition .exact fuel = ok jump.start ∧
        trajectory.getEndPosition .exact fuel = ok jump.finalPosition := by
  have hmiddle : ∀ fuel, jump.trajectory.getStartPosition .exact (fuel + 1) =
      ok ⟨5, 0, 0, 0⟩ := by
    intro fuel
    rw [StoredTrajectory.getStartPosition_of_cons rfl]
    decide +kernel
  refine ⟨by decide +kernel, hmiddle, ?_⟩
  rintro ⟨fuel₀, h⟩
  obtain ⟨trajectory, hinit, hstart, -⟩ := h (fuel₀ + 1) (Nat.le_succ fuel₀)
  rw [jump.initFromBytes, Checked.ok.injEq] at hinit
  rw [← hinit, hmiddle] at hstart
  revert hstart
  decide +kernel

end Skybrush
