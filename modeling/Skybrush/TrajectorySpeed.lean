import Skybrush.BoundingBox
import Skybrush.Library.BezierBounds
import Skybrush.SegmentDerivatives

/-!
# The Speed of a Trajectory

The control points of a trajectory bound how fast it is flown. In each coordinate, a segment
moves no faster than along the largest step between two consecutive control points, taken once
for every step in the duration of the segment. A vehicle that follows the positions that a
player returns never has to be faster than that, across the boundaries of segments, before the
start and behind the end, and whatever the player was asked in between; and the velocities
that the player returns are bounded in the same way.

## Main results

* `StoredSegment.abs_positionAt_sub_le`: how far apart two points of the curve are.
* `StoredTrajectory.Stands.abs_velocity_le`: the velocity at a segment is bounded.
* `position_speed`: the positions and the velocities that are returned, after any history.
-/

namespace Skybrush

open Checked

/-! ### Derivatives of functions that move slowly -/

open Filter Topology in
/-- Between zero and one, the derivative of a function is not larger than its speed. -/
theorem abs_le_of_hasDerivAt {f : ℝ → ℝ} {f' speed t : ℝ} (hderiv : HasDerivAt f f' t)
    (ht : 0 ≤ t ∧ t ≤ 1)
    (hspeed : ∀ s, 0 ≤ s ∧ s ≤ 1 → |f s - f t| ≤ speed * |s - t|) : |f'| ≤ speed := by
  -- the slopes from `t` into the interval
  have hslope : ∀ s, s ≠ t → 0 ≤ s ∧ s ≤ 1 → |slope f t s| ≤ speed := by
    intro s hne hs
    rw [slope_def_field, abs_div, div_le_iff₀ (abs_pos.2 (sub_ne_zero.2 hne))]
    exact hspeed s hs
  have htendsto := (hasDerivAt_iff_tendsto_slope.1 hderiv).abs
  rcases ht.2.lt_or_eq with hlt | rfl
  · have : (𝓝[Set.Ioo t 1] t).NeBot := left_nhdsWithin_Ioo_neBot hlt
    have hsub : Set.Ioo t 1 ⊆ Set.compl {t} := fun s hs => hs.1.ne'
    refine le_of_tendsto (htendsto.mono_left (nhdsWithin_mono t hsub)) ?_
    filter_upwards [self_mem_nhdsWithin] with s hs
    exact hslope s hs.1.ne' ⟨ht.1.trans hs.1.le, hs.2.le⟩
  · have : (𝓝[Set.Ioo (0 : ℝ) 1] 1).NeBot := right_nhdsWithin_Ioo_neBot one_pos
    have hsub : Set.Ioo (0 : ℝ) 1 ⊆ Set.compl {1} := fun s hs => hs.2.ne
    refine le_of_tendsto (htendsto.mono_left (nhdsWithin_mono 1 hsub)) ?_
    filter_upwards [self_mem_nhdsWithin] with s hs
    exact hslope s hs.2.ne ⟨hs.1.le, hs.2.le⟩

/-! ### Segments -/

namespace StoredSegment

/-- How fast a segment can be in a coordinate, in millimetres in a second. -/
def topSpeed (scale : ℕ) (start : Vector3WithYaw) (s : StoredSegment) (axis : Axis) : ℚ :=
  1000 * ((axis.points s).points.length *
    Bezier.largestStep (axis.controlPoints scale start s)) / s.durationMsec.toNat

/-- How fast segments that begin at a position can be in a coordinate. -/
def topSpeedOf (scale : ℕ) (axis : Axis) : Vector3WithYaw → List StoredSegment → ℚ
  | _, [] => 0
  | start, s :: rest =>
      max (s.topSpeed scale start axis) (topSpeedOf scale axis (s.curve scale start 1) rest)

variable {scale : ℕ} {axis : Axis}

theorem coordinate_curve (scale : ℕ) (start : Vector3WithYaw) (s : StoredSegment) (axis : Axis)
    (u : ℚ) :
    axis.coordinate (s.curve scale start u) =
      Bezier.curve (axis.controlPoints scale start s) u := by
  cases axis <;> rfl

theorem length_controlPoints (scale : ℕ) (start : Vector3WithYaw) (s : StoredSegment)
    (axis : Axis) :
    (axis.controlPoints scale start s).length = (axis.points s).points.length + 1 := by
  rw [Axis.controlPoints, List.length_cons, StoredPoints.coordinates, List.length_map]

theorem topSpeedOf_nonneg (scale : ℕ) (axis : Axis) (start : Vector3WithYaw)
    (segments : List StoredSegment) : 0 ≤ topSpeedOf scale axis start segments := by
  induction segments generalizing start with
  | nil => exact le_rfl
  | cons s rest ih => exact le_max_of_le_right (ih _)

/-- The speed of a segment, over its duration. -/
theorem topSpeed_mul_duration {s : StoredSegment} (hpos : 0 < s.durationMsec.toNat)
    (start : Vector3WithYaw) :
    s.topSpeed scale start axis * s.durationMsec.toNat =
      1000 * ((axis.points s).points.length *
        Bezier.largestStep (axis.controlPoints scale start s)) := by
  have hne : (s.durationMsec.toNat : ℚ) ≠ 0 := by exact_mod_cast hpos.ne'
  rw [topSpeed, div_mul_cancel₀ _ hne]

/-- **On a segment**, two points of the curve are no further apart than the speed allows. -/
theorem abs_curve_sub_le {s : StoredSegment} (hpos : 0 < s.durationMsec.toNat)
    (start : Vector3WithYaw) {u v : ℚ} (hu : 0 ≤ u ∧ u ≤ 1) (hv : 0 ≤ v ∧ v ≤ 1) :
    1000 * |axis.coordinate (s.curve scale start u) - axis.coordinate (s.curve scale start v)| ≤
      s.topSpeed scale start axis * (s.durationMsec.toNat * |u - v|) := by
  have hcurve := Bezier.abs_curve_sub_le (axis.controlPoints scale start s) hu hv
  rw [length_controlPoints, Nat.add_sub_cancel] at hcurve
  rw [coordinate_curve, coordinate_curve, ← mul_assoc, topSpeed_mul_duration hpos]
  linarith

/-- At two times on the same segment. -/
theorem abs_curve_sub_le_of_times {s : StoredSegment} (hpos : 0 < s.durationMsec.toNat)
    (start : Vector3WithYaw) {time : ℕ} {a b : ℚ} (hstart : (time : ℚ) ≤ a) (hle : a ≤ b)
    (hend : b ≤ (time + s.durationMsec.toNat : ℕ)) :
    1000 * |axis.coordinate (s.curve scale start ((b - time) / s.durationMsec.toNat)) -
        axis.coordinate (s.curve scale start ((a - time) / s.durationMsec.toNat))| ≤
      s.topSpeed scale start axis * (b - a) := by
  have hposq : (0 : ℚ) < s.durationMsec.toNat := by exact_mod_cast hpos
  push_cast at hend
  have hshare : ∀ c, (time : ℚ) ≤ c → c ≤ b → 0 ≤ (c - time) / s.durationMsec.toNat ∧
      (c - time) / s.durationMsec.toNat ≤ 1 := by
    intro c hlow hhigh
    exact ⟨div_nonneg (by linarith) hposq.le, (div_le_one hposq).2 (by linarith)⟩
  have hcurve := @abs_curve_sub_le scale axis s hpos start _ _
    (hshare b (hstart.trans hle) le_rfl) (hshare a hstart hle)
  have hsub : (b - time) / s.durationMsec.toNat - (a - time) / s.durationMsec.toNat =
      (b - a) / s.durationMsec.toNat := by ring
  rw [hsub, abs_of_nonneg (div_nonneg (by linarith) hposq.le), mul_div_cancel₀ _ hposq.ne']
    at hcurve
  exact hcurve

/-- **Along segments** that take time, two points of the piecewise curve are no further apart than
the speed allows. -/
theorem abs_positionAt_sub_le {speed : ℚ} {segments : List StoredSegment}
    (hpos : ∀ s ∈ segments, 0 < s.durationMsec.toNat) {start : Vector3WithYaw} {time : ℕ}
    (hspeed : topSpeedOf scale axis start segments ≤ speed) {a b : ℚ} (hstart : (time : ℚ) ≤ a)
    (hle : a ≤ b) :
    1000 * |axis.coordinate (positionAt scale b start time segments) -
        axis.coordinate (positionAt scale a start time segments)| ≤ speed * (b - a) := by
  induction segments generalizing start time a with
  | nil =>
      rw [positionAt, positionAt, sub_self, abs_zero, mul_zero]
      exact mul_nonneg hspeed (sub_nonneg.2 hle)
  | cons s rest ih =>
      have hs := hpos s List.mem_cons_self
      have hrest : ∀ {c : ℚ}, ((time + s.durationMsec.toNat : ℕ) : ℚ) ≤ c → c ≤ b → _ :=
        @ih (fun s hs => hpos s (List.mem_cons_of_mem _ hs)) (s.curve scale start 1)
          (time + s.durationMsec.toNat) ((le_max_right _ _).trans hspeed)
      have hfirst : ∀ {c d : ℚ}, (time : ℚ) ≤ c → c ≤ d → d ≤ (time + s.durationMsec.toNat : ℕ) →
          1000 * |axis.coordinate (s.curve scale start ((d - time) / s.durationMsec.toNat)) -
            axis.coordinate (s.curve scale start ((c - time) / s.durationMsec.toNat))| ≤
          speed * (d - c) := by
        intro c d hc hcd hd
        refine (abs_curve_sub_le_of_times hs start hc hcd hd).trans ?_
        exact mul_le_mul_of_nonneg_right ((le_max_left _ _).trans hspeed) (sub_nonneg.2 hcd)
      rw [positionAt, positionAt]
      by_cases ha : a ≤ (time + s.durationMsec.toNat : ℕ)
      · by_cases hb : b ≤ (time + s.durationMsec.toNat : ℕ)
        · rw [if_pos ha, if_pos hb]
          exact hfirst hstart hle hb
        · -- the times are on both sides of the end of the segment
          rw [if_pos ha, if_neg hb]
          have hposq : (s.durationMsec.toNat : ℚ) ≠ 0 := by exact_mod_cast hs.ne'
          have hend : ((time + s.durationMsec.toNat : ℕ) - (time : ℚ)) / s.durationMsec.toNat =
              1 := by
            push_cast
            rw [add_sub_cancel_left, div_self hposq]
          have hbefore := hfirst hstart ha le_rfl
          have hbehind := hrest le_rfl (not_le.1 hb).le
          rw [hend] at hbefore
          rw [positionAt_start] at hbehind
          refine (mul_le_mul_of_nonneg_left (abs_sub_le _
            (axis.coordinate (s.curve scale start 1)) _) (by norm_num)).trans ?_
          linarith
      · have hb : ¬ b ≤ (time + s.durationMsec.toNat : ℕ) := fun hb => ha (hle.trans hb)
        rw [if_neg ha, if_neg hb]
        exact hrest (not_le.1 ha).le hle

/-- The speed of a segment bounds that of all segments that it is one of. -/
theorem topSpeed_le_topSpeedOf (start : Vector3WithYaw) (done : List StoredSegment)
    (s : StoredSegment) (rest : List StoredSegment) :
    s.topSpeed scale (endPosition scale start done) axis ≤
      topSpeedOf scale axis start (done ++ s :: rest) := by
  induction done generalizing start with
  | nil => exact le_max_left _ _
  | cons d done ih => exact (ih (d.curve scale start 1)).trans (le_max_right _ _)

end StoredSegment

/-! ### Velocities -/

theorem largestStep_map_cast (points : List ℚ) :
    Bezier.largestStep (points.map fun p : ℚ => (p : ℝ)) = Bezier.largestStep points := by
  induction points with
  | nil => simp [Bezier.largestStep]
  | cons p points ih =>
      cases points with
      | nil => simp [Bezier.largestStep]
      | cons q points =>
          rw [List.map_cons] at ih ⊢
          rw [List.map_cons, Bezier.largestStep, Bezier.largestStep, ih]
          push_cast
          rfl

/-- The value of a polynomial of a coordinate. -/
theorem Axis.coordinate_eval (axis : Axis) (poly : Poly4D) (u : ℚ) :
    axis.coordinate (poly.eval .exact u) = (axis.poly poly).eval .exact u := by
  cases axis <;> rfl

namespace StoredSegment

variable {scale : ℕ} {axis : Axis}

/-- The polynomial of a coordinate, differentiated by time. -/
theorem eval_derivByTime (poly : Poly4D) {durationMsec : ℕ} (hpos : 0 < durationMsec) (u : ℚ) :
    ((axis.coordinate ((TrajectoryPlayer.derivByTime .exact poly
      (TrajectoryPlayer.toSeconds .exact durationMsec)).eval .exact u) : ℚ) : ℝ) =
        1000 / durationMsec * curveOver ((axis.poly poly).deriv .exact) u := by
  have hderiv : axis.poly (TrajectoryPlayer.derivByTime .exact poly
      (TrajectoryPlayer.toSeconds .exact durationMsec)) =
        ((axis.poly poly).deriv .exact).scale .exact (1000 / durationMsec) := by
    rw [TrajectoryPlayer.derivByTime, StoredTrajectory.toSeconds_exact, Rounding.exact_apply,
      Rounding.exact_apply, if_pos (TrajectoryPlayer.lt_abs_seconds hpos), one_div_div]
    cases axis <;> rfl
  rw [Axis.coordinate_eval, hderiv, cast_eval]
  have hscale := curveOver_scale ((axis.poly poly).deriv .exact) (1000 / durationMsec) u
  rw [curveOver] at hscale
  rw [hscale]
  push_cast
  rfl

/-- **The velocity on a segment** is not larger than its speed. -/
theorem abs_velocity_le {s : StoredSegment} (hpos : 0 < s.durationMsec.toNat)
    (start : Vector3WithYaw) {u : ℚ} (hu : 0 ≤ u ∧ u ≤ 1) :
    |axis.coordinate ((TrajectoryPlayer.derivByTime .exact (s.poly scale start)
      (TrajectoryPlayer.toSeconds .exact s.durationMsec.toNat)).eval .exact u)| ≤
        s.topSpeed scale start axis := by
  have hreal : 0 ≤ (u : ℝ) ∧ (u : ℝ) ≤ 1 := ⟨by exact_mod_cast hu.1, by exact_mod_cast hu.2⟩
  have hlength := length_controlPoints scale start s axis
  have hcurve : curveOver (axis.poly (s.poly scale start)) =
      Bezier.curve ((axis.controlPoints scale start s).map fun p : ℚ => (p : ℝ)) := by
    rw [axis_poly]
    refine funext (evalOver_makeBezier (List.cons_ne_nil _ _) ?_)
    rw [hlength]
    exact (axis.points s).length_le
  have hbound : |curveOver ((axis.poly (s.poly scale start)).deriv .exact) u| ≤
      (axis.points s).points.length *
        ((Bezier.largestStep (axis.controlPoints scale start s) : ℚ) : ℝ) := by
    refine abs_le_of_hasDerivAt (hasDerivAt_curveOver (axis.poly (s.poly scale start)) u) hreal
      fun v hv => ?_
    have hslow := Bezier.abs_curve_sub_le
      ((axis.controlPoints scale start s).map fun p : ℚ => (p : ℝ)) hv hreal
    rw [List.length_map, hlength, Nat.add_sub_cancel, largestStep_map_cast] at hslow
    rw [hcurve]
    exact hslow
  have hposr : (0 : ℝ) < s.durationMsec.toNat := by exact_mod_cast hpos
  have hcast : |((axis.coordinate ((TrajectoryPlayer.derivByTime .exact (s.poly scale start)
      (TrajectoryPlayer.toSeconds .exact s.durationMsec.toNat)).eval .exact u) : ℚ) : ℝ)| ≤
        (s.topSpeed scale start axis : ℚ) := by
    rw [eval_derivByTime _ hpos, abs_mul, abs_of_pos (by positivity), topSpeed]
    push_cast
    rw [mul_div_right_comm]
    exact mul_le_mul_of_nonneg_left hbound (by positivity)
  exact_mod_cast hcast

end StoredSegment

namespace StoredTrajectory

open StoredSegment TrajectoryPlayer

/-- How fast a trajectory can be in a coordinate, in millimetres in a second. -/
def topSpeed (t : StoredTrajectory) (axis : Axis) : ℚ :=
  topSpeedOf t.scale axis t.start t.segments

variable {t : StoredTrajectory} {axis : Axis}

/-- **Two positions** of a trajectory are no further apart than its speed allows. -/
theorem Timed.abs_positionAt_sub_le (h : t.Timed) (axis : Axis) (a b : ℚ) :
    |axis.coordinate (t.positionAt (.finite a)) - axis.coordinate (t.positionAt (.finite b))| ≤
      t.topSpeed axis * |a - b| := by
  -- until time zero, the position is that at time zero
  have hclip : ∀ c : ℚ, t.positionAt (.finite c) =
      StoredSegment.positionAt t.scale (1000 * max 0 c) t.start 0 t.segments := by
    intro c
    rw [positionAt]
    split
    case isTrue hle =>
      rw [max_eq_left hle, mul_zero, ← Nat.cast_zero, positionAt_start]
    case isFalse hlt => rw [max_eq_right (not_le.1 hlt).le]
  have hordered : ∀ {c d : ℚ}, c ≤ d →
      |axis.coordinate (t.positionAt (.finite d)) - axis.coordinate (t.positionAt (.finite c))| ≤
        t.topSpeed axis * (d - c) := by
    intro c d hle
    have hnonneg : 0 ≤ max 0 c := le_max_left _ _
    have hmax : max 0 c ≤ max 0 d := max_le_max_left 0 hle
    have hapart : max 0 d - max 0 c ≤ d - c := by
      rcases le_total d 0 with hd | hd
      · rw [max_eq_left hd, max_eq_left (hle.trans hd), sub_self]
        linarith
      · rw [max_eq_right hd]
        linarith [le_max_right 0 c]
    have hsegments := StoredSegment.abs_positionAt_sub_le h.pos (le_refl (t.topSpeed axis))
      (a := 1000 * max 0 c) (b := 1000 * max 0 d) (by rw [Nat.cast_zero]; linarith) (by linarith)
    have hspeed := mul_le_mul_of_nonneg_left hapart
      (topSpeedOf_nonneg t.scale axis t.start t.segments)
    rw [hclip, hclip]
    rw [topSpeed] at hsegments ⊢
    linarith
  rcases le_total a b with hle | hle
  · rw [abs_sub_comm, abs_sub_comm a b, abs_of_nonneg (sub_nonneg.2 hle)]
    exact hordered hle
  · rw [abs_of_nonneg (sub_nonneg.2 hle)]
    exact hordered hle

/-- **Wherever a player stands**, the velocity that it evaluates is bounded. -/
theorem Stands.abs_velocity_le (h : t.Timed) {segment : CurrentSegment} (hstands : t.Stands segment)
    {rel : ℚ} (hrel : 0 ≤ rel ∧ rel ≤ 1) :
    |axis.coordinate (segment.data.dpoly.eval .exact rel)| ≤ t.topSpeed axis := by
  have hnonneg : 0 ≤ t.topSpeed axis := topSpeedOf_nonneg t.scale axis t.start t.segments
  -- behind the last segment, there is no velocity
  have hrest : ∀ (offset time : ℕ) (start : Vector3WithYaw),
      |axis.coordinate ((current t.scale offset time start []).data.dpoly.eval .exact rel)| ≤
        t.topSpeed axis := by
    intro offset time start
    have hzero : axis.coordinate
        ((current t.scale offset time start []).data.dpoly.eval .exact rel) = 0 := by
      cases axis <;> rfl
    rw [hzero, abs_zero]
    exact hnonneg
  cases hstands with
  | behind => exact hrest _ _ _
  | @segment done rest hsplit =>
      cases rest with
      | nil => exact hrest _ _ _
      | cons s rest =>
          have hs : 0 < s.durationMsec.toNat :=
            h.pos s (hsplit ▸ List.mem_append_right done List.mem_cons_self)
          refine (StoredSegment.abs_velocity_le hs _ hrel).trans ?_
          rw [topSpeed, hsplit]
          exact topSpeed_le_topSpeedOf t.start done s rest

end StoredTrajectory

open StoredTrajectory TrajectoryPlayer in
/-- **The speed of a trajectory**: the positions that two players of a trajectory return at two
times, and the velocities, are bounded by the largest steps between its control points, whatever
the players were asked before. -/
theorem position_speed (t : StoredTrajectory) (h : t.Timed) (owned : Bool)
    (ops ops' : List PlayerOp) (a b : ℚ) :
    ∃ fuel₀, ∀ fuel ≥ fuel₀, ∃ player player' p q v reached reached',
      trajectorySession .exact owned t.bytes fuel ops = ok player ∧
      trajectorySession .exact owned t.bytes fuel ops' = ok player' ∧
      player.getPositionAt .exact fuel (.finite a) = ok (p, reached) ∧
      player.getVelocityAt .exact fuel (.finite a) = ok (v, reached) ∧
      player'.getPositionAt .exact fuel (.finite b) = ok (q, reached') ∧
      ∀ axis : Axis, |axis.coordinate p - axis.coordinate q| ≤ t.topSpeed axis * |a - b| ∧
        |axis.coordinate v| ≤ t.topSpeed axis := by
  refine ⟨t.segments.length + 2, fun fuel hfuel => ?_⟩
  have hsession : ∀ (ops : List PlayerOp) (c : ℚ), ∃ player segment rel,
      trajectorySession .exact owned t.bytes fuel ops = ok player ∧
      player.seekToTime .exact fuel (.finite c) = ok (rel, ⟨t.trajectory, segment⟩) ∧
      t.Stands segment ∧ (0 ≤ rel ∧ rel ≤ 1) ∧
      segment.data.poly.eval .exact rel = t.positionAt (.finite c) := by
    intro ops c
    obtain ⟨segment, hrun, hstands⟩ := h.run t.stands_rewind hfuel ops
    obtain ⟨rel, segment', hseek, hstands', hnonneg, hle, heval⟩ :=
      h.seekToTime hstands (show TimeSec.finite c ≠ .nan from nofun) hfuel
    refine ⟨⟨t.trajectory, segment⟩, segment', rel, ?_, hseek, hstands', ⟨hnonneg, hle⟩, heval⟩
    rw [trajectorySession, t.initFromBytes, ok_bind, t.rewind, ok_bind]
    exact hrun
  obtain ⟨player, segment, rel, hopen, hseek, hstands, hrel, heval⟩ := hsession ops a
  obtain ⟨player', segment', rel', hopen', hseek', -, -, heval'⟩ := hsession ops' b
  refine ⟨player, player', _, _, segment.data.dpoly.eval .exact rel, ⟨t.trajectory, segment⟩,
    ⟨t.trajectory, segment'⟩, hopen, hopen', ?_, ?_, ?_,
    fun axis => ⟨h.abs_positionAt_sub_le axis a b, hstands.abs_velocity_le h hrel⟩⟩
  · rw [getPositionAt, hseek, ok_bind, ← heval]
    rfl
  · rw [getVelocityAt, hseek, ok_bind]
    rfl
  · rw [getPositionAt, hseek', ok_bind, ← heval']
    rfl

/-- Two meters in three seconds, with a top speed of 1.5 m/s on the cubic curve. -/
theorem position_speed_twoMeters :
    twoMeters.topSpeed .x = 1500 ∧
      ∃ fuel₀, ∀ fuel ≥ fuel₀, ∃ player player' p q v reached reached',
        trajectorySession .exact false twoMeters.bytes fuel [] = ok player ∧
        trajectorySession .exact false twoMeters.bytes fuel
          [.getPositionAt .infinity] = ok player' ∧
        player.getPositionAt .exact fuel (.finite (1 / 2)) = ok (p, reached) ∧
        player.getVelocityAt .exact fuel (.finite (1 / 2)) = ok (v, reached) ∧
        player'.getPositionAt .exact fuel (.finite 2) = ok (q, reached') ∧
        ∀ axis : Axis,
          |axis.coordinate p - axis.coordinate q| ≤ twoMeters.topSpeed axis * |1 / 2 - 2| ∧
            |axis.coordinate v| ≤ twoMeters.topSpeed axis :=
  ⟨by decide +kernel,
    position_speed twoMeters ⟨by decide, by decide⟩ false [] [.getPositionAt .infinity] (1 / 2) 2⟩

end Skybrush
