import Mathlib.Topology.Instances.Rat
import Skybrush.PolyExtrema
import Skybrush.TrajectoryEvaluation

/-!
# Bounding Boxes

The axis-aligned bounding box of a trajectory (`sb_trajectory_get_axis_aligned_bounding_box`):
a walk over all segments that widens the box by the extrema of the polynomials in each
coordinate. The player computes exactly, and the extrema are real numbers.

When all coordinates are constant, linear or cubic curves, the box is found, all points of
all curves are inside, and each of its bounds is a coordinate of one of these points.

## Main results

* `evalOver_makeBezier`: the polynomial of a Bézier curve, at real parameters.
* `boundingBoxLoop_stored`: what the walk makes of the box.
* `StoredTrajectory.Visits.position_mem`: a player is always at a point of a curve.
* `boundingBox_tight`: the box contains the trajectory and is tight.
-/

namespace Skybrush

open Checked CriticalPoints TrajectoryPlayer

/-! ### Boxes -/

/-- Numbers, and the two infinities. -/
abbrev Extended (K : Type) := WithBot (WithTop K)

/-- A number that is not infinite. -/
def finite {K : Type} (k : K) : Extended K := ((k : WithTop K) : WithBot (WithTop K))

/-- A bounding box: `sb_bounding_box_t`. -/
structure BoundingBox (α : Type) where
  x : Interval α
  y : Interval α
  z : Interval α
  deriving DecidableEq, Repr

section Box

variable {K : Type} [Field K] [LinearOrder K] (sqrt : K → Option K)

/-- Widen an interval by another one, as in `CHECK_DIM`. -/
def widenBy (bounds : Interval (Extended K)) (interval : Interval K) : Interval (Extended K) :=
  ⟨if finite interval.min < bounds.min then finite interval.min else bounds.min,
    if bounds.max < finite interval.max then finite interval.max else bounds.max⟩

/-- `CHECK_DIM`, with what the variable `interval` holds before and behind it. An error of
`sb_poly_get_extrema` is ignored. -/
def checkDim (poly : Poly) (interval : Interval K) (bounds : Interval (Extended K)) :
    Interval K × Interval (Extended K) :=
  let interval :=
    match (getExtrema sqrt (poly.coeffs.map fun c : ℚ => (c : K))).run interval with
    | .ok _ interval => interval
    | .error _ interval => interval
  (interval, widenBy bounds interval)

/-- Widen a box by the curves of a segment. The variable `interval` is not initialised. -/
def addSegment (garbage : Interval K) (box : BoundingBox (Extended K)) (poly : Poly4D) :
    BoundingBox (Extended K) :=
  let (interval, x) := checkDim sqrt poly.x garbage box.x
  let (interval, y) := checkDim sqrt poly.y interval box.y
  let (_, z) := checkDim sqrt poly.z interval box.z
  ⟨x, y, z⟩

variable (garbage : ℕ → Interval K)

/-- The loop of `sb_trajectory_get_axis_aligned_bounding_box`, with fuel, and with what is in
the memory of an uninitialised variable at each segment. -/
def boundingBoxLoop : ℕ → BoundingBox (Extended K) → TrajectoryPlayer →
    Checked SbError (BoundingBox (Extended K))
  | 0, _, _ => outOfFuel
  | fuel + 1, box, player =>
      if player.hasMoreSegments then do
        let segment := player.currentSegment
        let box := addSegment sqrt (garbage segment.start) box segment.data.poly
        let player ← buildNextSegment .exact player
        boundingBoxLoop fuel box player
      else
        ok box

/-- `sb_trajectory_get_axis_aligned_bounding_box`. -/
def getAxisAlignedBoundingBox (fuel : ℕ) (trajectory : Trajectory) :
    Checked SbError (BoundingBox (Extended K)) := do
  let player ← rewind .exact trajectory
  boundingBoxLoop sqrt garbage fuel ⟨⟨⊤, ⊥⟩, ⟨⊤, ⊥⟩, ⟨⊤, ⊥⟩⟩ player

end Box

/-! ### Axes -/

/-- A coordinate of the box. -/
inductive Axis where
  | x
  | y
  | z

namespace Axis

/-- The bounds in a coordinate. -/
def interval {α : Type} (box : BoundingBox α) : Axis → Interval α
  | x => box.x
  | y => box.y
  | z => box.z

/-- A coordinate of a position. -/
def coordinate (position : Vector3WithYaw) : Axis → ℚ
  | x => position.x
  | y => position.y
  | z => position.z

/-- The polynomial of a coordinate. -/
def poly (poly : Poly4D) : Axis → Poly
  | x => poly.x
  | y => poly.y
  | z => poly.z

/-- The stored control points of a coordinate. -/
def points (s : StoredSegment) : Axis → StoredPoints
  | x => s.x
  | y => s.y
  | z => s.z

/-- All control points of a coordinate of a segment that begins at a position. -/
def controlPoints (scale : ℕ) (start : Vector3WithYaw) (s : StoredSegment) (axis : Axis) : List ℚ :=
  axis.coordinate start :: (axis.points s).coordinates scale

end Axis

/-! ### Curves at real parameters -/

/-- In every coordinate, a segment is constant, linear or a cubic Bézier curve. -/
def StoredSegment.IsCubic (s : StoredSegment) : Prop :=
  ∀ axis : Axis, (axis.points s).format ≠ .poly7d

/-- The points of a Bézier curve between the parameters zero and one, in one coordinate. -/
def curveValues (points : List ℚ) : Set ℝ :=
  Bezier.curve (points.map fun p : ℚ => (p : ℝ)) '' Set.Icc 0 1

/-- The points of the curves of segments, in one coordinate. -/
def curvesValues (scale : ℕ) (axis : Axis) : Vector3WithYaw → List StoredSegment → Set ℝ
  | _, [] => ∅
  | start, s :: rest =>
      curveValues (axis.controlPoints scale start s) ∪
        curvesValues scale axis (s.curve scale start 1) rest

/-- **The polynomial of a Bézier curve**, at real parameters. -/
theorem evalOver_makeBezier {points : List ℚ} (hne : points ≠ [])
    (hle : points.length ≤ maxPolyCoeffs) (u : ℝ) :
    evalOver ((Poly.makeBezier .exact 1 points).coeffs.map fun c : ℚ => (c : ℝ)) u =
      Bezier.curve (points.map fun p : ℚ => (p : ℝ)) u := by
  have hpoly : Continuous
      (evalOver ((Poly.makeBezier .exact 1 points).coeffs.map fun c : ℚ => (c : ℝ))) :=
    continuous_iff_continuousAt.mpr fun u => (hasDerivAt_evalOver _ u).continuousAt
  have hcurve : Continuous (Bezier.curve (points.map fun p : ℚ => (p : ℝ))) := by
    unfold Bezier.curve Bezier.weight
    fun_prop
  -- both are continuous, and the same at rational parameters
  have hsame : evalOver ((Poly.makeBezier .exact 1 points).coeffs.map fun c : ℚ => (c : ℝ)) =
      Bezier.curve (points.map fun p : ℚ => (p : ℝ)) := by
    refine Rat.denseRange_cast.equalizer hpoly hcurve (funext fun t => ?_)
    have hmap := Bezier.map_curve (Rat.castHom ℝ) points t
    rw [Function.comp_apply, Function.comp_apply, ← cast_eval,
      Poly.eval_makeBezier hne hle]
    exact hmap
  rw [hsame]

/-- A curve through few points has few coefficients. -/
theorem length_makeBezier_le {points : List ℚ} (hle : points.length ≤ 4) :
    (Poly.makeBezier .exact 1 points).coeffs.length ≤ 4 := by
  match points, hle with
  | [], _ => exact show 1 ≤ 4 by decide
  | [p], _ => exact show 1 ≤ 4 by decide
  | [p, q], _ =>
      rw [Poly.makeBezier, Poly.makeLinear]
      split <;> exact show 2 ≤ 4 by decide
  | p :: q :: r :: points, hle =>
      have hmake : (Poly.makeBezier .exact 1 (p :: q :: r :: points)).coeffs.length =
          min (p :: q :: r :: points).length maxPolyCoeffs - 1 + 1 := by
        rw [show Poly.makeBezier .exact 1 (p :: q :: r :: points) = _ from Poly.stretch_one _,
          List.length_map, List.length_range]
      rw [hmake]
      omega

namespace StoredSegment

/-- In each coordinate, the polynomial of a segment is that of its control points. -/
theorem axis_poly (scale : ℕ) (start : Vector3WithYaw) (s : StoredSegment) (axis : Axis) :
    axis.poly (s.poly scale start) =
      .makeBezier .exact 1 (axis.controlPoints scale start s) := by
  cases axis <;> rfl

/-- **The extrema of a cubic segment** in a coordinate are found. -/
theorem IsCubic.findsExtrema {s : StoredSegment} (h : s.IsCubic) (scale : ℕ)
    (start : Vector3WithYaw) (axis : Axis) :
    ∃ result : Interval ℝ,
      (∀ old, (getExtrema realSqrt ((axis.poly (s.poly scale start)).coeffs.map
        fun c : ℚ => (c : ℝ))).run old = .ok () result) ∧
      Extrema (curveValues (axis.controlPoints scale start s)) result.min result.max := by
  have hcount : numCoords (axis.points s).format.code ≤ 3 := by
    have hformat := h axis
    cases hcode : (axis.points s).format with
    | poly7d => exact absurd hcode hformat
    | constant | linear | bezier => decide
  have hlength : (axis.controlPoints scale start s).length ≤ 4 := by
    rw [Axis.controlPoints, List.length_cons, StoredPoints.coordinates, List.length_map,
      (axis.points s).length_eq]
    omega
  have hcoeffs : ((axis.poly (s.poly scale start)).coeffs.map fun c : ℚ => (c : ℝ)).length ≤ 4 := by
    rw [List.length_map, axis_poly]
    exact length_makeBezier_le hlength
  obtain ⟨result, hrun, hextrema⟩ := finds_getExtrema (natDegree_le_of_length_le hcoeffs)
  refine ⟨result, hrun, ?_⟩
  have hcurve : evalOver ((axis.poly (s.poly scale start)).coeffs.map fun c : ℚ => (c : ℝ)) =
      Bezier.curve ((axis.controlPoints scale start s).map fun p : ℚ => (p : ℝ)) := by
    rw [axis_poly]
    exact funext (evalOver_makeBezier (List.cons_ne_nil _ _) (by rw [maxPolyCoeffs]; omega))
  rw [curveValues, ← hcurve]
  exact hextrema

end StoredSegment

/-! ### Widening the box -/

/-- Bounds that have been widened to the extrema of a set: infinite ones as long as the set is
empty. -/
inductive Encloses (s : Set ℝ) : Interval (Extended ℝ) → Prop
  | empty (h : s = ∅) : Encloses s ⟨⊤, ⊥⟩
  | extrema {lo hi : ℝ} (h : Extrema s lo hi) : Encloses s ⟨finite lo, finite hi⟩

theorem finite_lt_finite {a b : ℝ} : finite a < finite b ↔ a < b := by
  rw [finite, finite, WithBot.coe_lt_coe, WithTop.coe_lt_coe]

/-- Bounds are widened to the extrema of the union. -/
theorem Encloses.widenBy {s t : Set ℝ} {bounds : Interval (Extended ℝ)} {i : Interval ℝ}
    (h : Encloses s bounds) (hi : Extrema t i.min i.max) :
    Encloses (s ∪ t) (widenBy bounds i) := by
  cases h with
  | empty hs =>
      have htop : finite i.min < ⊤ := WithBot.coe_lt_coe.mpr (WithTop.coe_lt_top _)
      have hbot : ⊥ < finite i.max := WithBot.bot_lt_coe _
      rw [Skybrush.widenBy, if_pos htop, if_pos hbot, hs, Set.empty_union]
      exact .extrema hi
  | @extrema lo hi' hs =>
      have hunion := hi.union hs
      rw [max_comm, min_def_lt, max_def_lt, Set.union_comm] at hunion
      have hbounds : Skybrush.widenBy ⟨finite lo, finite hi'⟩ i =
          ⟨finite (if i.min < lo then i.min else lo),
            finite (if hi' < i.max then i.max else hi')⟩ := by
        simp only [Skybrush.widenBy, finite_lt_finite, apply_ite finite]
      rw [hbounds]
      exact .extrema hunion

/-- Widening the box by a segment, in each coordinate. -/
theorem encloses_addSegment {s : StoredSegment} (h : s.IsCubic) (scale : ℕ)
    (start : Vector3WithYaw) (garbage : Interval ℝ) {box : BoundingBox (Extended ℝ)}
    {sets : Axis → Set ℝ} (hbox : ∀ axis : Axis, Encloses (sets axis) (axis.interval box))
    (axis : Axis) :
    Encloses (sets axis ∪ curveValues (axis.controlPoints scale start s))
      (axis.interval (addSegment realSqrt garbage box (s.poly scale start))) := by
  have hdim : ∀ (axis : Axis) (old : Interval ℝ),
      Encloses (sets axis ∪ curveValues (axis.controlPoints scale start s))
        (checkDim realSqrt (axis.poly (s.poly scale start)) old (axis.interval box)).2 := by
    intro axis old
    obtain ⟨result, hrun, hextrema⟩ := h.findsExtrema scale start axis
    rw [checkDim, hrun]
    exact (hbox axis).widenBy hextrema
  cases axis with
  | x => exact hdim .x garbage
  | y => exact hdim .y _
  | z => exact hdim .z _

open StoredSegment in
/-- **The loop** over stored segments widens the box by all their curves. -/
theorem boundingBoxLoop_stored {trajectory : Trajectory} {segments : List StoredSegment}
    (before : List UInt8) (hbuffer : trajectory.buffer = before ++ segments.flatMap bytes)
    (hscale : segments ≠ [] → trajectory.scale ≠ 0) (hcubic : ∀ s ∈ segments, s.IsCubic)
    (garbage : ℕ → Interval ℝ) (time : ℕ) (start : Vector3WithYaw)
    {box : BoundingBox (Extended ℝ)} {sets : Axis → Set ℝ}
    (hbox : ∀ axis : Axis, Encloses (sets axis) (axis.interval box)) :
    ∃ box', (∀ fuel > segments.length, boundingBoxLoop realSqrt garbage fuel box
        ⟨trajectory, current trajectory.scale before.length time start segments⟩ = ok box') ∧
      ∀ axis : Axis, Encloses (sets axis ∪ curvesValues trajectory.scale axis start segments)
        (axis.interval box') := by
  induction segments generalizing before time start box sets with
  | nil =>
      refine ⟨box, fun fuel hfuel => ?_, fun axis => ?_⟩
      · obtain ⟨fuel, rfl⟩ := Nat.exists_eq_succ_of_ne_zero (Nat.ne_of_gt hfuel)
        rfl
      · rw [curvesValues, Set.union_empty]
        exact hbox axis
  | cons s rest ih =>
      have hscale' := hscale (List.cons_ne_nil _ _)
      have hadd := fun axis => encloses_addSegment (hcubic s List.mem_cons_self) trajectory.scale
        start (garbage before.length) hbox axis
      obtain ⟨box', hloop, hbox'⟩ := ih (before ++ s.bytes)
        (by rw [hbuffer, List.flatMap_cons, List.append_assoc]) (fun _ => hscale')
        (fun s hs => hcubic s (List.mem_cons_of_mem _ hs))
        ((time + s.durationMsec.toNat) % 2 ^ 32) (s.curve trajectory.scale start 1) hadd
      refine ⟨box', fun fuel hfuel => ?_, fun axis => ?_⟩
      · obtain ⟨fuel, rfl⟩ := Nat.exists_eq_succ_of_ne_zero (Nat.ne_of_gt (Nat.zero_lt_of_lt hfuel))
        have hpos : hasMoreSegments ⟨trajectory,
            current trajectory.scale before.length time start (s :: rest)⟩ = true :=
          decide_eq_true s.length_bytes_pos
        rw [boundingBoxLoop, if_pos hpos, buildNext time start hbuffer hscale', ok_bind]
        exact hloop fuel (Nat.lt_of_succ_lt_succ hfuel)
      · rw [curvesValues, ← Set.union_assoc]
        exact hbox' axis

/-! ### Positions -/

/-- A point of a curve at a rational parameter. -/
theorem StoredSegment.coordinate_mem (scale : ℕ) (start : Vector3WithYaw) (s : StoredSegment)
    {t : ℚ} (hnonneg : 0 ≤ t) (hle : t ≤ 1) (axis : Axis) :
    ((axis.coordinate (s.curve scale start t) : ℚ) : ℝ) ∈
      curveValues (axis.controlPoints scale start s) := by
  have hcurve : axis.coordinate (s.curve scale start t) =
      Bezier.curve (axis.controlPoints scale start s) t := by
    cases axis <;> rfl
  refine ⟨t, ⟨by exact_mod_cast hnonneg, by exact_mod_cast hle⟩, ?_⟩
  rw [hcurve]
  exact (Bezier.map_curve (Rat.castHom ℝ) _ t).symm

/-- The curve of every segment is among the curves. -/
theorem curveValues_subset {scale : ℕ} {done rest : List StoredSegment} {s : StoredSegment}
    (start : Vector3WithYaw) (axis : Axis) :
    curveValues (axis.controlPoints scale (StoredSegment.endPosition scale start done) s) ⊆
      curvesValues scale axis start (done ++ s :: rest) := by
  induction done generalizing start with
  | nil => exact Set.subset_union_left
  | cons d done ih => exact (ih (d.curve scale start 1)).trans Set.subset_union_right

namespace StoredTrajectory

open StoredSegment

variable {t : StoredTrajectory}

/-- The points of all curves of a trajectory, in one coordinate. -/
def values (t : StoredTrajectory) (axis : Axis) : Set ℝ :=
  curvesValues t.scale axis t.start t.segments

/-- A point of the curve of a segment is one of the trajectory. -/
theorem curve_mem {done rest : List StoredSegment} {s : StoredSegment}
    (hsplit : t.segments = done ++ s :: rest) {u : ℚ} (hnonneg : 0 ≤ u) (hle : u ≤ 1)
    (axis : Axis) :
    ((axis.coordinate (s.curve t.scale (endPosition t.scale t.start done) u) : ℚ) : ℝ) ∈
      t.values axis := by
  rw [values, hsplit]
  exact curveValues_subset t.start axis (s.coordinate_mem t.scale _ hnonneg hle axis)

/-- The end of a trajectory is a point of its last curve. -/
theorem finalPosition_mem (hne : t.segments ≠ []) (axis : Axis) :
    ((axis.coordinate t.finalPosition : ℚ) : ℝ) ∈ t.values axis := by
  obtain ⟨done, s, hsplit⟩ := (List.eq_nil_or_concat t.segments).resolve_left hne
  rw [List.concat_eq_append] at hsplit
  rw [finalPosition, hsplit, endPosition_concat]
  exact curve_mem hsplit zero_le_one le_rfl axis

/-- The start of a trajectory is a point of its first curve. -/
theorem start_mem (hne : t.segments ≠ []) (axis : Axis) :
    ((axis.coordinate t.start : ℚ) : ℝ) ∈ t.values axis := by
  obtain ⟨s, rest, hsplit⟩ := List.exists_cons_of_ne_nil hne
  have hmem := @curve_mem t [] rest s hsplit 0 le_rfl zero_le_one axis
  rwa [curve_zero] at hmem

/-- The piecewise curve goes through points of the curves. -/
theorem positionAt_mem_aux {done rest : List StoredSegment} (hne : t.segments ≠ [])
    (hsplit : t.segments = done ++ rest) {x : ℚ} {time : ℕ} (hx : (time : ℚ) ≤ x) (axis : Axis) :
    ((axis.coordinate (StoredSegment.positionAt t.scale x (endPosition t.scale t.start done) time
      rest) : ℚ) : ℝ) ∈ t.values axis := by
  induction rest generalizing done time with
  | nil =>
      rw [List.append_nil] at hsplit
      rw [StoredSegment.positionAt, ← hsplit]
      exact finalPosition_mem hne axis
  | cons s rest ih =>
      rw [StoredSegment.positionAt]
      split
      case isTrue hle =>
        push_cast at hle
        refine curve_mem hsplit (div_nonneg (by linarith) (Nat.cast_nonneg _)) ?_ axis
        exact div_le_one_of_le₀ (by linarith) (Nat.cast_nonneg _)
      case isFalse hlt =>
        have hrest := ih (hsplit.trans (List.append_cons done s rest)) (not_le.mp hlt).le
        rwa [endPosition_concat] at hrest

/-- **The position at any time** is a point of a curve. -/
theorem positionAt_mem (hne : t.segments ≠ []) (time : TimeSec) (axis : Axis) :
    ((axis.coordinate (t.positionAt time) : ℚ) : ℝ) ∈ t.values axis := by
  cases time with
  | finite x =>
      rw [positionAt]
      split
      case isTrue => exact start_mem hne axis
      case isFalse hx =>
        have hzero : ((0 : ℕ) : ℚ) ≤ 1000 * x := by
          rw [Nat.cast_zero]
          linarith
        exact @positionAt_mem_aux t [] t.segments hne rfl _ 0 hzero axis
  | infinity => exact finalPosition_mem hne axis
  | negInfinity | nan => exact start_mem hne axis

/-! ### Positions of players -/

/-- Where a player can stand: at a segment or behind the last one, at any time. -/
inductive Visits (t : StoredTrajectory) : TrajectoryPlayer → Prop
  | mk {done rest : List StoredSegment} {time : ℕ} (hsplit : t.segments = done ++ rest) :
      Visits t ⟨t.trajectory,
        current t.scale (t.header ++ done.flatMap StoredSegment.bytes).length time
          (endPosition t.scale t.start done) rest⟩

/-- A new player stands at the first segment. -/
theorem visits_rewind (t : StoredTrajectory) :
    t.Visits ⟨t.trajectory, current t.scale t.header.length 0 t.start t.segments⟩ := by
  have h := @Visits.mk t [] t.segments 0 rfl
  rwa [List.flatMap_nil, List.append_nil] at h

/-- A player stays at the trajectory. -/
theorem invariant_visits (t : StoredTrajectory) : TrajectoryPlayer.Invariant .exact t.Visits where
  rewind := by
    rintro _ ⟨hsplit⟩
    exact ⟨_, t.rewind, t.visits_rewind⟩
  buildNextSegment := by
    rintro _ (@⟨done, rest, time, hsplit⟩)
    cases rest with
    | nil =>
        have hdone : t.segments = done := hsplit.trans (List.append_nil done)
        subst hdone
        exact ⟨_, buildNext_behind time _, .mk hsplit⟩
    | cons s rest =>
        exact ⟨_, buildNext_split hsplit time, .mk (hsplit.trans (List.append_cons done s rest))⟩

end StoredTrajectory

/-- A seek stops at a segment that the time is neither before nor behind. -/
theorem TrajectoryPlayer.seekLoop_eq_ok {F : Rounding} {time : TimeSec} {fuel : ℕ}
    {player player' : TrajectoryPlayer} {rel : ℚ}
    (h : seekLoop F time fuel player = ok (rel, player')) :
    time.isBefore player'.currentSegment.data.startTimeSec = false ∧
      time.isAfter player'.currentSegment.data.endTimeSec = false ∧
      rel = relativeTime F player'.currentSegment.data time := by
  induction fuel generalizing player with
  | zero => cases h
  | succ fuel ih =>
      rw [seekLoop] at h
      split at h
      · obtain ⟨_, -, hrest⟩ := bind_eq_ok.mp h
        exact ih hrest
      · split at h
        · obtain ⟨_, -, hrest⟩ := bind_eq_ok.mp h
          exact ih hrest
        case isFalse hbefore hafter =>
          cases h
          exact ⟨Bool.eq_false_iff.mpr hbefore, Bool.eq_false_iff.mpr hafter, rfl⟩

/-- The relative time in a segment that the time is neither before nor behind, also when the
end of the segment has wrapped around. -/
theorem relativeTime_mem {start durationMsec : ℕ} {poly : Poly4D} {time : TimeSec}
    (hbefore : time.isBefore (curveSegment .exact start durationMsec poly).startTimeSec = false)
    (hafter : time.isAfter (curveSegment .exact start durationMsec poly).endTimeSec = false) :
    0 ≤ relativeTime .exact (curveSegment .exact start durationMsec poly) time ∧
      relativeTime .exact (curveSegment .exact start durationMsec poly) time ≤ 1 := by
  cases time with
  | finite x =>
      rcases Nat.eq_zero_or_pos durationMsec with rfl | hpos
      · have hhalf :
            relativeTime .exact (curveSegment .exact start 0 poly) (.finite x) = 1 / 2 := by
          simp [relativeTime, curveSegment, toSeconds]
        rw [hhalf]
        norm_num
      · have hle : (((start + durationMsec) % 2 ^ 32 : ℕ) : ℚ) ≤ start + durationMsec := by
          exact_mod_cast Nat.mod_le _ _
        have hposq : (0 : ℚ) < durationMsec := by exact_mod_cast hpos
        rw [curveSegment] at hbefore hafter
        rw [StoredTrajectory.isBefore_toSeconds, decide_eq_false_iff_not, not_lt] at hbefore
        rw [StoredTrajectory.isAfter_toSeconds, decide_eq_false_iff_not, not_lt] at hafter
        rw [StoredTrajectory.relativeTime_curveSegment _ _ hpos]
        exact ⟨div_nonneg (by linarith) hposq.le, (div_le_one hposq).mpr (by linarith)⟩
  | infinity | negInfinity | nan => exact ⟨zero_le_one, le_rfl⟩

namespace StoredTrajectory

open StoredSegment

variable {t : StoredTrajectory}

/-- **A player is always at a point of a curve**, whatever time it is asked for. -/
theorem Visits.position_mem (hne : t.segments ≠ []) {player player' : TrajectoryPlayer}
    (h : t.Visits player) {fuel : ℕ} {time : TimeSec} {position : Vector3WithYaw}
    (hrun : player.getPositionAt .exact fuel time = ok (position, player')) (axis : Axis) :
    ((axis.coordinate position : ℚ) : ℝ) ∈ t.values axis := by
  rw [getPositionAt, bind_eq_ok] at hrun
  obtain ⟨⟨rel, player₁⟩, hseek, hrun⟩ := hrun
  cases hrun
  have hkeeps : Keeps t.Visits (seekLoop .exact time.clip fuel player) :=
    t.invariant_visits.seekLoop time.clip h
  rw [seekToTime] at hseek
  rw [hseek] at hkeeps
  obtain hfuel | ⟨rel', player₂, hsame, hvisits⟩ := hkeeps
  · cases hfuel
  cases hsame
  obtain ⟨hbefore, hafter, rfl⟩ := seekLoop_eq_ok hseek
  obtain @⟨done, rest, start, hsplit⟩ := hvisits
  cases rest with
  | nil =>
      have hdone : t.segments = done := hsplit.trans (List.append_nil done)
      subst hdone
      have hmem := finalPosition_mem hne axis
      rw [← eval_restSegment start t.finalPosition
        (relativeTime .exact (restSegment .exact start t.finalPosition) time.clip)] at hmem
      exact hmem
  | cons s rest =>
      obtain ⟨hnonneg, hle⟩ := relativeTime_mem hbefore hafter
      have hmem := curve_mem hsplit hnonneg hle axis
      rw [← eval_poly] at hmem
      exact hmem

end StoredTrajectory

/-- The bounds as they are stored. -/
def BoundingBox.stored (box : BoundingBox ℝ) : BoundingBox (Extended ℝ) :=
  ⟨⟨finite box.x.min, finite box.x.max⟩, ⟨finite box.y.min, finite box.y.max⟩,
    ⟨finite box.z.min, finite box.z.max⟩⟩

/-- Bounds around something are finite. -/
theorem Encloses.exists_extrema {s : Set ℝ} {bounds : Interval (Extended ℝ)}
    (h : Encloses s bounds) (hne : s.Nonempty) :
    ∃ i : Interval ℝ, bounds = ⟨finite i.min, finite i.max⟩ ∧ Extrema s i.min i.max := by
  cases h with
  | empty hempty => exact absurd hempty hne.ne_empty
  | @extrema lo hi hextrema => exact ⟨⟨lo, hi⟩, rfl, hextrema⟩

open StoredTrajectory in
/-- **The bounding box contains the trajectory and is tight**: for every trajectory with at
least one segment, all of them constant, linear or cubic in x, y and z, the box is found, and
in each coordinate its bounds are the least and the greatest of all points of all curves.
The position at any time is inside, and so is every position that a player returns, whatever
it was asked before. -/
theorem boundingBox_tight (t : StoredTrajectory) (hne : t.segments ≠ [])
    (hcubic : ∀ s ∈ t.segments, s.IsCubic) (garbage : ℕ → Interval ℝ) :
    ∃ box : BoundingBox ℝ,
      (∀ owned, ∃ trajectory, Trajectory.initFromBytes .exact owned t.bytes = ok trajectory ∧
        ∀ fuel > t.segments.length,
          getAxisAlignedBoundingBox realSqrt garbage fuel trajectory = ok box.stored) ∧
      (∀ axis : Axis, IsLeast (t.values axis) (axis.interval box).min ∧
        IsGreatest (t.values axis) (axis.interval box).max) ∧
      (∀ (time : TimeSec) (axis : Axis), ((axis.coordinate (t.positionAt time) : ℚ) : ℝ) ∈
        Set.Icc (axis.interval box).min (axis.interval box).max) ∧
      ∀ (owned : Bool) (fuel : ℕ) (ops : List PlayerOp) (player : TrajectoryPlayer),
        trajectorySession .exact owned t.bytes fuel ops = ok player →
        ∀ (fuel : ℕ) (time : TimeSec) (position : Vector3WithYaw) (player' : TrajectoryPlayer),
          player.getPositionAt .exact fuel time = ok (position, player') →
          ∀ axis : Axis, ((axis.coordinate position : ℚ) : ℝ) ∈
            Set.Icc (axis.interval box).min (axis.interval box).max := by
  have hstart : ∀ axis : Axis, Encloses ∅ (axis.interval
      (⟨⟨⊤, ⊥⟩, ⟨⊤, ⊥⟩, ⟨⊤, ⊥⟩⟩ : BoundingBox (Extended ℝ))) := by
    intro axis
    cases axis <;> exact .empty rfl
  obtain ⟨stored, hloop, hstored⟩ := @boundingBoxLoop_stored t.trajectory t.segments t.header rfl
    t.scale_ne hcubic garbage 0 t.start _ _ hstart
  have hfinite : ∀ axis : Axis, ∃ i : Interval ℝ,
      axis.interval stored = ⟨finite i.min, finite i.max⟩ ∧
        Extrema (t.values axis) i.min i.max := by
    intro axis
    have hencloses := hstored axis
    rw [Set.empty_union] at hencloses
    exact hencloses.exists_extrema ⟨_, start_mem hne axis⟩
  obtain ⟨x, hx, hxs⟩ := hfinite .x
  obtain ⟨y, hy, hys⟩ := hfinite .y
  obtain ⟨z, hz, hzs⟩ := hfinite .z
  let box : BoundingBox ℝ := ⟨x, y, z⟩
  have hbox : stored = box.stored := by
    obtain ⟨xs, ys, zs⟩ := stored
    rw [BoundingBox.stored, ← hx, ← hy, ← hz]
    rfl
  have hextrema : ∀ axis : Axis,
      Extrema (t.values axis) (axis.interval box).min (axis.interval box).max := by
    intro axis
    cases axis with
    | x => exact hxs
    | y => exact hys
    | z => exact hzs
  refine ⟨box, fun owned => ⟨t.trajectory, t.initFromBytes owned, fun fuel hfuel => ?_⟩,
    fun axis => ⟨(hextrema axis).isLeast, (hextrema axis).isGreatest⟩,
    fun time axis => (hextrema axis).mem_Icc (positionAt_mem hne time axis), ?_⟩
  · rw [getAxisAlignedBoundingBox, t.rewind, ok_bind, ← hbox]
    exact hloop fuel hfuel
  · intro owned fuel ops player hsession fuel' time position player' hrun axis
    rw [trajectorySession, t.initFromBytes, ok_bind, t.rewind, ok_bind] at hsession
    have hplayer : TrajectoryPlayer.run .exact fuel _ ops = outOfFuel ∨
        ∃ player, TrajectoryPlayer.run .exact fuel _ ops = ok player ∧ t.Visits player :=
      t.invariant_visits.run fuel t.visits_rewind ops
    rw [hsession] at hplayer
    obtain hfuel | ⟨player₁, hsame, hvisits⟩ := hplayer
    · cases hfuel
    · cases hsame
      exact (hextrema axis).mem_Icc (hvisits.position_mem hne hrun axis)

/-- The bounding box of two meters along x, the second one along a cubic curve. -/
theorem boundingBox_tight_twoMeters :
    ∃ box : BoundingBox ℝ,
      (∀ owned, ∃ trajectory,
        Trajectory.initFromBytes .exact owned twoMeters.bytes = ok trajectory ∧
        ∀ fuel > 2, getAxisAlignedBoundingBox realSqrt (fun _ => ⟨0, 0⟩) fuel trajectory =
          ok box.stored) ∧
      ∀ axis : Axis, IsLeast (twoMeters.values axis) (axis.interval box).min ∧
        IsGreatest (twoMeters.values axis) (axis.interval box).max := by
  have hcubic : ∀ s ∈ twoMeters.segments, s.IsCubic := by
    intro s hs axis
    rw [twoMeters, List.mem_cons, List.mem_singleton] at hs
    obtain rfl | rfl := hs <;> cases axis <;> decide
  obtain ⟨box, hfound, htight, -⟩ := boundingBox_tight twoMeters (List.cons_ne_nil _ _) hcubic
    fun _ => ⟨0, 0⟩
  exact ⟨box, hfound, htight⟩

/-- The same box over the rational numbers, where the critical points are at the ends. -/
example : getAxisAlignedBoundingBox (fun d : ℚ => if d = 36000000 then some 6000 else none)
    (fun _ => ⟨0, 0⟩) 3 twoMeters.trajectory =
      ok ⟨⟨finite 0, finite 2000⟩, ⟨finite 0, finite 0⟩, ⟨finite 0, finite 0⟩⟩ := by
  decide +kernel

end Skybrush
