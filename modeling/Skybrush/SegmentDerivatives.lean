import Skybrush.PolyRoots
import Skybrush.TrajectoryEvaluation

/-!
# Velocities and Accelerations

A segment of a trajectory player carries the polynomials of its position, and those of its
velocity and of its acceleration. They are found when the segment is built, by differentiating
the coefficients and scaling them by the inverse of the duration, twice, since the parameter of
a segment goes from zero to one however long the segment takes.

In exact arithmetic these are the derivatives by time, in seconds, of the position on the
segment.

## Main results

* `hasDerivAt_curveAtTime`: differentiating and scaling is differentiating by time.
* `TrajectoryPlayer.Built.run`: whatever a player is asked to do, its segment was built.
* `velocity_acceleration_exact`: velocity and acceleration are the derivatives of the position.
-/

namespace Skybrush

open Checked

/-! ### Curves over the real numbers -/

/-- The values of a polynomial over the real numbers. -/
noncomputable def curveOver (poly : Poly) (u : ℝ) : ℝ :=
  evalOver (poly.coeffs.map fun c : ℚ => (c : ℝ)) u

/-- The curve of a coordinate as a function of the time in seconds, on a segment with a start
and a duration. -/
noncomputable def curveAtTime (poly : Poly) (start duration : ℚ) (t : ℝ) : ℝ :=
  curveOver poly ((t - start) / duration)

/-- Differentiating the coefficients is the same in both number systems. -/
theorem map_deriv (poly : Poly) :
    ((poly.deriv .exact).coeffs.map fun c : ℚ => (c : ℝ)) =
      derivOver (poly.coeffs.map fun c : ℚ => (c : ℝ)) := by
  rw [Poly.deriv, derivOver, List.length_map]
  split
  case isTrue =>
    rw [← List.map_tail]
    refine List.ext_getElem? fun i => ?_
    simp [Function.comp_def]
  case isFalse => simp [Poly.makeZero, Poly.makeConstant]

theorem hasDerivAt_curveOver (poly : Poly) (u : ℝ) :
    HasDerivAt (curveOver poly) (curveOver (poly.deriv .exact) u) u := by
  rw [curveOver, map_deriv]
  exact hasDerivAt_evalOver _ u

/-- Scaling the coefficients scales the values. -/
theorem curveOver_scale (poly : Poly) (factor : ℚ) (u : ℝ) :
    curveOver (poly.scale .exact factor) u = factor * curveOver poly u := by
  obtain ⟨coeffs⟩ := poly
  rw [Poly.scale, curveOver, curveOver]
  induction coeffs with
  | nil => simp [evalOver]
  | cons c cs ih =>
      rw [List.map_cons, List.map_cons, evalOver_cons, ih, List.map_cons, evalOver_cons]
      simp only [Rounding.exact_apply]
      push_cast
      ring

/-- **Differentiating and scaling** by the inverse of the duration is differentiating by time. -/
theorem hasDerivAt_curveAtTime (poly : Poly) (start duration : ℚ) (t : ℝ) :
    HasDerivAt (curveAtTime poly start duration)
      (curveAtTime ((poly.deriv .exact).scale .exact (1 / duration)) start duration t) t := by
  have hinner : HasDerivAt (fun τ : ℝ => (τ - start) / duration) (1 / duration) t :=
    ((hasDerivAt_id t).sub_const _).div_const _
  have hcurve := (hasDerivAt_curveOver poly ((t - start) / duration)).comp t hinner
  refine hcurve.congr_deriv ?_
  rw [curveAtTime, curveOver_scale]
  push_cast
  ring

/-! ### Motion -/

/-- The position at a time in one coordinate, and its first and second derivatives by time. -/
def CoordinateMotion (poly : Poly) (start duration t position velocity acceleration : ℚ) : Prop :=
  curveAtTime poly start duration t = position ∧
    HasDerivAt (curveAtTime poly start duration) velocity t ∧
    HasDerivAt (deriv (curveAtTime poly start duration)) acceleration t

/-- The position at a time on a segment, and its first and second derivatives by time. -/
def MotionAt (data : TrajectorySegment) (t : ℚ) (position velocity acceleration : Vector3WithYaw) :
    Prop :=
  ∃ duration : ℚ, data.durationSec = duration ∧
    CoordinateMotion data.poly.x data.startTimeSec duration t
      position.x velocity.x acceleration.x ∧
    CoordinateMotion data.poly.y data.startTimeSec duration t
      position.y velocity.y acceleration.y ∧
    CoordinateMotion data.poly.z data.startTimeSec duration t
      position.z velocity.z acceleration.z ∧
    CoordinateMotion data.poly.yaw data.startTimeSec duration t
      position.yaw velocity.yaw acceleration.yaw

/-- **In one coordinate**, the polynomials that are differentiated and scaled once and twice
evaluate to the velocity and the acceleration. -/
theorem coordinateMotion (poly : Poly) (start duration t : ℚ) :
    let dpoly := (poly.deriv .exact).scale .exact (1 / duration)
    let ddpoly := (dpoly.deriv .exact).scale .exact (1 / duration)
    CoordinateMotion poly start duration t (poly.eval .exact ((t - start) / duration))
      (dpoly.eval .exact ((t - start) / duration))
      (ddpoly.eval .exact ((t - start) / duration)) := by
  intro dpoly ddpoly
  have heval : ∀ p : Poly, ((p.eval .exact ((t - start) / duration) : ℚ) : ℝ) =
      curveAtTime p start duration t := by
    intro p
    rw [cast_eval, curveAtTime, curveOver]
    push_cast
    rfl
  have hderiv : deriv (curveAtTime poly start duration) = curveAtTime dpoly start duration :=
    funext fun τ => (hasDerivAt_curveAtTime poly start duration τ).deriv
  refine ⟨(heval poly).symm, ?_, ?_⟩
  · rw [heval]
    exact hasDerivAt_curveAtTime poly start duration t
  · rw [heval, hderiv]
    exact hasDerivAt_curveAtTime dpoly start duration t

namespace TrajectoryPlayer

/-- **On a segment that takes some time**, the player evaluates the position, its velocity and
its acceleration. -/
theorem motionAt_curveSegment (time : ℕ) (poly : Poly4D) {durationMsec : ℕ}
    (hpos : 0 < durationMsec) (t : ℚ) :
    let data := curveSegment .exact time durationMsec poly
    let rel := relativeTime .exact data (.finite t)
    MotionAt data t (data.poly.eval .exact rel) (data.dpoly.eval .exact rel)
      (data.ddpoly.eval .exact rel) := by
  intro data rel
  have hlong := lt_abs_seconds hpos
  have hrel : rel = (t - data.startTimeSec) / ((durationMsec : ℚ) / 1000) := by
    have hduration : data.durationSec = ((durationMsec / 1000 : ℚ) : WithTop ℚ) := rfl
    simp only [rel, relativeTime, hduration, Rounding.exact_apply, hlong, if_true]
  have hderiv : ∀ p : Poly4D, derivByTime .exact p (toSeconds .exact durationMsec) =
      (p.deriv .exact).scale .exact (1 / ((durationMsec : ℚ) / 1000)) := by
    intro p
    rw [derivByTime, StoredTrajectory.toSeconds_exact, Rounding.exact_apply, Rounding.exact_apply,
      if_pos hlong]
  have hmotion := fun p : Poly =>
    coordinateMotion p data.startTimeSec ((durationMsec : ℚ) / 1000) t
  refine ⟨(durationMsec : ℚ) / 1000, rfl, ?_⟩
  simp only [hrel]
  have hdpoly : data.dpoly = _ := hderiv poly
  have hddpoly : data.ddpoly = _ := hderiv (derivByTime .exact poly (toSeconds .exact durationMsec))
  rw [hddpoly, hderiv, hdpoly]
  exact ⟨hmotion poly.x, hmotion poly.y, hmotion poly.z, hmotion poly.yaw⟩

/-! ### Built segments -/

variable {F : Rounding} {player player' : TrajectoryPlayer}

variable (F) in
/-- Unless the trajectory has ended, the segment of a player is one that was read. -/
def Built (player : TrajectoryPlayer) : Prop :=
  player.hasMoreSegments → ∃ time durationMsec poly,
    player.currentSegment.data = curveSegment F time durationMsec poly

/-- Whatever is built was read or is the end of the trajectory. -/
theorem built_of_build {trajectory : Trajectory} {offset time : ℕ} {start : Vector3WithYaw}
    (h : buildCurrentSegment F trajectory offset time start = ok player) : player.Built F := by
  rw [buildCurrentSegment] at h
  split at h
  case isTrue =>
    cases h
    intro hmore
    simp [hasMoreSegments] at hmore
  case isFalse =>
    obtain ⟨⟨⟨durationMsec, poly⟩, next⟩, -, hplayer⟩ := bind_eq_ok.mp h
    cases hplayer
    exact fun _ => ⟨time, durationMsec, poly, rfl⟩

theorem Built.seekLoop {t : TimeSec} {fuel : ℕ} {rel : ℚ} (h : player.Built F)
    (hok : seekLoop F t fuel player = ok (rel, player')) :
    player'.Built F ∧ rel = relativeTime F player'.currentSegment.data t := by
  induction fuel generalizing player with
  | zero => cases hok
  | succ fuel ih =>
      rw [TrajectoryPlayer.seekLoop] at hok
      split at hok
      · obtain ⟨rewound, hrewind, hrest⟩ := bind_eq_ok.mp hok
        exact ih (built_of_build hrewind) hrest
      · split at hok
        · obtain ⟨next, hnext, hrest⟩ := bind_eq_ok.mp hok
          exact ih (built_of_build hnext) hrest
        · cases hok
          exact ⟨h, rfl⟩

theorem Built.totalDurationLoop {fuel result total : ℕ} (h : player.Built F)
    (hok : totalDurationLoop F fuel result player = ok (total, player')) : player'.Built F := by
  induction fuel generalizing result player with
  | zero => cases hok
  | succ fuel ih =>
      rw [TrajectoryPlayer.totalDurationLoop] at hok
      split at hok
      · obtain ⟨next, hnext, hrest⟩ := bind_eq_ok.mp hok
        exact ih (built_of_build hnext) hrest
      · cases hok
        exact h

/-- **One operation** leaves a player at a segment that was built. -/
theorem Built.apply {fuel : ℕ} {op : PlayerOp} (h : player.Built F)
    (hok : apply F fuel player op = ok player') : player'.Built F := by
  cases op with
  | init => exact built_of_build hok
  | buildNextSegment => exact built_of_build hok
  | getPositionAt t | getVelocityAt t | getAccelerationAt t =>
      obtain ⟨⟨value, reached⟩, hget, hreached⟩ := bind_eq_ok.mp hok
      obtain ⟨⟨rel, found⟩, hseek, hfound⟩ := bind_eq_ok.mp hget
      cases hfound
      cases hreached
      exact (h.seekLoop hseek).1
  | getTotalDurationMsec =>
      obtain ⟨⟨total, reached⟩, hget, hreached⟩ := bind_eq_ok.mp hok
      obtain ⟨rewound, hrewind, hloop⟩ := bind_eq_ok.mp hget
      cases hreached
      exact (built_of_build hrewind).totalDurationLoop hloop
  | hasMoreSegments =>
      cases hok
      exact h

/-- **Whatever a player is asked to do**, its segment was built. -/
theorem Built.run {fuel : ℕ} {ops : List PlayerOp} (h : player.Built F)
    (hok : run F fuel player ops = ok player') : player'.Built F := by
  induction ops generalizing player with
  | nil =>
      cases hok
      exact h
  | cons op ops ih =>
      obtain ⟨next, hop, hrest⟩ := bind_eq_ok.mp hok
      exact ih (h.apply hop) hrest

theorem built_session {owned : Bool} {buf : List UInt8} {fuel : ℕ} {ops : List PlayerOp}
    (h : trajectorySession F owned buf fuel ops = ok player) : player.Built F := by
  obtain ⟨trajectory, -, hopen⟩ := bind_eq_ok.mp h
  obtain ⟨first, hrewind, hrun⟩ := bind_eq_ok.mp hopen
  exact (built_of_build hrewind).run hrun

/-- A built segment that takes some time is evaluated to the position and its derivatives. -/
theorem Built.motionAt (h : player.Built .exact) (hmore : player.hasMoreSegments)
    (hpos : 0 < player.currentSegment.data.durationMsec) (t : ℚ) :
    let data := player.currentSegment.data
    let rel := relativeTime .exact data (.finite t)
    MotionAt data t (data.poly.eval .exact rel) (data.dpoly.eval .exact rel)
      (data.ddpoly.eval .exact rel) := by
  obtain ⟨time, durationMsec, poly, hdata⟩ := h hmore
  rw [hdata] at hpos ⊢
  exact motionAt_curveSegment time poly hpos t

end TrajectoryPlayer

open TrajectoryPlayer in
/-- **Velocity and acceleration**: on every segment of positive duration at which a player of any
trajectory can stand, at every time, the polynomials that the player carries evaluate to the
position, its velocity and its acceleration; and this is what it returns when it is asked for
them at a time. -/
theorem velocity_acceleration_exact {owned : Bool} {buf : List UInt8} {fuel : ℕ}
    {ops : List PlayerOp} {player : TrajectoryPlayer}
    (hsession : trajectorySession .exact owned buf fuel ops = ok player) :
    (player.hasMoreSegments → 0 < player.currentSegment.data.durationMsec → ∀ t : ℚ,
      let data := player.currentSegment.data
      let rel := relativeTime .exact data (.finite t)
      MotionAt data t (data.poly.eval .exact rel) (data.dpoly.eval .exact rel)
        (data.ddpoly.eval .exact rel)) ∧
      ∀ (t : ℚ) (fuel' : ℕ) (position : Vector3WithYaw) (player' : TrajectoryPlayer), 0 ≤ t →
        player.getPositionAt .exact fuel' (.finite t) = ok (position, player') →
        player'.hasMoreSegments → 0 < player'.currentSegment.data.durationMsec →
        ∃ velocity acceleration,
          player.getVelocityAt .exact fuel' (.finite t) = ok (velocity, player') ∧
          player.getAccelerationAt .exact fuel' (.finite t) = ok (acceleration, player') ∧
          MotionAt player'.currentSegment.data t position velocity acceleration := by
  have hbuilt := built_session hsession
  refine ⟨hbuilt.motionAt, fun t fuel' position player' ht hposition hmore hpos => ?_⟩
  obtain ⟨⟨rel, found⟩, hseek, hfound⟩ := bind_eq_ok.mp hposition
  cases hfound
  have hclip := TimeSec.clip_of_nonneg ht
  rw [seekToTime, hclip] at hseek
  obtain ⟨hbuilt', rfl⟩ := hbuilt.seekLoop hseek
  refine ⟨_, _, ?_, ?_, hbuilt'.motionAt hmore hpos t⟩
  · rw [getVelocityAt, seekToTime, hclip, hseek]
    rfl
  · rw [getAccelerationAt, seekToTime, hclip, hseek]
    rfl

open TrajectoryPlayer in
/-- A quarter of the way along the cubic curve, the speed is 562.5 mm/s, and still growing. -/
theorem velocity_acceleration_exact_twoMeters :
    let player : TrajectoryPlayer := ⟨twoMeters.trajectory,
      StoredSegment.current 10 14 1000 ⟨1000, 0, 0, 0⟩ twoMeters.segments.tail⟩
    trajectorySession .exact false twoMeters.bytes 0 [.buildNextSegment] = ok player ∧
      MotionAt player.currentSegment.data (3 / 2) ⟨4625 / 4, 0, 0, 0⟩ ⟨1125 / 2, 0, 0, 0⟩
        ⟨750, 0, 0, 0⟩ := by
  intro player
  have hsession : trajectorySession .exact false twoMeters.bytes 0 [.buildNextSegment] =
      ok player := by decide +kernel
  have hmotion := (velocity_acceleration_exact hsession).1 rfl (by decide +kernel) (3 / 2)
  have hvalues : let data := player.currentSegment.data
      let rel := relativeTime .exact data (.finite (3 / 2))
      data.poly.eval .exact rel = ⟨4625 / 4, 0, 0, 0⟩ ∧
        data.dpoly.eval .exact rel = ⟨1125 / 2, 0, 0, 0⟩ ∧
        data.ddpoly.eval .exact rel = ⟨750, 0, 0, 0⟩ := by decide +kernel
  simp only [hvalues] at hmotion
  exact ⟨hsession, hmotion⟩

end Skybrush
