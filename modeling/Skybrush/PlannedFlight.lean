import Skybrush.BoundingBox
import Skybrush.BuilderFlight

/-!
# Flying Planned Moves

What the builder writes is a trajectory in the stored format: its lines are segments whose
coordinates are linear where they have changed and constant elsewhere. So a player that is asked
for a position at any time, after any history, finds a point of the plan, truncated to the
scale. The only thing that splitting a long line costs is time: each time a line is halved, its
halves can be off by half a millisecond.

## Main results

* `StoredTrajectory.exists_of_written`: what was built is a stored trajectory.
* `StoredSegment.near_lineSegments`: a line is flown near the line, at nearly the right time.
* `StoredSegment.near_moveSegments`: so are all moves.
-/

namespace Skybrush

open Checked Rounding TrajectoryBuilder

/-! ### Stored segments -/

theorem StoredPoints.length_ofInt (value : ℤ) :
    [Int16.ofInt value].length = numCoords CurveFormat.linear.code := rfl

theorem StoredPoints.length_unchanged :
    ([] : List Int16).length = numCoords CurveFormat.constant.code := rfl

/-- The control points of a coordinate that is written if it has changed. -/
def StoredPoints.ofChange (changed : Bool) (value : ℤ) : StoredPoints :=
  if changed then ⟨.linear, [Int16.ofInt value], length_ofInt value⟩
  else ⟨.constant, [], length_unchanged⟩

/-- A segment as it is stored. -/
def StoredSegment.ofTarget (scale : ℕ) (last target : Vector3WithYaw) (durationMsec : ℕ) :
    StoredSegment where
  durationMsec := UInt16.ofNat durationMsec
  x := .ofChange (last.x ≠ target.x) ⌊target.x / scale⌋
  y := .ofChange (last.y ≠ target.y) ⌊target.y / scale⌋
  z := .ofChange (last.z ≠ target.z) ⌊target.z / scale⌋
  yaw := .ofChange (last.yaw ≠ target.yaw) (scaleAngle .exact target.yaw)

/-- Segments as they are stored. -/
def StoredSegment.ofSegments (scale : ℕ) : Vector3WithYaw → List Segment → List StoredSegment
  | _, [] => []
  | last, (target, durationMsec) :: segments =>
      .ofTarget scale last target durationMsec :: ofSegments scale target segments

/-- A value that fits into 16 bits is stored as it is. -/
theorem toInt_ofInt16 {value : ℤ} (hlow : -32768 ≤ value) (hhigh : value ≤ 32767) :
    (Int16.ofInt value).toInt = value :=
  Int16.toInt_ofInt_of_le hlow (Int.lt_add_one_of_le hhigh)

namespace StoredPoints

variable {changed : Bool} {value : ℤ}

theorem code_ofChange (changed : Bool) (value : ℤ) :
    (ofChange changed value).format.code = if changed then 1 else 0 := by
  cases changed <;> rfl

theorem bytes_ofChange (h : changed = true → -32768 ≤ value ∧ value ≤ 32767) :
    (ofChange changed value).bytes = changedBytes changed value := by
  cases changed with
  | false => rfl
  | true =>
      have hvalue := toInt_ofInt16 (h rfl).1 (h rfl).2
      rw [ofChange, if_pos rfl, changedBytes, if_pos rfl, bytes, List.flatMap_cons, hvalue,
        List.flatMap_nil, List.append_nil]

end StoredPoints

/-- The angle that is stored for an angle fits into 16 bits. -/
theorem scaleAngle_mem (angle : ℚ) :
    -32768 ≤ scaleAngle .exact angle ∧ scaleAngle .exact angle ≤ 32767 := by
  have hlow := Int.emod_nonneg (truncate (10 * angle)) (b := 3600) (by decide)
  have hhigh := Int.emod_lt_of_pos (truncate (10 * angle)) (b := 3600) (by decide)
  rw [scaleAngle_exact]
  omega

namespace StoredSegment

variable {scale : ℕ} {last target : Vector3WithYaw} {durationMsec : ℕ}

theorem header_ofTarget (scale : ℕ) (last target : Vector3WithYaw) (durationMsec : ℕ) :
    (ofTarget scale last target durationMsec).header = segmentFlags last target := by
  simp only [header, ofTarget, StoredPoints.code_ofChange, segmentFlags]
  cases decide (last.x ≠ target.x) <;> cases decide (last.y ≠ target.y) <;>
    cases decide (last.z ≠ target.z) <;> cases decide (last.yaw ≠ target.yaw) <;> rfl

theorem toNat_durationMsec (h : durationMsec ≤ maxDurationMsec) :
    (ofTarget scale last target durationMsec).durationMsec.toNat = durationMsec := by
  rw [maxDurationMsec] at h
  exact UInt16.toNat_ofNat_of_lt (show durationMsec < 65536 by omega)

/-- **The bytes of a segment** are those that the builder writes. -/
theorem bytes_ofTarget (hduration : durationMsec ≤ maxDurationMsec)
    (hfits : SegmentFits .exact scale last target) :
    (ofTarget scale last target durationMsec).bytes =
      segmentBytes .exact scale last target durationMsec := by
  have hcoord : ∀ {a b : ℚ}, (a ≠ b → CoordinateFits .exact scale b) →
      (StoredPoints.ofChange (a ≠ b) ⌊b / scale⌋).bytes = changedBytes (a ≠ b) ⌊b / scale⌋ := by
    intro a b h
    exact StoredPoints.bytes_ofChange fun hne => h (of_decide_eq_true hne)
  rw [bytes, header_ofTarget, toNat_durationMsec hduration, segmentBytes, targetBytes]
  refine congrArg (segmentFlags last target :: encodeUint16 durationMsec ++ ·) ?_
  exact congrArg₂ _ (hcoord hfits.x) <| congrArg₂ _ (hcoord hfits.y) <|
    congrArg₂ _ (hcoord hfits.z) <| StoredPoints.bytes_ofChange fun _ => scaleAngle_mem _

/-- In one coordinate, the curve of a segment goes straight to the target. -/
theorem curve_ofChange (quantise : ℚ → ℚ) (value : Int16 → ℚ) {a b : ℚ} {stored : ℤ}
    (h : a ≠ b → value (Int16.ofInt stored) = quantise b) (t : ℚ) :
    Bezier.curve (quantise a :: (StoredPoints.ofChange (a ≠ b) stored).points.map value) t =
      quantise a + t * (quantise b - quantise a) := by
  by_cases hsame : a = b
  · subst hsame
    have hpoints : (StoredPoints.ofChange (a ≠ a) stored).points = [] := by
      simp [StoredPoints.ofChange]
    rw [hpoints, List.map_nil, Bezier.curve_singleton, sub_self, mul_zero, add_zero]
  · have hpoints : (StoredPoints.ofChange (a ≠ b) stored).points = [Int16.ofInt stored] := by
      simp [StoredPoints.ofChange, hsame]
    rw [hpoints, List.map_cons, List.map_nil, h hsame]
    simp [Bezier.curve, Bezier.weight, Finset.sum_range_succ]
    ring

/-- **The curve of a segment** goes straight from one quantised position to the next. -/
theorem curve_ofTarget (hfits : SegmentFits .exact scale last target) (t : ℚ) :
    (ofTarget scale last target durationMsec).curve scale (quantise scale last) t =
      (quantise scale last).lerp (quantise scale target) t := by
  have hcoord : ∀ {b : ℚ}, CoordinateFits .exact scale b →
      ((Int16.ofInt ⌊b / scale⌋).toInt * scale : ℚ) = quantiseCoordinate scale b := by
    intro b h
    have hvalue : (Int16.ofInt ⌊b / scale⌋).toInt = ⌊b / scale⌋ := toInt_ofInt16 h.1 h.2
    rw [hvalue, quantiseCoordinate, mul_comm]
  have hangle : (((Int16.ofInt (scaleAngle .exact target.yaw)).toInt % 3600 : ℤ) : ℚ) / 10 =
      quantiseAngle target.yaw := by
    have hmem := scaleAngle_mem target.yaw
    rw [toInt_ofInt16 hmem.1 hmem.2, scaleAngle_exact, Int.emod_emod_of_dvd _ (dvd_refl _)]
    rfl
  rw [curve, Vector3WithYaw.lerp]
  congr 1
  · exact curve_ofChange (quantiseCoordinate scale) (fun v => v.toInt * scale)
      (fun hne => hcoord (hfits.x hne)) t
  · exact curve_ofChange (quantiseCoordinate scale) (fun v => v.toInt * scale)
      (fun hne => hcoord (hfits.y hne)) t
  · exact curve_ofChange (quantiseCoordinate scale) (fun v => v.toInt * scale)
      (fun hne => hcoord (hfits.z hne)) t
  · exact curve_ofChange quantiseAngle (fun v => (v.toInt % 3600 : ℤ) / 10) (fun _ => hangle) t

theorem curve_ofTarget_one (hfits : SegmentFits .exact scale last target) :
    (ofTarget scale last target durationMsec).curve scale (quantise scale last) 1 =
      quantise scale target := by
  rw [curve_ofTarget hfits, Vector3WithYaw.lerp_one]

end StoredSegment

namespace TrajectoryBuilder

theorem allFit_append {scale : ℕ} {last : Vector3WithYaw} {segments segments' : List Segment} :
    AllFit .exact scale last (segments ++ segments') ↔
      AllFit .exact scale last segments ∧
        AllFit .exact scale (endOf last segments) segments' := by
  induction segments generalizing last with
  | nil => exact ⟨fun h => ⟨trivial, h⟩, fun h => h.2⟩
  | cons segment segments ih =>
      constructor
      · rintro ⟨hfirst, hrest⟩
        obtain ⟨hsegments, hbehind⟩ := ih.1 hrest
        exact ⟨⟨hfirst, hsegments⟩, hbehind⟩
      · rintro ⟨⟨hfirst, hsegments⟩, hbehind⟩
        exact ⟨hfirst, ih.2 ⟨hsegments, hbehind⟩⟩

/-- The pieces of a line that takes time take time. -/
theorem pos_lineSegments {last target : Vector3WithYaw} {durationMsec : ℕ}
    (hpos : 0 < durationMsec) : ∀ s ∈ lineSegments .exact last target durationMsec, 0 < s.2 := by
  induction last, target, durationMsec using lineSegments.induct .exact with
  | case1 last target durationMsec hlong ihFirst ihSecond =>
      rw [lineSegments, if_pos hlong]
      rw [maxDurationMsec] at hlong
      intro s hs
      rcases List.mem_append.1 hs with hfirst | hsecond
      · exact ihFirst (by omega) s hfirst
      · exact ihSecond (by omega) s hsecond
  | case2 last target durationMsec hshort =>
      rw [lineSegments, if_neg hshort]
      intro s hs
      rw [List.mem_singleton.1 hs]
      exact hpos

/-- The pieces of a hold take time. -/
theorem pos_holdSegments (position : Vector3WithYaw) (durationMsec : ℕ) :
    ∀ s ∈ holdSegments position durationMsec, 0 < s.2 := by
  induction durationMsec using holdSegments.induct with
  | case1 durationMsec hpos ih =>
      rw [holdSegments, if_pos hpos]
      intro s hs
      rcases List.mem_cons.1 hs with rfl | hrest
      · exact lt_min hpos (by decide)
      · exact ih s hrest
  | case2 durationMsec hzero =>
      rw [holdSegments, if_neg hzero]
      exact List.forall_mem_nil _

end TrajectoryBuilder

namespace StoredSegment

variable {scale : ℕ} {last : Vector3WithYaw} {segments : List Segment}

theorem ofSegments_append (scale : ℕ) (last : Vector3WithYaw) (segments segments' : List Segment) :
    ofSegments scale last (segments ++ segments') =
      ofSegments scale last segments ++ ofSegments scale (endOf last segments) segments' := by
  induction segments generalizing last with
  | nil => rfl
  | cons segment segments ih => exact congrArg (ofTarget scale last segment.1 segment.2 :: ·) (ih _)

/-- **The bytes of segments** are those that the builder writes. -/
theorem bytes_ofSegments (hshort : ∀ s ∈ segments, s.2 ≤ maxDurationMsec)
    (hfits : AllFit .exact scale last segments) :
    (ofSegments scale last segments).flatMap bytes = encodeSegments .exact scale last segments := by
  induction segments generalizing last with
  | nil => rfl
  | cons segment segments ih =>
      have hfirst := bytes_ofTarget (hshort segment List.mem_cons_self) hfits.1
      rw [ofSegments, List.flatMap_cons, hfirst,
        ih (fun s hs => hshort s (List.mem_cons_of_mem _ hs)) hfits.2]
      rfl

theorem totalDuration_ofSegments (hshort : ∀ s ∈ segments, s.2 ≤ maxDurationMsec) :
    totalDuration (ofSegments scale last segments) = (segments.map Prod.snd).sum := by
  induction segments generalizing last with
  | nil => rfl
  | cons segment segments ih =>
      rw [ofSegments, totalDuration_cons, toNat_durationMsec (hshort segment List.mem_cons_self),
        ih (fun s hs => hshort s (List.mem_cons_of_mem _ hs)), List.map_cons, List.sum_cons]

theorem endPosition_ofSegments (hfits : AllFit .exact scale last segments) :
    endPosition scale (quantise scale last) (ofSegments scale last segments) =
      quantise scale (endOf last segments) := by
  induction segments generalizing last with
  | nil => rfl
  | cons segment segments ih =>
      rw [ofSegments, endPosition, List.foldl_cons, curve_ofTarget_one hfits.1]
      exact ih hfits.2

theorem pos_ofSegments (hshort : ∀ s ∈ segments, s.2 ≤ maxDurationMsec)
    (hpos : ∀ s ∈ segments, 0 < s.2) :
    ∀ s ∈ ofSegments scale last segments, 0 < s.durationMsec.toNat := by
  induction segments generalizing last with
  | nil => exact List.forall_mem_nil _
  | cons segment segments ih =>
      intro s hs
      rcases List.mem_cons.1 hs with rfl | hrest
      · rw [toNat_durationMsec (hshort segment List.mem_cons_self)]
        exact hpos segment List.mem_cons_self
      · exact ih (fun s hs => hshort s (List.mem_cons_of_mem _ hs))
          (fun s hs => hpos s (List.mem_cons_of_mem _ hs)) s hrest

/-- Until the end of some segments, only they matter. -/
theorem positionAt_append_of_le {done : List StoredSegment} (rest : List StoredSegment)
    (start : Vector3WithYaw) {time : ℕ} {t : ℚ} (hstart : (time : ℚ) ≤ t)
    (hend : t ≤ (time + totalDuration done : ℕ)) :
    positionAt scale t start time (done ++ rest) = positionAt scale t start time done := by
  induction done generalizing start time with
  | nil =>
      have htime : t = time := le_antisymm hend hstart
      rw [htime, List.nil_append, positionAt_start, positionAt_start]
  | cons s done ih =>
      rw [totalDuration_cons, ← Nat.add_assoc] at hend
      rw [List.cons_append, positionAt, positionAt]
      split
      case isTrue => rfl
      case isFalse hafter => exact ih _ (not_le.1 hafter).le hend

end StoredSegment

/-- **What was built** is a stored trajectory. -/
theorem StoredTrajectory.exists_of_written {scale flags : UInt8} {start : Vector3WithYaw}
    {b₁ b : TrajectoryBuilder} {segments : List Segment} (hstarted : Started scale flags start b₁)
    (hwritten : Written .exact b₁ segments b) (hshort : ∀ s ∈ segments, s.2 ≤ maxDurationMsec) :
    ∃ t : StoredTrajectory, b.bytes = t.bytes ∧ t.scale = scale.toNat ∧
      t.start = quantise scale.toNat start ∧
      t.segments = StoredSegment.ofSegments scale.toNat start segments ∧
      AllFit .exact scale.toNat start segments := by
  have hbytes := hwritten.bytes_eq
  have hfits := hwritten.fits
  rw [hstarted.scale_eq, hstarted.lastPosition_eq] at hbytes hfits
  have hheader : ∀ {v : ℚ}, CoordinateFits .exact scale.toNat v →
      (Int16.ofInt ⌊v / scale.toNat⌋).toInt = ⌊v / scale.toNat⌋ := fun h => toInt_ofInt16 h.1 h.2
  obtain ⟨hx, hy, hz⟩ := hstarted.fits
  obtain ⟨hlow, hhigh⟩ := scaleAngle_mem start.yaw
  have hyaw := toInt_ofInt16 hlow hhigh
  let t : StoredTrajectory :=
    { scale := scale.toNat
      useYaw := flags &&& trajectoryUseYaw != 0
      x := Int16.ofInt ⌊start.x / scale.toNat⌋
      y := Int16.ofInt ⌊start.y / scale.toNat⌋
      z := Int16.ofInt ⌊start.z / scale.toNat⌋
      yaw := Int16.ofInt (scaleAngle .exact start.yaw)
      segments := StoredSegment.ofSegments scale.toNat start segments
      scale_le := hstarted.scale_le
      scale_ne := fun _ hzero => hstarted.scale_ne (UInt8.toNat_inj.1 hzero) }
  refine ⟨t, ?_, rfl, ?_, rfl, hfits⟩
  · have hfirst : UInt8.ofNat (scale.toNat + if flags &&& trajectoryUseYaw != 0 then 128 else 0) =
        if flags &&& trajectoryUseYaw != 0 then scale ||| 128 else scale := by
      have hall : ∀ s : Fin 128, UInt8.ofNat (s + 128) = UInt8.ofNat s ||| 128 := by decide
      have hor := hall ⟨scale.toNat, Nat.lt_succ_of_le hstarted.scale_le⟩
      split
      · rw [UInt8.ofNat_toNat] at hor
        exact hor
      · rw [Nat.add_zero, UInt8.ofNat_toNat]
    rw [hbytes, hstarted.bytes_eq, StoredTrajectory.bytes,
      StoredSegment.bytes_ofSegments hshort hfits]
    refine congrArg (· ++ _) ?_
    rw [TrajectoryBuilder.headerBytes, StoredTrajectory.header, hheader hx, hheader hy, hheader hz,
      hyaw, hfirst]
    rfl
  · rw [StoredTrajectory.start, hheader hx, hheader hy, hheader hz, hyaw, scaleAngle_exact,
      Int.emod_emod_of_dvd _ (dvd_refl _), mul_comm, mul_comm _ (scale.toNat : ℚ),
      mul_comm _ (scale.toNat : ℚ)]
    rfl

/-! ### Truncated positions -/

/-- A position is a planned one, truncated: in each coordinate it is less than one unit of the
scale below it. -/
def Truncates (scale : ℕ) (planned flown : Vector3WithYaw) : Prop :=
  ∀ axis : Axis, axis.coordinate flown ≤ axis.coordinate planned ∧
    axis.coordinate planned < axis.coordinate flown + scale

theorem truncates_quantise {scale : ℕ} (hscale : 0 < scale) (p : Vector3WithYaw) :
    Truncates scale p (quantise scale p) := by
  have hpos : (0 : ℚ) < scale := by exact_mod_cast hscale
  have hcoord : ∀ c : ℚ, quantiseCoordinate scale c ≤ c ∧
      c < quantiseCoordinate scale c + scale := by
    intro c
    have hlow := Int.floor_le (c / scale)
    have hhigh := Int.lt_floor_add_one (c / scale)
    rw [le_div_iff₀ hpos] at hlow
    rw [div_lt_iff₀ hpos] at hhigh
    rw [quantiseCoordinate]
    constructor <;> linarith
  intro axis
  cases axis with
  | x => exact hcoord p.x
  | y => exact hcoord p.y
  | z => exact hcoord p.z

theorem Axis.coordinate_lerp (axis : Axis) (p q : Vector3WithYaw) (u : ℚ) :
    axis.coordinate (p.lerp q u) =
      axis.coordinate p + u * (axis.coordinate q - axis.coordinate p) := by
  cases axis <;> rfl

/-- **Between truncated positions** are truncated ones. -/
theorem Truncates.lerp {scale : ℕ} {p p' q q' : Vector3WithYaw} (hp : Truncates scale p p')
    (hq : Truncates scale q q') {u : ℚ} (hnonneg : 0 ≤ u) (hle : u ≤ 1) :
    Truncates scale (p.lerp q u) (p'.lerp q' u) := by
  intro axis
  obtain ⟨hplow, hphigh⟩ := hp axis
  obtain ⟨hqlow, hqhigh⟩ := hq axis
  rw [axis.coordinate_lerp, axis.coordinate_lerp]
  constructor
  · have hfirst := mul_le_mul_of_nonneg_left hplow (sub_nonneg.2 hle)
    have hsecond := mul_le_mul_of_nonneg_left hqlow hnonneg
    linarith
  · rcases hnonneg.eq_or_lt with rfl | hpos
    · rw [zero_mul, zero_mul, add_zero, add_zero]
      exact hphigh
    · have hfirst := mul_le_mul_of_nonneg_left hphigh.le (sub_nonneg.2 hle)
      have hsecond := mul_lt_mul_of_pos_left hqhigh hpos
      linarith

/-! ### Lines -/

theorem Vector3WithYaw.lerp_lerp (p q : Vector3WithYaw) (s t u : ℚ) :
    (p.lerp q s).lerp (p.lerp q t) u = p.lerp q (s + u * (t - s)) := by
  rw [lerp, lerp, lerp, lerp, mk.injEq]
  refine ⟨?_, ?_, ?_, ?_⟩ <;> ring

theorem midpoint_eq_lerp (p q : Vector3WithYaw) : midpoint .exact p q = p.lerp q (1 / 2) := by
  have hhalf := midpoint_lerp p q 0 1
  rwa [Vector3WithYaw.lerp_zero, zero_add, Vector3WithYaw.lerp_one, zero_add] at hhalf

/-- On the first half of a line. -/
theorem lerp_midpoint (p q : Vector3WithYaw) (u : ℚ) :
    p.lerp (midpoint .exact p q) u = p.lerp q (u / 2) := by
  have hlerp := Vector3WithYaw.lerp_lerp p q 0 (1 / 2) u
  rw [Vector3WithYaw.lerp_zero, zero_add, sub_zero, ← midpoint_eq_lerp] at hlerp
  rw [hlerp]
  ring_nf

/-- On the second half of a line. -/
theorem midpoint_lerp_right (p q : Vector3WithYaw) (u : ℚ) :
    (midpoint .exact p q).lerp q u = p.lerp q (1 / 2 + u / 2) := by
  have hlerp := Vector3WithYaw.lerp_lerp p q (1 / 2) 1 u
  rw [Vector3WithYaw.lerp_one, ← midpoint_eq_lerp] at hlerp
  rw [hlerp]
  ring_nf

/-- A duration in milliseconds is halved up to half a millisecond. -/
theorem exists_slack (durationMsec : ℕ) :
    ∃ slack : ℚ, 0 ≤ slack ∧ slack ≤ 1 / 2 ∧
      ((durationMsec / 2 : ℕ) : ℚ) = durationMsec / 2 - slack ∧
      ((durationMsec - durationMsec / 2 : ℕ) : ℚ) = durationMsec / 2 + slack := by
  have hdiv : (durationMsec : ℚ) = 2 * ((durationMsec / 2 : ℕ) : ℚ) +
      ((durationMsec % 2 : ℕ) : ℚ) := by
    exact_mod_cast (Nat.div_add_mod durationMsec 2).symm
  have hmod : ((durationMsec % 2 : ℕ) : ℚ) ≤ 1 := by
    exact_mod_cast Nat.lt_succ_iff.1 (Nat.mod_lt durationMsec two_pos)
  have hnonneg : (0 : ℚ) ≤ ((durationMsec % 2 : ℕ) : ℚ) := Nat.cast_nonneg _
  rw [Nat.cast_sub (Nat.div_le_self _ _)]
  exact ⟨((durationMsec % 2 : ℕ) : ℚ) / 2, by linarith, by linarith, by linarith, by linarith⟩

/-- A share of the first half, as a share of the whole. -/
theorem abs_firstHalf_le {durationMsec n : ℕ} {u lapse : ℚ} (hnonneg : 0 ≤ u) (hone : u ≤ 1)
    (h : |u * (durationMsec / 2 : ℕ) - lapse| ≤ n / 2) :
    |u / 2 * durationMsec - lapse| ≤ (n + 1 : ℕ) / 2 := by
  obtain ⟨slack, hslack, hslack', hfirst, -⟩ := exists_slack durationMsec
  have hlow : 0 ≤ u * slack := mul_nonneg hnonneg hslack
  have hhigh : u * slack ≤ 1 / 2 := (mul_le_of_le_one_left hslack hone).trans hslack'
  rw [hfirst] at h
  obtain ⟨hleft, hright⟩ := abs_le.1 h
  push_cast
  exact abs_le.2 ⟨by linarith, by linarith⟩

/-- A share of the second half, as a share of the whole. -/
theorem abs_secondHalf_le {durationMsec n : ℕ} {u lapse : ℚ} (hnonneg : 0 ≤ u) (hone : u ≤ 1)
    (h : |u * (durationMsec - durationMsec / 2 : ℕ) - (lapse - (durationMsec / 2 : ℕ))| ≤ n / 2) :
    |(1 / 2 + u / 2) * durationMsec - lapse| ≤ (n + 1 : ℕ) / 2 := by
  obtain ⟨slack, hslack, hslack', hfirst, hsecond⟩ := exists_slack durationMsec
  have hlow : 0 ≤ (1 - u) * slack := mul_nonneg (sub_nonneg.2 hone) hslack
  have hhigh : (1 - u) * slack ≤ 1 / 2 :=
    (mul_le_of_le_one_left hslack (sub_le_self 1 hnonneg)).trans hslack'
  rw [hfirst, hsecond] at h
  obtain ⟨hleft, hright⟩ := abs_le.1 h
  push_cast
  exact abs_le.2 ⟨by linarith, by linarith⟩

namespace StoredSegment

variable {scale : ℕ}

/-- Segments from a position are flown near the line to another one: at a time there is a point
of the line that they truncate, up to some halves of a millisecond. -/
def Near (scale : ℕ) (p q : Vector3WithYaw) (durationMsec : ℕ) (segments : List Segment)
    (n time : ℕ) (t : ℚ) : Prop :=
  ∃ u : ℚ, 0 ≤ u ∧ u ≤ 1 ∧ |u * durationMsec - (t - time)| ≤ n / 2 ∧
    Truncates scale (p.lerp q u)
      (positionAt scale t (quantise scale p) time (ofSegments scale p segments))

/-- A line that is not split is flown at the right time. -/
theorem near_unsplit (hscale : 0 < scale) (n : ℕ) {p q : Vector3WithYaw} {durationMsec : ℕ}
    (hpos : 0 < durationMsec) (hshort : durationMsec ≤ maxDurationMsec)
    (hfits : AllFit .exact scale p (lineSegments .exact p q durationMsec)) {time : ℕ} {t : ℚ}
    (hstart : (time : ℚ) ≤ t) (hend : t ≤ (time + durationMsec : ℕ)) :
    Near scale p q durationMsec (lineSegments .exact p q durationMsec) n time t := by
  have hposq : (0 : ℚ) < durationMsec := by exact_mod_cast hpos
  rw [lineSegments, if_neg (not_lt.2 hshort)] at hfits ⊢
  rw [Near, ofSegments, positionAt, toNat_durationMsec hshort, if_pos hend, curve_ofTarget hfits.1]
  push_cast at hend
  have hnonneg : 0 ≤ (t - time) / durationMsec := div_nonneg (by linarith) hposq.le
  have hone : (t - time) / durationMsec ≤ 1 := (div_le_one hposq).2 (by linarith)
  refine ⟨_, hnonneg, hone, ?_,
    (truncates_quantise hscale p).lerp (truncates_quantise hscale q) hnonneg hone⟩
  rw [div_mul_cancel₀ _ hposq.ne', sub_self, abs_zero]
  positivity

/-- **A line is flown** near the line, at nearly the right time: each time it is halved, half a
millisecond can be lost. By induction on the halvings. -/
theorem near_lineSegments (hscale : 0 < scale) (n : ℕ) {p q : Vector3WithYaw} {durationMsec : ℕ}
    (hpos : 0 < durationMsec) (hle : durationMsec ≤ 2 ^ n * maxDurationMsec)
    (hfits : AllFit .exact scale p (lineSegments .exact p q durationMsec)) {time : ℕ} {t : ℚ}
    (hstart : (time : ℚ) ≤ t) (hend : t ≤ (time + durationMsec : ℕ)) :
    Near scale p q durationMsec (lineSegments .exact p q durationMsec) n time t := by
  induction n generalizing p q durationMsec time with
  | zero => exact near_unsplit hscale 0 hpos (by omega) hfits hstart hend
  | succ n ih =>
      by_cases hlong : maxDurationMsec < durationMsec
      · obtain ⟨hsplits, -⟩ :=
          splits_lineSegments (F := .exact) p (midpoint .exact p q) (durationMsec / 2)
        rw [lineSegments, if_pos hlong, allFit_append, hsplits.endOf_eq] at hfits
        rw [lineSegments, if_pos hlong, Near, ofSegments_append, hsplits.endOf_eq]
        rw [maxDurationMsec] at hlong hle
        rw [pow_succ] at hle
        have hfirstPos : 0 < durationMsec / 2 := by omega
        have htotal : totalDuration (ofSegments scale p
            (lineSegments .exact p (midpoint .exact p q) (durationMsec / 2))) =
              durationMsec / 2 := by
          rw [totalDuration_ofSegments hsplits.short, hsplits.sum_eq]
        by_cases hbefore : t ≤ (time + durationMsec / 2 : ℕ)
        · obtain ⟨u, hnonneg, hone, hdrift, hnear⟩ := ih hfirstPos
            (by rw [maxDurationMsec]; omega) hfits.1 hstart hbefore
          refine ⟨u / 2, by linarith, by linarith, abs_firstHalf_le hnonneg hone hdrift, ?_⟩
          rw [← htotal] at hbefore
          rw [positionAt_append_of_le _ _ hstart hbefore, ← lerp_midpoint]
          exact hnear
        · have hafter : ((time + durationMsec / 2 : ℕ) : ℚ) ≤ t := (not_le.1 hbefore).le
          have hinside : t ≤ (time + durationMsec / 2 + (durationMsec - durationMsec / 2) : ℕ) := by
            rwa [show time + durationMsec / 2 + (durationMsec - durationMsec / 2) =
              time + durationMsec by omega]
          obtain ⟨u, hnonneg, hone, hdrift, hnear⟩ := ih
            (show 0 < durationMsec - durationMsec / 2 by omega) (by rw [maxDurationMsec]; omega)
            hfits.2 hafter hinside
          rw [Nat.cast_add, ← sub_sub] at hdrift
          refine ⟨1 / 2 + u / 2, by linarith, by linarith,
            abs_secondHalf_le hnonneg hone hdrift, ?_⟩
          have hmiddle := endPosition_ofSegments hfits.1
          rw [hsplits.endOf_eq] at hmiddle
          rw [← htotal] at hafter
          rw [positionAt_append scale (pos_ofSegments hsplits.short (pos_lineSegments hfirstPos))
            _ _ _ hafter, hmiddle, htotal, ← midpoint_lerp_right]
          exact hnear
      · exact near_unsplit hscale (n + 1) hpos (not_lt.1 hlong) hfits hstart hend

end StoredSegment

/-! ### Plans -/

/-- Where some moves are meant to be at a time in milliseconds, from a position and a time: on the
way to the target of the move that is going on, and behind all of them at the last target. -/
def plannedAt (t : ℚ) : Vector3WithYaw → ℕ → List Move → Vector3WithYaw
  | last, _, [] => last
  | last, time, move :: moves =>
      if t ≤ (time + move.durationMsec : ℕ) then
        last.lerp (move.target last) ((t - time) / move.durationMsec)
      else
        plannedAt t (move.target last) (time + move.durationMsec) moves

/-- A line takes some time, and is short enough once it has been halved a number of times. -/
def TrajectoryBuilder.Move.HalvedIn (n : ℕ) : Move → Prop
  | .line _ _ durationMsec => 0 < durationMsec ∧ durationMsec ≤ 2 ^ n * maxDurationMsec
  | .hold _ _ => True

theorem Vector3WithYaw.lerp_self (p : Vector3WithYaw) (u : ℚ) : p.lerp p u = p := by
  simp [lerp]

/-- A plan begins at its start position. -/
theorem plannedAt_start (last : Vector3WithYaw) (time : ℕ) (moves : List Move) :
    plannedAt time last time moves = last := by
  cases moves with
  | nil => rfl
  | cons move moves =>
      have hle : (time : ℚ) ≤ (time + move.durationMsec : ℕ) := by
        exact_mod_cast Nat.le_add_right _ _
      rw [plannedAt, if_pos hle, sub_self, zero_div, Vector3WithYaw.lerp_zero]

/-- Behind the first move, only the others matter. -/
theorem plannedAt_behind {n : ℕ} {move : Move} (hmove : move.HalvedIn n) {last : Vector3WithYaw}
    {time : ℕ} {moves : List Move} {t : ℚ} (hle : ((time + move.durationMsec : ℕ) : ℚ) ≤ t) :
    plannedAt t last time (move :: moves) =
      plannedAt t (move.target last) (time + move.durationMsec) moves := by
  rw [plannedAt]
  split
  case isFalse => rfl
  case isTrue hbefore =>
    -- the time is where the first move ends
    obtain rfl : t = (time + move.durationMsec : ℕ) := le_antisymm hbefore hle
    rw [plannedAt_start]
    cases move with
    | line alloc target durationMsec =>
        have hne : (durationMsec : ℚ) ≠ 0 := by exact_mod_cast hmove.1.ne'
        rw [Move.durationMsec]
        push_cast
        rw [add_sub_cancel_left, div_self hne, Vector3WithYaw.lerp_one]
    | hold alloc durationMsec => exact last.lerp_self _

namespace StoredSegment

variable {scale : ℕ}

/-- Segments that stay where they are hold the position. -/
theorem positionAt_stay {segments : List Segment} {position : Vector3WithYaw}
    (hstay : ∀ s ∈ segments, s.1 = position) (hfits : AllFit .exact scale position segments)
    (time : ℕ) (t : ℚ) :
    positionAt scale t (quantise scale position) time (ofSegments scale position segments) =
      quantise scale position := by
  induction segments generalizing time with
  | nil => rfl
  | cons segment segments ih =>
      obtain ⟨target, durationMsec⟩ := segment
      obtain rfl : target = position := hstay _ List.mem_cons_self
      rw [ofSegments, positionAt, curve_ofTarget hfits.1, curve_ofTarget_one hfits.1,
        Vector3WithYaw.lerp_self]
      split
      · rfl
      · exact ih (fun s hs => hstay s (List.mem_cons_of_mem _ hs)) hfits.2 _

/-- **A move is flown** as it was planned. -/
theorem near_move (hscale : 0 < scale) {n : ℕ} {move : Move} (hmove : move.HalvedIn n)
    {last : Vector3WithYaw} (hfits : AllFit .exact scale last (move.segments .exact last))
    {time : ℕ} {t : ℚ} (hstart : (time : ℚ) ≤ t) (hend : t ≤ (time + move.durationMsec : ℕ))
    (moves : List Move) :
    ∃ t' : ℚ, (time : ℚ) ≤ t' ∧ |t' - t| ≤ n / 2 ∧
      Truncates scale (plannedAt t' last time (move :: moves))
        (positionAt scale t (quantise scale last) time
          (ofSegments scale last (move.segments .exact last))) := by
  cases move with
  | line alloc target durationMsec =>
      obtain ⟨hpos, hle⟩ := hmove
      have hposq : (0 : ℚ) < durationMsec := by exact_mod_cast hpos
      obtain ⟨u, hnonneg, hone, hdrift, hnear⟩ :=
        near_lineSegments hscale n hpos hle hfits hstart hend
      have hinside : u * durationMsec ≤ durationMsec := mul_le_of_le_one_left hposq.le hone
      refine ⟨time + u * durationMsec, le_add_of_nonneg_right (mul_nonneg hnonneg hposq.le), ?_, ?_⟩
      · have hlapse : time + u * durationMsec - t = u * durationMsec - (t - time) := by ring
        rw [hlapse]
        exact hdrift
      · have hbefore : (time : ℚ) + u * durationMsec ≤ (time + durationMsec : ℕ) := by
          push_cast
          linarith
        rw [plannedAt, Move.durationMsec, if_pos hbefore, add_sub_cancel_left,
          mul_div_cancel_right₀ _ hposq.ne']
        exact hnear
  | hold alloc durationMsec =>
      have hstay := (splits_holdSegments last durationMsec).2
      refine ⟨t, hstart, by rw [sub_self, abs_zero]; positivity, ?_⟩
      rw [plannedAt, if_pos hend, Move.segments, positionAt_stay hstay hfits]
      exact (last.lerp_self _).symm ▸ truncates_quantise hscale last

/-- **All moves are flown** as they were planned. -/
theorem near_moveSegments (hscale : 0 < scale) {n : ℕ} {moves : List Move}
    (hmoves : ∀ move ∈ moves, move.HalvedIn n) {last : Vector3WithYaw}
    (hfits : AllFit .exact scale last (moveSegments .exact last moves)) {time : ℕ} {t : ℚ}
    (hstart : (time : ℚ) ≤ t) :
    ∃ t' : ℚ, (time : ℚ) ≤ t' ∧ |t' - t| ≤ n / 2 ∧
      Truncates scale (plannedAt t' last time moves)
        (positionAt scale t (quantise scale last) time
          (ofSegments scale last (moveSegments .exact last moves))) := by
  induction moves generalizing last time with
  | nil => exact ⟨t, hstart, by rw [sub_self, abs_zero]; positivity, truncates_quantise hscale last⟩
  | cons move moves ih =>
      have hmove := hmoves move List.mem_cons_self
      have hsplits : Splits last (move.target last) move.durationMsec
          (move.segments .exact last) := by
        cases move with
        | line alloc target durationMsec => exact (splits_lineSegments last target durationMsec).1
        | hold alloc durationMsec => exact (splits_holdSegments last durationMsec).1
      have hpos : ∀ s ∈ move.segments .exact last, 0 < s.2 := by
        cases move with
        | line alloc target durationMsec => exact pos_lineSegments hmove.1
        | hold alloc durationMsec => exact pos_holdSegments last durationMsec
      rw [moveSegments, allFit_append, hsplits.endOf_eq] at hfits
      have htotal : totalDuration (ofSegments scale last (move.segments .exact last)) =
          move.durationMsec := by
        rw [totalDuration_ofSegments hsplits.short, hsplits.sum_eq]
      rw [moveSegments, ofSegments_append, hsplits.endOf_eq]
      rcases le_or_gt t (time + move.durationMsec : ℕ) with hbefore | hafter
      · obtain ⟨t', hle, hdrift, hnear⟩ := near_move hscale hmove hfits.1 hstart hbefore moves
        rw [← htotal] at hbefore
        rw [positionAt_append_of_le _ _ hstart hbefore]
        exact ⟨t', hle, hdrift, hnear⟩
      · obtain ⟨t', hle, hdrift, hnear⟩ :=
          ih (fun m hm => hmoves m (List.mem_cons_of_mem _ hm)) hfits.2 hafter.le
        refine ⟨t', ?_, hdrift, ?_⟩
        · exact le_trans (by exact_mod_cast Nat.le_add_right _ _) hle
        · have hend := endPosition_ofSegments hfits.1
          rw [hsplits.endOf_eq] at hend
          rw [← htotal] at hafter
          rw [plannedAt_behind hmove hle, positionAt_append scale
            (pos_ofSegments hsplits.short hpos) _ _ _ hafter.le, hend, htotal]
          exact hnear

end StoredSegment

end Skybrush
