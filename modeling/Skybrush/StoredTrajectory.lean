import Skybrush.BuilderRoundTrip

/-!
# Stored Trajectories

The binary format of trajectories in full: a header with a scale and a start position, and
segments whose coordinates are constant, linear, cubic Bézier curves or curves of degree
seven, each independently of the others. The first control point of a curve is not stored;
it is the point where the segment before it ends.

A walk over the bytes of a stored trajectory finds its segments, in exact arithmetic.

## Main results

* `StoredSegment.reads`: a segment is read back from its bytes.
* `StoredSegment.build`, `StoredSegment.buildNext`: building the segments one after another.
* `storedTrajectory_walk`: the walk finds all segments and stops at the end of the buffer.
-/

namespace Skybrush

open Checked

/-! ### Coordinates -/

/-- The format of a segment in one coordinate. -/
inductive CurveFormat where
  | constant
  | linear
  | bezier
  | poly7d
  deriving DecidableEq, Repr

/-- The two bits that stand for a format. -/
def CurveFormat.code : CurveFormat → ℕ
  | constant => 0
  | linear => 1
  | bezier => 2
  | poly7d => 3

theorem CurveFormat.code_lt (format : CurveFormat) : format.code < 4 := by
  cases format <;> decide

/-- The control points of a segment in one coordinate, behind the first one. -/
structure StoredPoints where
  format : CurveFormat
  points : List Int16
  length_eq : points.length = numCoords format.code

namespace StoredPoints

/-- The bytes of control points. -/
def bytes (p : StoredPoints) : List UInt8 := p.points.flatMap fun v => encodeInt16 v.toInt

/-- Control points as coordinates, in millimetres. -/
def coordinates (scale : ℕ) (p : StoredPoints) : List ℚ := p.points.map fun v => v.toInt * scale

/-- Control points as angles, in degrees from 0 to 360. -/
def angles (p : StoredPoints) : List ℚ := p.points.map fun v => (v.toInt % 3600 : ℤ) / 10

/-- With the first control point, there are few enough for a polynomial. -/
theorem length_le (p : StoredPoints) : p.points.length + 1 ≤ maxPolyCoeffs := by
  rw [p.length_eq, maxPolyCoeffs]
  cases p.format <;> decide

end StoredPoints

/-- A coordinate is read back in millimetres. -/
theorem reads_coordinate (scale : ℕ) (v : Int16) :
    (Trajectory.parseCoordinate .exact scale).Reads (encodeInt16 v.toInt) (v.toInt * scale) :=
  Trajectory.reads_parseCoordinate .exact scale v.le_toInt (Int.le_of_lt_add_one v.toInt_lt)

/-- An angle is read back in degrees. -/
theorem reads_angle (v : Int16) :
    (Trajectory.parseAngle .exact).Reads (encodeInt16 v.toInt) ((v.toInt % 3600 : ℤ) / 10) :=
  Trajectory.reads_parseAngle .exact v.le_toInt (Int.le_of_lt_add_one v.toInt_lt)

/-! ### Segments -/

/-- A stored segment. -/
structure StoredSegment where
  durationMsec : UInt16
  x : StoredPoints
  y : StoredPoints
  z : StoredPoints
  yaw : StoredPoints

namespace StoredSegment

/-- The header byte of a segment. -/
def header (s : StoredSegment) : UInt8 :=
  UInt8.ofNat (s.x.format.code + 4 * s.y.format.code + 16 * s.z.format.code +
    64 * s.yaw.format.code)

/-- The bytes of a segment. -/
def bytes (s : StoredSegment) : List UInt8 :=
  s.header :: (encodeUint16 s.durationMsec.toNat ++
    (s.x.bytes ++ (s.y.bytes ++ (s.z.bytes ++ s.yaw.bytes))))

/-- The polynomials of a segment that begins at a position. -/
def poly (scale : ℕ) (start : Vector3WithYaw) (s : StoredSegment) : Poly4D where
  x := .makeBezier .exact 1 (start.x :: s.x.coordinates scale)
  y := .makeBezier .exact 1 (start.y :: s.y.coordinates scale)
  z := .makeBezier .exact 1 (start.z :: s.z.coordinates scale)
  yaw := .makeBezier .exact 1 (start.yaw :: s.yaw.angles)

/-- The curve of a segment that begins at a position: in each coordinate, the Bézier curve of
that position and the stored control points. -/
def curve (scale : ℕ) (start : Vector3WithYaw) (s : StoredSegment) (t : ℚ) : Vector3WithYaw where
  x := Bezier.curve (start.x :: s.x.coordinates scale) t
  y := Bezier.curve (start.y :: s.y.coordinates scale) t
  z := Bezier.curve (start.z :: s.z.coordinates scale) t
  yaw := Bezier.curve (start.yaw :: s.yaw.angles) t

/-- **The polynomials of a segment** are its curve. -/
theorem eval_poly (scale : ℕ) (start : Vector3WithYaw) (s : StoredSegment) (t : ℚ) :
    (s.poly scale start).eval .exact t = s.curve scale start t := by
  have hcoord : ∀ (p : StoredPoints) (first : ℚ) (value : Int16 → ℚ),
      (Poly.makeBezier .exact 1 (first :: p.points.map value)).eval .exact t =
        Bezier.curve (first :: p.points.map value) t := by
    intro p first value
    refine Poly.eval_makeBezier (List.cons_ne_nil _ _) ?_ t
    rw [List.length_cons, List.length_map]
    exact p.length_le
  simp only [poly, curve, Poly4D.eval, StoredPoints.coordinates, StoredPoints.angles, hcoord]

/-- A curve begins where it is said to begin. -/
theorem curve_zero (scale : ℕ) (start : Vector3WithYaw) (s : StoredSegment) :
    s.curve scale start 0 = start := by
  simp only [curve, Bezier.curve_zero]

/-- Where a segment ends: at its last control point, and in a constant coordinate where it
begins. -/
def lastPoint (scale : ℕ) (start : Vector3WithYaw) (s : StoredSegment) : Vector3WithYaw where
  x := (s.x.coordinates scale).getLastD start.x
  y := (s.y.coordinates scale).getLastD start.y
  z := (s.z.coordinates scale).getLastD start.z
  yaw := s.yaw.angles.getLastD start.yaw

/-- **A segment ends** at its last control points. -/
theorem curve_one (scale : ℕ) (start : Vector3WithYaw) (s : StoredSegment) :
    s.curve scale start 1 = s.lastPoint scale start := by
  simp only [curve, Bezier.curve_one, lastPoint]

/-- The header byte tells the formats. -/
theorem coordFormat_header (s : StoredSegment) :
    coordFormat s.header 0 = s.x.format.code ∧ coordFormat s.header 1 = s.y.format.code ∧
      coordFormat s.header 2 = s.z.format.code ∧ coordFormat s.header 3 = s.yaw.format.code := by
  have hx := s.x.format.code_lt
  have hy := s.y.format.code_lt
  have hz := s.z.format.code_lt
  have hyaw := s.yaw.format.code_lt
  have hheader : s.header.toNat = s.x.format.code + 4 * s.y.format.code +
      16 * s.z.format.code + 64 * s.yaw.format.code := by
    rw [header, UInt8.toNat_ofNat']
    omega
  simp only [coordFormat, hheader]
  refine ⟨?_, ?_, ?_, ?_⟩ <;> norm_num <;> omega

/-- **A segment is read back** from its bytes. -/
theorem reads (scale : ℕ) (start : Vector3WithYaw) (s : StoredSegment) :
    (TrajectoryPlayer.parseSegment .exact scale start).Reads s.bytes
      (s.durationMsec.toNat, s.poly scale start) := by
  obtain ⟨hx, hy, hz, hyaw⟩ := s.coordFormat_header
  have hduration : parseUint16.Reads (encodeUint16 s.durationMsec.toNat) s.durationMsec.toNat :=
    reads_parseUint16 s.durationMsec.toNat_lt
  have hcoord : ∀ p : StoredPoints,
      ((Trajectory.parseCoordinate .exact scale).many (numCoords p.format.code)).Reads p.bytes
        (p.coordinates scale) := by
    intro p
    rw [← p.length_eq]
    exact Parser.Reads.many (reads_coordinate scale) p.points
  have hangle : ((Trajectory.parseAngle .exact).many (numCoords s.yaw.format.code)).Reads
      s.yaw.bytes s.yaw.angles := by
    rw [← s.yaw.length_eq]
    exact Parser.Reads.many reads_angle s.yaw.points
  refine (Parser.reads_cell s.header).bind <| hduration.bind ?_
  rw [hx, hy, hz, hyaw]
  exact (hcoord s.x).bind <| (hcoord s.y).bind <| (hcoord s.z).bind hangle.bind_pure

/-! ### Building the segments -/

open TrajectoryPlayer

/-- The segment that a player stands at, when the given segments begin at an offset, a time
and a position; behind the last segment, the position is held. -/
def current (scale offset time : ℕ) (start : Vector3WithYaw) :
    List StoredSegment → CurrentSegment
  | [] => ⟨offset, 0, restSegment .exact time start⟩
  | s :: _ =>
      ⟨offset, s.bytes.length,
        curveSegment .exact time s.durationMsec.toNat (s.poly scale start)⟩

theorem length_bytes_pos (s : StoredSegment) : 0 < s.bytes.length := Nat.succ_pos _

variable {trajectory : Trajectory} {before : List UInt8} {s : StoredSegment}
  {segments : List StoredSegment} (time : ℕ) (start : Vector3WithYaw)

/-- **Building the first** of the segments that are in the buffer behind other bytes. -/
theorem build (hbuffer : trajectory.buffer = before ++ segments.flatMap bytes)
    (hscale : segments ≠ [] → trajectory.scale ≠ 0) :
    buildCurrentSegment .exact trajectory before.length time start =
      ok ⟨trajectory, current trajectory.scale before.length time start segments⟩ := by
  cases segments with
  | nil =>
      have hlength : trajectory.buffer.length ≤ before.length := by
        rw [hbuffer, List.flatMap_nil, List.append_nil]
      rw [buildCurrentSegment, if_pos (Or.inl hlength)]
      rfl
  | cons s rest =>
      have hread := s.reads trajectory.scale start before (rest.flatMap bytes)
      rw [List.flatMap_cons] at hbuffer
      rw [← hbuffer] at hread
      have hpos := s.length_bytes_pos
      have hmore : ¬ (trajectory.buffer.length ≤ before.length ∨ trajectory.scale = 0) := by
        rw [not_or, hbuffer, List.length_append, List.length_append]
        exact ⟨by omega, hscale (List.cons_ne_nil _ _)⟩
      have hlength : before.length + s.bytes.length - before.length = s.bytes.length :=
        Nat.add_sub_cancel_left _ _
      rw [buildCurrentSegment, if_neg hmore, hread, ok_bind]
      simp only [hlength]
      rfl

/-- **Building the next** segment, behind the current one. -/
theorem buildNext (hbuffer : trajectory.buffer = before ++ (s :: segments).flatMap bytes)
    (hscale : trajectory.scale ≠ 0) :
    buildNextSegment .exact
        ⟨trajectory, current trajectory.scale before.length time start (s :: segments)⟩ =
      ok ⟨trajectory, current trajectory.scale (before ++ s.bytes).length
        ((time + s.durationMsec.toNat) % 2 ^ 32) (s.curve trajectory.scale start 1) segments⟩ := by
  rw [List.flatMap_cons, ← List.append_assoc] at hbuffer
  rw [← build ((time + s.durationMsec.toNat) % 2 ^ 32) (s.curve trajectory.scale start 1) hbuffer
    fun _ => hscale, List.length_append, ← eval_poly]
  rfl

end StoredSegment

/-! ### Behind the last segment -/

namespace StoredSegment

/-- The position behind segments. -/
def endPosition (scale : ℕ) (start : Vector3WithYaw) (segments : List StoredSegment) :
    Vector3WithYaw := segments.foldl (fun position s => s.curve scale position 1) start

/-- The time behind segments, as a 32-bit number of milliseconds. -/
def endTime (time : ℕ) (segments : List StoredSegment) : ℕ :=
  segments.foldl (fun time s => (time + s.durationMsec.toNat) % 2 ^ 32) time

/-- How long segments take, in milliseconds. -/
def totalDuration (segments : List StoredSegment) : ℕ :=
  (segments.map fun s => s.durationMsec.toNat).sum

theorem totalDuration_cons (s : StoredSegment) (rest : List StoredSegment) :
    totalDuration (s :: rest) = s.durationMsec.toNat + totalDuration rest := by
  rw [totalDuration, List.map_cons, List.sum_cons]
  rfl

/-- Times are added up as 32-bit numbers. -/
theorem endTime_mod (time : ℕ) (segments : List StoredSegment) :
    endTime (time % 2 ^ 32) segments = (time + totalDuration segments) % 2 ^ 32 := by
  induction segments generalizing time with
  | nil => rfl
  | cons s rest ih =>
      have hsum : (time % 2 ^ 32 + s.durationMsec.toNat) % 2 ^ 32 =
          (time + s.durationMsec.toNat) % 2 ^ 32 := Nat.mod_add_mod _ _ _
      have hrest := ih (time + s.durationMsec.toNat)
      rw [endTime, List.foldl_cons, hsum, totalDuration_cons, ← Nat.add_assoc]
      exact hrest

/-- Times that fit into 32 bits do not wrap around. -/
theorem endTime_eq {time : ℕ} {segments : List StoredSegment}
    (h : time + totalDuration segments < 2 ^ 32) :
    endTime time segments = time + totalDuration segments := by
  have hmod := endTime_mod time segments
  rwa [Nat.mod_eq_of_lt h, Nat.mod_eq_of_lt (by omega)] at hmod

end StoredSegment

/-! ### Walking -/

/-- What a walk finds for stored segments, from a position and a time: the same durations, the
curves of the same control points, each from the end point of the one before, and contiguous
times, as 32-bit numbers of milliseconds. The final segment holds the last position. -/
inductive Finds (scale : ℕ) : Vector3WithYaw → ℕ → List StoredSegment →
    List TrajectorySegment → TrajectorySegment → Prop
  | final {start : Vector3WithYaw} {time : ℕ} {data : TrajectorySegment}
      (hstart : data.startTimeMsec = time) (hhold : ∀ t, data.poly.eval .exact t = start) :
      Finds scale start time [] [] data
  | segment {start : Vector3WithYaw} {time : ℕ} {s : StoredSegment} {rest : List StoredSegment}
      {data last : TrajectorySegment} {found : List TrajectorySegment}
      (hstart : data.startTimeMsec = time)
      (hduration : data.durationMsec = s.durationMsec.toNat)
      (hend : data.endTimeMsec = (time + s.durationMsec.toNat) % 2 ^ 32)
      (hcurve : ∀ t, data.poly.eval .exact t = s.curve scale start t)
      (hrest : Finds scale (data.poly.eval .exact 1) data.endTimeMsec rest found last) :
      Finds scale start time (s :: rest) (data :: found) last

namespace TrajectoryPlayer

open StoredSegment

variable {trajectory : Trajectory} {segments : List StoredSegment}

/-- The player behind the last of the segments. -/
def atEnd (trajectory : Trajectory) (time : ℕ) (start : Vector3WithYaw)
    (segments : List StoredSegment) : TrajectoryPlayer :=
  ⟨trajectory, current trajectory.scale trajectory.buffer.length (endTime time segments)
    (endPosition trajectory.scale start segments) []⟩

/-- A segment of a trajectory that has ended holds its position. -/
theorem eval_restSegment (time : ℕ) (start : Vector3WithYaw) (t : ℚ) :
    (restSegment .exact time start).poly.eval .exact t = start := by
  simp [restSegment, Poly4D.makeConstant, Poly.makeConstant, Poly4D.eval, Poly.eval]

/-- **A walk over stored segments** finds all of them and stops at the end of the buffer. -/
theorem walk_stored (before : List UInt8)
    (hbuffer : trajectory.buffer = before ++ segments.flatMap bytes)
    (hscale : segments ≠ [] → trajectory.scale ≠ 0) (time : ℕ) (start : Vector3WithYaw) :
    ∃ found, (∀ fuel > segments.length, walk .exact fuel
        ⟨trajectory, current trajectory.scale before.length time start segments⟩ =
          ok (found, atEnd trajectory time start segments)) ∧
      Finds trajectory.scale start time segments found
        (atEnd trajectory time start segments).currentSegment.data := by
  induction segments generalizing before time start with
  | nil =>
      have hlength : trajectory.buffer.length = before.length := by
        rw [hbuffer, List.flatMap_nil, List.append_nil]
      refine ⟨[], fun fuel hfuel => ?_, .final rfl (eval_restSegment time start)⟩
      obtain ⟨fuel, rfl⟩ := Nat.exists_eq_succ_of_ne_zero (Nat.ne_of_gt hfuel)
      rw [atEnd, hlength]
      rfl
  | cons s rest ih =>
      have hscale' := hscale (List.cons_ne_nil _ _)
      obtain ⟨found, hwalk, hfinds⟩ := ih (before ++ s.bytes)
        (by rw [hbuffer, List.flatMap_cons, List.append_assoc]) (fun _ => hscale')
        ((time + s.durationMsec.toNat) % 2 ^ 32) (s.curve trajectory.scale start 1)
      refine ⟨curveSegment .exact time s.durationMsec.toNat (s.poly trajectory.scale start) ::
        found, fun fuel hfuel => ?_, ?_⟩
      · obtain ⟨fuel, rfl⟩ := Nat.exists_eq_succ_of_ne_zero (Nat.ne_of_gt (Nat.zero_lt_of_lt hfuel))
        have hpos : hasMoreSegments ⟨trajectory,
            current trajectory.scale before.length time start (s :: rest)⟩ = true :=
          decide_eq_true s.length_bytes_pos
        rw [walk, if_pos hpos, buildNext time start hbuffer hscale', ok_bind,
          hwalk fuel (Nat.lt_of_succ_lt_succ hfuel)]
        rfl
      · refine .segment rfl rfl rfl (s.eval_poly trajectory.scale start) ?_
        have heval : (curveSegment .exact time s.durationMsec.toNat
            (s.poly trajectory.scale start)).poly.eval .exact 1 =
              s.curve trajectory.scale start 1 :=
          s.eval_poly trajectory.scale start 1
        rw [heval]
        exact hfinds

/-- **The durations** of stored segments are added up, as 32-bit numbers. -/
theorem totalDurationLoop_mod (before : List UInt8)
    (hbuffer : trajectory.buffer = before ++ segments.flatMap bytes)
    (hscale : segments ≠ [] → trajectory.scale ≠ 0) (time : ℕ) (start : Vector3WithYaw)
    (result : ℕ) {fuel : ℕ} (hfuel : segments.length < fuel) :
    totalDurationLoop .exact fuel (result % 2 ^ 32)
        ⟨trajectory, current trajectory.scale before.length time start segments⟩ =
      ok ((result + totalDuration segments) % 2 ^ 32, atEnd trajectory time start segments) := by
  induction segments generalizing before time start result fuel with
  | nil =>
      have hlength : trajectory.buffer.length = before.length := by
        rw [hbuffer, List.flatMap_nil, List.append_nil]
      obtain ⟨fuel, rfl⟩ := Nat.exists_eq_succ_of_ne_zero (Nat.ne_of_gt hfuel)
      rw [atEnd, hlength]
      rfl
  | cons s rest ih =>
      have hscale' := hscale (List.cons_ne_nil _ _)
      obtain ⟨fuel, rfl⟩ := Nat.exists_eq_succ_of_ne_zero (Nat.ne_of_gt (Nat.zero_lt_of_lt hfuel))
      have hpos : hasMoreSegments ⟨trajectory,
          current trajectory.scale before.length time start (s :: rest)⟩ = true :=
        decide_eq_true s.length_bytes_pos
      have hrest := ih (before ++ s.bytes) (by rw [hbuffer, List.flatMap_cons, List.append_assoc])
        (fun _ => hscale') ((time + s.durationMsec.toNat) % 2 ^ 32)
        (s.curve trajectory.scale start 1) (result + s.durationMsec.toNat)
        (Nat.lt_of_succ_lt_succ hfuel)
      have hsum : (result % 2 ^ 32 + s.durationMsec.toNat) % 2 ^ 32 =
          (result + s.durationMsec.toNat) % 2 ^ 32 := Nat.mod_add_mod _ _ _
      rw [← hsum] at hrest
      rw [totalDurationLoop, if_pos hpos, buildNext time start hbuffer hscale', ok_bind,
        totalDuration_cons, ← Nat.add_assoc]
      exact hrest

/-- Durations that fit into 32 bits are added up exactly. -/
theorem totalDurationLoop_stored (before : List UInt8)
    (hbuffer : trajectory.buffer = before ++ segments.flatMap bytes)
    (hscale : segments ≠ [] → trajectory.scale ≠ 0) (time : ℕ) (start : Vector3WithYaw)
    {result : ℕ} (hfits : result + totalDuration segments < 2 ^ 32) {fuel : ℕ}
    (hfuel : segments.length < fuel) :
    totalDurationLoop .exact fuel result
        ⟨trajectory, current trajectory.scale before.length time start segments⟩ =
      ok (result + totalDuration segments, atEnd trajectory time start segments) := by
  have hloop := totalDurationLoop_mod before hbuffer hscale time start result hfuel
  rw [Nat.mod_eq_of_lt hfits, Nat.mod_eq_of_lt (by omega)] at hloop
  exact hloop

end TrajectoryPlayer

/-! ### Whole trajectories -/

/-- A stored trajectory. A scale of zero says that there are no segments. -/
structure StoredTrajectory where
  scale : ℕ
  useYaw : Bool
  x : Int16
  y : Int16
  z : Int16
  yaw : Int16
  segments : List StoredSegment
  scale_le : scale ≤ 127
  scale_ne : segments ≠ [] → scale ≠ 0

namespace StoredTrajectory

open StoredSegment TrajectoryPlayer

/-- The bytes of the header. -/
def header (t : StoredTrajectory) : List UInt8 :=
  UInt8.ofNat (t.scale + if t.useYaw then 128 else 0) ::
    (encodeInt16 t.x.toInt ++ (encodeInt16 t.y.toInt ++
      (encodeInt16 t.z.toInt ++ encodeInt16 t.yaw.toInt)))

/-- The bytes of a trajectory. -/
def bytes (t : StoredTrajectory) : List UInt8 := t.header ++ t.segments.flatMap StoredSegment.bytes

/-- Where a trajectory begins. -/
def start (t : StoredTrajectory) : Vector3WithYaw where
  x := t.x.toInt * t.scale
  y := t.y.toInt * t.scale
  z := t.z.toInt * t.scale
  yaw := (t.yaw.toInt % 3600 : ℤ) / 10

/-- The trajectory, as it is read from its bytes. -/
def trajectory (t : StoredTrajectory) : Trajectory where
  buffer := t.bytes
  start := t.start
  scale := t.scale
  useYaw := t.useYaw
  headerLength := t.header.length

/-- The header byte tells the scale and whether the yaw is used. -/
theorem header_byte {scale : ℕ} (h : scale ≤ 127) (useYaw : Bool) :
    (UInt8.ofNat (scale + if useYaw then 128 else 0) &&& 0x7F).toNat = scale ∧
      (UInt8.ofNat (scale + if useYaw then 128 else 0) &&& 0x80 != 0) = useYaw := by
  have hall : ∀ (s : Fin 128) (b : Bool),
      (UInt8.ofNat (s + if b then 128 else 0) &&& 0x7F).toNat = s ∧
        (UInt8.ofNat (s + if b then 128 else 0) &&& 0x80 != 0) = b := by decide
  exact hall ⟨scale, Nat.lt_succ_of_le h⟩ useYaw

/-- **A trajectory is read back** from its bytes. -/
theorem initFromBytes (t : StoredTrajectory) (owned : Bool) :
    Trajectory.initFromBytes .exact owned t.bytes = ok t.trajectory := by
  obtain ⟨hscale, hyaw⟩ := header_byte t.scale_le t.useYaw
  have hread : (Trajectory.parseHeader .exact).Reads t.header
      ⟨[], t.start, t.scale, t.useYaw, 0⟩ := by
    refine (Parser.reads_cell _).bind ?_
    rw [hscale, hyaw]
    exact (reads_coordinate t.scale t.x).bind <| (reads_coordinate t.scale t.y).bind <|
      (reads_coordinate t.scale t.z).bind (reads_angle t.yaw).bind_pure
  have hheader := hread [] (t.segments.flatMap StoredSegment.bytes)
  rw [List.nil_append, List.length_nil, Nat.zero_add] at hheader
  have hne : ¬ (owned = true ∧ t.bytes = []) := by
    rintro ⟨-, hnil⟩
    cases hnil
  rw [Trajectory.initFromBytes, if_neg hne, bytes, hheader]
  rfl

/-- A player of a trajectory begins at its first segment. -/
theorem rewind (t : StoredTrajectory) :
    TrajectoryPlayer.rewind .exact t.trajectory =
      ok ⟨t.trajectory, current t.scale t.header.length 0 t.start t.segments⟩ :=
  @build t.trajectory t.header t.segments 0 t.start rfl t.scale_ne

end StoredTrajectory

/-- Every segment takes three bytes at least. -/
theorem StoredSegment.length_le (segments : List StoredSegment) :
    3 * segments.length ≤ (segments.flatMap bytes).length := by
  induction segments with
  | nil => exact le_rfl
  | cons s rest ih =>
      simp only [List.flatMap_cons, List.length_append, List.length_cons, bytes,
        length_encodeUint16]
      omega

/-- Every segment takes a minute and a few seconds at most. -/
theorem StoredSegment.totalDuration_le (segments : List StoredSegment) :
    totalDuration segments ≤ 65535 * segments.length := by
  induction segments with
  | nil => exact le_rfl
  | cons s rest ih =>
      have hlt := s.durationMsec.toNat_lt
      rw [totalDuration_cons, List.length_cons]
      omega

/-- What is found does not wrap around if the time behind it fits into 32 bits. -/
theorem Finds.no_wrap {scale time : ℕ} {start : Vector3WithYaw} {segments : List StoredSegment}
    {found : List TrajectorySegment} {final : TrajectorySegment}
    (h : Finds scale start time segments found final)
    (hfits : time + StoredSegment.totalDuration segments < 2 ^ 32) :
    ∀ data ∈ found, data.endTimeMsec = data.startTimeMsec + data.durationMsec := by
  induction h with
  | final => exact List.forall_mem_nil _
  | @segment start time s rest data last found hstart hduration hend hcurve hrest ih =>
      rw [StoredSegment.totalDuration_cons] at hfits
      have hnext : data.endTimeMsec = time + s.durationMsec.toNat :=
        hend.trans (Nat.mod_eq_of_lt (by omega))
      intro d hd
      rcases List.mem_cons.mp hd with rfl | hd
      · rw [hnext, hstart, hduration]
      · exact ih (by omega) d hd

open TrajectoryPlayer in
/-- **Walking over a stored trajectory**: the trajectory is read from its bytes, and the walk
finds exactly the stored segments, one behind the other, and stops at the end of the buffer.
In a block of 65535 bytes at most, no time wraps around, and the total duration is the sum
of the durations and the time at which the final segment starts. -/
theorem storedTrajectory_walk (t : StoredTrajectory) (owned : Bool) :
    ∃ trajectory player found final,
      Trajectory.initFromBytes .exact owned t.bytes = ok trajectory ∧
      trajectory.buffer = t.bytes ∧ trajectory.scale = t.scale ∧ trajectory.start = t.start ∧
      TrajectoryPlayer.rewind .exact trajectory = ok player ∧
      (∀ fuel > t.segments.length, walk .exact fuel player = ok (found, final)) ∧
      Finds t.scale t.start 0 t.segments found final.currentSegment.data ∧
      final.currentSegment.start = t.bytes.length ∧ final.hasMoreSegments = false ∧
      (t.bytes.length ≤ 65535 →
        (∀ data ∈ found, data.endTimeMsec = data.startTimeMsec + data.durationMsec) ∧
        final.currentSegment.data.startTimeMsec = StoredSegment.totalDuration t.segments ∧
        ∀ p : TrajectoryPlayer, p.trajectory = trajectory → ∀ fuel > t.segments.length,
          p.getTotalDurationMsec .exact fuel =
            ok (StoredSegment.totalDuration t.segments, final)) := by
  obtain ⟨found, hwalk, hfinds⟩ := @walk_stored t.trajectory t.segments t.header rfl t.scale_ne 0
    t.start
  refine ⟨t.trajectory, _, found, atEnd t.trajectory 0 t.start t.segments, t.initFromBytes owned,
    rfl, rfl, rfl, t.rewind, hwalk, hfinds, rfl, rfl, fun hlength => ?_⟩
  have hcount := StoredSegment.length_le t.segments
  have hduration := StoredSegment.totalDuration_le t.segments
  rw [StoredTrajectory.bytes, List.length_append] at hlength
  have hfits : 0 + StoredSegment.totalDuration t.segments < 2 ^ 32 := by omega
  refine ⟨hfinds.no_wrap hfits, ?_, fun p hp fuel hfuel => ?_⟩
  · exact (StoredSegment.endTime_eq hfits).trans (Nat.zero_add _)
  · have htotal := @totalDurationLoop_stored t.trajectory t.segments t.header rfl
      t.scale_ne 0 t.start 0 hfits fuel hfuel
    rw [Nat.zero_add] at htotal
    rw [getTotalDurationMsec, hp, t.rewind, ok_bind]
    exact htotal

end Skybrush
