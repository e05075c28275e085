import Skybrush.BuilderAtomicity
import Skybrush.Trajectory

/-!
# Decoding What Was Built

A trajectory that was made by a builder, walked with a player, decodes to the moves that
the builder was asked for, in exact arithmetic. The builder keeps positions as they were
given and compares them to see which coordinates have changed; the player knows only
quantised positions. Both agree because a coordinate that has not changed has not changed
after quantisation either.

## Main results

* `TrajectoryBuilder.written_runCalls`: the bytes that a run of moves appends.
* `TrajectoryPlayer.reads_segment`: a segment is read back from its bytes.
* `TrajectoryPlayer.walk_segments`: a walk over encoded segments finds all of them.
* `builder_roundTrip`: the walk over a built trajectory decodes the moves.
-/

namespace Skybrush

open Checked Rounding

/-! ### Quantised positions -/

/-- A coordinate, as a multiple of the scale. -/
def quantiseCoordinate (scale : ℕ) (coordinate : ℚ) : ℚ := scale * ⌊coordinate / scale⌋

/-- An angle, truncated to tenths of a degree and reduced modulo 360 degrees. -/
def quantiseAngle (angle : ℚ) : ℚ := (truncate (10 * angle) % 3600 : ℤ) / 10

/-- A position as it is stored. -/
def quantise (scale : ℕ) (position : Vector3WithYaw) : Vector3WithYaw :=
  ⟨quantiseCoordinate scale position.x, quantiseCoordinate scale position.y,
    quantiseCoordinate scale position.z, quantiseAngle position.yaw⟩

/-- Truncation commutes with `fmod`, in tenths of a degree. -/
theorem truncate_fmod (angle : ℚ) :
    truncate (fmod angle 360 * 10) = truncate (10 * angle) - 3600 * truncate (angle / 360) := by
  have hrest : fmod angle 360 * 10 = 10 * angle - (3600 * truncate (angle / 360) : ℤ) := by
    rw [fmod]
    push_cast
    ring
  rcases le_or_gt 0 angle with hpos | hneg
  · have hquot : truncate (angle / 360) = ⌊angle / 360⌋ := if_pos (by positivity)
    have htenths : truncate (10 * angle) = ⌊10 * angle⌋ := if_pos (by positivity)
    have hnonneg : 0 ≤ fmod angle 360 * 10 := by
      have hfloor := Int.floor_le (angle / 360)
      rw [hrest, hquot]
      push_cast
      linarith
    rw [truncate, if_pos hnonneg, hrest, Int.floor_sub_intCast, htenths]
  · have hquot : truncate (angle / 360) = ⌈angle / 360⌉ := if_neg (by linarith)
    have htenths : truncate (10 * angle) = ⌈10 * angle⌉ := if_neg (by linarith)
    have hnonpos : fmod angle 360 * 10 ≤ 0 := by
      have hceil := Int.le_ceil (angle / 360)
      rw [hrest, hquot]
      push_cast
      linarith
    have hceil : truncate (fmod angle 360 * 10) = ⌈fmod angle 360 * 10⌉ := by
      rw [truncate]
      split
      case isTrue hnonneg =>
        rw [le_antisymm hnonpos hnonneg]
        simp
      case isFalse => rfl
    rw [hceil, hrest, Int.ceil_sub_intCast, htenths]

/-- What the builder stores for an angle is the angle in tenths of a degree, truncated and
reduced modulo 3600. -/
theorem scaleAngle_exact (angle : ℚ) :
    TrajectoryBuilder.scaleAngle .exact angle = truncate (10 * angle) % 3600 := by
  have hsmall : |fmod angle 360 * 10| < 3600 := by
    have habs := abs_fmod_lt angle (b := 360) (by norm_num)
    rw [abs_mul, abs_of_pos (by norm_num : (0 : ℚ) < 10)]
    linarith
  have hbound : |truncate (fmod angle 360 * 10)| < 3600 := by
    have hle := (abs_truncate_le (fmod angle 360 * 10)).trans_lt hsmall
    exact_mod_cast hle
  rw [abs_lt] at hbound
  exact Trajectory.wrap_eq_emod (truncate_fmod angle) hbound.1 hbound.2

namespace TrajectoryBuilder

variable {F : Rounding} {alloc : Allocator}

/-! ### What a run writes -/

/-- The bytes of a list of segments. -/
def encodeSegments (F : Rounding) (scale : ℕ) : Vector3WithYaw → List Segment → List UInt8
  | _, [] => []
  | last, (target, durationMsec) :: segments =>
      segmentBytes F scale last target durationMsec ++ encodeSegments F scale target segments

/-- The position behind a list of segments. -/
def endOf : Vector3WithYaw → List Segment → Vector3WithYaw
  | last, [] => last
  | _, (target, _) :: segments => endOf target segments

/-- Every coordinate that a list of segments changes can be encoded. -/
def AllFit (F : Rounding) (scale : ℕ) : Vector3WithYaw → List Segment → Prop
  | _, [] => True
  | last, (target, _) :: segments =>
      SegmentFits F scale last target ∧ AllFit F scale target segments

/-- A builder with segments appended. -/
structure Written (F : Rounding) (b : TrajectoryBuilder) (segments : List Segment)
    (b' : TrajectoryBuilder) : Prop where
  bytes_eq : b'.bytes = b.bytes ++ encodeSegments F b.scale b.lastPosition segments
  lastPosition_eq : b'.lastPosition = endOf b.lastPosition segments
  scale_eq : b'.scale = b.scale
  owned : b'.buffer.owned = true
  fits : AllFit F b.scale b.lastPosition segments

theorem Written.nil {b : TrajectoryBuilder} (howned : b.buffer.owned = true) :
    Written F b [] b := ⟨(List.append_nil _).symm, rfl, rfl, howned, trivial⟩

/-- The first segment of a list and the others. -/
theorem Written.cons {b b' : TrajectoryBuilder} {target : Vector3WithYaw} {durationMsec c : ℕ}
    {segments : List Segment} (hfits : SegmentFits F b.scale b.lastPosition target)
    (h : Written F (appended F b target durationMsec c) segments b') :
    Written F b ((target, durationMsec) :: segments) b' where
  bytes_eq := by
    have hbytes := h.bytes_eq
    simp only [appended, withBytes, withCapacity, bytes, List.append_assoc] at hbytes ⊢
    exact hbytes
  lastPosition_eq := h.lastPosition_eq
  scale_eq := h.scale_eq
  owned := h.owned
  fits := ⟨hfits, h.fits⟩

/-- **One list after another.** -/
theorem Written.trans {b b₁ b₂ : TrajectoryBuilder} {segments segments' : List Segment}
    (h : Written F b segments b₁) (h' : Written F b₁ segments' b₂) :
    Written F b (segments ++ segments') b₂ := by
  have happend : ∀ last : Vector3WithYaw,
      encodeSegments F b.scale last (segments ++ segments') =
          encodeSegments F b.scale last segments ++
            encodeSegments F b.scale (endOf last segments) segments' ∧
        endOf last (segments ++ segments') = endOf (endOf last segments) segments' ∧
        (AllFit F b.scale last segments →
          AllFit F b.scale (endOf last segments) segments' →
            AllFit F b.scale last (segments ++ segments')) := by
    clear h h'
    induction segments with
    | nil => exact fun last => ⟨rfl, rfl, fun _ hfits => hfits⟩
    | cons segment segments ih =>
        intro last
        obtain ⟨hbytes, hend, hfits⟩ := ih segment.1
        refine ⟨?_, hend, fun hsegments hrest => ⟨hsegments.1, hfits hsegments.2 hrest⟩⟩
        rw [List.cons_append, encodeSegments, hbytes, encodeSegments, List.append_assoc]
        rfl
  obtain ⟨hbytes, hend, hfits⟩ := happend b.lastPosition
  have hbytes' := h'.bytes_eq
  have hend' := h'.lastPosition_eq
  have hfits' := h'.fits
  rw [h.scale_eq, h.lastPosition_eq] at hbytes' hfits'
  rw [h.lastPosition_eq] at hend'
  refine ⟨?_, hend'.trans hend.symm, h'.scale_eq.trans h.scale_eq, h'.owned, hfits h.fits hfits'⟩
  rw [hbytes', h.bytes_eq, hbytes, List.append_assoc]

/-- Appending a list of segments writes them. -/
theorem written_appendSegments {segments : List Segment} {b b' : TrajectoryBuilder}
    (howned : b.buffer.owned = true)
    (h : (appendSegments F alloc segments).run b = .ok () b') : Written F b segments b' := by
  induction segments generalizing b with
  | nil =>
      cases h
      exact .nil howned
  | cons segment segments ih =>
      obtain ⟨target, durationMsec⟩ := segment
      rw [appendSegments, EStateM.run_bind] at h
      split at h
      case h_1 b₁ h₁ =>
        obtain ⟨c, -, -, hfits, rfl⟩ := (appendSegment_eq_ok howned).mp h₁
        exact .cons hfits (ih (b := appended F b target durationMsec c) howned h)
      case h_2 => cases h

/-! ### Moves -/

/-- A call that moves: with the memory that can be had, a line or a hold. -/
inductive Move where
  | line (alloc : Allocator) (target : Vector3WithYaw) (durationMsec : ℕ)
  | hold (alloc : Allocator) (durationMsec : ℕ)

namespace Move

/-- The call on the builder. -/
def call : Move → Call
  | .line alloc target durationMsec => .appendLine alloc target durationMsec
  | .hold alloc durationMsec => .holdPositionFor alloc durationMsec

/-- Where the builder stands after a move. -/
def target (last : Vector3WithYaw) : Move → Vector3WithYaw
  | .line _ target _ => target
  | .hold _ _ => last

/-- How long a move takes. -/
def durationMsec : Move → ℕ
  | .line _ _ durationMsec => durationMsec
  | .hold _ durationMsec => durationMsec

/-- The segments of a move. -/
def segments (F : Rounding) (last : Vector3WithYaw) : Move → List Segment
  | .line _ target durationMsec => lineSegments F last target durationMsec
  | .hold _ durationMsec => holdSegments last durationMsec

end Move

/-- The segments of a list of moves. -/
def moveSegments (F : Rounding) : Vector3WithYaw → List Move → List Segment
  | _, [] => []
  | last, move :: moves => move.segments F last ++ moveSegments F (move.target last) moves

/-- Calls that all have to succeed. -/
def runCalls (F : Rounding) : List Call → Action Unit
  | [] => pure ()
  | c :: calls => do
      c.action F
      runCalls F calls

/-- What the segments of a move have in common: they end where the move ends, are short
enough, and take as long as the move. -/
structure Splits (last target : Vector3WithYaw) (durationMsec : ℕ) (segments : List Segment) :
    Prop where
  endOf_eq : endOf last segments = target
  short : ∀ s ∈ segments, s.2 ≤ maxDurationMsec
  sum_eq : (segments.map Prod.snd).sum = durationMsec

theorem endOf_append (last : Vector3WithYaw) (segments segments' : List Segment) :
    endOf last (segments ++ segments') = endOf (endOf last segments) segments' := by
  induction segments generalizing last with
  | nil => rfl
  | cons segment segments ih => exact ih segment.1

/-- A line is split into segments. -/
theorem splits_lineSegments (last target : Vector3WithYaw) (durationMsec : ℕ) :
    Splits last target durationMsec (lineSegments F last target durationMsec) ∧
      lineSegments F last target durationMsec ≠ [] := by
  induction last, target, durationMsec using lineSegments.induct F with
  | case1 last target durationMsec hlong ihFirst ihSecond =>
      obtain ⟨hfirst, hne⟩ := ihFirst
      obtain ⟨hsecond, -⟩ := ihSecond
      rw [lineSegments, if_pos hlong]
      refine ⟨⟨?_, ?_, ?_⟩, List.append_ne_nil_of_left_ne_nil hne _⟩
      · rw [endOf_append, hfirst.endOf_eq, hsecond.endOf_eq]
      · intro s hs
        rcases List.mem_append.mp hs with hs | hs
        · exact hfirst.short s hs
        · exact hsecond.short s hs
      · rw [List.map_append, List.sum_append, hfirst.sum_eq, hsecond.sum_eq]
        omega
  | case2 last target durationMsec hshort =>
      rw [lineSegments, if_neg hshort]
      refine ⟨⟨rfl, ?_, rfl⟩, List.cons_ne_nil _ _⟩
      intro s hs
      rw [List.mem_singleton.mp hs]
      exact Nat.le_of_not_lt hshort

/-- A hold is cut into segments that stay where they are. -/
theorem splits_holdSegments (position : Vector3WithYaw) (durationMsec : ℕ) :
    Splits position position durationMsec (holdSegments position durationMsec) ∧
      ∀ s ∈ holdSegments position durationMsec, s.1 = position := by
  induction durationMsec using holdSegments.induct with
  | case1 durationMsec hpos ih =>
      obtain ⟨hrest, hstay⟩ := ih
      rw [holdSegments, if_pos hpos]
      refine ⟨⟨hrest.endOf_eq, ?_, ?_⟩, ?_⟩
      · intro s hs
        rcases List.mem_cons.mp hs with rfl | hs
        · exact Nat.min_le_right _ _
        · exact hrest.short s hs
      · rw [List.map_cons, List.sum_cons, hrest.sum_eq]
        omega
      · intro s hs
        rcases List.mem_cons.mp hs with rfl | hs
        · rfl
        · exact hstay s hs
  | case2 durationMsec hzero =>
      obtain rfl : durationMsec = 0 := by omega
      rw [holdSegments, if_neg hzero]
      exact ⟨⟨rfl, List.forall_mem_nil _, rfl⟩, List.forall_mem_nil _⟩

/-- **A move writes its segments.** -/
theorem written_call {b b' : TrajectoryBuilder} (howned : b.buffer.owned = true) {move : Move}
    (h : (move.call.action F).run b = .ok () b') :
    Written F b (move.segments F b.lastPosition) b' := by
  cases move with
  | line alloc target durationMsec =>
      rw [Move.call, Call.action, run_appendLine howned] at h
      exact written_appendSegments howned h
  | hold alloc durationMsec =>
      rw [Move.call, Call.action, run_holdPositionFor howned] at h
      exact written_appendSegments howned h

/-- After a move, the builder stands at its target. -/
theorem endOf_segments (last : Vector3WithYaw) (move : Move) :
    endOf last (move.segments F last) = move.target last := by
  cases move with
  | line alloc target durationMsec =>
      exact (splits_lineSegments last target durationMsec).1.endOf_eq
  | hold alloc durationMsec => exact (splits_holdSegments last durationMsec).1.endOf_eq

/-- **A run of moves** writes the segments of all of them. -/
theorem written_runCalls {moves : List Move} {b b' : TrajectoryBuilder}
    (howned : b.buffer.owned = true)
    (h : (runCalls F (moves.map Move.call)).run b = .ok () b') :
    Written F b (moveSegments F b.lastPosition moves) b' := by
  induction moves generalizing b with
  | nil =>
      cases h
      exact .nil howned
  | cons move moves ih =>
      rw [List.map_cons, runCalls, EStateM.run_bind] at h
      split at h
      case h_1 b₁ h₁ =>
        have hmove := written_call howned h₁
        have hrest := ih hmove.owned h
        rw [hmove.lastPosition_eq, endOf_segments] at hrest
        exact hmove.trans hrest
      case h_2 => cases h

end TrajectoryBuilder

/-! ### What a segment decodes to -/

/-- The control points of one coordinate: the second one is left out if nothing has
changed. -/
def controlPoints (quantise : ℚ → ℚ) (last target : ℚ) : List ℚ :=
  quantise last :: if last ≠ target then [quantise target] else []

/-- The curve of a segment between two positions. -/
def segmentCurve (scale : ℕ) (last target : Vector3WithYaw) : Poly4D where
  x := .makeBezier .exact 1 (controlPoints (quantiseCoordinate scale) last.x target.x)
  y := .makeBezier .exact 1 (controlPoints (quantiseCoordinate scale) last.y target.y)
  z := .makeBezier .exact 1 (controlPoints (quantiseCoordinate scale) last.z target.z)
  yaw := .makeBezier .exact 1 (controlPoints quantiseAngle last.yaw target.yaw)

/-- The curve of a segment for a player that stands anywhere: it keeps the coordinates that the
segment does not change. -/
def playedCurve (scale : ℕ) (p last target : Vector3WithYaw) : Poly4D where
  x := .makeBezier .exact 1
    (p.x :: if last.x ≠ target.x then [quantiseCoordinate scale target.x] else [])
  y := .makeBezier .exact 1
    (p.y :: if last.y ≠ target.y then [quantiseCoordinate scale target.y] else [])
  z := .makeBezier .exact 1
    (p.z :: if last.z ≠ target.z then [quantiseCoordinate scale target.z] else [])
  yaw := .makeBezier .exact 1
    (p.yaw :: if last.yaw ≠ target.yaw then [quantiseAngle target.yaw] else [])

/-- Where a segment takes a player that stands anywhere. -/
def arrival (scale : ℕ) (p last target : Vector3WithYaw) : Vector3WithYaw where
  x := if last.x ≠ target.x then quantiseCoordinate scale target.x else p.x
  y := if last.y ≠ target.y then quantiseCoordinate scale target.y else p.y
  z := if last.z ≠ target.z then quantiseCoordinate scale target.z else p.z
  yaw := if last.yaw ≠ target.yaw then quantiseAngle target.yaw else p.yaw

/-- A player that stands at the quantised position before gets to the quantised target. -/
theorem arrival_quantise (scale : ℕ) (last target : Vector3WithYaw) :
    arrival scale (quantise scale last) last target = quantise scale target := by
  have hsame : ∀ (quantise : ℚ → ℚ) (a b : ℚ),
      (if a ≠ b then quantise b else quantise a) = quantise b := by
    intro quantise a b
    split
    case isTrue => rfl
    case isFalse hab => rw [not_not.mp hab]
  simp only [arrival, quantise, hsame]

/-- The point at `t` between two positions, the first being at zero and the second at one. -/
def Vector3WithYaw.lerp (p q : Vector3WithYaw) (t : ℚ) : Vector3WithYaw :=
  ⟨p.x + t * (q.x - p.x), p.y + t * (q.y - p.y), p.z + t * (q.z - p.z),
    p.yaw + t * (q.yaw - p.yaw)⟩

/-- In each coordinate, the curve is the line to where the segment leads. -/
theorem eval_changed (p last target value t : ℚ) :
    (Poly.makeBezier .exact 1 (p :: if last ≠ target then [value] else [])).eval .exact t =
      p + t * ((if last ≠ target then value else p) - p) := by
  by_cases hsame : last = target
  · rw [if_neg (not_not.mpr hsame), if_neg (not_not.mpr hsame), Poly.eval_makeBezier_point]
    ring
  · rw [if_pos hsame, if_pos hsame, Poly.eval_makeBezier_line]

/-- **The curve of a segment** for a player that stands anywhere. -/
theorem eval_playedCurve (scale : ℕ) (p last target : Vector3WithYaw) (t : ℚ) :
    (playedCurve scale p last target).eval .exact t = p.lerp (arrival scale p last target) t := by
  simp only [playedCurve, Poly4D.eval, eval_changed]
  rfl

/-- At its end, the curve is where the segment leads. -/
theorem eval_playedCurve_one (scale : ℕ) (p last target : Vector3WithYaw) :
    (playedCurve scale p last target).eval .exact 1 = arrival scale p last target := by
  rw [eval_playedCurve, Vector3WithYaw.lerp]
  simp

/-- **The curve of a segment** is the line between the quantised positions. -/
theorem eval_segmentCurve (scale : ℕ) (last target : Vector3WithYaw) (t : ℚ) :
    (segmentCurve scale last target).eval .exact t =
      (quantise scale last).lerp (quantise scale target) t := by
  have heval := eval_playedCurve scale (quantise scale last) last target t
  rw [arrival_quantise] at heval
  exact heval

namespace TrajectoryPlayer

open TrajectoryBuilder

/-- The format bits of the header byte say which coordinates have changed. -/
theorem coordFormat_segmentFlags (last target : Vector3WithYaw) :
    coordFormat (segmentFlags last target) 0 = (if last.x ≠ target.x then 1 else 0) ∧
      coordFormat (segmentFlags last target) 1 = (if last.y ≠ target.y then 1 else 0) ∧
      coordFormat (segmentFlags last target) 2 = (if last.z ≠ target.z then 1 else 0) ∧
      coordFormat (segmentFlags last target) 3 = (if last.yaw ≠ target.yaw then 1 else 0) := by
  by_cases hx : last.x = target.x <;> by_cases hy : last.y = target.y <;>
    by_cases hz : last.z = target.z <;> by_cases hyaw : last.yaw = target.yaw <;>
    simp [segmentFlags, changedFlag, coordFormat, hx, hy, hz, hyaw]

/-- A value that is written if it has changed is read if the format says so. -/
theorem reads_changed {parse : Parser SbError UInt8 ℚ} {quantise : ℚ → ℚ} {last target : ℚ}
    {value : ℤ} {format : ℕ} (hformat : format = if last ≠ target then 1 else 0)
    (h : last ≠ target → parse.Reads (encodeInt16 value) (quantise target)) :
    (parse.many (numCoords format)).Reads (changedBytes (last ≠ target) value)
      (if last ≠ target then [quantise target] else []) := by
  by_cases hsame : last = target
  · simp only [hformat, hsame, ne_eq, not_true_eq_false, if_false, changedBytes, decide_false]
    exact Parser.reads_pure []
  · have hone : (parse.many 1).Reads (encodeInt16 value) [quantise target] :=
      (h hsame).bind_pure (f := fun value => [value])
    simp only [hformat, hsame, ne_eq, not_false_eq_true, if_true, changedBytes, decide_true]
    exact hone

/-- A coordinate is read back quantised. -/
theorem reads_parseCoordinate {scale : ℕ} {coordinate : ℚ}
    (h : CoordinateFits .exact scale coordinate) :
    (Trajectory.parseCoordinate .exact scale).Reads
      (encodeInt16 ⌊(Rounding.exact (coordinate / scale) : ℚ)⌋)
      (quantiseCoordinate scale coordinate) := by
  rw [quantiseCoordinate, mul_comm]
  exact Trajectory.reads_parseCoordinate .exact scale h.1 h.2

/-- An angle is read back quantised. -/
theorem reads_parseAngle (angle : ℚ) :
    (Trajectory.parseAngle .exact).Reads (encodeInt16 (scaleAngle .exact angle))
      (quantiseAngle angle) := by
  have hlow := Int.emod_nonneg (truncate (10 * angle)) (b := 3600) (by decide)
  have hhigh := Int.emod_lt_of_pos (truncate (10 * angle)) (b := 3600) (by decide)
  have hread := @Trajectory.reads_parseAngle .exact (truncate (10 * angle) % 3600) (by omega)
    (by omega)
  rw [Int.emod_emod_of_dvd _ (dvd_refl _)] at hread
  rw [scaleAngle_exact]
  exact hread

/-- **A segment is read back** from its bytes, by a player that stands anywhere. -/
theorem reads_segment {scale : ℕ} {last target : Vector3WithYaw} {durationMsec : ℕ}
    (hduration : durationMsec ≤ maxDurationMsec) (hfits : SegmentFits .exact scale last target)
    (p : Vector3WithYaw) :
    (parseSegment .exact scale p).Reads (segmentBytes .exact scale last target durationMsec)
      (durationMsec, playedCurve scale p last target) := by
  obtain ⟨hx, hy, hz, hyaw⟩ := coordFormat_segmentFlags last target
  rw [maxDurationMsec] at hduration
  have hdur : parseUint16.Reads (encodeUint16 durationMsec) durationMsec :=
    reads_parseUint16 (by omega)
  have hreadx := reads_changed hx fun hne => reads_parseCoordinate (hfits.x hne)
  have hready := reads_changed hy fun hne => reads_parseCoordinate (hfits.y hne)
  have hreadz := reads_changed hz fun hne => reads_parseCoordinate (hfits.z hne)
  have hreadyaw := reads_changed hyaw fun _ => reads_parseAngle target.yaw
  exact (Parser.reads_cell (segmentFlags last target)).bind <| hdur.bind <| hreadx.bind <|
    hready.bind <| hreadz.bind hreadyaw.bind_pure

/-! ### Walking -/

/-- The segments of a walk: build the next segment as long as there are more, with fuel. -/
def walk (F : Rounding) :
    ℕ → TrajectoryPlayer → Checked SbError (List TrajectorySegment × TrajectoryPlayer)
  | 0, _ => outOfFuel
  | fuel + 1, player =>
      if player.hasMoreSegments then do
        let next ← buildNextSegment F player
        let (segments, last) ← walk F fuel next
        pure (player.currentSegment.data :: segments, last)
      else
        ok ([], player)

/-- The segments that a player finds. -/
def decodeSegments (scale : ℕ) : Vector3WithYaw → ℕ → List Segment → List TrajectorySegment
  | _, _, [] => []
  | last, startTimeMsec, (target, durationMsec) :: segments =>
      curveSegment .exact startTimeMsec durationMsec (segmentCurve scale last target) ::
        decodeSegments scale target ((startTimeMsec + durationMsec) % 2 ^ 32) segments

/-- The segments that a player finds that stands anywhere, with the position that the builder
remembers. -/
def playSegments (scale : ℕ) :
    Vector3WithYaw → Vector3WithYaw → ℕ → List Segment → List TrajectorySegment
  | _, _, _, [] => []
  | p, last, startTimeMsec, (target, durationMsec) :: segments =>
      curveSegment .exact startTimeMsec durationMsec (playedCurve scale p last target) ::
        playSegments scale (arrival scale p last target) target
          ((startTimeMsec + durationMsec) % 2 ^ 32) segments

/-- Where segments take a player that stands anywhere. -/
def arrivalOf (scale : ℕ) : Vector3WithYaw → Vector3WithYaw → List Segment → Vector3WithYaw
  | p, _, [] => p
  | p, last, (target, _) :: segments =>
      arrivalOf scale (arrival scale p last target) target segments

/-- A player that stands at the quantised position finds what was encoded. -/
theorem playSegments_quantise (scale : ℕ) (last : Vector3WithYaw) (startTimeMsec : ℕ)
    (segments : List Segment) :
    playSegments scale (quantise scale last) last startTimeMsec segments =
        decodeSegments scale last startTimeMsec segments ∧
      arrivalOf scale (quantise scale last) last segments =
        quantise scale (endOf last segments) := by
  induction segments generalizing last startTimeMsec with
  | nil => exact ⟨rfl, rfl⟩
  | cons segment segments ih =>
      obtain ⟨target, durationMsec⟩ := segment
      obtain ⟨hplay, harrival⟩ := ih target ((startTimeMsec + durationMsec) % 2 ^ 32)
      rw [playSegments, arrivalOf, arrival_quantise, hplay, harrival]
      exact ⟨rfl, rfl⟩

/-- **A walk over encoded segments** finds all of them, wherever the player stands before, and
stops at the end of the buffer, where the position behind them is held. -/
theorem walk_played {trajectory : Trajectory} (hscale : trajectory.scale ≠ 0)
    {segments : List Segment} (before : List UInt8) (p last : Vector3WithYaw)
    (startTimeMsec : ℕ)
    (hbuffer : trajectory.buffer = before ++ encodeSegments .exact trajectory.scale last segments)
    (hshort : ∀ s ∈ segments, s.2 ≤ maxDurationMsec)
    (hfits : AllFit .exact trajectory.scale last segments) :
    ∃ player final, buildCurrentSegment .exact trajectory before.length startTimeMsec p =
        ok player ∧
      (∀ fuel, segments.length < fuel → walk .exact fuel player =
        ok (playSegments trajectory.scale p last startTimeMsec segments, final)) ∧
      ∃ endTimeMsec, final.currentSegment = ⟨trajectory.buffer.length, 0,
        restSegment .exact endTimeMsec (arrivalOf trajectory.scale p last segments)⟩ := by
  induction segments generalizing before p last startTimeMsec with
  | nil =>
      have hlength : trajectory.buffer.length = before.length := by
        rw [hbuffer, encodeSegments, List.append_nil]
      rw [buildCurrentSegment, if_pos (Or.inl hlength.le)]
      let player : TrajectoryPlayer :=
        ⟨trajectory, ⟨before.length, 0, restSegment .exact startTimeMsec p⟩⟩
      refine ⟨player, player, rfl, fun fuel hfuel => ?_, startTimeMsec, by rw [hlength]; rfl⟩
      obtain ⟨fuel, rfl⟩ := Nat.exists_eq_succ_of_ne_zero (Nat.ne_of_gt hfuel)
      rfl
  | cons segment segments ih =>
      obtain ⟨target, durationMsec⟩ := segment
      have hread := reads_segment (hshort _ List.mem_cons_self) hfits.1 p before
        (encodeSegments .exact trajectory.scale target segments)
      rw [encodeSegments] at hbuffer
      rw [← hbuffer] at hread
      generalize hsegment : segmentBytes .exact trajectory.scale last target durationMsec = segment
        at hbuffer hread
      have hpos : 0 < segment.length := by
        rw [← hsegment, segmentBytes, List.length_cons]
        omega
      have hmore : ¬ (trajectory.buffer.length ≤ before.length ∨ trajectory.scale = 0) := by
        rw [not_or, hbuffer, List.length_append, List.length_append]
        exact ⟨by omega, hscale⟩
      obtain ⟨next, final, hbuild, hwalk, hrest⟩ := ih (before ++ segment)
        (arrival trajectory.scale p last target) target ((startTimeMsec + durationMsec) % 2 ^ 32)
        (by rw [hbuffer, List.append_assoc]) (fun s hs => hshort s (List.mem_cons_of_mem _ hs))
        hfits.2
      rw [buildCurrentSegment, if_neg hmore, hread]
      refine ⟨_, final, rfl, fun fuel hfuel => ?_, hrest⟩
      obtain ⟨fuel, rfl⟩ := Nat.exists_eq_succ_of_ne_zero (Nat.ne_of_gt (Nat.zero_lt_of_lt hfuel))
      rw [List.length_append] at hbuild
      simp only [walk, hasMoreSegments, Nat.add_sub_cancel_left, hpos, decide_true, if_true,
        buildNextSegment, curveSegment, eval_playedCurve_one, hbuild, ok_bind,
        hwalk fuel (Nat.lt_of_succ_lt_succ hfuel)]
      rfl

/-- A walk over encoded segments, for a player that stands at the quantised position. -/
theorem walk_segments {trajectory : Trajectory} (hscale : trajectory.scale ≠ 0)
    {segments : List Segment} (before : List UInt8) (last : Vector3WithYaw)
    (startTimeMsec : ℕ)
    (hbuffer : trajectory.buffer = before ++ encodeSegments .exact trajectory.scale last segments)
    (hshort : ∀ s ∈ segments, s.2 ≤ maxDurationMsec)
    (hfits : AllFit .exact trajectory.scale last segments) :
    ∃ player final, buildCurrentSegment .exact trajectory before.length startTimeMsec
        (quantise trajectory.scale last) = ok player ∧
      (∀ fuel, segments.length < fuel → walk .exact fuel player =
        ok (decodeSegments trajectory.scale last startTimeMsec segments, final)) ∧
      ∃ endTimeMsec, final.currentSegment = ⟨trajectory.buffer.length, 0,
        restSegment .exact endTimeMsec (quantise trajectory.scale (endOf last segments))⟩ := by
  obtain ⟨hplay, harrival⟩ := playSegments_quantise trajectory.scale last startTimeMsec segments
  have hwalk := walk_played hscale before (quantise trajectory.scale last) last startTimeMsec
    hbuffer hshort hfits
  rwa [hplay, harrival] at hwalk

end TrajectoryPlayer

/-! ### Whole trajectories -/

/-- `sb_trajectory_init_from_builder`: the trajectory takes over the bytes, and the builder
starts again with its header. -/
def Trajectory.initFromBuilder (F : Rounding) (b : TrajectoryBuilder) :
    Checked SbError (Trajectory × TrajectoryBuilder) := do
  let header ← read b.bytes 0
  let trajectory ← Trajectory.initFromBytes F true b.bytes
  let buffer := Buffer.init Skybrush.headerLength
  pure (trajectory, { b with buffer := { buffer with bytes := buffer.bytes.set 0 header } })

namespace TrajectoryBuilder

/-- The builder that a run of successful calls ends with: initialise it, set the start
position or not, and move. -/
def Builds (F : Rounding) (scale flags : UInt8) (start : Option Vector3WithYaw)
    (moves : List Move) (b : TrajectoryBuilder) : Prop :=
  ∃ b₀, init scale flags = .ok b₀ ∧
    (runCalls F ((start.map Call.setStartPosition).toList ++ moves.map Move.call)).run b₀ =
      .ok () b

/-- The header of a builder, with the bytes of its start position. -/
def headerBytes (scale flags : UInt8) (start : Vector3WithYaw) : List UInt8 :=
  (if flags &&& trajectoryUseYaw != 0 then scale ||| 128 else scale) ::
    (encodeInt16 ⌊(Rounding.exact (start.x / scale.toNat) : ℚ)⌋ ++
      (encodeInt16 ⌊(Rounding.exact (start.y / scale.toNat) : ℚ)⌋ ++
        (encodeInt16 ⌊(Rounding.exact (start.z / scale.toNat) : ℚ)⌋ ++
          encodeInt16 (scaleAngle .exact start.yaw))))

/-- A builder with its start position, before it has moved. -/
structure Started (scale flags : UInt8) (start : Vector3WithYaw) (b : TrajectoryBuilder) :
    Prop where
  scale_ne : scale ≠ 0
  scale_le : scale ≤ 127
  bytes_eq : b.bytes = headerBytes scale flags start
  lastPosition_eq : b.lastPosition = start
  scale_eq : b.scale = scale.toNat
  owned : b.buffer.owned = true
  fits : CoordinateFits .exact scale.toNat start.x ∧ CoordinateFits .exact scale.toNat start.y ∧
    CoordinateFits .exact scale.toNat start.z

/-- A new builder stands at the origin. -/
theorem started_init {scale flags : UInt8} {b : TrajectoryBuilder}
    (h : init scale flags = .ok b) : Started scale flags .zero b := by
  rw [init] at h
  split at h
  · cases h
  case isFalse hscale =>
    cases h
    rw [not_or, UInt8.not_lt] at hscale
    have hzero : CoordinateFits .exact scale.toNat 0 := by simp [CoordinateFits]
    have hfloor : ⌊(Rounding.exact (0 / scale.toNat) : ℚ)⌋ = 0 := by simp
    have hangle : scaleAngle .exact 0 = 0 := by simp [scaleAngle_exact]
    refine ⟨hscale.1, hscale.2, ?_, rfl, rfl, rfl, hzero, hzero, hzero⟩
    rw [headerBytes, Vector3WithYaw.zero, hfloor, hangle]
    rfl

/-- Setting the start position. -/
theorem Started.setStartPosition {scale flags : UInt8} {old start : Vector3WithYaw}
    {b b' : TrajectoryBuilder} (h : Started scale flags old b)
    (hrun : (setStartPosition .exact start).run b = .ok () b') :
    Started scale flags start b' := by
  have hsize : b.buffer.size = headerLength := by
    have hlength := congrArg List.length h.bytes_eq
    exact hlength
  rw [run_setStartPosition start hsize, h.scale_eq] at hrun
  have hfit : ∀ {coordinate : ℚ} {value : ℤ},
      scaleCoordinate .exact scale.toNat coordinate = .ok value →
        CoordinateFits .exact scale.toNat coordinate ∧
          value = ⌊(Rounding.exact (coordinate / scale.toNat) : ℚ)⌋ := by
    intro coordinate value hvalue
    by_cases hfits : CoordinateFits .exact scale.toNat coordinate
    · rw [scaleCoordinate_of_fits _ hfits] at hvalue
      exact ⟨hfits, (Except.ok.inj hvalue).symm⟩
    · rw [scaleCoordinate_of_not_fits _ hfits] at hvalue
      cases hvalue
  split at hrun
  case h_1 => cases hrun
  case h_2 x hx =>
    split at hrun
    case h_1 => cases hrun
    case h_2 y hy =>
      split at hrun
      case h_1 => cases hrun
      case h_2 z hz =>
        cases hrun
        obtain ⟨hfitx, rfl⟩ := hfit hx
        obtain ⟨hfity, rfl⟩ := hfit hy
        obtain ⟨hfitz, rfl⟩ := hfit hz
        refine ⟨h.scale_ne, h.scale_le, ?_, rfl, h.scale_eq, h.owned, hfitx, hfity, hfitz⟩
        rw [h.bytes_eq]
        rfl

/-- **A builder starts** at the origin or at the start position that was set. -/
theorem exists_started {scale flags : UInt8} {start : Option Vector3WithYaw}
    {moves : List Move} {b : TrajectoryBuilder} (h : Builds .exact scale flags start moves b) :
    ∃ b₁, Started scale flags (start.getD .zero) b₁ ∧
      Written .exact b₁ (moveSegments .exact (start.getD .zero) moves) b := by
  obtain ⟨b₀, hinit, hrun⟩ := h
  have hstarted := started_init hinit
  cases start with
  | none =>
      have hwritten := written_runCalls hstarted.owned hrun
      rw [hstarted.lastPosition_eq] at hwritten
      exact ⟨b₀, hstarted, hwritten⟩
  | some start =>
      rw [Option.map_some, Option.toList_some, List.singleton_append, runCalls,
        EStateM.run_bind] at hrun
      split at hrun
      case h_1 b₁ h₁ =>
        have hstart := hstarted.setStartPosition h₁
        have hwritten := written_runCalls hstart.owned hrun
        rw [hstart.lastPosition_eq] at hwritten
        exact ⟨b₁, hstart, hwritten⟩
      case h_2 => cases hrun

/-- The scale is in the lower bits of the header byte. -/
theorem header_and (scale flags : UInt8) (h : scale ≤ 127) :
    (if flags &&& trajectoryUseYaw != 0 then scale ||| 128 else scale) &&& 0x7F = scale := by
  have hall : ∀ s : Fin 128, UInt8.ofNat s &&& 0x7F = UInt8.ofNat s ∧
      (UInt8.ofNat s ||| 128) &&& 0x7F = UInt8.ofNat s := by decide
  have hlt : scale.toNat < 128 := by
    have hle : scale.toNat ≤ 127 := h
    omega
  have hscale := hall ⟨scale.toNat, hlt⟩
  simp only [UInt8.ofNat_toNat] at hscale
  split
  · exact hscale.2
  · exact hscale.1

end TrajectoryBuilder

open TrajectoryBuilder TrajectoryPlayer

/-- **The header** of a started builder is read back. -/
theorem reads_header {scale flags : UInt8} {start : Vector3WithYaw} {b : TrajectoryBuilder}
    (h : Started scale flags start b) :
    ∃ useYaw, (Trajectory.parseHeader .exact).Reads b.bytes
      ⟨[], quantise scale.toNat start, scale.toNat, useYaw, 0⟩ := by
  have hmask := header_and scale flags h.scale_le
  obtain ⟨hx, hy, hz⟩ := h.fits
  rw [h.bytes_eq, headerBytes]
  generalize (if flags &&& trajectoryUseYaw != 0 then scale ||| 128 else scale) = header at hmask
  subst hmask
  exact ⟨_, (Parser.reads_cell header).bind <| (reads_parseCoordinate hx).bind <|
    (reads_parseCoordinate hy).bind <| (reads_parseCoordinate hz).bind
      (reads_parseAngle start.yaw).bind_pure⟩

/-- A started builder that has moved on makes a trajectory with its start position. -/
theorem initFromBytes_started {scale flags : UInt8} {start : Vector3WithYaw}
    {b : TrajectoryBuilder} (h : Started scale flags start b) (rest : List UInt8) :
    ∃ trajectory, Trajectory.initFromBytes .exact true (b.bytes ++ rest) = ok trajectory ∧
      trajectory.buffer = b.bytes ++ rest ∧ trajectory.start = quantise scale.toNat start ∧
      trajectory.scale = scale.toNat ∧ trajectory.headerLength = b.bytes.length := by
  obtain ⟨useYaw, hread⟩ := reads_header h
  have hbytes := hread [] rest
  rw [List.nil_append, List.length_nil, Nat.zero_add] at hbytes
  have hne : ¬ (true = true ∧ b.bytes ++ rest = []) := by
    rintro ⟨-, hnil⟩
    rw [h.bytes_eq, headerBytes] at hnil
    cases hnil
  rw [Trajectory.initFromBytes, if_neg hne, hbytes]
  exact ⟨_, rfl, rfl, rfl, rfl, rfl⟩

/-- A trajectory that can be made from the bytes of a builder can be made from the builder. -/
theorem initFromBuilder_of_bytes {F : Rounding} {b : TrajectoryBuilder} {trajectory : Trajectory}
    (hpos : 0 < b.bytes.length) (h : Trajectory.initFromBytes F true b.bytes = ok trajectory) :
    ∃ builder, Trajectory.initFromBuilder F b = ok (trajectory, builder) := by
  have hread : (read b.bytes 0 : Checked SbError UInt8) = ok b.bytes[0] := read_of_lt hpos
  rw [Trajectory.initFromBuilder, hread, h]
  exact ⟨_, rfl⟩

/-! ### What the walk finds -/

/-- The segment goes straight from one position to another. -/
def TrajectorySegment.GoesStraight (s : TrajectorySegment) (p q : Vector3WithYaw) : Prop :=
  ∀ t, s.poly.eval .exact t = p.lerp q t

/-- Consecutive segments of at most 60 seconds: from a position and a time, each begins where
and when the one before it ended. Times are 32-bit numbers of milliseconds. -/
inductive Joined : Vector3WithYaw → ℕ → List TrajectorySegment → Vector3WithYaw → ℕ → Prop
  | nil {p : Vector3WithYaw} {time : ℕ} : Joined p time [] p time
  | cons {p m q : Vector3WithYaw} {time time' : ℕ} {s : TrajectorySegment}
      {segments : List TrajectorySegment} (hstart : s.startTimeMsec = time)
      (hshort : s.durationMsec ≤ maxDurationMsec)
      (hend : s.endTimeMsec = (time + s.durationMsec) % 2 ^ 32) (hstraight : s.GoesStraight p m)
      (hrest : Joined m s.endTimeMsec segments q time') : Joined p time (s :: segments) q time'

/-- What moves decode to, from a position and a time: a line to consecutive segments that end
at the quantised target, a hold to segments that stay where they are, both taking as long
as the move, and nothing else. -/
inductive Decodes (scale : ℕ) :
    Vector3WithYaw → ℕ → List Move → List TrajectorySegment → Prop
  | nil {last : Vector3WithYaw} {time : ℕ} : Decodes scale last time [] []
  | line {last target : Vector3WithYaw} {time time' durationMsec : ℕ} {alloc : Allocator}
      {moves : List Move} {segments rest : List TrajectorySegment} (hne : segments ≠ [])
      (hjoined : Joined (quantise scale last) time segments (quantise scale target) time')
      (hsum : (segments.map TrajectorySegment.durationMsec).sum = durationMsec)
      (hrest : Decodes scale target time' moves rest) :
      Decodes scale last time (.line alloc target durationMsec :: moves) (segments ++ rest)
  | hold {last : Vector3WithYaw} {time time' durationMsec : ℕ} {alloc : Allocator}
      {moves : List Move} {segments rest : List TrajectorySegment}
      (hconstant : ∀ s ∈ segments, ∀ t, s.poly.eval .exact t = quantise scale last)
      (hjoined : Joined (quantise scale last) time segments (quantise scale last) time')
      (hsum : (segments.map TrajectorySegment.durationMsec).sum = durationMsec)
      (hrest : Decodes scale last time' moves rest) :
      Decodes scale last time (.hold alloc durationMsec :: moves) (segments ++ rest)

namespace TrajectoryPlayer

/-- The time behind a list of segments. -/
def timeAfter : ℕ → List Segment → ℕ
  | time, [] => time
  | time, (_, durationMsec) :: segments => timeAfter ((time + durationMsec) % 2 ^ 32) segments

theorem decodeSegments_append (scale : ℕ) (last : Vector3WithYaw) (time : ℕ)
    (segments segments' : List Segment) :
    decodeSegments scale last time (segments ++ segments') =
      decodeSegments scale last time segments ++
        decodeSegments scale (endOf last segments) (timeAfter time segments) segments' := by
  induction segments generalizing last time with
  | nil => rfl
  | cons segment segments ih =>
      rw [List.cons_append, decodeSegments, ih]
      rfl

theorem playSegments_append (scale : ℕ) (p last : Vector3WithYaw) (time : ℕ)
    (segments segments' : List Segment) :
    playSegments scale p last time (segments ++ segments') =
      playSegments scale p last time segments ++
        playSegments scale (arrivalOf scale p last segments) (endOf last segments)
          (timeAfter time segments) segments' := by
  induction segments generalizing p last time with
  | nil => rfl
  | cons segment segments ih =>
      rw [List.cons_append, playSegments, ih]
      rfl

theorem arrivalOf_append (scale : ℕ) (p last : Vector3WithYaw) (segments segments' : List Segment) :
    arrivalOf scale p last (segments ++ segments') =
      arrivalOf scale (arrivalOf scale p last segments) (endOf last segments) segments' := by
  induction segments generalizing p last with
  | nil => rfl
  | cons segment segments ih => exact ih _ _

/-- The segments that a player finds are consecutive. -/
theorem joined_playSegments (scale : ℕ) {segments : List Segment}
    (hshort : ∀ s ∈ segments, s.2 ≤ maxDurationMsec) (p last : Vector3WithYaw) (time : ℕ) :
    Joined p time (playSegments scale p last time segments) (arrivalOf scale p last segments)
      (timeAfter time segments) := by
  induction segments generalizing p last time with
  | nil => exact .nil
  | cons segment segments ih =>
      have hrest := ih (fun s hs => hshort s (List.mem_cons_of_mem _ hs))
        (arrival scale p last segment.1) segment.1 ((time + segment.2) % 2 ^ 32)
      exact .cons rfl (hshort _ List.mem_cons_self) rfl
        (eval_playedCurve scale p last segment.1) hrest

/-- The segments that a player finds take as long as those that were built. -/
theorem sum_playSegments (scale : ℕ) (p last : Vector3WithYaw) (time : ℕ)
    (segments : List Segment) :
    ((playSegments scale p last time segments).map TrajectorySegment.durationMsec).sum =
      (segments.map Prod.snd).sum := by
  induction segments generalizing p last time with
  | nil => rfl
  | cons segment segments ih =>
      rw [playSegments, List.map_cons, List.sum_cons, List.map_cons, List.sum_cons, ih]
      rfl

/-- Decoded segments are consecutive. -/
theorem joined_decodeSegments (scale : ℕ) {segments : List Segment}
    (hshort : ∀ s ∈ segments, s.2 ≤ maxDurationMsec) (last : Vector3WithYaw) (time : ℕ) :
    Joined (quantise scale last) time (decodeSegments scale last time segments)
      (quantise scale (endOf last segments)) (timeAfter time segments) := by
  obtain ⟨hplay, harrival⟩ := playSegments_quantise scale last time segments
  rw [← hplay, ← harrival]
  exact joined_playSegments scale hshort _ _ _

/-- Decoded segments take as long as the segments that were built. -/
theorem sum_decodeSegments (scale : ℕ) (last : Vector3WithYaw) (time : ℕ)
    (segments : List Segment) :
    ((decodeSegments scale last time segments).map TrajectorySegment.durationMsec).sum =
      (segments.map Prod.snd).sum := by
  rw [← (playSegments_quantise scale last time segments).1, sum_playSegments]

/-- Segments that stay where they are decode to constant ones. -/
theorem constant_decodeSegments {scale : ℕ} {position : Vector3WithYaw} {segments : List Segment}
    (hstay : ∀ s ∈ segments, s.1 = position) (time : ℕ) :
    ∀ s ∈ decodeSegments scale position time segments, ∀ t,
      s.poly.eval .exact t = quantise scale position := by
  induction segments generalizing time with
  | nil => exact List.forall_mem_nil _
  | cons segment segments ih =>
      have hfirst : segment.1 = position := hstay _ List.mem_cons_self
      obtain ⟨target, durationMsec⟩ := segment
      obtain rfl : target = position := hfirst
      intro s hs t
      rcases List.mem_cons.mp hs with rfl | hs
      · have heval := eval_segmentCurve scale target target t
        simp only [Vector3WithYaw.lerp, sub_self, mul_zero, add_zero] at heval
        exact heval
      · exact ih (fun s hs => hstay s (List.mem_cons_of_mem _ hs)) _ s hs t

/-- **Decoding** the segments of moves. -/
theorem decodes_moveSegments (scale : ℕ) (last : Vector3WithYaw) (time : ℕ) (moves : List Move) :
    Decodes scale last time moves
      (decodeSegments scale last time (moveSegments .exact last moves)) := by
  induction moves generalizing last time with
  | nil => exact .nil
  | cons move moves ih =>
      rw [moveSegments, decodeSegments_append, endOf_segments]
      have hrest := ih (move.target last) (timeAfter time (move.segments .exact last))
      cases move with
      | line alloc target durationMsec =>
          obtain ⟨hsplits, hne⟩ := splits_lineSegments (F := .exact) last target durationMsec
          have hjoined := joined_decodeSegments scale hsplits.short last time
          rw [hsplits.endOf_eq] at hjoined
          refine .line ?_ hjoined ((sum_decodeSegments _ _ _ _).trans hsplits.sum_eq) hrest
          intro hnil
          cases hsegments : lineSegments .exact last target durationMsec with
          | nil => exact hne hsegments
          | cons s segments =>
              rw [Move.segments, hsegments, decodeSegments] at hnil
              cases hnil
      | hold alloc durationMsec =>
          obtain ⟨hsplits, hstay⟩ := splits_holdSegments last durationMsec
          have hjoined := joined_decodeSegments scale hsplits.short last time
          rw [hsplits.endOf_eq] at hjoined
          exact .hold (constant_decodeSegments hstay time) hjoined
            ((sum_decodeSegments _ _ _ _).trans hsplits.sum_eq) hrest

end TrajectoryPlayer

/-- Moves are split into short segments. -/
theorem short_moveSegments {F : Rounding} (last : Vector3WithYaw) (moves : List Move) :
    ∀ s ∈ moveSegments F last moves, s.2 ≤ maxDurationMsec := by
  induction moves generalizing last with
  | nil => exact List.forall_mem_nil _
  | cons move moves ih =>
      intro s hs
      rcases List.mem_append.mp hs with hs | hs
      · cases move with
        | line alloc target durationMsec =>
            exact (splits_lineSegments last target durationMsec).1.short s hs
        | hold alloc durationMsec => exact (splits_holdSegments last durationMsec).1.short s hs
      · exact ih _ s hs

/-- Every segment takes at least one byte. -/
theorem length_le_encodeSegments (F : Rounding) (scale : ℕ) (last : Vector3WithYaw)
    (segments : List Segment) :
    segments.length ≤ (encodeSegments F scale last segments).length := by
  induction segments generalizing last with
  | nil => exact le_rfl
  | cons segment segments ih =>
      have hrest := ih segment.1
      simp only [encodeSegments, segmentBytes, List.length_cons, List.length_append]
      omega

/-- A builder has more bytes than segments that were written. -/
theorem TrajectoryBuilder.Started.length_lt {scale flags : UInt8} {start : Vector3WithYaw}
    {b₁ b : TrajectoryBuilder} {segments : List Segment} (hstarted : Started scale flags start b₁)
    (hwritten : Written .exact b₁ segments b) : segments.length < b.bytes.length := by
  have hcount := length_le_encodeSegments .exact b₁.scale b₁.lastPosition segments
  rw [hwritten.bytes_eq, List.length_append, hstarted.bytes_eq, headerBytes, List.length_cons]
  omega

/-- **A walk over what was built**: a player that walks over the bytes of a builder finds the
segments that were written, and stops at the end, where the position behind them is held. -/
theorem walk_written {scale flags : UInt8} {start : Vector3WithYaw} {b₁ b : TrajectoryBuilder}
    {segments : List Segment} (hstarted : Started scale flags start b₁)
    (hwritten : Written .exact b₁ segments b) (hshort : ∀ s ∈ segments, s.2 ≤ maxDurationMsec) :
    ∃ trajectory player final,
      Trajectory.initFromBytes .exact true b.bytes = ok trajectory ∧
      trajectory.buffer = b.bytes ∧ trajectory.start = quantise scale.toNat start ∧
      rewind .exact trajectory = ok player ∧
      (∀ fuel, b.bytes.length ≤ fuel →
        walk .exact fuel player = ok (decodeSegments scale.toNat start 0 segments, final)) ∧
      ∃ endTimeMsec, final.currentSegment = ⟨trajectory.buffer.length, 0,
        restSegment .exact endTimeMsec (quantise scale.toNat (endOf start segments))⟩ := by
  have hbytes := hwritten.bytes_eq
  have hfits := hwritten.fits
  rw [hstarted.scale_eq, hstarted.lastPosition_eq] at hbytes hfits
  obtain ⟨trajectory, hinit, hbuffer, hstart, hscale, hheader⟩ := initFromBytes_started hstarted
    (encodeSegments .exact scale.toNat start segments)
  rw [← hbytes] at hinit hbuffer
  have hlength := hstarted.length_lt hwritten
  have hne : trajectory.scale ≠ 0 := by
    rw [hscale]
    exact fun hzero => hstarted.scale_ne (UInt8.toNat_inj.mp hzero)
  rw [← hscale] at hbytes hfits hstart ⊢
  obtain ⟨player, final, hrewind, hwalk, hend⟩ := walk_segments hne _ _ 0 (hbuffer.trans hbytes)
    hshort hfits
  rw [← hheader, ← hstart] at hrewind
  exact ⟨trajectory, player, final, hinit, hbuffer, hstart, hrewind,
    fun fuel hfuel => hwalk fuel (hlength.trans_le hfuel), hend⟩

/-- **A built trajectory decodes to what was built**: for every scale and all moves whose
calls succeed, the trajectory that is made from the builder starts at the quantised start
position, and a walk over it finds the moves and stops at the end of the buffer. -/
theorem builder_roundTrip {scale flags : UInt8} {start : Option Vector3WithYaw}
    {moves : List Move} {b : TrajectoryBuilder} (h : Builds .exact scale flags start moves b) :
    ∃ trajectory builder player segments final,
      Trajectory.initFromBuilder .exact b = ok (trajectory, builder) ∧
      trajectory.start = quantise scale.toNat (start.getD .zero) ∧
      rewind .exact trajectory = ok player ∧
      (∀ fuel, b.bytes.length ≤ fuel → walk .exact fuel player = ok (segments, final)) ∧
      Decodes scale.toNat (start.getD .zero) 0 moves segments ∧
      final.currentSegment.start = trajectory.buffer.length := by
  obtain ⟨b₁, hstarted, hwritten⟩ := exists_started h
  obtain ⟨trajectory, player, final, hinit, -, hstart, hrewind, hwalk, _, hend⟩ :=
    walk_written hstarted hwritten (short_moveSegments _ moves)
  have hpos : 0 < b.bytes.length := Nat.zero_lt_of_lt (hstarted.length_lt hwritten)
  obtain ⟨builder, hbuilder⟩ := initFromBuilder_of_bytes hpos hinit
  exact ⟨trajectory, builder, player, _, final, hbuilder, hstart, hrewind, hwalk,
    decodes_moveSegments _ _ _ moves, congrArg CurrentSegment.start hend⟩

/-- With scale 10, a builder starts at x = 15 with a yaw of -5 degrees, moves to y = 25 in a
second and stays there for half a second. -/
theorem builds_twoMoves :
    ∃ b, Builds .exact 10 0 (some ⟨15, 0, 0, -5⟩)
      [.line (fun _ => true) ⟨15, 25, 0, -5⟩ 1000, .hold (fun _ => true) 500] b := by
  let b₀ : TrajectoryBuilder := ⟨⟨[10, 0, 0, 0, 0, 0, 0, 0, 0], 9, true⟩, .zero, 10⟩
  let b₁ : TrajectoryBuilder :=
    ⟨⟨[10, 1, 0, 0, 0, 0, 0, 222, 13], 9, true⟩, ⟨15, 0, 0, -5⟩, 10⟩
  let b₂ : TrajectoryBuilder :=
    ⟨⟨[10, 1, 0, 0, 0, 0, 0, 222, 13, 4, 232, 3, 2, 0], 36, true⟩, ⟨15, 25, 0, -5⟩, 10⟩
  let b₃ : TrajectoryBuilder :=
    ⟨⟨[10, 1, 0, 0, 0, 0, 0, 222, 13, 4, 232, 3, 2, 0, 0, 244, 1], 72, true⟩,
      ⟨15, 25, 0, -5⟩, 10⟩
  have hstart : (setStartPosition .exact ⟨15, 0, 0, -5⟩).run b₀ = .ok () b₁ := by
    have hx : scaleCoordinate .exact b₀.scale 15 = .ok 1 := by decide +kernel
    have hzero : scaleCoordinate .exact b₀.scale 0 = .ok 0 := by decide +kernel
    have hangle : scaleAngle .exact (-5) = 3550 := by decide +kernel
    rw [run_setStartPosition _ rfl, hx, hzero, hangle]
    rfl
  have hline : (appendLine .exact (fun _ => true) ⟨15, 25, 0, -5⟩ 1000).run b₁ = .ok () b₂ := by
    have hres : Buffer.reservation b₁.buffer.size b₁.buffer.capacity 11 = some 36 := by
      decide +kernel
    have hfits : SegmentFits .exact b₁.scale b₁.lastPosition ⟨15, 25, 0, -5⟩ :=
      ⟨fun h => absurd rfl h, fun _ => by norm_num [CoordinateFits, b₁], fun h => absurd rfl h⟩
    have hb₂ : appended .exact b₁ ⟨15, 25, 0, -5⟩ 1000 36 = b₂ := by decide +kernel
    rw [run_appendLine_of_le rfl _ (by decide), appendSegment_done rfl hres (Or.inr rfl) hfits, hb₂]
  have hhold : (holdPositionFor .exact (fun _ => true) 500).run b₂ = .ok () b₃ := by
    rw [run_holdPositionFor rfl, holdSegments, if_pos (by decide), holdSegments,
      if_neg (by decide)]
    rfl
  refine ⟨b₃, b₀, rfl, ?_⟩
  simp only [Option.map_some, Option.toList_some, List.map_cons, List.map_nil, Move.call,
    List.cons_append, List.nil_append, runCalls, Call.action, EStateM.run_bind, hstart, hline,
    hhold, EStateM.run_pure]

/-- What these two moves decode to. -/
theorem builder_roundTrip_twoMoves :
    ∃ b trajectory builder player segments final,
      Trajectory.initFromBuilder .exact b = ok (trajectory, builder) ∧
      trajectory.start = quantise 10 ⟨15, 0, 0, -5⟩ ∧
      rewind .exact trajectory = ok player ∧
      (∀ fuel, b.bytes.length ≤ fuel → walk .exact fuel player = ok (segments, final)) ∧
      Decodes 10 ⟨15, 0, 0, -5⟩ 0
        [.line (fun _ => true) ⟨15, 25, 0, -5⟩ 1000, .hold (fun _ => true) 500] segments ∧
      final.currentSegment.start = trajectory.buffer.length :=
  builds_twoMoves.imp fun _ h => builder_roundTrip h

end Skybrush
