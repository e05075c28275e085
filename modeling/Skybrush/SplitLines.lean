import Skybrush.BuilderFlight
import Skybrush.BuilderPlayback
import Skybrush.Library.NearSegment

/-!
# Splitting Long Lines

A line of more than a minute is stored in pieces: it is cut in two halves, again and again, and
each cut is made between positions that have not been quantised. The pieces end at known
fractions of the line (`TrajectoryBuilder.pieceEnds`), and so what a player finds there is known
from the line and from where the player stands before it (`TrajectoryBuilder.storedAt`). The
line goes straight if these positions are on the way from there to the decoded target
(`OnTheWay`), which is a matter of comparing their coordinates.

For coordinates they are, up to one quantisation step, if the player stands where the line
begins. Yaws are stored modulo 360 degrees, so a piece that ends in another full turn than the
two ends suggest sends the player the other way round. And they are truncated towards zero,
which is not the same on both sides of zero.

## Main results

* `TrajectoryBuilder.plays_lineSegments`: where the pieces of a line end, for a player that stands
  anywhere.
* `exists_near_iff`: when a position is near a point of the way.
* `TrajectoryBuilder.staysOnTheWay_of_keepsTurns`: lines whose yaws keep to the turns of their ends.
* `splitsStraight_iff`: a line that is split goes straight exactly when its pieces stay on the
  way.
-/

namespace Skybrush

open Checked Rounding TrajectoryPlayer

/-! ### Quantised coordinates on a line -/

/-- Rounding down on a line, and rounding down its ends. -/
theorem abs_floor_lerp_le (a b : ℚ) {f : ℚ} (h₀ : 0 ≤ f) (h₁ : f ≤ 1) :
    |(⌊a + f * (b - a)⌋ : ℚ) - (⌊a⌋ + f * (⌊b⌋ - ⌊a⌋))| ≤ 1 := by
  have ha := Int.floor_le a
  have ha' := (Int.lt_floor_add_one a).le
  have hb := Int.floor_le b
  have hb' := (Int.lt_floor_add_one b).le
  have hm := Int.floor_le (a + f * (b - a))
  have hm' := (Int.lt_floor_add_one (a + f * (b - a))).le
  have hlow : 0 ≤ (1 - f) * (a - ⌊a⌋) + f * (b - ⌊b⌋) :=
    add_nonneg (mul_nonneg (by linarith) (by linarith)) (mul_nonneg h₀ (by linarith))
  have hhigh : (1 - f) * (a - ⌊a⌋) + f * (b - ⌊b⌋) ≤ (1 - f) * 1 + f * 1 :=
    add_le_add (mul_le_mul_of_nonneg_left (by linarith) (by linarith))
      (mul_le_mul_of_nonneg_left (by linarith) h₀)
  rw [abs_le]
  constructor <;> linarith

/-- **A quantised coordinate** of a point of a line is near the line between the quantised
ends. -/
theorem nearCoordinate (scale : ℕ) (a b : ℚ) {f : ℚ} (h₀ : 0 ≤ f) (h₁ : f ≤ 1) :
    |quantiseCoordinate scale (a + f * (b - a)) - (quantiseCoordinate scale a +
      f * (quantiseCoordinate scale b - quantiseCoordinate scale a))| ≤ scale := by
  have hpoint : (a + f * (b - a)) / scale = a / scale + f * (b / scale - a / scale) := by ring
  have hdiff : quantiseCoordinate scale (a + f * (b - a)) - (quantiseCoordinate scale a +
      f * (quantiseCoordinate scale b - quantiseCoordinate scale a)) =
      scale * ((⌊a / scale + f * (b / scale - a / scale)⌋ : ℚ) -
        (⌊a / scale⌋ + f * (⌊b / scale⌋ - ⌊a / scale⌋))) := by
    rw [quantiseCoordinate, quantiseCoordinate, quantiseCoordinate, hpoint]
    ring
  rw [hdiff, abs_mul, Nat.abs_cast]
  exact mul_le_of_le_one_right (Nat.cast_nonneg scale) (abs_floor_lerp_le _ _ h₀ h₁)

/-! ### Quantised yaws on a line -/

/-- The full turns of an angle. -/
def fullTurns (angle : ℚ) : ℤ := truncate (10 * angle) / 3600

/-- What is cut off from an angle, in tenths of a degree. -/
def cutOff (angle : ℚ) : ℚ := 10 * angle - truncate (10 * angle)

/-- An angle that is stored. -/
theorem quantiseAngle_eq (angle : ℚ) :
    quantiseAngle angle = (10 * angle - cutOff angle - 3600 * fullTurns angle) / 10 := by
  rw [quantiseAngle, Int.emod_def, cutOff, fullTurns]
  push_cast
  ring

/-- Less than a tenth of a degree is cut off, towards zero. -/
theorem cutOff_of_nonneg {angle : ℚ} (h : 0 ≤ angle) : 0 ≤ cutOff angle ∧ cutOff angle < 1 := by
  have hfloor : truncate (10 * angle) = ⌊10 * angle⌋ := if_pos (by linarith)
  have hle := Int.floor_le (10 * angle)
  have hlt := Int.lt_floor_add_one (10 * angle)
  rw [cutOff, hfloor]
  constructor <;> linarith

theorem cutOff_of_nonpos {angle : ℚ} (h : angle ≤ 0) : -1 < cutOff angle ∧ cutOff angle ≤ 0 := by
  rcases h.eq_or_lt with rfl | hneg
  · simp [cutOff, truncate]
  have hceil : truncate (10 * angle) = ⌈10 * angle⌉ := if_neg (by linarith)
  have hle := Int.le_ceil (10 * angle)
  have hlt := Int.ceil_lt_add_one (10 * angle)
  rw [cutOff, hceil]
  constructor <;> linarith

/-- The full turns that are missing at a fraction of the way from one angle to another. -/
def missingTurns (a b f : ℚ) : ℚ :=
  fullTurns a + f * (fullTurns b - fullTurns a) - fullTurns (a + f * (b - a))

/-- How much more is cut off at a fraction of the way than on the line. -/
def excess (a b f : ℚ) : ℚ := cutOff a + f * (cutOff b - cutOff a) - cutOff (a + f * (b - a))

/-- **The yaw stays on the line** at a fraction of the way from one angle to another: the full
turns are the interpolated ones, and what is cut off is at most a tenth of a degree away from
what is cut off at the ends. The latter is always so for angles of the same sign. -/
structure KeepsTurns (a b f : ℚ) : Prop where
  turns : missingTurns a b f = 0
  cut : |excess a b f| ≤ 1

/-- A quantised yaw differs from the line between the quantised ends by the missing turns and
the excess. -/
theorem quantiseAngle_sub_lerp (a b f : ℚ) :
    quantiseAngle (a + f * (b - a)) -
        (quantiseAngle a + f * (quantiseAngle b - quantiseAngle a)) =
      (excess a b f + 3600 * missingTurns a b f) / 10 := by
  rw [quantiseAngle_eq, quantiseAngle_eq, quantiseAngle_eq, excess, missingTurns]
  ring

/-- For angles of the same sign, no more than a tenth of a degree is in excess. -/
theorem abs_excess_le {a b f : ℚ} (h₀ : 0 ≤ f) (h₁ : f ≤ 1)
    (hsign : 0 ≤ a ∧ 0 ≤ b ∨ a ≤ 0 ∧ b ≤ 0) : |excess a b f| ≤ 1 := by
  have hline : cutOff a + f * (cutOff b - cutOff a) = (1 - f) * cutOff a + f * cutOff b := by ring
  have hpoint : a + f * (b - a) = (1 - f) * a + f * b := by ring
  have hrest : 0 ≤ 1 - f := by linarith
  rw [excess, hline, hpoint, abs_le]
  rcases hsign with ⟨ha, hb⟩ | ⟨ha, hb⟩
  · have hm := cutOff_of_nonneg (add_nonneg (mul_nonneg hrest ha) (mul_nonneg h₀ hb))
    have hlow := add_nonneg (mul_nonneg hrest (cutOff_of_nonneg ha).1)
      (mul_nonneg h₀ (cutOff_of_nonneg hb).1)
    have hhigh := add_le_add (mul_le_mul_of_nonneg_left (cutOff_of_nonneg ha).2.le hrest)
      (mul_le_mul_of_nonneg_left (cutOff_of_nonneg hb).2.le h₀)
    constructor <;> linarith [hm.1, hm.2]
  · have hm := cutOff_of_nonpos (add_nonpos (mul_nonpos_of_nonneg_of_nonpos hrest ha)
      (mul_nonpos_of_nonneg_of_nonpos h₀ hb))
    have hlow := add_le_add (mul_le_mul_of_nonneg_left (cutOff_of_nonpos ha).1.le hrest)
      (mul_le_mul_of_nonneg_left (cutOff_of_nonpos hb).1.le h₀)
    have hhigh := add_nonpos (mul_nonpos_of_nonneg_of_nonpos hrest (cutOff_of_nonpos ha).2)
      (mul_nonpos_of_nonneg_of_nonpos h₀ (cutOff_of_nonpos hb).2)
    constructor <;> linarith [hm.1, hm.2]

/-- **Between two yaws of the first turn**, the yaw stays on the line. -/
theorem keepsTurns_of_lt {a b f : ℚ} (h₀ : 0 ≤ f) (h₁ : f ≤ 1) (ha : 0 ≤ a ∧ a < 360)
    (hb : 0 ≤ b ∧ b < 360) : KeepsTurns a b f := by
  have hturns : ∀ {angle : ℚ}, 0 ≤ angle ∧ angle < 360 → fullTurns angle = 0 := by
    rintro angle ⟨hlow, hhigh⟩
    have hfloor : truncate (10 * angle) = ⌊10 * angle⌋ := if_pos (by linarith)
    have hnonneg : 0 ≤ ⌊10 * angle⌋ := Int.floor_nonneg.mpr (by linarith)
    have hlt : ⌊10 * angle⌋ < 3600 := Int.floor_lt.mpr (by push_cast; linarith)
    rw [fullTurns, hfloor, Int.ediv_eq_zero_of_lt hnonneg hlt]
  have hpoint : a + f * (b - a) = (1 - f) * a + f * b := by ring
  have hlow := add_nonneg (mul_nonneg (sub_nonneg.mpr h₁) ha.1) (mul_nonneg h₀ hb.1)
  have hhigh : (1 - f) * a + f * b < 360 := by
    rcases h₀.eq_or_lt with rfl | hpos
    · linarith [ha.2]
    · linarith [mul_le_mul_of_nonneg_left ha.2.le (sub_nonneg.mpr h₁),
        mul_lt_mul_of_pos_left hb.2 hpos]
  refine ⟨?_, abs_excess_le h₀ h₁ (.inl ⟨ha.1, hb.1⟩)⟩
  rw [missingTurns, hturns ha, hturns hb, hpoint, hturns ⟨hlow, hhigh⟩]
  simp

/-- **A quantised yaw** that stays on the line is near the line between the quantised ends. -/
theorem KeepsTurns.near {a b f : ℚ} (h : KeepsTurns a b f) :
    |quantiseAngle (a + f * (b - a)) -
        (quantiseAngle a + f * (quantiseAngle b - quantiseAngle a))| ≤ 1 / 10 := by
  rw [quantiseAngle_sub_lerp, abs_div, abs_of_pos (by norm_num : (0 : ℚ) < 10),
    div_le_div_iff_of_pos_right (by norm_num), h.turns, mul_zero, add_zero]
  exact h.cut

/-! ### Where the pieces end -/

namespace TrajectoryBuilder

/-- The fractions of a line at which the pieces end, for a part of it. -/
def pieceEnds (t share : ℚ) (durationMsec : ℕ) : List ℚ :=
  if maxDurationMsec < durationMsec then
    pieceEnds t (share / 2) (durationMsec / 2) ++
      pieceEnds (t + share / 2) (share / 2) (durationMsec - durationMsec / 2)
  else
    [t + share]
termination_by durationMsec
decreasing_by
  all_goals simp only [maxDurationMsec] at *; omega

variable {t share : ℚ}

/-- The pieces of a part of a line end there, the last one where the part ends. -/
theorem mem_pieceEnds (hshare : 0 ≤ share) (durationMsec : ℕ) :
    t + share ∈ pieceEnds t share durationMsec ∧
      ∀ f ∈ pieceEnds t share durationMsec, t ≤ f ∧ f ≤ t + share := by
  induction t, share, durationMsec using pieceEnds.induct with
  | case1 t share durationMsec hlong ihFirst ihSecond =>
      have hhalf : 0 ≤ share / 2 := by linarith
      have hsum : t + share / 2 + share / 2 = t + share := by ring
      obtain ⟨-, hfirst⟩ := ihFirst hhalf
      obtain ⟨hlast, hsecond⟩ := ihSecond hhalf
      rw [hsum] at hlast
      rw [pieceEnds, if_pos hlong]
      refine ⟨List.mem_append_right _ hlast, fun f hf => ?_⟩
      rcases List.mem_append.mp hf with hf | hf
      · have := hfirst f hf
        constructor <;> linarith
      · have := hsecond f hf
        constructor <;> linarith
  | case2 t share durationMsec hshort =>
      rw [pieceEnds, if_neg hshort]
      refine ⟨List.mem_singleton_self _, fun f hf => ?_⟩
      rw [List.mem_singleton.mp hf]
      exact ⟨by linarith, le_rfl⟩

/-! ### What is stored where the pieces end -/

variable {scale : ℕ} {p s last target : Vector3WithYaw} {f : ℚ}

/-- The position that a player reaches where a piece of a line ends, if it stands at `p` before
the line: it keeps the coordinates in which the ends of the line agree. -/
def storedAt (scale : ℕ) (p last target : Vector3WithYaw) (f : ℚ) : Vector3WithYaw where
  x := if last.x ≠ target.x then quantiseCoordinate scale (last.lerp target f).x else p.x
  y := if last.y ≠ target.y then quantiseCoordinate scale (last.lerp target f).y else p.y
  z := if last.z ≠ target.z then quantiseCoordinate scale (last.lerp target f).z else p.z
  yaw := if last.yaw ≠ target.yaw then quantiseAngle (last.lerp target f).yaw else p.yaw

/-- Two positions of a player that agree in the coordinates that a line does not change. -/
structure Agrees (last target p s : Vector3WithYaw) : Prop where
  x : last.x = target.x → s.x = p.x
  y : last.y = target.y → s.y = p.y
  z : last.z = target.z → s.z = p.z
  yaw : last.yaw = target.yaw → s.yaw = p.yaw

theorem agrees_storedAt (scale : ℕ) (p last target : Vector3WithYaw) (f : ℚ) :
    Agrees last target p (storedAt scale p last target f) :=
  ⟨fun h => if_neg (not_not.mpr h), fun h => if_neg (not_not.mpr h),
    fun h => if_neg (not_not.mpr h), fun h => if_neg (not_not.mpr h)⟩

/-- Two points of a line differ in the coordinates in which its ends do. -/
theorem arrival_lerp (hshare : share ≠ 0) (h : Agrees last target p s) :
    arrival scale s (last.lerp target t) (last.lerp target (t + share)) =
      storedAt scale p last target (t + share) := by
  have hiff : ∀ a b : ℚ, a + t * (b - a) ≠ a + (t + share) * (b - a) ↔ a ≠ b := by
    intro a b
    refine not_congr ⟨fun heq => ?_, fun heq => by rw [heq]; ring⟩
    have hzero : share * (b - a) = 0 := by linear_combination -heq
    exact (sub_eq_zero.mp ((mul_eq_zero.mp hzero).resolve_left hshare)).symm
  have hcoordinate : ∀ {a b value old new : ℚ}, (a = b → new = old) →
      (if a + t * (b - a) ≠ a + (t + share) * (b - a) then value else new) =
        if a ≠ b then value else old := by
    intro a b value old new hold
    by_cases hab : a = b
    · rw [if_neg ((hiff a b).not.mpr (not_not.mpr hab)), if_neg (not_not.mpr hab), hold hab]
    · rw [if_pos ((hiff a b).mpr hab), if_pos hab]
  simp only [arrival, storedAt, Vector3WithYaw.lerp, Vector3WithYaw.mk.injEq]
  exact ⟨hcoordinate h.x, hcoordinate h.y, hcoordinate h.z, hcoordinate h.yaw⟩

/-- **The pieces of a line**: where each of them is decoded to end, for a player that stands
anywhere. By induction on the halvings, the player stands where the part before has ended. -/
theorem plays_lineSegments (hshare : 0 < share) (h : Agrees last target p s)
    (durationMsec time : ℕ) :
    arrivalOf scale s (last.lerp target t) (lineSegments .exact (last.lerp target t)
        (last.lerp target (t + share)) durationMsec) = storedAt scale p last target (t + share) ∧
      List.Forall₂ (fun piece f => piece.poly.eval .exact 1 = storedAt scale p last target f)
        (playSegments scale s (last.lerp target t) time (lineSegments .exact (last.lerp target t)
          (last.lerp target (t + share)) durationMsec))
        (pieceEnds t share durationMsec) := by
  induction t, share, durationMsec using pieceEnds.induct generalizing s time with
  | case1 t share durationMsec hlong ihFirst ihSecond =>
      have hhalf : 0 < share / 2 := half_pos hshare
      have hsum : t + share / 2 + share / 2 = t + share := by ring
      obtain ⟨harrive, hfirst⟩ := ihFirst hhalf h time
      have hrest := ihSecond hhalf (agrees_storedAt scale p last target (t + share / 2))
        (timeAfter time (lineSegments .exact (last.lerp target t)
          (last.lerp target (t + share / 2)) (durationMsec / 2)))
      rw [hsum] at hrest
      rw [lineSegments, pieceEnds, if_pos hlong, if_pos hlong, midpoint_lerp, arrivalOf_append,
        playSegments_append, harrive,
        (@splits_lineSegments .exact _ _ (durationMsec / 2)).1.endOf_eq]
      exact ⟨hrest.1, List.rel_append hfirst hrest.2⟩
  | case2 t share durationMsec hshort =>
      have harrive := @arrival_lerp t share scale p s last target hshare.ne' h
      rw [lineSegments, pieceEnds, if_neg hshort, if_neg hshort]
      exact ⟨harrive, .cons ((eval_playedCurve_one _ _ _ _).trans harrive) .nil⟩

end TrajectoryBuilder

/-! ### Lines that go straight -/

/-- Two positions that differ by no more than a quantisation step. -/
structure Near (scale : ℕ) (p q : Vector3WithYaw) : Prop where
  x : |p.x - q.x| ≤ scale
  y : |p.y - q.y| ≤ scale
  z : |p.z - q.z| ≤ scale
  yaw : |p.yaw - q.yaw| ≤ 1 / 10

/-- The coordinates of a position, as seen from another one. -/
def Vector3WithYaw.coordinatesFrom (p m : Vector3WithYaw) : Fin 4 → ℚ :=
  ![m.x - p.x, m.y - p.y, m.z - p.z, m.yaw - p.yaw]

/-- A quantisation step in each coordinate. -/
def quantisationSteps (scale : ℕ) : Fin 4 → ℚ := ![scale, scale, scale, 1 / 10]

/-- A position is on the way from one to another, up to a quantisation step: each of its coordinates
is in the range between the two, and every two coordinates of it are aligned with theirs. -/
structure OnTheWay (scale : ℕ) (p q m : Vector3WithYaw) : Prop where
  inRange : ∀ i, NearSegment.InRange (quantisationSteps scale i) (p.coordinatesFrom q i)
    (p.coordinatesFrom m i)
  aligned : ∀ i j, NearSegment.Aligned (quantisationSteps scale i) (p.coordinatesFrom q i)
    (p.coordinatesFrom m i) (quantisationSteps scale j) (p.coordinatesFrom q j)
    (p.coordinatesFrom m j)

/-- **A position is on the way** exactly if it is near one point of it. -/
theorem exists_near_iff {scale : ℕ} (hpos : 0 < scale) (p q m : Vector3WithYaw) :
    (∃ f, 0 ≤ f ∧ f ≤ 1 ∧ Near scale m (p.lerp q f)) ↔ OnTheWay scale p q m := by
  have hsteps : ∀ i, 0 < quantisationSteps scale i := by
    have hscale : (0 : ℚ) < scale := by exact_mod_cast hpos
    intro i
    fin_cases i
    · exact hscale
    · exact hscale
    · exact hscale
    · exact (by norm_num : (0 : ℚ) < 1 / 10)
  have hnear : ∀ f, Near scale m (p.lerp q f) ↔ ∀ i,
      |p.coordinatesFrom m i - f * p.coordinatesFrom q i| ≤ quantisationSteps scale i := by
    have hrearrange : ∀ a b c f : ℚ, c - (a + f * (b - a)) = c - a - f * (b - a) := by
      intro a b c f
      ring
    intro f
    rw [Fin.forall_fin_succ, Fin.forall_fin_succ, Fin.forall_fin_succ, Fin.forall_fin_one]
    constructor
    · rintro ⟨hx, hy, hz, hyaw⟩
      simp only [Vector3WithYaw.lerp, hrearrange] at hx hy hz hyaw
      exact ⟨hx, hy, hz, hyaw⟩
    · rintro ⟨hx, hy, hz, hyaw⟩
      refine ⟨?_, ?_, ?_, ?_⟩ <;> simp only [Vector3WithYaw.lerp, hrearrange]
      · exact hx
      · exact hy
      · exact hz
      · exact hyaw
  simp only [hnear]
  rw [NearSegment.exists_fraction_iff hsteps]
  exact ⟨fun h => ⟨h.1, h.2⟩, fun h => ⟨h.inRange, h.aligned⟩⟩

namespace TrajectoryBuilder

/-- A line was appended as if it were a single segment: the player finds new segments behind the
old ones that are joined and take as long as the line, and each of them ends, at one and the same
fraction of the way in all coordinates, on the line from the decoded position before to the
decoded target. -/
def SplitsStraight (b b' : TrajectoryBuilder) (durationMsec : ℕ) : Prop :=
  ∃ p q before pieces, playerAtEnd b.bytes = ok p ∧ playerAtEnd b'.bytes = ok q ∧
    decoded b.bytes = ok before ∧ decoded b'.bytes = ok (before ++ pieces) ∧
    (∃ time time', Joined p time pieces q time') ∧
    (pieces.map TrajectorySegment.durationMsec).sum = durationMsec ∧
    ∀ piece ∈ pieces, ∃ f, 0 ≤ f ∧ f ≤ 1 ∧ Near b.scale (piece.poly.eval .exact 1) (p.lerp q f)

/-- **The condition on a line**: a player gets to the end of the bytes, and what is stored where
the pieces of the line end is on the way from where it stands to what is stored at the target. -/
def StaysOnTheWay (b : TrajectoryBuilder) (target : Vector3WithYaw) (durationMsec : ℕ) : Prop :=
  ∃ p, playerAtEnd b.bytes = ok p ∧ ∀ f ∈ pieceEnds 0 1 durationMsec,
    OnTheWay b.scale p (storedAt b.scale p b.lastPosition target 1)
      (storedAt b.scale p b.lastPosition target f)

/-- A relation between two lists, in terms of their elements. -/
theorem forall_iff_of_forall₂ {α β : Type} {R : α → β → Prop} {P : α → Prop} {Q : β → Prop}
    {l : List α} {m : List β} (h : List.Forall₂ R l m) (hiff : ∀ a b, R a b → (P a ↔ Q b)) :
    (∀ a ∈ l, P a) ↔ ∀ b ∈ m, Q b := by
  induction h with
  | nil => simp
  | cons hab _ ih => rw [List.forall_mem_cons, List.forall_mem_cons, hiff _ _ hab, ih]

/-- **Appending a line** to a valid builder. -/
theorem Valid.straight_iff {b b' : TrajectoryBuilder} (h : b.Valid) {alloc : Allocator}
    {target : Vector3WithYaw} {durationMsec : ℕ}
    (hrun : (appendLine .exact alloc target durationMsec).run b = .ok () b') :
    SplitsStraight b b' durationMsec ↔ StaysOnTheWay b target durationMsec := by
  have hline : Written .exact b (lineSegments .exact b.lastPosition target durationMsec) b' :=
    @written_call .exact b b' h.owned (.line alloc target durationMsec) hrun
  have hsplits := (@splits_lineSegments .exact b.lastPosition target durationMsec).1
  have hplayed : ∀ p, playerAtEnd b.bytes = ok p → ∃ before pieces,
      playerAtEnd b'.bytes = ok (storedAt b.scale p b.lastPosition target 1) ∧
      decoded b.bytes = ok before ∧ decoded b'.bytes = ok (before ++ pieces) ∧
      (∃ time time', Joined p time pieces (storedAt b.scale p b.lastPosition target 1) time') ∧
      (pieces.map TrajectorySegment.durationMsec).sum = durationMsec ∧
      List.Forall₂ (fun piece f => piece.poly.eval .exact 1 =
        storedAt b.scale p b.lastPosition target f) pieces (pieceEnds 0 1 durationMsec) := by
    intro p hp
    obtain ⟨before, time, hbefore, hplayer, hpieces⟩ :=
      playback_append h.hasScale h.scale_pos hp hsplits.short hline.fits
    obtain ⟨harrive, hends⟩ := @plays_lineSegments 0 1 b.scale p p b.lastPosition target one_pos
      ⟨fun _ => rfl, fun _ => rfl, fun _ => rfl, fun _ => rfl⟩ durationMsec time
    rw [zero_add, Vector3WithYaw.lerp_zero, Vector3WithYaw.lerp_one] at harrive hends
    have hjoined := joined_playSegments b.scale hsplits.short p b.lastPosition time
    rw [← hline.bytes_eq, harrive] at hplayer
    rw [← hline.bytes_eq] at hpieces
    rw [harrive] at hjoined
    exact ⟨before, _, hplayer, hbefore, hpieces, ⟨_, _, hjoined⟩,
      (sum_playSegments _ _ _ _ _).trans hsplits.sum_eq, hends⟩
  have hstraight : ∀ {p : Vector3WithYaw} {pieces : List TrajectorySegment},
      List.Forall₂ (fun piece f => piece.poly.eval .exact 1 =
        storedAt b.scale p b.lastPosition target f) pieces (pieceEnds 0 1 durationMsec) →
      ((∀ piece ∈ pieces, ∃ f, 0 ≤ f ∧ f ≤ 1 ∧ Near b.scale (piece.poly.eval .exact 1)
          (p.lerp (storedAt b.scale p b.lastPosition target 1) f)) ↔
        ∀ f ∈ pieceEnds 0 1 durationMsec, OnTheWay b.scale p
          (storedAt b.scale p b.lastPosition target 1)
          (storedAt b.scale p b.lastPosition target f)) := fun hends =>
    forall_iff_of_forall₂ hends fun piece f hend => by rw [hend, exists_near_iff h.scale_pos]
  constructor
  · rintro ⟨p, q, before, pieces, hp, hq, hbefore, hpieces, -, -, hnear⟩
    obtain ⟨before', pieces', hq', hbefore', hpieces', -, -, hends⟩ := hplayed p hp
    rw [hq', ok.injEq] at hq
    rw [hbefore', ok.injEq] at hbefore
    rw [hpieces', ok.injEq, hbefore, List.append_cancel_left_eq] at hpieces
    subst hq hpieces
    exact ⟨p, hp, (hstraight hends).mp hnear⟩
  · rintro ⟨p, hp, hway⟩
    obtain ⟨before, pieces, hq, hbefore, hpieces, hjoined, hsum, hends⟩ := hplayed p hp
    exact ⟨p, _, before, pieces, hp, hq, hbefore, hpieces, hjoined, hsum,
      (hstraight hends).mpr hway⟩

/-! ### Lines that go straight by their turns -/

/-- A coordinate of a line goes straight for a player if it does not change, or if the player
stands where the line begins, quantised. -/
theorem near_stored {quantise : ℚ → ℚ} {p a b f bound : ℚ} (hbound : 0 ≤ bound)
    (h : a = b ∨ p = quantise a ∧
      |quantise (a + f * (b - a)) - (quantise a + f * (quantise b - quantise a))| ≤ bound) :
    |(if a ≠ b then quantise (a + f * (b - a)) else p) -
      (p + f * ((if a ≠ b then quantise (a + 1 * (b - a)) else p) - p))| ≤ bound := by
  by_cases hab : a = b
  · rw [if_neg (not_not.mpr hab), if_neg (not_not.mpr hab)]
    simpa using hbound
  · obtain ⟨rfl, hnear⟩ := h.resolve_left hab
    have hone : a + 1 * (b - a) = b := by ring
    rwa [if_pos hab, if_pos hab, hone]

/-- **A line goes straight** if a player stands where the coordinates that change begin, quantised,
and wherever a piece ends the yaw stays on the line between the yaws of its ends. -/
theorem staysOnTheWay_of_keepsTurns {b : TrajectoryBuilder} (hpos : 0 < b.scale)
    {p target : Vector3WithYaw} {durationMsec : ℕ} (hp : playerAtEnd b.bytes = ok p)
    (hx : b.lastPosition.x = target.x ∨ p.x = quantiseCoordinate b.scale b.lastPosition.x)
    (hy : b.lastPosition.y = target.y ∨ p.y = quantiseCoordinate b.scale b.lastPosition.y)
    (hz : b.lastPosition.z = target.z ∨ p.z = quantiseCoordinate b.scale b.lastPosition.z)
    (hyaw : b.lastPosition.yaw = target.yaw ∨ p.yaw = quantiseAngle b.lastPosition.yaw ∧
      ∀ f ∈ pieceEnds 0 1 durationMsec, KeepsTurns b.lastPosition.yaw target.yaw f) :
    StaysOnTheWay b target durationMsec := by
  refine ⟨p, hp, fun f hf => (exists_near_iff hpos _ _ _).mp ?_⟩
  obtain ⟨h₀, h₁⟩ := (@mem_pieceEnds 0 1 zero_le_one durationMsec).2 f hf
  rw [zero_add] at h₁
  have hscale : (0 : ℚ) ≤ b.scale := Nat.cast_nonneg _
  have hnear := fun a c => nearCoordinate b.scale a c h₀ h₁
  exact ⟨f, h₀, h₁, near_stored hscale (hx.imp_right fun h => ⟨h, hnear _ _⟩),
    near_stored hscale (hy.imp_right fun h => ⟨h, hnear _ _⟩),
    near_stored hscale (hz.imp_right fun h => ⟨h, hnear _ _⟩),
    near_stored (by norm_num) (hyaw.imp_right fun h => ⟨h.1, (h.2 f hf).near⟩)⟩

/-- **Between two yaws of the first turn**, lines of builders in step with a player go straight. -/
theorem InStep.staysOnTheWay {b : TrajectoryBuilder} (h : b.InStep) (hpos : 0 < b.scale)
    {target : Vector3WithYaw} (durationMsec : ℕ)
    (hlast : 0 ≤ b.lastPosition.yaw ∧ b.lastPosition.yaw < 360)
    (htarget : 0 ≤ target.yaw ∧ target.yaw < 360) : StaysOnTheWay b target durationMsec := by
  refine staysOnTheWay_of_keepsTurns hpos h.playerAgrees (.inr rfl) (.inr rfl) (.inr rfl)
    (.inr ⟨rfl, fun f hf => ?_⟩)
  obtain ⟨h₀, h₁⟩ := (@mem_pieceEnds 0 1 zero_le_one durationMsec).2 f hf
  rw [zero_add] at h₁
  exact keepsTurns_of_lt h₀ h₁ hlast htarget

end TrajectoryBuilder

open TrajectoryBuilder

/-- The builder that is left behind when a trajectory to (0, 25, 0) was handed over. -/
def handedOver : TrajectoryBuilder :=
  ⟨⟨[10, 0, 0, 0, 0, 0, 0, 0, 0], 9, true⟩, ⟨0, 25, 0, 0⟩, 10⟩

theorem reachable_handedOver : Reachable handedOver := by
  have hfits : SegmentFits .exact scaleTen.scale scaleTen.lastPosition ⟨0, 25, 0, 0⟩ :=
    ⟨fun h => absurd rfl h, fun _ => by norm_num [CoordinateFits, scaleTen],
      fun h => absurd rfl h⟩
  have hcall := Reachable.call (.appendLine (fun _ => true) ⟨0, 25, 0, 0⟩ 1000)
    (@Reachable.init 10 0 scaleTen rfl)
  rw [Call.after, Call.action, scaleTen_line hfits] at hcall
  exact .handOver hcall rfl

/-- A builder with scale 10 that stands at a yaw of 350 degrees. -/
def facing350 : TrajectoryBuilder :=
  ⟨⟨[10, 0, 0, 0, 0, 0, 0, 172, 13], 9, true⟩, ⟨0, 0, 0, 350⟩, 10⟩

theorem reachable_facing350 : Reachable facing350 := by
  have hcall :=
    Reachable.call (.setStartPosition ⟨0, 0, 0, 350⟩) (@Reachable.init 10 0 scaleTen rfl)
  have hzero : scaleCoordinate .exact scaleTen.scale 0 = .ok 0 := by decide +kernel
  have hangle : scaleAngle .exact 350 = 3500 := by decide +kernel
  rw [Call.after, Call.action, run_setStartPosition _ rfl, hzero, hangle] at hcall
  exact hcall

end Skybrush
