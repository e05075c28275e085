import Skybrush.StoredTrajectory
import Skybrush.TrajectorySafety

/-!
# Evaluating Trajectories

A player that is asked for a position walks on from the segment at which it stands, and
rewinds before that when the time is earlier than the segment. In exact arithmetic it returns
the value of the piecewise curve of the trajectory, wherever it stood: at the boundary of two
segments it may be at the end of one or at the start of the other, where the curve is the
same.

## Main results

* `StoredSegment.positionAt_append`: behind some segments, only the others matter.
* `StoredTrajectory.Timed.seekToTime`: a seek finds the value of the curve.
* `StoredTrajectory.Timed.run`: no operation leaves the segments of the trajectory.
* `position_at_any_history`: the position does not depend on what was asked before.
-/

namespace Skybrush

open Checked

/-! ### The piecewise curve -/

namespace StoredSegment

/-- The position at `t` milliseconds, on segments that begin at a position and a time. Behind
the last segment the position is held. -/
def positionAt (scale : ℕ) (t : ℚ) : Vector3WithYaw → ℕ → List StoredSegment → Vector3WithYaw
  | start, _, [] => start
  | start, time, s :: rest =>
      if t ≤ (time + s.durationMsec.toNat : ℕ) then
        s.curve scale start ((t - time) / s.durationMsec.toNat)
      else
        positionAt scale t (s.curve scale start 1) (time + s.durationMsec.toNat) rest

/-- The curve begins at its start position. -/
theorem positionAt_start (scale time : ℕ) (start : Vector3WithYaw) (segments : List StoredSegment) :
    positionAt scale time start time segments = start := by
  cases segments with
  | nil => rfl
  | cons s rest =>
      have hle : (time : ℚ) ≤ (time + s.durationMsec.toNat : ℕ) := by
        exact_mod_cast Nat.le_add_right _ _
      rw [positionAt, if_pos hle, sub_self, zero_div, curve_zero]

theorem totalDuration_append (segments segments' : List StoredSegment) :
    totalDuration (segments ++ segments') = totalDuration segments + totalDuration segments' := by
  simp only [totalDuration, List.map_append, List.sum_append]

theorem totalDuration_concat (segments : List StoredSegment) (s : StoredSegment) :
    totalDuration (segments ++ [s]) = totalDuration segments + s.durationMsec.toNat := by
  rw [totalDuration_append, totalDuration_cons]
  rfl

theorem endPosition_concat (scale : ℕ) (start : Vector3WithYaw) (segments : List StoredSegment)
    (s : StoredSegment) :
    endPosition scale start (segments ++ [s]) =
      s.curve scale (endPosition scale start segments) 1 := by
  simp only [endPosition, List.foldl_append, List.foldl_cons, List.foldl_nil]

/-- **Behind some segments** that take time, only the others matter. -/
theorem positionAt_append (scale : ℕ) {t : ℚ} {done : List StoredSegment}
    (hpos : ∀ s ∈ done, 0 < s.durationMsec.toNat) (rest : List StoredSegment)
    (start : Vector3WithYaw) (time : ℕ) (h : ((time + totalDuration done : ℕ) : ℚ) ≤ t) :
    positionAt scale t start time (done ++ rest) =
      positionAt scale t (endPosition scale start done) (time + totalDuration done) rest := by
  induction done generalizing start time with
  | nil => rfl
  | cons s done ih =>
      rw [totalDuration_cons, ← Nat.add_assoc] at h ⊢
      have hrest := ih (fun s hs => hpos s (List.mem_cons_of_mem _ hs)) (s.curve scale start 1)
        (time + s.durationMsec.toNat) h
      rw [List.cons_append, positionAt]
      split
      case isTrue hle =>
        -- the time is where the first segment ends, and the others begin
        have htime : t = (time + s.durationMsec.toNat : ℕ) := by
          refine le_antisymm hle (le_trans ?_ h)
          exact_mod_cast Nat.le_add_right _ _
        have hne : (s.durationMsec.toNat : ℚ) ≠ 0 := by
          exact_mod_cast (hpos s (List.mem_cons_self ..)).ne'
        have hone : (t - time) / s.durationMsec.toNat = 1 := by
          rw [htime]
          push_cast
          rw [add_sub_cancel_left, div_self hne]
        rw [htime, positionAt_start, ← htime] at hrest
        rw [hone]
        exact hrest
      case isFalse => exact hrest

end StoredSegment

namespace StoredTrajectory

open StoredSegment TrajectoryPlayer

/-- The position behind the last segment. -/
def finalPosition (t : StoredTrajectory) : Vector3WithYaw :=
  endPosition t.scale t.start t.segments

/-- The position at a time in seconds: on the piecewise curve, but at the start until time
zero. -/
def positionAt (t : StoredTrajectory) : TimeSec → Vector3WithYaw
  | .finite time =>
      if time ≤ 0 then t.start
      else StoredSegment.positionAt t.scale (1000 * time) t.start 0 t.segments
  | .infinity => t.finalPosition
  | .negInfinity => t.start
  | .nan => t.start

/-- Every segment takes some time, and the times fit into 32 bits. -/
structure Timed (t : StoredTrajectory) : Prop where
  pos : ∀ s ∈ t.segments, 0 < s.durationMsec.toNat
  fits : totalDuration t.segments < 2 ^ 32

variable {t : StoredTrajectory}

/-- At the end of the trajectory and behind it, the final position is held. -/
theorem Timed.positionAt_of_le (h : t.Timed) {time : ℚ}
    (hle : (totalDuration t.segments : ℚ) ≤ 1000 * time) :
    StoredSegment.positionAt t.scale (1000 * time) t.start 0 t.segments = t.finalPosition := by
  have happend := positionAt_append t.scale h.pos [] t.start 0 (t := 1000 * time)
    (by rwa [Nat.zero_add])
  rwa [List.append_nil] at happend

/-! ### Where a player stands -/

/-- Where a player of a trajectory can stand: at one of its segments or behind the last one,
at the time at which they have passed. A player that was moved on behind the end stands
there at a later time. -/
inductive Stands (t : StoredTrajectory) : CurrentSegment → Prop
  | segment {done rest : List StoredSegment} (hsplit : t.segments = done ++ rest) :
      Stands t (current t.scale (t.header ++ done.flatMap StoredSegment.bytes).length
        (totalDuration done) (endPosition t.scale t.start done) rest)
  | behind {time : ℕ} (hle : totalDuration t.segments ≤ time) :
      Stands t (current t.scale t.bytes.length time t.finalPosition [])

/-- Rewinding goes to the first segment. -/
theorem stands_rewind (t : StoredTrajectory) :
    t.Stands (current t.scale t.header.length 0 t.start t.segments) := by
  have h := @Stands.segment t [] t.segments rfl
  rwa [List.flatMap_nil, List.append_nil] at h

/-- **Moving on** from a segment goes to the next one, at a time that may wrap around. -/
theorem buildNext_split {done rest : List StoredSegment} {s : StoredSegment}
    (hsplit : t.segments = done ++ s :: rest) (time : ℕ) :
    buildNextSegment .exact ⟨t.trajectory, current t.scale
        (t.header ++ done.flatMap StoredSegment.bytes).length time
        (endPosition t.scale t.start done) (s :: rest)⟩ =
      ok ⟨t.trajectory, current t.scale
        (t.header ++ (done ++ [s]).flatMap StoredSegment.bytes).length
        ((time + s.durationMsec.toNat) % 2 ^ 32)
        (endPosition t.scale t.start (done ++ [s])) rest⟩ := by
  have hbuffer : t.trajectory.buffer =
      (t.header ++ done.flatMap StoredSegment.bytes) ++
        (s :: rest).flatMap StoredSegment.bytes := by
    rw [trajectory, bytes, hsplit, List.flatMap_append, List.append_assoc]
  have hscale : t.trajectory.scale ≠ 0 := t.scale_ne (by simp [hsplit])
  have hbytes : t.header ++ (done ++ [s]).flatMap StoredSegment.bytes =
      t.header ++ done.flatMap StoredSegment.bytes ++ s.bytes := by
    rw [List.flatMap_append, List.flatMap_singleton, List.append_assoc]
  rw [hbytes, endPosition_concat]
  exact buildNext time (endPosition t.scale t.start done) hbuffer hscale

/-- Moving on from a segment that begins when those before it have passed. -/
theorem buildNext_segment (hfits : totalDuration t.segments < 2 ^ 32)
    {done rest : List StoredSegment} {s : StoredSegment} (hsplit : t.segments = done ++ s :: rest) :
    buildNextSegment .exact ⟨t.trajectory, current t.scale
        (t.header ++ done.flatMap StoredSegment.bytes).length (totalDuration done)
        (endPosition t.scale t.start done) (s :: rest)⟩ =
      ok ⟨t.trajectory, current t.scale
        (t.header ++ (done ++ [s]).flatMap StoredSegment.bytes).length
        (totalDuration (done ++ [s])) (endPosition t.scale t.start (done ++ [s])) rest⟩ := by
  have hwrap : (totalDuration done + s.durationMsec.toNat) % 2 ^ 32 =
      totalDuration (done ++ [s]) := by
    rw [hsplit, totalDuration_append, totalDuration_cons] at hfits
    rw [totalDuration_concat, Nat.mod_eq_of_lt (by omega)]
  rw [buildNext_split hsplit, hwrap]

/-- Behind the last segment, moving on stays there. -/
theorem buildNext_behind (time : ℕ) (position : Vector3WithYaw) :
    buildNextSegment .exact ⟨t.trajectory, current t.scale t.bytes.length time position []⟩ =
      ok ⟨t.trajectory, current t.scale t.bytes.length (2 ^ 32 - 1) position []⟩ := by
  have hbuild := @build t.trajectory t.bytes [] (2 ^ 32 - 1) position (List.append_nil _).symm
    (absurd rfl)
  have heval := eval_restSegment time position 1
  rw [buildNextSegment]
  simp only [current, heval, Nat.add_zero]
  exact hbuild

/-- **Moving on** keeps a player at the trajectory. -/
theorem Stands.buildNext {segment : CurrentSegment} (h : t.Stands segment)
    (hfits : totalDuration t.segments < 2 ^ 32) :
    ∃ segment', buildNextSegment .exact ⟨t.trajectory, segment⟩ = ok ⟨t.trajectory, segment'⟩ ∧
      t.Stands segment' := by
  have hbehind : t.Stands (current t.scale t.bytes.length (2 ^ 32 - 1) t.finalPosition []) :=
    .behind (Nat.le_pred_of_lt hfits)
  cases h with
  | @segment done rest hsplit =>
      cases rest with
      | nil =>
          rw [List.append_nil] at hsplit
          subst hsplit
          exact ⟨_, buildNext_behind _ _, hbehind⟩
      | cons s rest =>
          exact ⟨_, buildNext_segment hfits hsplit,
            .segment (hsplit.trans (List.append_cons done s rest))⟩
  | behind => exact ⟨_, buildNext_behind _ _, hbehind⟩

/-! ### Seeking -/

/-- A seek succeeds, stays at the trajectory, and finds a position: the value of the current
segment at a relative time between zero and one. -/
def SeeksTo (t : StoredTrajectory) (position : Vector3WithYaw)
    (x : Checked SbError (ℚ × TrajectoryPlayer)) : Prop :=
  ∃ rel segment, x = ok (rel, ⟨t.trajectory, segment⟩) ∧ t.Stands segment ∧ 0 ≤ rel ∧ rel ≤ 1 ∧
    segment.data.poly.eval .exact rel = position

theorem toSeconds_exact (msec : ℕ) : toSeconds .exact msec = msec / 1000 := rfl

/-- A time in seconds is before one in milliseconds. -/
theorem isBefore_toSeconds (x : ℚ) (msec : ℕ) :
    (TimeSec.finite x).isBefore (toSeconds .exact msec) = decide (1000 * x < msec) := by
  rw [toSeconds_exact, TimeSec.isBefore, decide_eq_decide, lt_div_iff₀ (by norm_num), mul_comm]

/-- A time in seconds is after one in milliseconds. -/
theorem isAfter_toSeconds (x : ℚ) (msec : ℕ) :
    (TimeSec.finite x).isAfter (toSeconds .exact msec : ℚ) = decide ((msec : ℚ) < 1000 * x) := by
  refine decide_eq_decide.mpr ?_
  rw [WithTop.coe_lt_coe, toSeconds_exact, div_lt_iff₀ (by norm_num), mul_comm]

theorem startTimeSec_current (scale offset time : ℕ) (start : Vector3WithYaw)
    (segments : List StoredSegment) :
    (current scale offset time start segments).data.startTimeSec = (time : ℚ) / 1000 := by
  cases segments <;> rfl

/-- Behind the last segment, every finite time that has been reached is found. -/
theorem seekLoop_rest {time : ℕ} {x : ℚ} (hle : (time : ℚ) ≤ 1000 * x) (fuel : ℕ)
    (position : Vector3WithYaw) :
    seekLoop .exact (.finite x) (fuel + 1)
        ⟨t.trajectory, current t.scale t.bytes.length time position []⟩ =
      ok (0, ⟨t.trajectory, current t.scale t.bytes.length time position []⟩) := by
  have hstart : (TimeSec.finite x).isBefore (toSeconds .exact time) = false := by
    rw [isBefore_toSeconds]
    exact decide_eq_false (not_lt.mpr hle)
  have hend : (TimeSec.finite x).isAfter ⊤ = false := by simp [TimeSec.isAfter]
  simp only [seekLoop, current, restSegment, hstart, hend, Bool.false_eq_true, if_false]
  rfl

/-- The relative time in a segment that takes some time. -/
theorem relativeTime_curveSegment (time : ℕ) (poly : Poly4D) {durationMsec : ℕ}
    (hpos : 0 < durationMsec) (x : ℚ) :
    relativeTime .exact (curveSegment .exact time durationMsec poly) (.finite x) =
      (1000 * x - time) / durationMsec := by
  have hposq : (0 : ℚ) < durationMsec := by exact_mod_cast hpos
  have hlong := lt_abs_seconds hpos
  simp only [relativeTime, curveSegment, toSeconds_exact, Rounding.exact_apply, hlong, if_true]
  field_simp

/-- A time that has been reached and is not behind a segment is found in the segment. -/
theorem Timed.seeksTo_inside (h : t.Timed) {x : ℚ} {done rest : List StoredSegment}
    {s : StoredSegment} (hsplit : t.segments = done ++ s :: rest)
    (hle : (totalDuration done : ℚ) ≤ 1000 * x)
    (hinside : 1000 * x ≤ (totalDuration done + s.durationMsec.toNat : ℕ)) :
    t.SeeksTo (StoredSegment.positionAt t.scale (1000 * x) t.start 0 t.segments)
      (ok (relativeTime .exact (curveSegment .exact (totalDuration done) s.durationMsec.toNat
          (s.poly t.scale (endPosition t.scale t.start done))) (.finite x),
        ⟨t.trajectory, current t.scale (t.header ++ done.flatMap StoredSegment.bytes).length
          (totalDuration done) (endPosition t.scale t.start done) (s :: rest)⟩)) := by
  have hpos : 0 < s.durationMsec.toNat := h.pos s (by simp [hsplit])
  have hposq : (0 : ℚ) < s.durationMsec.toNat := by exact_mod_cast hpos
  have hdone : ∀ d ∈ done, 0 < d.durationMsec.toNat := fun d hd =>
    h.pos d (hsplit ▸ List.mem_append_left _ hd)
  have hvalue := positionAt_append t.scale (t := 1000 * x) hdone (s :: rest) t.start 0
    (by rwa [Nat.zero_add])
  rw [← hsplit, Nat.zero_add, StoredSegment.positionAt, if_pos hinside] at hvalue
  rw [relativeTime_curveSegment _ _ hpos, hvalue]
  refine ⟨_, _, rfl, .segment hsplit, ?_, ?_, s.eval_poly t.scale _ _⟩
  · exact div_nonneg (by linarith) hposq.le
  · rw [div_le_one hposq]
    push_cast at hinside
    linarith

/-- **Seeking forward** from a segment that does not begin behind the time. -/
theorem Timed.seekLoop_forward (h : t.Timed) {x : ℚ} {done rest : List StoredSegment}
    (hsplit : t.segments = done ++ rest) (hle : (totalDuration done : ℚ) ≤ 1000 * x) {fuel : ℕ}
    (hfuel : rest.length < fuel) :
    t.SeeksTo (StoredSegment.positionAt t.scale (1000 * x) t.start 0 t.segments)
      (seekLoop .exact (.finite x) fuel ⟨t.trajectory, current t.scale
        (t.header ++ done.flatMap StoredSegment.bytes).length (totalDuration done)
        (endPosition t.scale t.start done) rest⟩) := by
  induction rest generalizing done fuel with
  | nil =>
      obtain ⟨fuel, rfl⟩ := Nat.exists_eq_succ_of_ne_zero (Nat.ne_of_gt hfuel)
      rw [List.append_nil] at hsplit
      subst hsplit
      rw [h.positionAt_of_le hle]
      exact ⟨0, _, seekLoop_rest hle fuel _, .behind le_rfl, le_rfl, zero_le_one,
        eval_restSegment _ _ _⟩
  | cons s rest ih =>
      obtain ⟨fuel, rfl⟩ := Nat.exists_eq_succ_of_ne_zero (Nat.ne_of_gt (Nat.zero_lt_of_lt hfuel))
      have hfits := h.fits
      rw [hsplit, totalDuration_append, totalDuration_cons] at hfits
      have hwrap : (totalDuration done + s.durationMsec.toNat) % 2 ^ 32 =
          totalDuration done + s.durationMsec.toNat := Nat.mod_eq_of_lt (by omega)
      rw [seekLoop]
      simp only [current, curveSegment, isBefore_toSeconds, isAfter_toSeconds, hwrap,
        not_lt.mpr hle, decide_false, Bool.false_eq_true, if_false, decide_eq_true_eq]
      split
      case isTrue hafter =>
        have hnext := buildNext_segment h.fits hsplit
        rw [current, curveSegment, hwrap] at hnext
        rw [hnext, ok_bind]
        refine ih (hsplit.trans (List.append_cons done s rest)) ?_ (Nat.lt_of_succ_lt_succ hfuel)
        rw [totalDuration_concat]
        exact hafter.le
      case isFalse hinside =>
        have hfound := h.seeksTo_inside hsplit hle (not_lt.mp hinside)
        rw [current, curveSegment, hwrap] at hfound
        exact hfound

/-- **Seeking to the end**: whatever the durations are, and also if the times wrap around. -/
theorem seekLoop_end {done rest : List StoredSegment} (hsplit : t.segments = done ++ rest)
    (time : ℕ) {fuel : ℕ} (hfuel : rest.length < fuel) :
    seekLoop .exact .infinity fuel ⟨t.trajectory, current t.scale
        (t.header ++ done.flatMap StoredSegment.bytes).length time
        (endPosition t.scale t.start done) rest⟩ =
      ok (1, ⟨t.trajectory,
        current t.scale t.bytes.length (endTime time rest) t.finalPosition []⟩) := by
  induction rest generalizing done time fuel with
  | nil =>
      obtain ⟨fuel, rfl⟩ := Nat.exists_eq_succ_of_ne_zero (Nat.ne_of_gt hfuel)
      rw [List.append_nil] at hsplit
      subst hsplit
      rfl
  | cons s rest ih =>
      obtain ⟨fuel, rfl⟩ := Nat.exists_eq_succ_of_ne_zero (Nat.ne_of_gt (Nat.zero_lt_of_lt hfuel))
      have hseek := ih (hsplit.trans (List.append_cons done s rest))
        ((time + s.durationMsec.toNat) % 2 ^ 32) (Nat.lt_of_succ_lt_succ hfuel)
      rw [seekLoop, buildNext_split hsplit]
      exact hseek

/-- Seeking to the end from a segment that begins when those before it have passed. -/
theorem Timed.seekLoop_infinity (h : t.Timed) {done rest : List StoredSegment}
    (hsplit : t.segments = done ++ rest) {fuel : ℕ} (hfuel : rest.length < fuel) :
    t.SeeksTo t.finalPosition
      (seekLoop .exact .infinity fuel ⟨t.trajectory, current t.scale
        (t.header ++ done.flatMap StoredSegment.bytes).length (totalDuration done)
        (endPosition t.scale t.start done) rest⟩) := by
  have hfits := h.fits
  rw [hsplit, totalDuration_append] at hfits
  have hend : totalDuration t.segments ≤ endTime (totalDuration done) rest := by
    rw [endTime_eq hfits, hsplit, totalDuration_append]
  exact ⟨1, _, seekLoop_end hsplit _ hfuel, .behind hend, zero_le_one, le_rfl,
    eval_restSegment _ _ _⟩

/-- A seek to a finite time that is not before the start. -/
theorem Timed.seekLoop_finite (h : t.Timed) {segment : CurrentSegment} (hstands : t.Stands segment)
    {x : ℚ} (hx : 0 ≤ x) {fuel : ℕ} (hfuel : t.segments.length + 2 ≤ fuel) :
    t.SeeksTo (StoredSegment.positionAt t.scale (1000 * x) t.start 0 t.segments)
      (seekLoop .exact (.finite x) fuel ⟨t.trajectory, segment⟩) := by
  obtain ⟨fuel, rfl⟩ : ∃ n, fuel = n + 1 := ⟨fuel - 1, by omega⟩
  by_cases hbefore : x < segment.data.startTimeSec
  · -- the time is before the segment: start over
    have hrewound := @Timed.seekLoop_forward t h x [] t.segments rfl (by simp [totalDuration, hx])
      fuel (by omega)
    have hstart : (TimeSec.finite x).isBefore segment.data.startTimeSec = true :=
      decide_eq_true hbefore
    rw [List.flatMap_nil, List.append_nil] at hrewound
    rw [seekLoop, if_pos hstart, t.rewind, ok_bind]
    exact hrewound
  · rw [not_lt] at hbefore
    cases hstands with
    | @segment done rest hsplit =>
        have hcount : rest.length ≤ t.segments.length := by
          rw [hsplit, List.length_append]
          omega
        rw [startTimeSec_current, div_le_iff₀ (by norm_num), mul_comm] at hbefore
        exact h.seekLoop_forward hsplit hbefore (by omega)
    | @behind time hle =>
        rw [startTimeSec_current, div_le_iff₀ (by norm_num), mul_comm] at hbefore
        have hend : (totalDuration t.segments : ℚ) ≤ 1000 * x :=
          le_trans (by exact_mod_cast hle) hbefore
        rw [h.positionAt_of_le hend]
        exact ⟨0, _, seekLoop_rest hbefore fuel _, .behind hle, le_rfl, zero_le_one,
          eval_restSegment _ _ _⟩

/-- **A seek finds the value of the curve**, wherever the player stands. -/
theorem Timed.seekToTime (h : t.Timed) {segment : CurrentSegment} (hstands : t.Stands segment)
    {time : TimeSec} (htime : time ≠ .nan) {fuel : ℕ} (hfuel : t.segments.length + 2 ≤ fuel) :
    t.SeeksTo (t.positionAt time) (seekToTime .exact fuel ⟨t.trajectory, segment⟩ time) := by
  have hzero := h.seekLoop_finite hstands le_rfl hfuel
  rw [mul_zero, ← Nat.cast_zero, positionAt_start] at hzero
  cases time with
  | nan => exact absurd rfl htime
  | negInfinity => exact hzero
  | finite x =>
      rw [TrajectoryPlayer.seekToTime, TimeSec.clip, positionAt]
      split
      case isTrue => exact hzero
      case isFalse hx => exact h.seekLoop_finite hstands (not_le.mp hx).le hfuel
  | infinity =>
      cases hstands with
      | @segment done rest hsplit =>
          have hcount : rest.length ≤ t.segments.length := by
            rw [hsplit, List.length_append]
            omega
          exact h.seekLoop_infinity hsplit (by omega)
      | behind hle =>
          obtain ⟨fuel, rfl⟩ : ∃ n, fuel = n + 1 := ⟨fuel - 1, by omega⟩
          exact ⟨1, _, rfl, .behind hle, zero_le_one, le_rfl, eval_restSegment _ _ _⟩

/-! ### Any history -/

/-- **One operation** keeps the player at the trajectory. -/
theorem Timed.apply (h : t.Timed) {segment : CurrentSegment} (hstands : t.Stands segment)
    {fuel : ℕ} (hfuel : t.segments.length + 2 ≤ fuel) (op : PlayerOp) :
    ∃ segment', apply .exact fuel ⟨t.trajectory, segment⟩ op = ok ⟨t.trajectory, segment'⟩ ∧
      t.Stands segment' := by
  have hseek : ∀ time, ∃ rel segment', TrajectoryPlayer.seekToTime .exact fuel
      ⟨t.trajectory, segment⟩ time = ok (rel, ⟨t.trajectory, segment'⟩) ∧ t.Stands segment' := by
    intro time
    by_cases htime : time = .nan
    · -- a comparison with something that is not a number fails: the player stays
      obtain ⟨fuel, rfl⟩ : ∃ n, fuel = n + 1 := ⟨fuel - 1, by omega⟩
      subst htime
      exact ⟨1, segment, rfl, hstands⟩
    · obtain ⟨rel, segment', hok, hstands', -⟩ := h.seekToTime hstands htime hfuel
      exact ⟨rel, segment', hok, hstands'⟩
  cases op with
  | init => exact ⟨_, t.rewind, t.stands_rewind⟩
  | buildNextSegment => exact hstands.buildNext h.fits
  | getPositionAt time | getVelocityAt time | getAccelerationAt time =>
      obtain ⟨rel, segment', hok, hstands'⟩ := hseek time
      refine ⟨segment', ?_, hstands'⟩
      simp only [TrajectoryPlayer.apply, getPositionAt, getVelocityAt, getAccelerationAt, hok,
        ok_bind]
      rfl
  | getTotalDurationMsec =>
      have hfits : 0 + totalDuration t.segments < 2 ^ 32 := by
        rw [Nat.zero_add]
        exact h.fits
      have htotal := @totalDurationLoop_stored t.trajectory t.segments t.header rfl t.scale_ne 0
        t.start 0 hfits fuel (by omega)
      have hend : totalDuration t.segments ≤ endTime 0 t.segments := by
        rw [endTime_eq hfits, Nat.zero_add]
      refine ⟨_, ?_, .behind hend⟩
      rw [TrajectoryPlayer.apply, getTotalDurationMsec, t.rewind, ok_bind]
      exact congrArg (· >>= fun r => ok r.2) htotal
  | hasMoreSegments => exact ⟨segment, rfl, hstands⟩

/-- **Any history** keeps the player at the trajectory. -/
theorem Timed.run (h : t.Timed) {segment : CurrentSegment} (hstands : t.Stands segment)
    {fuel : ℕ} (hfuel : t.segments.length + 2 ≤ fuel) (ops : List PlayerOp) :
    ∃ segment', run .exact fuel ⟨t.trajectory, segment⟩ ops = ok ⟨t.trajectory, segment'⟩ ∧
      t.Stands segment' := by
  induction ops generalizing segment with
  | nil => exact ⟨segment, rfl, hstands⟩
  | cons op ops ih =>
      obtain ⟨segment', hop, hstands'⟩ := h.apply hstands hfuel op
      rw [TrajectoryPlayer.run, hop, ok_bind]
      exact ih hstands'

end StoredTrajectory

open StoredTrajectory TrajectoryPlayer in
/-- **The position at a time** is the value of the piecewise curve, whatever the player was
asked before: the start position until time zero, and the final position from the end on. -/
theorem position_at_any_history (t : StoredTrajectory) (h : t.Timed) (owned : Bool)
    (ops : List PlayerOp) {time : TimeSec} (htime : time ≠ .nan) :
    ∃ fuel₀, ∀ fuel ≥ fuel₀, ∃ player rel player',
      trajectorySession .exact owned t.bytes fuel ops = ok player ∧
      player.seekToTime .exact fuel time = ok (rel, player') ∧ 0 ≤ rel ∧ rel ≤ 1 ∧
      player.getPositionAt .exact fuel time = ok (t.positionAt time, player') := by
  refine ⟨t.segments.length + 2, fun fuel hfuel => ?_⟩
  obtain ⟨segment, hrun, hstands⟩ := h.run t.stands_rewind hfuel ops
  obtain ⟨rel, segment', hseek, -, hnonneg, hle, heval⟩ := h.seekToTime hstands htime hfuel
  refine ⟨⟨t.trajectory, segment⟩, rel, ⟨t.trajectory, segment'⟩, ?_, hseek, hnonneg, hle, ?_⟩
  · rw [trajectorySession, t.initFromBytes, ok_bind, t.rewind, ok_bind]
    exact hrun
  · rw [getPositionAt, hseek, ok_bind, ← heval]
    rfl

/-- From the origin, one meter along x in a second, and then another one along a cubic curve in
two seconds. -/
def twoMeters : StoredTrajectory where
  scale := 10
  useYaw := false
  x := 0
  y := 0
  z := 0
  yaw := 0
  segments :=
    [⟨1000, ⟨.linear, [100], rfl⟩, ⟨.constant, [], rfl⟩, ⟨.constant, [], rfl⟩,
        ⟨.constant, [], rfl⟩⟩,
      ⟨2000, ⟨.bezier, [100, 200, 200], rfl⟩, ⟨.constant, [], rfl⟩, ⟨.constant, [], rfl⟩,
        ⟨.constant, [], rfl⟩⟩]
  scale_le := by decide
  scale_ne _ := by decide

/-- Two seconds in, the position is halfway along the cubic curve, also after a look at the end
and a move behind it. -/
theorem position_at_any_history_twoMeters :
    twoMeters.positionAt (.finite 2) = ⟨1500, 0, 0, 0⟩ ∧
      ∃ fuel₀, ∀ fuel ≥ fuel₀, ∃ player rel player',
        trajectorySession .exact false twoMeters.bytes fuel
          [.getPositionAt .infinity, .buildNextSegment] = ok player ∧
        player.seekToTime .exact fuel (.finite 2) = ok (rel, player') ∧ 0 ≤ rel ∧ rel ≤ 1 ∧
        player.getPositionAt .exact fuel (.finite 2) =
          ok (twoMeters.positionAt (.finite 2), player') :=
  ⟨by decide +kernel, position_at_any_history twoMeters ⟨by decide, by decide⟩ false _ (by decide)⟩

end Skybrush
