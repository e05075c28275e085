import Skybrush.TrajectoryEnds
import Mathlib.Data.Nat.Find

/-!
# Cursors of Trajectories

A player stands at one of the segments of its trajectory or behind the last one, and if the
times of the trajectory fit into 32 bits, all that matters is how many segments it has passed.
Seeking to a time moves this number to the number of segments that end before the time, or
leaves it alone when it is larger already and the time is not before the segment. The latter
makes a difference where segments of zero duration follow each other.

## Main results

* `StoredTrajectory.passed_eq_length_iff`: when all segments have been passed.
* `StoredTrajectory.seekToTime_standing`: a seek, in terms of the segments that were passed.
* `StoredTrajectory.Timed.shown_eq`: without segments of zero duration, the position does not
  depend on where the player stood.
-/

namespace Skybrush

open Checked

namespace StoredTrajectory

open StoredSegment TrajectoryPlayer

variable (t : StoredTrajectory)

/-! ### Passed segments -/

/-- When the first `k` segments have passed, in milliseconds. -/
def boundary (k : ℕ) : ℕ := totalDuration (t.segments.take k)

/-- Where the first `k` segments end. -/
def junction (k : ℕ) : Vector3WithYaw := endPosition t.scale t.start (t.segments.take k)

/-- The number of segments that end before a time in seconds. -/
def passed (x : ℚ) : ℕ :=
  Nat.findGreatest (fun k => (t.boundary k : ℚ) < 1000 * x) t.segments.length

/-- The number of segments that a player has passed after a seek, if it had passed `k` before. -/
def seekIndex (k : ℕ) (x : ℚ) : ℕ :=
  if 1000 * x < t.boundary k then t.passed x else max k (t.passed x)

/-- The parameter of the curve that is shown at a time, by a player that has passed `k`
segments. -/
def parameter (k : ℕ) (x : ℚ) : ℚ :=
  match t.segments[k]? with
  | some s =>
      if s.durationMsec.toNat = 0 then 1 / 2
      else (1000 * x - t.boundary k) / s.durationMsec.toNat
  | none => 0

/-- The position that is shown at a time, by a player that has passed `k` segments. -/
def shown (k : ℕ) (x : ℚ) : Vector3WithYaw :=
  match t.segments[k]? with
  | some s => s.curve t.scale (t.junction k) (t.parameter k x)
  | none => t.finalPosition

variable {t}

@[simp] theorem boundary_zero : t.boundary 0 = 0 := rfl

@[simp] theorem boundary_length : t.boundary t.segments.length = totalDuration t.segments := by
  rw [boundary, List.take_length]

theorem boundary_mono : Monotone t.boundary := by
  intro j k hle
  obtain ⟨i, rfl⟩ := Nat.exists_eq_add_of_le hle
  rw [boundary, boundary, List.take_add, totalDuration_append]
  exact Nat.le_add_right _ _

theorem passed_le (x : ℚ) : t.passed x ≤ t.segments.length := Nat.findGreatest_le _

theorem le_passed {k : ℕ} {x : ℚ} (hk : k ≤ t.segments.length)
    (hlt : (t.boundary k : ℚ) < 1000 * x) : k ≤ t.passed x := Nat.le_findGreatest hk hlt

/-- The segments that were passed end before the time. -/
theorem boundary_lt {k : ℕ} {x : ℚ} (hk : k ≤ t.passed x) (hne : k ≠ 0) :
    (t.boundary k : ℚ) < 1000 * x := by
  have hpassed : (t.boundary (t.passed x) : ℚ) < 1000 * x :=
    Nat.findGreatest_of_ne_zero (P := fun k => (t.boundary k : ℚ) < 1000 * x) rfl (by omega)
  exact lt_of_le_of_lt (by exact_mod_cast boundary_mono hk) hpassed

theorem boundary_le {k : ℕ} {x : ℚ} (hx : 0 ≤ x) (hk : k ≤ t.passed x) :
    (t.boundary k : ℚ) ≤ 1000 * x := by
  rcases eq_or_ne k 0 with rfl | hne
  · simpa using hx
  · exact (boundary_lt hk hne).le

theorem passed_mono : Monotone t.passed := by
  intro x y hle
  rcases eq_or_ne (t.passed x) 0 with hzero | hne
  · omega
  · exact le_passed (passed_le x) ((boundary_lt le_rfl hne).trans_le (by linarith))

/-- **All segments** have been passed by a time behind the end. -/
theorem passed_eq_length_iff {x : ℚ} :
    t.passed x = t.segments.length ↔
      t.segments = [] ∨ (totalDuration t.segments : ℚ) < 1000 * x := by
  rw [← List.length_eq_zero_iff]
  constructor
  · intro h
    by_cases hne : t.segments.length = 0
    · exact .inl hne
    · have hlt := boundary_lt h.ge hne
      rw [boundary_length] at hlt
      exact .inr hlt
  · rintro (h | h)
    · have hle := t.passed_le x
      omega
    · rw [← boundary_length] at h
      exact le_antisymm (passed_le x) (le_passed le_rfl h)

theorem seekIndex_le {k : ℕ} (hk : k ≤ t.segments.length) (x : ℚ) :
    t.seekIndex k x ≤ t.segments.length := by
  rw [seekIndex]
  split
  · exact passed_le x
  · exact max_le hk (passed_le x)

/-- From a segment that was passed before the time, only the time matters. -/
theorem seekIndex_of_le {k : ℕ} {x : ℚ} (hx : 0 ≤ x) (hk : k ≤ t.passed x) :
    t.seekIndex k x = t.passed x := by
  rw [seekIndex, if_neg (not_lt.mpr (boundary_le hx hk)), max_eq_right hk]

/-- Seeking to the same time again changes nothing. -/
theorem seekIndex_seekIndex {k : ℕ} {x : ℚ} (hx : 0 ≤ x) :
    t.seekIndex (t.seekIndex k x) x = t.seekIndex k x := by
  by_cases hbefore : 1000 * x < t.boundary k
  · have hindex : t.seekIndex k x = t.passed x := if_pos hbefore
    rw [hindex, seekIndex_of_le hx le_rfl]
  · have hindex : t.seekIndex k x = max k (t.passed x) := if_neg hbefore
    have hle : ¬ 1000 * x < t.boundary (max k (t.passed x)) := by
      rcases max_choice k (t.passed x) with hmax | hmax
      · rwa [hmax]
      · rw [hmax]
        exact not_lt.mpr (boundary_le hx le_rfl)
    rw [hindex, seekIndex, if_neg hle, max_assoc, max_self]

/-! ### Seeks -/

variable (t) in
/-- The segment of a player that has passed `k` segments. -/
def standing (k : ℕ) : CurrentSegment :=
  current t.scale (t.header ++ (t.segments.take k).flatMap StoredSegment.bytes).length
    (t.boundary k) (t.junction k) (t.segments.drop k)

theorem stands_standing (k : ℕ) : t.Stands (t.standing k) :=
  .segment (List.take_append_drop k t.segments).symm

/-- A player that has not passed all segments stands at the next one. -/
theorem standing_of_lt {k : ℕ} (hk : k < t.segments.length) :
    t.standing k =
      current t.scale (t.header ++ (t.segments.take k).flatMap StoredSegment.bytes).length
        (t.boundary k) (t.junction k) (t.segments[k] :: t.segments.drop (k + 1)) := by
  rw [standing, List.drop_eq_getElem_cons hk]

/-- A player that has passed all segments stands behind the last one. -/
theorem standing_length :
    t.standing t.segments.length =
      current t.scale t.bytes.length (totalDuration t.segments) t.finalPosition [] := by
  rw [standing, boundary_length, junction, List.take_length, List.drop_length]
  rfl

theorem hasMoreSegments_standing {k : ℕ} (hk : k ≤ t.segments.length) :
    hasMoreSegments ⟨t.trajectory, t.standing k⟩ = true ↔ k < t.segments.length := by
  rcases hk.lt_or_eq with hlt | rfl
  · rw [standing_of_lt hlt]
    exact iff_of_true (decide_eq_true t.segments[k].length_bytes_pos) hlt
  · rw [standing_length]
    exact iff_of_false Bool.false_ne_true (lt_irrefl _)

theorem relativeTime_standing {k : ℕ} (hk : k ≤ t.segments.length) (x : ℚ) :
    relativeTime .exact (t.standing k).data (.finite x) = t.parameter k x := by
  rw [parameter]
  rcases hk.lt_or_eq with hlt | rfl
  · rw [standing_of_lt hlt, List.getElem?_eq_getElem hlt]
    change relativeTime .exact (curveSegment .exact (t.boundary k) _ _) _ = if _ then _ else _
    split
    case isTrue hzero => rw [hzero, relativeTime_of_zero]
    case isFalse hne => rw [relativeTime_curveSegment _ _ (Nat.pos_of_ne_zero hne)]
  · rw [standing_length, List.getElem?_eq_none le_rfl]
    rfl

theorem eval_standing {k : ℕ} (hk : k ≤ t.segments.length) (x : ℚ) :
    (t.standing k).data.poly.eval .exact (t.parameter k x) = t.shown k x := by
  rw [shown]
  rcases hk.lt_or_eq with hlt | rfl
  · rw [standing_of_lt hlt, List.getElem?_eq_getElem hlt]
    exact t.segments[k].eval_poly t.scale (t.junction k) (t.parameter k x)
  · rw [standing_length, List.getElem?_eq_none le_rfl]
    exact eval_restSegment _ _ _

theorem rewind_standing :
    TrajectoryPlayer.rewind .exact t.trajectory = ok ⟨t.trajectory, t.standing 0⟩ := by
  rw [t.rewind, standing, List.take_zero, List.flatMap_nil, List.append_nil]
  rfl

/-- The total duration, as a 32-bit number, and the player behind the last segment. -/
theorem getTotalDurationMsec_mod {player : TrajectoryPlayer}
    (hplayer : player.trajectory = t.trajectory) {fuel : ℕ} (hfuel : t.segments.length < fuel) :
    getTotalDurationMsec .exact fuel player =
      ok (totalDuration t.segments % 2 ^ 32, ⟨t.trajectory,
        current t.scale t.bytes.length (totalDuration t.segments % 2 ^ 32)
          t.finalPosition []⟩) := by
  have htotal := @totalDurationLoop_mod t.trajectory t.segments t.header rfl t.scale_ne 0 t.start
    0 fuel hfuel
  have hend := endTime_mod 0 t.segments
  rw [Nat.zero_mod, Nat.zero_add] at htotal hend
  rw [atEnd, hend] at htotal
  rw [getTotalDurationMsec, hplayer, t.rewind, ok_bind]
  exact htotal

section Fits

variable (hfits : totalDuration t.segments < 2 ^ 32)

include hfits

/-- Moving on from a segment. -/
theorem buildNext_standing {k : ℕ} (hk : k < t.segments.length) :
    buildNextSegment .exact ⟨t.trajectory, t.standing k⟩ =
      ok ⟨t.trajectory, t.standing (k + 1)⟩ := by
  have hsplit : t.segments = t.segments.take k ++ t.segments[k] :: t.segments.drop (k + 1) := by
    rw [List.getElem_cons_drop, List.take_append_drop]
  have hnext := buildNext_segment hfits hsplit
  rw [List.take_concat_get' _ _ hk] at hnext
  rw [standing_of_lt hk]
  exact hnext

/-- Where a segment ends. -/
theorem endTimeMsec_standing {k : ℕ} (hk : k < t.segments.length) :
    (t.boundary k + t.segments[k].durationMsec.toNat) % 2 ^ 32 = t.boundary (k + 1) := by
  have hend : t.boundary (k + 1) = t.boundary k + t.segments[k].durationMsec.toNat := by
    rw [boundary, ← List.take_concat_get' _ _ hk, totalDuration_concat, boundary]
  have hle : t.boundary (k + 1) ≤ t.boundary t.segments.length := boundary_mono hk
  rw [boundary_length] at hle
  rw [← hend, Nat.mod_eq_of_lt (by omega)]

/-- **Seeking forward** from a segment that does not begin behind the time. -/
theorem seekLoop_standing {x : ℚ} {k : ℕ} (hk : k ≤ t.segments.length)
    (hle : (t.boundary k : ℚ) ≤ 1000 * x) {fuel : ℕ} (hfuel : t.segments.length < fuel + k) :
    seekLoop .exact (.finite x) fuel ⟨t.trajectory, t.standing k⟩ =
      ok (t.parameter (max k (t.passed x)) x,
        ⟨t.trajectory, t.standing (max k (t.passed x))⟩) := by
  induction fuel generalizing k with
  | zero => omega
  | succ fuel ih =>
      have hstart : (TimeSec.finite x).isBefore (t.standing k).data.startTimeSec = false := by
        rw [standing, startTimeSec_current]
        refine decide_eq_false (not_lt.mpr ?_)
        rw [div_le_iff₀ (by norm_num)]
        linarith
      have hfound := relativeTime_standing hk x
      rw [seekLoop]
      simp only [hstart, Bool.false_eq_true, if_false]
      rcases hk.lt_or_eq with hlt | rfl
      · have hend : (TimeSec.finite x).isAfter (t.standing k).data.endTimeSec =
            decide ((t.boundary (k + 1) : ℚ) < 1000 * x) := by
          rw [← isAfter_toSeconds, ← endTimeMsec_standing hfits hlt, standing_of_lt hlt]
          rfl
        rw [hend]
        by_cases hafter : (t.boundary (k + 1) : ℚ) < 1000 * x
        · have hpassed := le_passed (Nat.succ_le_of_lt hlt) hafter
          have hnext := ih (Nat.succ_le_of_lt hlt) hafter.le (by omega)
          rw [max_eq_right hpassed] at hnext
          rw [if_pos (decide_eq_true hafter), buildNext_standing hfits hlt, ok_bind,
            max_eq_right (by omega)]
          exact hnext
        · have hpassed : t.passed x ≤ k := by
            by_contra hmore
            exact hafter (boundary_lt (by omega) (Nat.succ_ne_zero k))
          rw [if_neg (by simpa using hafter), max_eq_left hpassed, hfound]
      · have hend : (TimeSec.finite x).isAfter (t.standing t.segments.length).data.endTimeSec =
            false := by
          rw [standing_length]
          simp [current, restSegment, TimeSec.isAfter]
        rw [hend, if_neg Bool.false_ne_true, max_eq_left (passed_le x), hfound]

/-- **A seek**, in terms of the segments that were passed. -/
theorem seekToTime_standing {x : ℚ} (hx : 0 ≤ x) {k : ℕ} (hk : k ≤ t.segments.length) {fuel : ℕ}
    (hfuel : t.segments.length + 2 ≤ fuel) :
    seekToTime .exact fuel ⟨t.trajectory, t.standing k⟩ (.finite x) =
      ok (t.parameter (t.seekIndex k x) x, ⟨t.trajectory, t.standing (t.seekIndex k x)⟩) := by
  rw [seekToTime, TimeSec.clip_of_nonneg hx, seekIndex]
  split
  case isTrue hbefore =>
    -- the time is before the segment: start over
    obtain ⟨fuel, rfl⟩ : ∃ n, fuel = n + 1 := ⟨fuel - 1, by omega⟩
    have hstart : (TimeSec.finite x).isBefore (t.standing k).data.startTimeSec = true := by
      rw [standing, startTimeSec_current]
      refine decide_eq_true ?_
      rw [lt_div_iff₀ (by norm_num)]
      linarith
    have hforward := @seekLoop_standing t hfits x 0 (Nat.zero_le _) (by simpa using hx) fuel
      (by omega)
    rw [Nat.zero_max] at hforward
    rw [seekLoop, if_pos hstart, rewind_standing, ok_bind]
    exact hforward
  case isFalse hreached => exact seekLoop_standing hfits hk (not_lt.mp hreached) (by omega)

end Fits

/-- **Without segments of zero duration**, the position does not depend on where a player
stood. -/
theorem Timed.shown_eq (h : t.Timed) {x : ℚ} (hx : 0 ≤ x) {k : ℕ} (hk : k ≤ t.segments.length) :
    t.shown (t.seekIndex k x) x = t.positionAt (.finite x) := by
  have htime : TimeSec.finite x ≠ .nan := nofun
  obtain ⟨rel, segment, hseek, -, -, -, heval⟩ := h.seekToTime (stands_standing k) htime le_rfl
  rw [seekToTime_standing h.fits hx hk le_rfl] at hseek
  cases hseek
  rw [← heval, eval_standing (seekIndex_le hk x)]

end StoredTrajectory

end Skybrush
