import Skybrush.TrajectoryCursor

/-!
# Altitude Searches

To propose a takeoff time, a trajectory is sampled every sixteenth of a second from its start,
until an altitude is reached or the player has passed all segments; to propose a landing time,
it is sampled backwards from its end. The time is accumulated in single precision: the rounding
of the sampled times is a parameter of its own.

## Main results

* `StoredTrajectory.earliestLoop_standing`, `StoredTrajectory.latestLoop_standing`: one sample.
* `StoredTrajectory.earliestLoop_skip`: samples at which the altitude is not reached.
* `altitude_searches`: in exact arithmetic, the searches find the earliest and the latest sample
  that is high enough.
* `proposeTakeoffTimeSec_timed`, `proposeLandingTimeSec_timed`: the proposed times.
-/

namespace Skybrush

open Checked

namespace TrajectoryPlayer

variable (F G : Rounding)

/-- The time between two samples, in seconds. -/
def resolution : ℚ := 1 / 16

/-- The loop of `sb_i_trajectory_player_find_earliest_time_reaching_altitude`, with fuel for the
seeks and for the samples. -/
def earliestLoop (altitude : ℚ) (seekFuel : ℕ) :
    ℕ → ℚ → TrajectoryPlayer → Checked SbError (TimeSec × TrajectoryPlayer)
  | 0, _, _ => outOfFuel
  | fuel + 1, t, player =>
      if player.hasMoreSegments then do
        let (rel, player) ← seekToTime F seekFuel player (.finite t)
        if altitude ≤ player.currentSegment.data.poly.z.eval F rel then
          ok (.finite t, player)
        else
          earliestLoop altitude seekFuel fuel (G (t + resolution)) player
      else
        ok (.infinity, player)

/-- `sb_i_trajectory_player_find_earliest_time_reaching_altitude`. -/
def findEarliestTimeReachingAltitude (fuel : ℕ) (player : TrajectoryPlayer) (altitude : ℚ) :
    Checked SbError (TimeSec × TrajectoryPlayer) := do
  let player ← rewind F player.trajectory
  earliestLoop F G altitude fuel fuel 0 player

/-- The loop of `sb_i_trajectory_player_find_latest_time_above_altitude`, with fuel for the seeks
and for the samples. -/
def latestLoop (altitude : ℚ) (seekFuel : ℕ) :
    ℕ → ℚ → TrajectoryPlayer → Checked SbError (TimeSec × TrajectoryPlayer)
  | 0, _, _ => outOfFuel
  | fuel + 1, t, player =>
      if 0 ≤ t then do
        let (rel, player) ← seekToTime F seekFuel player (.finite t)
        if altitude ≤ player.currentSegment.data.poly.z.eval F rel then
          ok (.finite t, player)
        else
          latestLoop altitude seekFuel fuel (G (t - resolution)) player
      else
        ok (.negInfinity, player)

/-- The first sample of a search from the end: the first one that is not before the end. -/
def lastSample (totalDurationMsec : ℕ) : ℚ :=
  G (⌈G (G totalDurationMsec / (1000 * resolution))⌉ * resolution)

/-- `sb_i_trajectory_player_find_latest_time_above_altitude`. -/
def findLatestTimeAboveAltitude (fuel : ℕ) (player : TrajectoryPlayer) (altitude : ℚ) :
    Checked SbError (TimeSec × TrajectoryPlayer) := do
  let player ← rewind F player.trajectory
  let (totalDurationMsec, player) ← getTotalDurationMsec F fuel player
  latestLoop F G altitude fuel fuel (lastSample G totalDurationMsec) player

end TrajectoryPlayer

namespace Trajectory

open TrajectoryPlayer

variable (F G : Rounding)

/-- The smallest positive number of full precision, `FLT_MIN`. -/
def fltMin : ℚ := 1 / 2 ^ 126

/-- `sb_trajectory_get_total_duration_msec`. -/
def getTotalDurationMsec (fuel : ℕ) (trajectory : Trajectory) : Checked SbError ℕ :=
  match (do
    let player ← TrajectoryPlayer.rewind F trajectory
    let (duration, _) ← TrajectoryPlayer.getTotalDurationMsec F fuel player
    pure duration) with
  | error _ => ok 0
  | result => result

/-- `sb_trajectory_get_total_duration_sec`. -/
def getTotalDurationSec (fuel : ℕ) (trajectory : Trajectory) : Checked SbError ℚ := do
  let duration ← trajectory.getTotalDurationMsec F fuel
  pure (toSeconds F duration)

/-- `sb_trajectory_propose_takeoff_time_sec`. -/
def proposeTakeoffTimeSec (fuel : ℕ) (trajectory : Trajectory) (minAscent speed : ℚ) :
    Checked SbError TimeSec :=
  if minAscent < 0 ∨ speed ≤ 0 then
    ok .infinity
  else if |minAscent| < fltMin then
    ok (.finite 0)
  else
    match (do
      let player ← TrajectoryPlayer.rewind F trajectory
      let (pos, player) ← getPositionAt F fuel player (.finite 0)
      let (result, _) ← findEarliestTimeReachingAltitude F G fuel player (F (pos.z + minAscent))
      pure result) with
    | ok (.finite result) => ok (.finite (F (result - F (minAscent / speed))))
    | ok _ => ok .infinity
    | error _ => ok .infinity
    | fault => fault
    | outOfFuel => outOfFuel

/-- `sb_trajectory_propose_landing_time_sec`. -/
def proposeLandingTimeSec (fuel : ℕ) (trajectory : Trajectory) (minDescent : ℚ) :
    Checked SbError TimeSec :=
  if minDescent < 0 then
    ok .negInfinity
  else if |minDescent| < fltMin then do
    let duration ← trajectory.getTotalDurationSec F fuel
    pure (.finite duration)
  else
    match (do
      let player ← TrajectoryPlayer.rewind F trajectory
      let (pos, player) ← getPositionAt F fuel player .infinity
      let (result, _) ← findLatestTimeAboveAltitude F G fuel player (F (pos.z + minDescent))
      pure result) with
    | ok (.finite result) => ok (.finite result)
    | ok _ => ok .negInfinity
    | error _ => ok .negInfinity
    | fault => fault
    | outOfFuel => outOfFuel

end Trajectory

/-! ### Sampling -/

namespace StoredTrajectory

open StoredSegment TrajectoryPlayer

variable {t : StoredTrajectory} {G : Rounding} {altitude : ℚ} {seekFuel : ℕ}

variable (t) in
/-- The number of segments that the search from the start has passed in front of a sample. -/
def passedBefore : ℕ → ℕ
  | 0 => 0
  | n + 1 => t.passed (n / 16)

theorem passedBefore_le (n : ℕ) : t.passedBefore n ≤ t.segments.length := by
  cases n with
  | zero => exact Nat.zero_le _
  | succ n => exact passed_le _

theorem seekIndex_passedBefore (n : ℕ) :
    t.seekIndex (t.passedBefore n) (n / 16) = t.passed (n / 16) := by
  refine seekIndex_of_le (by positivity) ?_
  cases n with
  | zero => exact Nat.zero_le _
  | succ n =>
      refine passed_mono ?_
      push_cast
      linarith

/-- At the end, the search from the start stops. -/
theorem earliestLoop_length (x : ℚ) (fuel : ℕ) :
    earliestLoop .exact G altitude seekFuel (fuel + 1) x
        ⟨t.trajectory, t.standing t.segments.length⟩ =
      ok (.infinity, ⟨t.trajectory, t.standing t.segments.length⟩) := by
  have hmore : ¬ hasMoreSegments ⟨t.trajectory, t.standing t.segments.length⟩ = true := by
    rw [hasMoreSegments_standing le_rfl]
    exact lt_irrefl _
  rw [earliestLoop, if_neg hmore]

/-- Before the start, the search from the end stops. -/
theorem latestLoop_neg {x : ℚ} (hx : x < 0) (player : TrajectoryPlayer) (fuel : ℕ) :
    latestLoop .exact G altitude seekFuel (fuel + 1) x player = ok (.negInfinity, player) := by
  rw [latestLoop, if_neg (not_le.mpr hx)]

section Samples

variable (hfits : totalDuration t.segments < 2 ^ 32)
  (hseek : t.segments.length + 2 ≤ seekFuel)

include hfits hseek

/-- **One sample** of the search from the start. -/
theorem earliestLoop_standing {x : ℚ} (hx : 0 ≤ x) {k : ℕ} (hk : k < t.segments.length)
    (fuel : ℕ) :
    earliestLoop .exact G altitude seekFuel (fuel + 1) x ⟨t.trajectory, t.standing k⟩ =
      if altitude ≤ (t.shown (t.seekIndex k x) x).z then
        ok (.finite x, ⟨t.trajectory, t.standing (t.seekIndex k x)⟩)
      else
        earliestLoop .exact G altitude seekFuel fuel (G (x + resolution))
          ⟨t.trajectory, t.standing (t.seekIndex k x)⟩ := by
  have hmore := (hasMoreSegments_standing hk.le).mpr hk
  have heval := eval_standing (seekIndex_le hk.le x) x
  rw [earliestLoop, if_pos hmore, seekToTime_standing hfits hx hk.le hseek, ok_bind, ← heval]
  rfl

/-- **One sample** of the search from the end. -/
theorem latestLoop_standing {x : ℚ} (hx : 0 ≤ x) {k : ℕ} (hk : k ≤ t.segments.length)
    (fuel : ℕ) :
    latestLoop .exact G altitude seekFuel (fuel + 1) x ⟨t.trajectory, t.standing k⟩ =
      if altitude ≤ (t.shown (t.seekIndex k x) x).z then
        ok (.finite x, ⟨t.trajectory, t.standing (t.seekIndex k x)⟩)
      else
        latestLoop .exact G altitude seekFuel fuel (G (x - resolution))
          ⟨t.trajectory, t.standing (t.seekIndex k x)⟩ := by
  have heval := eval_standing (seekIndex_le hk x) x
  rw [latestLoop, if_pos hx, seekToTime_standing hfits hx hk hseek, ok_bind, ← heval]
  rfl

/-- **Samples that are too low**: the search from the start goes on from the segment of the
sample before. -/
theorem earliestLoop_skip {n : ℕ} (hG : ∀ m < n, G ((m : ℚ) / 16 + resolution) = (m + 1 : ℕ) / 16)
    (hlow : ∀ m < n, t.passedBefore m < t.segments.length ∧
      (t.shown (t.passed (m / 16)) (m / 16)).z < altitude) (fuel : ℕ) :
    earliestLoop .exact G altitude seekFuel (fuel + n) 0 ⟨t.trajectory, t.standing 0⟩ =
      earliestLoop .exact G altitude seekFuel fuel (n / 16)
        ⟨t.trajectory, t.standing (t.passedBefore n)⟩ := by
  induction n generalizing fuel with
  | zero => rw [Nat.cast_zero, zero_div, Nat.add_zero, passedBefore]
  | succ n ih =>
      obtain ⟨hmore, hbelow⟩ := hlow n (Nat.lt_succ_self n)
      have hrest := ih (fun m hm => hG m (Nat.lt_succ_of_lt hm))
        (fun m hm => hlow m (Nat.lt_succ_of_lt hm)) (fuel + 1)
      have hn : (0 : ℚ) ≤ n / 16 := by positivity
      rw [earliestLoop_standing hfits hseek hn hmore, seekIndex_passedBefore,
        if_neg (not_le.mpr hbelow), hG n (Nat.lt_succ_self n)] at hrest
      rw [Nat.add_succ, ← Nat.succ_add]
      exact hrest

/-- The search from the start stops at the first sample that is high enough. -/
theorem earliestLoop_reaches {n : ℕ}
    (hG : ∀ m < n, G ((m : ℚ) / 16 + resolution) = (m + 1 : ℕ) / 16)
    (hlow : ∀ m < n, t.passedBefore m < t.segments.length ∧
      (t.shown (t.passed (m / 16)) (m / 16)).z < altitude)
    (hmore : t.passedBefore n < t.segments.length)
    (hhigh : altitude ≤ (t.shown (t.passed (n / 16)) (n / 16)).z) {fuel : ℕ} (hfuel : n < fuel) :
    earliestLoop .exact G altitude seekFuel fuel 0 ⟨t.trajectory, t.standing 0⟩ =
      ok (.finite (n / 16), ⟨t.trajectory, t.standing (t.passed (n / 16))⟩) := by
  obtain ⟨rest, rfl⟩ : ∃ rest, fuel = rest + 1 + n := ⟨fuel - (1 + n), by omega⟩
  rw [earliestLoop_skip hfits hseek hG hlow,
    earliestLoop_standing hfits hseek (by positivity) hmore, seekIndex_passedBefore,
    if_pos hhigh]

/-- The search from the start gives up when all segments have been passed. -/
theorem earliestLoop_ends {n : ℕ}
    (hG : ∀ m < n, G ((m : ℚ) / 16 + resolution) = (m + 1 : ℕ) / 16)
    (hlow : ∀ m < n, t.passedBefore m < t.segments.length ∧
      (t.shown (t.passed (m / 16)) (m / 16)).z < altitude)
    (hall : t.passedBefore n = t.segments.length) {fuel : ℕ} (hfuel : n < fuel) :
    earliestLoop .exact G altitude seekFuel fuel 0 ⟨t.trajectory, t.standing 0⟩ =
      ok (.infinity, ⟨t.trajectory, t.standing t.segments.length⟩) := by
  obtain ⟨rest, rfl⟩ : ∃ rest, fuel = rest + 1 + n := ⟨fuel - (1 + n), by omega⟩
  rw [earliestLoop_skip hfits hseek hG hlow, hall, earliestLoop_length]

end Samples

/-! ### Exact arithmetic -/

variable (t)

/-- The end of a trajectory, in seconds. -/
def durationSec : ℚ := totalDuration t.segments / 1000

/-- The multiples of a sixteenth of a second up to and including the first one after the end. -/
def samplesUp : Set ℚ := {T | ∃ n : ℕ, T = n / 16 ∧ ∀ m < n, (m : ℚ) / 16 ≤ t.durationSec}

/-- The multiples of a sixteenth of a second from the first one not before the end down to
zero. -/
def samplesDown : Set ℚ := {T | ∃ n : ℕ, T = n / 16 ∧ ∀ m < n, (m : ℚ) / 16 < t.durationSec}

/-- The earliest one of some times at which an altitude is reached, and infinity if there is
none. -/
def IsEarliest (times : Set ℚ) (altitude : ℚ) : TimeSec → Prop
  | .finite T => IsLeast {T ∈ times | altitude ≤ (t.positionAt (.finite T)).z} T
  | .infinity => ∀ T ∈ times, (t.positionAt (.finite T)).z < altitude
  | _ => False

/-- The latest one of some times at which an altitude is reached, and minus infinity if there is
none. -/
def IsLatest (times : Set ℚ) (altitude : ℚ) : TimeSec → Prop
  | .finite T => IsGreatest {T ∈ times | altitude ≤ (t.positionAt (.finite T)).z} T
  | .negInfinity => ∀ T ∈ times, (t.positionAt (.finite T)).z < altitude
  | _ => False

variable {t}

theorem mem_samplesUp {n : ℕ} :
    (n : ℚ) / 16 ∈ t.samplesUp ↔ ∀ m < n, (m : ℚ) / 16 ≤ t.durationSec := by
  constructor
  · rintro ⟨n', heq, hle⟩
    have hcast : (n : ℚ) = n' := by linarith
    rw [Nat.cast_injective hcast]
    exact hle
  · exact fun h => ⟨n, rfl, h⟩

/-- Up to the first sample behind the end, not all segments have been passed. -/
theorem passedBefore_lt (hne : t.segments ≠ []) {n : ℕ} (hn : (n : ℚ) / 16 ∈ t.samplesUp) :
    t.passedBefore n < t.segments.length := by
  cases n with
  | zero => exact List.length_pos_of_ne_nil hne
  | succ n =>
      refine lt_of_le_of_ne (passed_le _) fun hall => ?_
      have hle := mem_samplesUp.mp hn n (Nat.lt_succ_self n)
      rw [durationSec, le_div_iff₀ (by norm_num)] at hle
      obtain hnil | hlt := passed_eq_length_iff.mp hall
      · exact hne hnil
      · linarith

/-- What the search from the start does to a player of the trajectory. -/
theorem findEarliest_eq {player : TrajectoryPlayer} (hplayer : player.trajectory = t.trajectory)
    (fuel : ℕ) :
    findEarliestTimeReachingAltitude .exact G fuel player altitude =
      earliestLoop .exact G altitude fuel fuel 0 ⟨t.trajectory, t.standing 0⟩ := by
  rw [findEarliestTimeReachingAltitude, hplayer, rewind_standing, ok_bind]

/-- What the search from the end does to a player of the trajectory. -/
theorem findLatest_mod {player : TrajectoryPlayer} (hplayer : player.trajectory = t.trajectory)
    {fuel : ℕ} (hfuel : t.segments.length < fuel) :
    findLatestTimeAboveAltitude .exact G fuel player altitude =
      latestLoop .exact G altitude fuel fuel (lastSample G (totalDuration t.segments % 2 ^ 32))
        ⟨t.trajectory, current t.scale t.bytes.length (totalDuration t.segments % 2 ^ 32)
          t.finalPosition []⟩ := by
  rw [findLatestTimeAboveAltitude, hplayer, rewind_standing, ok_bind,
    getTotalDurationMsec_mod rfl hfuel, ok_bind]

/-- If the total duration fits into 32 bits, the player stands behind the last segment. -/
theorem findLatest_eq (hfits : totalDuration t.segments < 2 ^ 32) {player : TrajectoryPlayer}
    (hplayer : player.trajectory = t.trajectory) {fuel : ℕ} (hfuel : t.segments.length < fuel) :
    findLatestTimeAboveAltitude .exact G fuel player altitude =
      latestLoop .exact G altitude fuel fuel (lastSample G (totalDuration t.segments))
        ⟨t.trajectory, t.standing t.segments.length⟩ := by
  rw [findLatest_mod hplayer hfuel, Nat.mod_eq_of_lt hfits, standing_length]

/-- In exact arithmetic, the samples are equidistant. -/
theorem exact_add_resolution (m : ℕ) :
    Rounding.exact ((m : ℚ) / 16 + resolution) = (m + 1 : ℕ) / 16 := by
  rw [Rounding.exact_apply, resolution]
  push_cast
  ring

theorem samplesUp_of_lt {m n : ℕ} (hm : m < n) (hn : (n : ℚ) / 16 ∈ t.samplesUp) :
    (m : ℚ) / 16 ∈ t.samplesUp :=
  mem_samplesUp.mpr fun i hi => mem_samplesUp.mp hn i (hi.trans hm)

/-- The first sample after the end. -/
theorem exists_firstSampleBehind (t : StoredTrajectory) :
    ∃ n : ℕ, t.durationSec < n / 16 ∧ (n : ℚ) / 16 ∈ t.samplesUp := by
  classical
  have hbehind : ∃ n : ℕ, t.durationSec < n / 16 := by
    obtain ⟨n, hn⟩ := exists_nat_gt (t.durationSec * 16)
    exact ⟨n, by linarith⟩
  exact ⟨Nat.find hbehind, Nat.find_spec hbehind,
    mem_samplesUp.mpr fun m hm => not_lt.mp (Nat.find_min hbehind hm)⟩

/-- The search from the start looks at the curve of the trajectory. -/
theorem Timed.shown_passed (h : t.Timed) (n : ℕ) :
    t.shown (t.passed (n / 16)) (n / 16) = t.positionAt (.finite (n / 16)) := by
  have hn : (0 : ℚ) ≤ n / 16 := by positivity
  rw [← h.shown_eq hn (Nat.zero_le _), seekIndex_of_le hn (Nat.zero_le _)]

/-- At a sample that is too low, the search from the start goes on. -/
theorem Timed.goesOn (h : t.Timed) (hne : t.segments ≠ []) {n : ℕ}
    (hmem : (n : ℚ) / 16 ∈ t.samplesUp)
    (hlow : (t.positionAt (.finite (n / 16))).z < altitude) :
    t.passedBefore n < t.segments.length ∧
      (t.shown (t.passed (n / 16)) (n / 16)).z < altitude := by
  rw [h.shown_passed]
  exact ⟨passedBefore_lt hne hmem, hlow⟩

/-- The search from the start finds the first sample that is high enough. -/
theorem Timed.earliestLoop_first (h : t.Timed) (hne : t.segments ≠ [])
    (hseek : t.segments.length + 2 ≤ seekFuel) {n : ℕ} (hmem : (n : ℚ) / 16 ∈ t.samplesUp)
    (hhigh : altitude ≤ (t.positionAt (.finite (n / 16))).z)
    (hlow : ∀ m < n, (t.positionAt (.finite ((m : ℚ) / 16))).z < altitude) {fuel : ℕ}
    (hfuel : n < fuel) :
    ∃ player', TrajectoryPlayer.earliestLoop .exact .exact altitude seekFuel fuel 0
        ⟨t.trajectory, t.standing 0⟩ = ok (.finite (n / 16), player') ∧
      t.IsEarliest t.samplesUp altitude (.finite (n / 16)) := by
  rw [← h.shown_passed] at hhigh
  refine ⟨_, earliestLoop_reaches h.fits hseek (fun m _ => exact_add_resolution m)
    (fun m hm => h.goesOn hne (samplesUp_of_lt hm hmem) (hlow m hm)) (passedBefore_lt hne hmem)
    hhigh hfuel, ⟨hmem, ?_⟩, ?_⟩
  · rwa [h.shown_passed] at hhigh
  · rintro _ ⟨⟨m, rfl, -⟩, hle⟩
    have hnm : n ≤ m := by
      by_contra hlt
      exact absurd hle (not_le.mpr (hlow m (not_le.mp hlt)))
    exact div_le_div_of_nonneg_right (by exact_mod_cast hnm) (by norm_num)

/-- The search from the start gives up behind the end. -/
theorem Timed.earliestLoop_none (h : t.Timed) (hne : t.segments ≠ [])
    (hseek : t.segments.length + 2 ≤ seekFuel) {n : ℕ} (hmem : (n : ℚ) / 16 ∈ t.samplesUp)
    (hend : t.durationSec < n / 16)
    (hlow : ∀ T ∈ t.samplesUp, (t.positionAt (.finite T)).z < altitude) {fuel : ℕ}
    (hfuel : n + 1 < fuel) :
    ∃ player', TrajectoryPlayer.earliestLoop .exact .exact altitude seekFuel fuel 0
        ⟨t.trajectory, t.standing 0⟩ = ok (.infinity, player') := by
  have hall : t.passedBefore (n + 1) = t.segments.length := by
    rw [durationSec, div_lt_iff₀ (by norm_num)] at hend
    exact passed_eq_length_iff.mpr (.inr (by linarith))
  have hbelow : ∀ m < n + 1, (m : ℚ) / 16 ∈ t.samplesUp := by
    intro m hm
    rcases (Nat.le_of_lt_succ hm).lt_or_eq with hlt | rfl
    · exact samplesUp_of_lt hlt hmem
    · exact hmem
  exact ⟨_, earliestLoop_ends h.fits hseek (fun m _ => exact_add_resolution m)
    (fun m hm => h.goesOn hne (hbelow m hm) (hlow _ (hbelow m hm))) hall hfuel⟩

/-- **The search from the start** finds the earliest sample that is high enough. -/
theorem Timed.earliestLoop (h : t.Timed) (hne : t.segments ≠ []) (altitude : ℚ) :
    ∃ fuel₀, ∀ fuel ≥ fuel₀, ∃ earliest player',
      TrajectoryPlayer.earliestLoop .exact .exact altitude fuel fuel 0
        ⟨t.trajectory, t.standing 0⟩ = ok (earliest, player') ∧
      t.IsEarliest t.samplesUp altitude earliest := by
  classical
  by_cases hreached : ∃ n : ℕ, (n : ℚ) / 16 ∈ t.samplesUp ∧
      altitude ≤ (t.positionAt (.finite (n / 16))).z
  · obtain ⟨hmem, hhigh⟩ := Nat.find_spec hreached
    have hmin := @Nat.find_min _ _ hreached
    generalize Nat.find hreached = n at hmem hhigh hmin
    have hlow : ∀ m < n, (t.positionAt (.finite ((m : ℚ) / 16))).z < altitude :=
      fun m hm => not_le.mp fun hle => hmin hm ⟨samplesUp_of_lt hm hmem, hle⟩
    exact ⟨t.segments.length + 2 + n, fun fuel hfuel =>
      ⟨_, h.earliestLoop_first hne (by omega) hmem hhigh hlow (by omega)⟩⟩
  · obtain ⟨n, hend, hmem⟩ := t.exists_firstSampleBehind
    have hlow : t.IsEarliest t.samplesUp altitude .infinity := by
      rintro _ ⟨m, rfl, hm⟩
      exact not_le.mp fun hle => hreached ⟨m, mem_samplesUp.mpr hm, hle⟩
    refine ⟨t.segments.length + 2 + (n + 1), fun fuel hfuel => ?_⟩
    obtain ⟨player', hloop⟩ := h.earliestLoop_none hne (show t.segments.length + 2 ≤ fuel by omega)
      hmem hend hlow (show n + 1 < fuel by omega)
    exact ⟨_, player', hloop, hlow⟩

/-- The samples from one down to zero. -/
def samplesTo (n : ℕ) : Set ℚ := {T | ∃ m ≤ n, T = (m : ℚ) / 16}

theorem mem_samplesTo_succ {n : ℕ} {T : ℚ} :
    T ∈ samplesTo (n + 1) ↔ T ∈ samplesTo n ∨ T = (n + 1 : ℕ) / 16 := by
  constructor
  · rintro ⟨m, hm, rfl⟩
    rcases hm.lt_or_eq with hlt | rfl
    · exact .inl ⟨m, Nat.le_of_lt_succ hlt, rfl⟩
    · exact .inr rfl
  · rintro (⟨m, hm, rfl⟩ | rfl)
    · exact ⟨m, Nat.le_succ_of_le hm, rfl⟩
    · exact ⟨n + 1, le_rfl, rfl⟩

/-- A sample that is too low makes no difference. -/
theorem IsLatest.succ {n : ℕ} (hlow : (t.positionAt (.finite ((n + 1 : ℕ) / 16))).z < altitude)
    {latest : TimeSec} (h : t.IsLatest (samplesTo n) altitude latest) :
    t.IsLatest (samplesTo (n + 1)) altitude latest := by
  cases latest with
  | finite T =>
      obtain ⟨⟨hmem, hhigh⟩, hgreatest⟩ := h
      refine ⟨⟨mem_samplesTo_succ.mpr (.inl hmem), hhigh⟩, ?_⟩
      rintro T' ⟨hmem', hhigh'⟩
      rcases mem_samplesTo_succ.mp hmem' with hmem' | rfl
      · exact hgreatest ⟨hmem', hhigh'⟩
      · exact absurd hhigh' (not_le.mpr hlow)
  | negInfinity =>
      intro T' hmem'
      rcases mem_samplesTo_succ.mp hmem' with hmem' | rfl
      · exact h T' hmem'
      · exact hlow
  | infinity | nan => exact h

/-- **From any sample** down to zero, the search from the end finds the latest one that is high
enough. -/
theorem Timed.latestLoop (h : t.Timed) (hseek : t.segments.length + 2 ≤ seekFuel) (altitude : ℚ)
    {n k : ℕ} (hk : k ≤ t.segments.length) {fuel : ℕ} (hfuel : n + 1 < fuel) :
    ∃ latest player',
      TrajectoryPlayer.latestLoop .exact .exact altitude seekFuel fuel (n / 16)
        ⟨t.trajectory, t.standing k⟩ = ok (latest, player') ∧
      t.IsLatest (samplesTo n) altitude latest := by
  induction n generalizing k fuel with
  | zero =>
      obtain ⟨fuel, rfl⟩ : ∃ rest, fuel = rest + 1 + 1 := ⟨fuel - 2, by omega⟩
      have hzero : (0 : ℚ) ≤ (0 : ℕ) / 16 := by positivity
      rw [latestLoop_standing h.fits hseek hzero hk, h.shown_eq hzero hk]
      split
      case isTrue hhigh =>
        refine ⟨_, _, rfl, ⟨⟨0, le_rfl, rfl⟩, hhigh⟩, ?_⟩
        rintro _ ⟨⟨m, hm, rfl⟩, -⟩
        rw [Nat.le_zero.mp hm]
      case isFalse hlow =>
        have hneg : Rounding.exact (((0 : ℕ) : ℚ) / 16 - resolution) < 0 := by
          norm_num [resolution]
        refine ⟨_, _, latestLoop_neg hneg _ _, ?_⟩
        rintro _ ⟨m, hm, rfl⟩
        rw [Nat.le_zero.mp hm]
        exact not_le.mp hlow
  | succ n ih =>
      obtain ⟨fuel, rfl⟩ : ∃ rest, fuel = rest + 1 := ⟨fuel - 1, by omega⟩
      have hn : (0 : ℚ) ≤ (n + 1 : ℕ) / 16 := by positivity
      have hnext : Rounding.exact (((n + 1 : ℕ) : ℚ) / 16 - resolution) = n / 16 := by
        rw [Rounding.exact_apply, resolution]
        push_cast
        ring
      rw [latestLoop_standing h.fits hseek hn hk, h.shown_eq hn hk, hnext]
      split
      case isTrue hhigh =>
        refine ⟨_, _, rfl, ⟨⟨n + 1, le_rfl, rfl⟩, hhigh⟩, ?_⟩
        rintro _ ⟨⟨m, hm, rfl⟩, -⟩
        exact div_le_div_of_nonneg_right (by exact_mod_cast hm) (by norm_num)
      case isFalse hlow =>
        obtain ⟨latest, player', hloop, hlatest⟩ := ih (seekIndex_le hk _)
          (show n + 1 < fuel by omega)
        exact ⟨latest, player', hloop, hlatest.succ (not_le.mp hlow)⟩

/-- In exact arithmetic, the search from the end does not begin before the end. -/
theorem le_lastSample (msec : ℕ) : (msec : ℚ) ≤ 1000 * lastSample .exact msec := by
  have hceil := Int.le_ceil ((msec : ℚ) / (1000 * resolution))
  rw [div_le_iff₀ (by norm_num [resolution])] at hceil
  simp only [lastSample, Rounding.exact_apply]
  linarith

/-- In exact arithmetic, the search from the end begins at the first sample that is not before
the end. -/
theorem lastSample_exact (t : StoredTrajectory) :
    ∃ n : ℕ, lastSample .exact (totalDuration t.segments) = n / 16 ∧
      t.samplesDown = samplesTo n := by
  refine ⟨⌈t.durationSec * 16⌉₊, ?_, ?_⟩
  · have hquotient : (totalDuration t.segments : ℚ) / (1000 * resolution) = t.durationSec * 16 := by
      rw [durationSec, resolution]
      ring
    have hnonneg : 0 ≤ t.durationSec * 16 := by
      rw [durationSec]
      positivity
    simp only [lastSample, Rounding.exact_apply, hquotient]
    rw [← natCast_ceil_eq_intCast_ceil hnonneg, resolution]
    ring
  · ext T
    have hbelow : ∀ n : ℕ, n ≤ ⌈t.durationSec * 16⌉₊ ↔ ∀ m < n, (m : ℚ) / 16 < t.durationSec := by
      intro n
      rw [← forall_lt_iff_le]
      refine forall₂_congr fun m _ => ?_
      rw [Nat.lt_ceil, div_lt_iff₀ (by norm_num)]
    constructor
    · rintro ⟨n, rfl, hn⟩
      exact ⟨n, (hbelow n).mpr hn, rfl⟩
    · rintro ⟨n, hn, rfl⟩
      exact ⟨n, rfl, (hbelow n).mp hn⟩

/-! ### Level flight -/

end StoredTrajectory

namespace StoredSegment

/-- A segment that keeps its altitude. -/
def Level (s : StoredSegment) : Prop := s.z.points = []

theorem Level.curve_z {s : StoredSegment} (h : s.Level) (scale : ℕ) (start : Vector3WithYaw)
    (u : ℚ) : (s.curve scale start u).z = start.z := by
  simp only [curve, StoredPoints.coordinates]
  rw [h]
  simp [Bezier.curve, Bezier.weight]

variable {segments : List StoredSegment} (h : ∀ s ∈ segments, s.Level)

include h

theorem endPosition_z (scale : ℕ) (start : Vector3WithYaw) :
    (endPosition scale start segments).z = start.z := by
  induction segments generalizing start with
  | nil => rfl
  | cons s rest ih =>
      obtain ⟨hs, hrest⟩ := List.forall_mem_cons.mp h
      have hnext := ih hrest (s.curve scale start 1)
      rw [hs.curve_z] at hnext
      exact hnext

theorem positionAt_z (scale : ℕ) (t : ℚ) (start : Vector3WithYaw) (time : ℕ) :
    (positionAt scale t start time segments).z = start.z := by
  induction segments generalizing start time with
  | nil => rfl
  | cons s rest ih =>
      obtain ⟨hs, hrest⟩ := List.forall_mem_cons.mp h
      rw [positionAt]
      split
      · exact hs.curve_z scale start _
      · rw [ih hrest, hs.curve_z]

end StoredSegment

namespace StoredTrajectory

open StoredSegment TrajectoryPlayer

section Level

variable {t : StoredTrajectory} (h : ∀ s ∈ t.segments, s.Level)

include h

/-- In level flight, the altitude is the one of the start. -/
theorem positionAt_level (time : TimeSec) : (t.positionAt time).z = t.start.z := by
  cases time with
  | finite T =>
      rw [positionAt]
      split
      · rfl
      · exact positionAt_z h t.scale _ _ 0
  | infinity => exact endPosition_z h t.scale t.start
  | negInfinity | nan => rfl

/-- In level flight, the altitude that is shown is the one of the start. -/
theorem shown_level (k : ℕ) (x : ℚ) : (t.shown k x).z = t.start.z := by
  have hbefore : (t.junction k).z = t.start.z :=
    endPosition_z (fun s hs => h s (List.mem_of_mem_take hs)) t.scale t.start
  rw [shown]
  split
  case h_1 s hs => rw [(h s (List.mem_of_getElem? hs)).curve_z, hbefore]
  case h_2 => exact endPosition_z h t.scale t.start

/-- In level flight, the search from the end stops at its first sample if the altitude of the
start is high enough. The time of that sample has wrapped around with the total duration. -/
theorem findLatest_level (hhigh : altitude ≤ t.start.z) {player : TrajectoryPlayer}
    (hplayer : player.trajectory = t.trajectory) {fuel : ℕ} (hfuel : t.segments.length < fuel) :
    ∃ player', player.findLatestTimeAboveAltitude .exact .exact fuel altitude =
      ok (.finite (lastSample .exact (totalDuration t.segments % 2 ^ 32)), player') := by
  obtain ⟨fuel, rfl⟩ : ∃ rest, fuel = rest + 1 := ⟨fuel - 1, by omega⟩
  have hbehind := le_lastSample (totalDuration t.segments % 2 ^ 32)
  have hnonneg : 0 ≤ lastSample .exact (totalDuration t.segments % 2 ^ 32) := by
    have hmsec : (0 : ℚ) ≤ (totalDuration t.segments % 2 ^ 32 : ℕ) := Nat.cast_nonneg _
    linarith
  have heval : altitude ≤ ((restSegment .exact (totalDuration t.segments % 2 ^ 32)
      t.finalPosition).poly.eval .exact 0).z := by
    rw [eval_restSegment]
    exact hhigh.trans_eq (endPosition_z h t.scale t.start).symm
  refine ⟨⟨t.trajectory, current t.scale t.bytes.length (totalDuration t.segments % 2 ^ 32)
    t.finalPosition []⟩, ?_⟩
  rw [findLatest_mod hplayer hfuel, latestLoop, if_pos hnonneg, seekToTime,
    TimeSec.clip_of_nonneg hnonneg, seekLoop_rest hbehind, ok_bind]
  exact if_pos heval

end Level

end StoredTrajectory

/-! ### The searches -/

open StoredTrajectory in
/-- **The altitude searches** find the earliest and the latest sample at which an altitude is
reached, from any state of the player, if all segments take some time and the total duration
fits into 32 bits. -/
theorem altitude_searches (t : StoredTrajectory) (h : t.Timed) (hne : t.segments ≠ [])
    (owned : Bool) (altitude : ℚ) :
    ∃ fuel₀, ∀ fuel ≥ fuel₀, ∃ trajectory,
      Trajectory.initFromBytes .exact owned t.bytes = ok trajectory ∧
      ∀ player : TrajectoryPlayer, player.trajectory = trajectory →
        (∃ earliest player',
          player.findEarliestTimeReachingAltitude .exact .exact fuel altitude =
            ok (earliest, player') ∧ t.IsEarliest t.samplesUp altitude earliest) ∧
        ∃ latest player',
          player.findLatestTimeAboveAltitude .exact .exact fuel altitude =
            ok (latest, player') ∧ t.IsLatest t.samplesDown altitude latest := by
  obtain ⟨fuel₀, hearliest⟩ := h.earliestLoop hne altitude
  obtain ⟨n, hlast, hsamples⟩ := t.lastSample_exact
  refine ⟨max fuel₀ (t.segments.length + 2 + n), fun fuel hfuel => ⟨t.trajectory,
    t.initFromBytes owned, fun player hplayer => ⟨?_, ?_⟩⟩⟩
  · rw [findEarliest_eq hplayer]
    exact hearliest fuel (le_of_max_le_left hfuel)
  · have hle := le_of_max_le_right hfuel
    rw [findLatest_eq h.fits hplayer (by omega), hlast, hsamples]
    exact h.latestLoop (by omega) altitude le_rfl (by omega)

/-- One meter up in a second, and down again in two. -/
def upAndDown : StoredTrajectory := .fromOrigin
  [⟨1000, .held, .held, .line 1000, .held⟩, ⟨2000, .held, .held, .line 0, .held⟩]

/-- Half a meter is reached by the eighth sample, and left after the one at two seconds. -/
theorem altitude_searches_upAndDown :
    (upAndDown.positionAt (.finite (1 / 2))).z = 500 ∧
      (upAndDown.positionAt (.finite 2)).z = 500 ∧
      ∃ fuel₀, ∀ fuel ≥ fuel₀, ∃ trajectory,
        Trajectory.initFromBytes .exact false upAndDown.bytes = ok trajectory ∧
        ∀ player : TrajectoryPlayer, player.trajectory = trajectory →
          (∃ earliest player',
            player.findEarliestTimeReachingAltitude .exact .exact fuel 500 =
              ok (earliest, player') ∧
            upAndDown.IsEarliest upAndDown.samplesUp 500 earliest) ∧
          ∃ latest player',
            player.findLatestTimeAboveAltitude .exact .exact fuel 500 = ok (latest, player') ∧
            upAndDown.IsLatest upAndDown.samplesDown 500 latest :=
  ⟨by decide +kernel, by decide +kernel,
    altitude_searches upAndDown ⟨by decide, by decide⟩ (by decide) false 500⟩

/-- A number of segments of the longest duration, all at the origin. -/
def hover (count : ℕ) : StoredTrajectory :=
  .fromOrigin (List.replicate count ⟨65535, .held, .held, .held, .held⟩)

theorem hover_level (count : ℕ) : ∀ s ∈ (hover count).segments, s.Level := by
  intro s hs
  rw [List.eq_of_mem_replicate hs]
  rfl

theorem start_hover (count : ℕ) : (hover count).start.z = 0 := by
  simp [StoredTrajectory.start, hover, StoredTrajectory.fromOrigin]

theorem totalDuration_hover (count : ℕ) :
    StoredSegment.totalDuration (hover count).segments = count * 65535 := by
  rw [StoredSegment.totalDuration, hover, StoredTrajectory.fromOrigin, List.map_replicate,
    List.sum_replicate, smul_eq_mul]
  rfl

open StoredTrajectory StoredSegment TrajectoryPlayer in
/-- Hovering for 49 days and a bit: the total duration wraps around, and the search from the end
begins after a minute. -/
theorem hover_wrapsAround :
    (∀ s ∈ (hover 65538).segments, 0 < s.durationMsec.toNat) ∧ (hover 65538).segments ≠ [] ∧
      (∀ fuel > 65538, ∀ player : TrajectoryPlayer,
        player.trajectory = (hover 65538).trajectory → ∃ player',
          player.findLatestTimeAboveAltitude .exact .exact fuel 0 =
            ok (.finite (1049 / 16), player')) ∧
      ¬ (hover 65538).IsLatest (hover 65538).samplesDown 0 (.finite (1049 / 16)) := by
  have htotal := totalDuration_hover 65538
  have hlength : (hover 65538).segments.length = 65538 := List.length_replicate
  have hlast : lastSample .exact (totalDuration (hover 65538).segments % 2 ^ 32) = 1049 / 16 := by
    have hceil : ⌈(65534 : ℚ) / (1000 * resolution)⌉ = 1049 := by
      rw [Int.ceil_eq_iff, resolution]
      norm_num
    rw [htotal, lastSample]
    norm_num [hceil]
    norm_num [resolution]
  have hpos : ∀ s ∈ (hover 65538).segments, 0 < s.durationMsec.toNat := by
    intro s hs
    rw [List.eq_of_mem_replicate hs]
    decide
  have hsample : ((68720526 : ℕ) : ℚ) / 16 ∈ (hover 65538).samplesDown := by
    refine ⟨68720526, rfl, fun m hm => ?_⟩
    have hm' : (m : ℚ) ≤ 68720525 := by exact_mod_cast Nat.le_of_lt_succ hm
    rw [durationSec, htotal]
    push_cast
    linarith
  have hne : (hover 65538).segments ≠ [] := List.ne_nil_of_length_pos (by omega)
  refine ⟨hpos, hne, fun fuel hfuel player hplayer => ?_, ?_⟩
  · rw [← hlast]
    exact findLatest_level (hover_level 65538) (start_hover _).ge hplayer (by omega)
  · rintro ⟨-, hgreatest⟩
    have hhigh := positionAt_level (hover_level 65538) (.finite (((68720526 : ℕ) : ℚ) / 16))
    rw [start_hover] at hhigh
    have hle := hgreatest ⟨hsample, hhigh.ge⟩
    norm_num at hle

/-! ### Proposed times -/

theorem Trajectory.fltMin_pos : 0 < fltMin := by norm_num [fltMin]

open StoredTrajectory TrajectoryPlayer in
/-- **The proposed takeoff time** is the earliest sample that is high enough above the start,
less the time that the ascent takes. -/
theorem proposeTakeoffTimeSec_timed (t : StoredTrajectory) (h : t.Timed) (hne : t.segments ≠ [])
    {minAscent speed : ℚ} (hascent : Trajectory.fltMin ≤ minAscent) (hspeed : 0 < speed) :
    ∃ fuel₀, ∀ fuel ≥ fuel₀, ∃ earliest,
      t.IsEarliest t.samplesUp (t.start.z + minAscent) earliest ∧
      t.trajectory.proposeTakeoffTimeSec .exact .exact fuel minAscent speed =
        ok (match earliest with
          | .finite T => .finite (T - minAscent / speed)
          | _ => .infinity) := by
  obtain ⟨fuel₀, hloop⟩ := h.earliestLoop hne (t.start.z + minAscent)
  refine ⟨max fuel₀ (t.segments.length + 2), fun fuel hfuel => ?_⟩
  obtain ⟨earliest, player', hfound, hearliest⟩ := hloop fuel (le_of_max_le_left hfuel)
  have htime : TimeSec.finite 0 ≠ .nan := nofun
  obtain ⟨rel, segment, hseek, -, -, -, heval⟩ := h.seekToTime (stands_standing 0) htime
    (le_of_max_le_right hfuel)
  have hstart : t.positionAt (.finite 0) = t.start := by
    rw [StoredTrajectory.positionAt, if_pos le_rfl]
  have hpositive : ¬ (minAscent < 0 ∨ speed ≤ 0) := by
    rw [not_or]
    exact ⟨not_lt.mpr (Trajectory.fltMin_pos.le.trans hascent), not_le.mpr hspeed⟩
  have hfull : ¬ |minAscent| < Trajectory.fltMin := not_lt.mpr (hascent.trans (le_abs_self _))
  refine ⟨earliest, hearliest, ?_⟩
  rw [Trajectory.proposeTakeoffTimeSec, if_neg hpositive, if_neg hfull, rewind_standing, ok_bind,
    getPositionAt, hseek, ok_bind]
  simp only [pure_eq, ok_bind, heval, hstart, Rounding.exact_apply]
  rw [findEarliest_eq rfl, hfound]
  cases earliest <;> rfl

/-- An ascent that takes longer than the climb on the trajectory has to begin before it. -/
example : upAndDown.trajectory.proposeTakeoffTimeSec .exact .exact 40 750 500 =
    ok (.finite (-3 / 4)) := by decide +kernel

open StoredTrajectory TrajectoryPlayer in
/-- **The proposed landing time** is the latest sample that is high enough above the end. -/
theorem proposeLandingTimeSec_timed (t : StoredTrajectory) (h : t.Timed) {minDescent : ℚ}
    (hdescent : Trajectory.fltMin ≤ minDescent) :
    ∃ fuel₀, ∀ fuel ≥ fuel₀, ∃ latest,
      t.IsLatest t.samplesDown (t.finalPosition.z + minDescent) latest ∧
      t.trajectory.proposeLandingTimeSec .exact .exact fuel minDescent = ok latest := by
  obtain ⟨n, hlast, hsamples⟩ := t.lastSample_exact
  refine ⟨t.segments.length + 2 + n, fun fuel hfuel => ?_⟩
  have hfuel₂ : t.segments.length + 2 ≤ fuel := by omega
  obtain ⟨latest, player', hfound, hlatest⟩ := h.latestLoop hfuel₂ (t.finalPosition.z + minDescent)
    le_rfl (show n + 1 < fuel by omega)
  have htime : TimeSec.infinity ≠ .nan := nofun
  obtain ⟨rel, segment, hseek, -, -, -, heval⟩ := h.seekToTime (stands_standing 0) htime hfuel₂
  have hend : t.positionAt .infinity = t.finalPosition := rfl
  have hpositive : ¬ minDescent < 0 := not_lt.mpr (Trajectory.fltMin_pos.le.trans hdescent)
  have hfull : ¬ |minDescent| < Trajectory.fltMin :=
    not_lt.mpr (hdescent.trans (le_abs_self _))
  rw [← hsamples] at hlatest
  refine ⟨latest, hlatest, ?_⟩
  rw [Trajectory.proposeLandingTimeSec, if_neg hpositive, if_neg hfull, rewind_standing, ok_bind,
    getPositionAt, hseek, ok_bind]
  simp only [pure_eq, ok_bind, heval, hend, Rounding.exact_apply]
  rw [findLatest_eq h.fits rfl (by omega), hlast, hfound]
  cases latest with
  | finite T | negInfinity => rfl
  | infinity | nan => exact hlatest.elim

example : upAndDown.trajectory.proposeLandingTimeSec .exact .exact 60 750 =
    ok (.finite (3 / 2)) := by decide +kernel

end Skybrush
