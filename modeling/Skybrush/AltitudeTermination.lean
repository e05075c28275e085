import Skybrush.AltitudeSearch
import Skybrush.Library.Binary32

/-!
# Termination of the Altitude Searches

The altitude searches accumulate the time of their samples in single precision. Sixteenths of a
second are exact up to `2 ^ 20` seconds; from there on, adding or subtracting a sixteenth is
rounded back to the same time, and a search that gets there never moves on. This takes twelve
days of flight, and a trajectory of less than 65536 bytes can last for longer than that.

## Main results

* `StoredTrajectory.earliest_terminates_iff`: when the search from the start stops.
* `StoredTrajectory.latest_terminates_iff`: when the search from the end stops.
* `altitude_searches_terminate_iff`: when both do.
-/

namespace Skybrush

open Checked

namespace TrajectoryPlayer

open Rounding

/-! ### Sixteenths of a second -/

/-- Sixteenths of a second are exact up to a number of 24 bits. -/
theorem binary32_sixteenth {m : ℤ} (hm : |m| ≤ 2 ^ 24) : binary32 ((m : ℚ) / 16) = m / 16 := by
  have hround := @toBinary32_of_mem m (-4) (by norm_num) hm
  norm_num at hround
  rw [binary32_apply, div_eq_mul_one_div, hround]

/-- Eighths of a second are exact, too. -/
theorem binary32_eighth {m : ℤ} (hm : |m| ≤ 2 ^ 24) : binary32 ((m : ℚ) / 8) = m / 8 := by
  have hround := @toBinary32_of_mem m (-3) (by norm_num) hm
  norm_num at hround
  rw [binary32_apply, div_eq_mul_one_div, hround]

/-- Up to `2 ^ 20` seconds, the next sample is a sixteenth of a second later. -/
theorem binary32_add_resolution {m : ℕ} (hm : m < 2 ^ 24) :
    binary32 ((m : ℚ) / 16 + resolution) = (m + 1 : ℕ) / 16 := by
  have hround := @binary32_sixteenth (m + 1 : ℕ) (by rw [Nat.abs_cast]; omega)
  rw [Int.cast_natCast] at hround
  rw [← hround, resolution]
  push_cast
  congr 1
  ring

/-- Up to `2 ^ 20` seconds, the sample before is a sixteenth of a second earlier. -/
theorem binary32_sub_resolution {m : ℕ} (hm : m < 2 ^ 24) :
    binary32 (((m + 1 : ℕ) : ℚ) / 16 - resolution) = m / 16 := by
  have hround := @binary32_sixteenth m (by rw [Nat.abs_cast]; omega)
  rw [Int.cast_natCast] at hround
  rw [← hround, resolution]
  push_cast
  congr 1
  ring

/-- Before the first sample, the time is negative. -/
theorem binary32_zero_sub_resolution : binary32 (((0 : ℕ) : ℚ) / 16 - resolution) < 0 := by
  have hround := @binary32_sixteenth (-1) (by norm_num)
  norm_num [resolution] at hround ⊢
  rw [hround]
  norm_num

/-- **At `2 ^ 20` seconds**, the next sample is the same one again. -/
theorem binary32_stuck : binary32 (((2 ^ 24 : ℕ) : ℚ) / 16 + resolution) = (2 ^ 24 : ℕ) / 16 := by
  have hround := @toBinary32_half (2 ^ 23) (-3) (by norm_num) le_rfl (by norm_num)
  norm_num [resolution] at hround ⊢
  exact hround

/-- **Behind `2 ^ 20` seconds**, the sample before is the next multiple of a quarter of a second,
and that is stuck. -/
theorem binary32_sub_resolution_large {n : ℕ} (hlow : 2 ^ 24 < n) (hhigh : n ≤ 2 ^ 25)
    (heven : n % 2 = 0) : binary32 ((n : ℚ) / 16 - resolution) = (n - n % 4 : ℕ) / 16 := by
  obtain ⟨m, rfl⟩ : ∃ m, n = 2 * m + 2 := ⟨n / 2 - 1, by omega⟩
  have hround := @toBinary32_half m (-3) (by norm_num) (by omega) (by omega)
  have hhalf : ((2 * m + 2 : ℕ) : ℚ) / 16 - resolution =
      (((m : ℤ) : ℚ) + 1 / 2) * 2 ^ (-3 : ℤ) := by
    rw [resolution]
    push_cast
    ring
  rw [binary32_apply, hhalf, hround]
  split
  case isTrue hm =>
    have hnext : 2 * m + 2 - (2 * m + 2) % 4 = 2 * m := by omega
    rw [hnext]
    push_cast
    ring
  case isFalse hm =>
    have hnext : 2 * m + 2 - (2 * m + 2) % 4 = 2 * (m + 1) := by omega
    rw [hnext]
    push_cast
    ring

/-! ### The first sample from the end -/

/-- The total duration in sixteenths of a second, in single precision. -/
def sixteenths (msec : ℕ) : ℚ := binary32 (binary32 msec / (1000 * resolution))

theorem sixteenths_mono : Monotone sixteenths := by
  intro m n hle
  have hround : binary32 m ≤ binary32 n := binary32.mono (by exact_mod_cast hle)
  exact binary32.mono (div_le_div_of_nonneg_right hround (by norm_num [resolution]))

theorem sixteenths_nonneg (msec : ℕ) : 0 ≤ sixteenths msec := by
  have hround : 0 ≤ binary32 (msec : ℚ) := binary32.nonneg (Nat.cast_nonneg _)
  exact binary32.nonneg (div_nonneg hround (by norm_num [resolution]))

/-- The last total duration with which a search from the end can go down to exact times. -/
theorem sixteenths_exact : sixteenths 1048576160 = 2 ^ 24 + 2 := by
  have htotal := @toBinary32_half 16384002 6 (by norm_num) (by norm_num) (by norm_num)
  have hquotient := @toBinary32_of_binade (16777218048 / 1000) 1 (by norm_num) (by norm_num)
    (by norm_num)
  have hround : roundEven (16777218048 / 1000 / 2 ^ (1 : ℤ)) = 8388609 :=
    roundEven_eq (by norm_num) (by norm_num)
  rw [hround] at hquotient
  norm_num at htotal hquotient
  norm_num [sixteenths, resolution, htotal, hquotient]

/-- With one millisecond more, it begins too late. -/
theorem sixteenths_late : sixteenths 1048576161 = 2 ^ 24 + 4 := by
  have htotal := @toBinary32_of_binade 1048576161 6 (by norm_num) (by norm_num) (by norm_num)
  have hround : roundEven (1048576161 / 2 ^ (6 : ℤ)) = 16384003 :=
    roundEven_eq (by norm_num) (by norm_num)
  have hquotient := @toBinary32_of_binade (16777219072 / 1000) 1 (by norm_num) (by norm_num)
    (by norm_num)
  have hround' : roundEven (16777219072 / 1000 / 2 ^ (1 : ℤ)) = 8388610 :=
    roundEven_eq (by norm_num) (by norm_num)
  rw [hround] at htotal
  rw [hround'] at hquotient
  norm_num at htotal hquotient
  norm_num [sixteenths, resolution, htotal, hquotient]

/-- The longest trajectories begin at a number of eighths of a second. -/
theorem sixteenths_even {msec : ℕ} (hmsec : msec ≤ 1431415470) (hlarge : 2 ^ 24 < sixteenths msec) :
    ∃ m : ℕ, sixteenths msec = (2 * m : ℕ) ∧ m ≤ 2 ^ 24 := by
  have hstep : 1000 * resolution = 125 / 2 := by norm_num [resolution]
  have hbound : binary32 (msec : ℚ) ≤ 1476395008 := by
    have hround := @toBinary32_of_mem 11 27 (by norm_num) (by norm_num)
    norm_num at hround
    have hmono : binary32 (msec : ℚ) ≤ binary32 1476395008 :=
      binary32.mono (by exact_mod_cast hmsec.trans (by norm_num))
    rwa [binary32_apply 1476395008, hround] at hmono
  have hlow : 16777216 < binary32 (msec : ℚ) / (1000 * resolution) := by
    have hexact : binary32 16777216 = 16777216 := by
      simpa using binary32.exact_int 16777216 (by norm_num)
    by_contra hle
    have hround := binary32.mono (not_lt.mp hle)
    rw [hexact] at hround
    rw [sixteenths] at hlarge
    linarith
  have hhigh : binary32 (msec : ℚ) / (1000 * resolution) < 2 ^ 25 := by
    rw [hstep, div_lt_iff₀ (by norm_num)]
    linarith
  have hsixteenths := sixteenths_nonneg msec
  rw [sixteenths, binary32_apply] at hsixteenths ⊢
  generalize binary32 (msec : ℚ) / (1000 * resolution) = q at *
  have hpos : 0 < q := lt_trans (by norm_num) hlow
  have hround := @toBinary32_of_binade q 1 (by norm_num) (by norm_num [abs_of_pos hpos]; linarith)
    (by norm_num [abs_of_pos hpos]; linarith)
  have hnonneg : 0 ≤ roundEven (q / 2 ^ (1 : ℤ)) := by
    refine le_roundEven ?_
    push_cast
    positivity
  have hle : roundEven (q / 2 ^ (1 : ℤ)) ≤ 2 ^ 24 := by
    refine roundEven_le ?_
    norm_num
    linarith
  obtain ⟨m, hm⟩ := Int.eq_ofNat_of_zero_le hnonneg
  rw [hm] at hround hle
  refine ⟨m, ?_, by omega⟩
  rw [hround]
  push_cast
  ring

/-- The first sample of a search from the end, in sixteenths of a second. -/
def lastIndex (msec : ℕ) : ℕ := ⌈sixteenths msec⌉₊

theorem lastIndex_le_or {msec : ℕ} (hmsec : msec ≤ 1431415470) :
    lastIndex msec ≤ 2 ^ 24 ∨
      ∃ m : ℕ, lastIndex msec = 2 * m ∧ sixteenths msec = (2 * m : ℕ) ∧ m ≤ 2 ^ 24 := by
  rcases le_or_gt (sixteenths msec) (2 ^ 24) with hsmall | hlarge
  · exact .inl (Nat.ceil_le.mpr (by exact_mod_cast hsmall))
  · obtain ⟨m, hm, hle⟩ := sixteenths_even hmsec hlarge
    exact .inr ⟨m, by rw [lastIndex, hm, Nat.ceil_natCast], hm, hle⟩

/-- **The first sample** of a search from the end is exact. -/
theorem lastSample_binary32 {msec : ℕ} (hmsec : msec ≤ 1431415470) :
    lastSample binary32 msec = lastIndex msec / 16 := by
  have hceil : lastSample binary32 msec = binary32 ((lastIndex msec : ℚ) / 16) := by
    rw [div_eq_mul_one_div, lastIndex, natCast_ceil_eq_intCast_ceil (sixteenths_nonneg msec)]
    rfl
  rw [hceil]
  obtain hsmall | ⟨m, hm, -, hle⟩ := lastIndex_le_or hmsec
  · have hround := @binary32_sixteenth (lastIndex msec) (by rw [Nat.abs_cast]; omega)
    rwa [Int.cast_natCast] at hround
  · have hround := @binary32_eighth m (by rw [Nat.abs_cast]; omega)
    have height : ((2 * m : ℕ) : ℚ) / 16 = ((m : ℤ) : ℚ) / 8 := by
      push_cast
      ring
    rw [hm, height, hround]

/-- A search from the end begins at an exact time, or one step behind, if the total duration is
small enough. -/
theorem lastIndex_le_iff (msec : ℕ) : lastIndex msec ≤ 2 ^ 24 + 2 ↔ msec ≤ 1048576160 := by
  rw [lastIndex, Nat.ceil_le]
  constructor
  · intro hle
    by_contra hlate
    have hmono := sixteenths_mono (Nat.succ_le_of_lt (not_le.mp hlate))
    rw [Nat.succ_eq_add_one, sixteenths_late] at hmono
    norm_num at hle hmono
    linarith
  · intro hle
    have hmono := sixteenths_mono hle
    rw [sixteenths_exact] at hmono
    exact_mod_cast hmono

end TrajectoryPlayer

namespace StoredTrajectory

open StoredSegment TrajectoryPlayer Rounding

/-! ### Searches that stop, and searches that do not -/

/-- A search stops: with enough fuel, it returns a time. -/
def Terminates (search : ℕ → Checked SbError (TimeSec × TrajectoryPlayer)) : Prop :=
  ∃ fuel₀, ∀ fuel ≥ fuel₀, ∃ time player, search fuel = ok (time, player)

theorem not_terminates {search : ℕ → Checked SbError (TimeSec × TrajectoryPlayer)} (fuel₁ : ℕ)
    (h : ∀ fuel ≥ fuel₁, search fuel = outOfFuel) : ¬ Terminates search := by
  rintro ⟨fuel₀, hstops⟩
  obtain ⟨time, player, hok⟩ := hstops (max fuel₀ fuel₁) (le_max_left _ _)
  rw [h _ (le_max_right _ _)] at hok
  cases hok

theorem Terminates.congr {search search' : ℕ → Checked SbError (TimeSec × TrajectoryPlayer)}
    {fuel₁ : ℕ} (hstops : Terminates search) (h : ∀ fuel ≥ fuel₁, search fuel = search' fuel) :
    Terminates search' := by
  obtain ⟨fuel₀, hstops⟩ := hstops
  refine ⟨max fuel₀ fuel₁, fun fuel hfuel => ?_⟩
  rw [← h fuel (le_of_max_le_right hfuel)]
  exact hstops fuel (le_of_max_le_left hfuel)

/-- What a search does with little fuel makes no difference. -/
theorem terminates_congr {search search' : ℕ → Checked SbError (TimeSec × TrajectoryPlayer)}
    {fuel₁ : ℕ} (h : ∀ fuel ≥ fuel₁, search fuel = search' fuel) :
    Terminates search ↔ Terminates search' :=
  ⟨fun hstops => hstops.congr h, fun hstops => hstops.congr fun fuel hfuel => (h fuel hfuel).symm⟩

variable {t : StoredTrajectory} {G : Rounding} {altitude : ℚ} {seekFuel : ℕ}

section Loops

variable (hfits : totalDuration t.segments < 2 ^ 32)
  (hseek : t.segments.length + 2 ≤ seekFuel)

include hfits hseek

/-- **A search from the start never stops** at a sample that is followed by itself. -/
theorem earliestLoop_stuck {x : ℚ} (hx : 0 ≤ x) {k : ℕ} (hk : k < t.segments.length)
    (hindex : t.seekIndex k x = k) (hG : G (x + resolution) = x)
    (hlow : (t.shown k x).z < altitude) (fuel : ℕ) :
    earliestLoop .exact G altitude seekFuel fuel x ⟨t.trajectory, t.standing k⟩ = outOfFuel := by
  induction fuel with
  | zero => rfl
  | succ fuel ih =>
      rw [earliestLoop_standing hfits hseek hx hk, hindex, if_neg (not_le.mpr hlow), hG]
      exact ih

/-- **A search from the end never stops** at a sample that is followed by itself. -/
theorem latestLoop_stuck {x : ℚ} (hx : 0 ≤ x) {k : ℕ} (hk : k ≤ t.segments.length)
    (hindex : t.seekIndex k x = k) (hG : G (x - resolution) = x)
    (hlow : (t.shown k x).z < altitude) (fuel : ℕ) :
    latestLoop .exact G altitude seekFuel fuel x ⟨t.trajectory, t.standing k⟩ = outOfFuel := by
  induction fuel with
  | zero => rfl
  | succ fuel ih =>
      rw [latestLoop_standing hfits hseek hx hk, hindex, if_neg (not_le.mpr hlow), hG]
      exact ih

/-- **A search from the end stops** if it begins at an exact time. -/
theorem latestLoop_stops {n : ℕ} (hn : n ≤ 2 ^ 24) {k : ℕ} (hk : k ≤ t.segments.length) {fuel : ℕ}
    (hfuel : n + 1 < fuel) :
    ∃ time player, latestLoop .exact binary32 altitude seekFuel fuel (n / 16)
      ⟨t.trajectory, t.standing k⟩ = ok (time, player) := by
  induction n generalizing k fuel with
  | zero =>
      obtain ⟨fuel, rfl⟩ : ∃ rest, fuel = rest + 1 + 1 := ⟨fuel - 2, by omega⟩
      rw [latestLoop_standing hfits hseek (by positivity) hk]
      split
      case isTrue => exact ⟨_, _, rfl⟩
      case isFalse => exact ⟨_, _, latestLoop_neg binary32_zero_sub_resolution _ _⟩
  | succ n ih =>
      obtain ⟨fuel, rfl⟩ : ∃ rest, fuel = rest + 1 := ⟨fuel - 1, by omega⟩
      rw [latestLoop_standing hfits hseek (by positivity) hk, binary32_sub_resolution (by omega)]
      split
      case isTrue => exact ⟨_, _, rfl⟩
      case isFalse => exact ih (by omega) (seekIndex_le hk _) (by omega)

end Loops

/-! ### The search from the start -/

variable (t) in
/-- The search from the start stops before its times are rounded. -/
def EarliestStops (altitude : ℚ) : Prop :=
  totalDuration t.segments < 1048576000 ∨
    ∃ n : ℕ, n ≤ 2 ^ 24 ∧ altitude ≤ (t.shown (t.passed (n / 16)) (n / 16)).z

/-- All segments have been passed by the last exact sample if the trajectory is short. -/
theorem passed_lastExact :
    t.passed ((2 ^ 24 : ℕ) / 16) = t.segments.length ↔ totalDuration t.segments < 1048576000 := by
  rw [passed_eq_length_iff]
  constructor
  · rintro (hnil | hlt)
    · rw [hnil]
      decide
    · norm_num at hlt
      exact_mod_cast hlt
  · intro hlt
    right
    norm_num
    exact_mod_cast hlt

variable (t) in
/-- The search from the start stops at a sample. -/
def StopsAt (altitude : ℚ) (n : ℕ) : Prop :=
  t.passedBefore n = t.segments.length ∨
    altitude ≤ (t.shown (t.passed (n / 16)) (n / 16)).z

theorem goesOn_of_not_stopsAt {n : ℕ} (h : ¬ t.StopsAt altitude n) :
    t.passedBefore n < t.segments.length ∧
      (t.shown (t.passed (n / 16)) (n / 16)).z < altitude := by
  rw [StopsAt, not_or, not_le] at h
  exact ⟨lt_of_le_of_ne (passedBefore_le n) h.1, h.2⟩

/-- A short trajectory or a high altitude is what makes the search stop at an exact sample. -/
theorem StopsAt.earliestStops {n : ℕ} (hn : n ≤ 2 ^ 24) (h : t.StopsAt altitude n) :
    t.EarliestStops altitude := by
  rcases h with hall | hhigh
  · left
    rw [← passed_lastExact]
    refine le_antisymm (passed_le _) ?_
    rw [← hall]
    cases n with
    | zero => exact Nat.zero_le _
    | succ n =>
        have hcast : (n : ℚ) ≤ (2 ^ 24 : ℕ) := by exact_mod_cast Nat.le_of_succ_le hn
        exact passed_mono (div_le_div_of_nonneg_right hcast (by norm_num))
  · exact .inr ⟨n, hn, hhigh⟩

section Start

variable (hfits : totalDuration t.segments < 2 ^ 32)

include hfits

/-- A search that stops at an exact sample stops. -/
theorem StopsAt.terminates {n : ℕ} (hn : n ≤ 2 ^ 24) (h : t.StopsAt altitude n) :
    Terminates fun fuel => earliestLoop .exact binary32 altitude fuel fuel 0
      ⟨t.trajectory, t.standing 0⟩ := by
  classical
  have hstop : ∃ n, t.StopsAt altitude n := ⟨n, h⟩
  have hfirst : Nat.find hstop ≤ n := Nat.find_min' hstop h
  have hmin := @Nat.find_min _ _ hstop
  have hstops := Nat.find_spec hstop
  generalize Nat.find hstop = first at hfirst hmin hstops
  have hG : ∀ m < first, binary32 ((m : ℚ) / 16 + resolution) = (m + 1 : ℕ) / 16 :=
    fun m hm => binary32_add_resolution (hm.trans_le (hfirst.trans hn))
  have hlow := fun m (hm : m < first) => goesOn_of_not_stopsAt (hmin hm)
  refine ⟨t.segments.length + 2 + first, fun fuel hfuel => ?_⟩
  by_cases hall : t.passedBefore first = t.segments.length
  · exact ⟨_, _, earliestLoop_ends hfits (by omega) hG hlow hall (by omega)⟩
  · exact ⟨_, _, earliestLoop_reaches hfits (by omega) hG hlow
      (lt_of_le_of_ne (passedBefore_le first) hall) (hstops.resolve_left hall) (by omega)⟩

/-- A search that does not stop at an exact sample gets to the last one and stays there. -/
theorem earliestLoop_lastExact (hlow : ∀ n : ℕ, n ≤ 2 ^ 24 → ¬ t.StopsAt altitude n)
    (hseek : t.segments.length + 2 ≤ seekFuel) (fuel : ℕ) :
    earliestLoop .exact binary32 altitude seekFuel (fuel + 1 + 2 ^ 24) 0
        ⟨t.trajectory, t.standing 0⟩ =
      earliestLoop .exact binary32 altitude seekFuel fuel ((2 ^ 24 : ℕ) / 16)
        ⟨t.trajectory, t.standing (t.passed ((2 ^ 24 : ℕ) / 16))⟩ := by
  obtain ⟨hmore, hbelow⟩ := goesOn_of_not_stopsAt (hlow (2 ^ 24) le_rfl)
  rw [earliestLoop_skip hfits hseek (fun m hm => binary32_add_resolution hm)
      (fun m hm => goesOn_of_not_stopsAt (hlow m hm.le)),
    earliestLoop_standing hfits hseek (by positivity) hmore, seekIndex_passedBefore,
    if_neg (not_le.mpr hbelow), binary32_stuck]

/-- If it has not passed all segments by then, it never stops. -/
theorem earliestLoop_outOfFuel (hlow : ∀ n : ℕ, n ≤ 2 ^ 24 → ¬ t.StopsAt altitude n)
    (hmore : t.passed ((2 ^ 24 : ℕ) / 16) < t.segments.length)
    (hseek : t.segments.length + 2 ≤ seekFuel) (fuel : ℕ) :
    earliestLoop .exact binary32 altitude seekFuel fuel 0 ⟨t.trajectory, t.standing 0⟩ =
      outOfFuel := by
  rcases le_or_gt fuel (2 ^ 24) with hle | hgt
  · have hskip := earliestLoop_skip hfits hseek
      (fun m hm => binary32_add_resolution (lt_of_lt_of_le hm hle))
      (fun m hm => goesOn_of_not_stopsAt (hlow m (hm.le.trans hle))) 0
    rw [Nat.zero_add] at hskip
    rw [hskip]
    rfl
  · obtain ⟨rest, rfl⟩ : ∃ rest, fuel = rest + 1 + 2 ^ 24 := ⟨fuel - (2 ^ 24 + 1), by omega⟩
    have hindex := @seekIndex_of_le t _ ((2 ^ 24 : ℕ) / 16) (by positivity) le_rfl
    obtain ⟨-, hbelow⟩ := goesOn_of_not_stopsAt (hlow (2 ^ 24) le_rfl)
    rw [earliestLoop_lastExact hfits hlow hseek]
    exact earliestLoop_stuck hfits hseek (by positivity) hmore hindex binary32_stuck hbelow rest

/-- **The search from the start** stops exactly for short trajectories, or if the altitude is
reached by a sample that is exact. -/
theorem earliest_terminates_iff {player : TrajectoryPlayer}
    (hplayer : player.trajectory = t.trajectory) :
    Terminates (fun fuel =>
        player.findEarliestTimeReachingAltitude .exact binary32 fuel altitude) ↔
      t.EarliestStops altitude := by
  simp only [findEarliest_eq hplayer]
  by_cases hstop : ∃ n : ℕ, n ≤ 2 ^ 24 ∧ t.StopsAt altitude n
  · obtain ⟨n, hn, hstops⟩ := hstop
    exact iff_of_true (hstops.terminates hfits hn) (hstops.earliestStops hn)
  have hlow : ∀ n : ℕ, n ≤ 2 ^ 24 → ¬ t.StopsAt altitude n :=
    fun n hn hstops => hstop ⟨n, hn, hstops⟩
  by_cases hend : t.passed ((2 ^ 24 : ℕ) / 16) = t.segments.length
  · refine iff_of_true ⟨t.segments.length + 2 + 2 ^ 24, fun fuel hfuel => ?_⟩
      (.inl (passed_lastExact.mp hend))
    have hseek : t.segments.length + 2 ≤ fuel := by omega
    have hloop := earliestLoop_lastExact hfits hlow hseek (fuel - (2 ^ 24 + 2) + 1)
    rw [hend, earliestLoop_length] at hloop
    have hrest : fuel - (2 ^ 24 + 2) + 1 + 1 + 2 ^ 24 = fuel := by omega
    rw [hrest] at hloop
    exact ⟨_, _, hloop⟩
  · have hmore := lt_of_le_of_ne (passed_le _) hend
    refine iff_of_false (not_terminates _ fun fuel hfuel =>
      earliestLoop_outOfFuel hfits hlow hmore hfuel fuel) ?_
    rintro (hshort | ⟨n, hn, hhigh⟩)
    · exact hend (passed_lastExact.mpr hshort)
    · exact hlow n hn (.inr hhigh)

end Start

/-! ### The search from the end -/

section End

variable (t)

/-- The first sample of the search from the end, in sixteenths of a second. -/
def firstSample : ℕ := lastIndex (totalDuration t.segments)

/-- The number of segments that the search from the end has passed at its first sample. -/
def firstPassed : ℕ := t.seekIndex t.segments.length (t.firstSample / 16)

/-- The second sample of the search from the end, if the first one is not exact: a multiple of a
quarter of a second. -/
def secondSample : ℕ := t.firstSample - t.firstSample % 4

/-- The number of segments that the search from the end has passed at its second sample. -/
def secondPassed : ℕ := t.seekIndex t.firstPassed (t.secondSample / 16)

/-- The search from the end stops before its times are rounded, or gets down to times that are
not. -/
def LatestStops (altitude : ℚ) : Prop :=
  totalDuration t.segments ≤ 1048576160 ∨
    altitude ≤ (t.shown t.firstPassed (t.firstSample / 16)).z ∨
    altitude ≤ (t.shown t.secondPassed (t.secondSample / 16)).z

variable {t}

theorem firstPassed_le : t.firstPassed ≤ t.segments.length := seekIndex_le le_rfl _

theorem secondPassed_le : t.secondPassed ≤ t.segments.length := seekIndex_le firstPassed_le _

/-- A first sample that is not exact is even. -/
theorem firstSample_even (hlong : totalDuration t.segments ≤ 1431415470)
    (hlate : 2 ^ 24 < t.firstSample) : t.firstSample % 2 = 0 ∧ t.firstSample ≤ 2 ^ 25 := by
  rw [firstSample] at hlate ⊢
  obtain hsmall | ⟨m, hm, -, hle⟩ := lastIndex_le_or hlong
  · omega
  · omega

/-- The second sample is followed by itself if it is not exact. -/
theorem secondSample_stuck (hlong : totalDuration t.segments ≤ 1431415470)
    (hlate : 2 ^ 24 < t.secondSample) :
    binary32 ((t.secondSample : ℚ) / 16 - resolution) = t.secondSample / 16 := by
  have hnext : t.secondSample = t.firstSample - t.firstSample % 4 := rfl
  have hfour : t.secondSample % 4 = 0 := by omega
  obtain ⟨-, hle⟩ := firstSample_even hlong (by omega)
  have hround := binary32_sub_resolution_large hlate (by omega) (by omega)
  rwa [hfour, Nat.sub_zero] at hround

section Late

variable (hlong : totalDuration t.segments ≤ 1431415470)

include hlong

/-- A first sample that is not exact leads to the second one. -/
theorem latestLoop_firstSample (hlate : 2 ^ 24 < t.firstSample)
    (hseek : t.segments.length + 2 ≤ seekFuel) (fuel : ℕ) :
    latestLoop .exact binary32 altitude seekFuel (fuel + 1) (t.firstSample / 16)
        ⟨t.trajectory, t.standing t.segments.length⟩ =
      if altitude ≤ (t.shown t.firstPassed (t.firstSample / 16)).z then
        ok (.finite (t.firstSample / 16), ⟨t.trajectory, t.standing t.firstPassed⟩)
      else
        latestLoop .exact binary32 altitude seekFuel fuel (t.secondSample / 16)
          ⟨t.trajectory, t.standing t.firstPassed⟩ := by
  obtain ⟨heven, hle⟩ := firstSample_even hlong hlate
  have hnext := binary32_sub_resolution_large hlate hle heven
  rw [latestLoop_standing (by omega) hseek (by positivity) le_rfl, hnext]
  rfl

/-- A second sample that is not exact leads to itself. -/
theorem latestLoop_secondSample (hlate : 2 ^ 24 < t.secondSample)
    (hseek : t.segments.length + 2 ≤ seekFuel) (fuel : ℕ) :
    latestLoop .exact binary32 altitude seekFuel (fuel + 1) (t.secondSample / 16)
        ⟨t.trajectory, t.standing t.firstPassed⟩ =
      if altitude ≤ (t.shown t.secondPassed (t.secondSample / 16)).z then
        ok (.finite (t.secondSample / 16), ⟨t.trajectory, t.standing t.secondPassed⟩)
      else
        outOfFuel := by
  have hfits : totalDuration t.segments < 2 ^ 32 := by omega
  have hstuck := secondSample_stuck hlong hlate
  have hindex : t.seekIndex t.secondPassed (t.secondSample / 16) = t.secondPassed :=
    seekIndex_seekIndex (by positivity)
  rw [latestLoop_standing hfits hseek (by positivity) firstPassed_le, hstuck]
  change (if altitude ≤ (t.shown t.secondPassed _).z then _ else _) = _
  split
  case isTrue => rfl
  case isFalse hlow =>
    exact latestLoop_stuck hfits hseek (by positivity) secondPassed_le hindex hstuck
      (not_le.mp hlow) fuel

end Late

/-- **The search from the end** stops exactly if the trajectory is not too long, or if the
altitude is reached by one of the first two samples. -/
theorem latest_terminates_iff (hlong : totalDuration t.segments ≤ 1431415470)
    {player : TrajectoryPlayer} (hplayer : player.trajectory = t.trajectory) :
    Terminates (fun fuel => player.findLatestTimeAboveAltitude .exact binary32 fuel altitude) ↔
      t.LatestStops altitude := by
  have hfits : totalDuration t.segments < 2 ^ 32 := by omega
  have hsearch : ∀ fuel ≥ t.segments.length + 2,
      player.findLatestTimeAboveAltitude .exact binary32 fuel altitude =
        latestLoop .exact binary32 altitude fuel fuel (t.firstSample / 16)
          ⟨t.trajectory, t.standing t.segments.length⟩ := by
    intro fuel hfuel
    rw [findLatest_eq hfits hplayer (by omega), lastSample_binary32 hlong, firstSample]
  have hshort : t.firstSample ≤ 2 ^ 24 + 2 ↔ totalDuration t.segments ≤ 1048576160 :=
    lastIndex_le_iff _
  rw [terminates_congr hsearch]
  rcases le_or_gt t.firstSample (2 ^ 24) with hexact | hlate
  · exact iff_of_true ⟨t.segments.length + 2 + t.firstSample, fun fuel hfuel =>
      latestLoop_stops hfits (by omega) hexact le_rfl (by omega)⟩
      (.inl (hshort.mp (by omega)))
  by_cases hfirst : altitude ≤ (t.shown t.firstPassed (t.firstSample / 16)).z
  · refine iff_of_true ⟨t.segments.length + 2, fun fuel hfuel => ?_⟩ (.inr (.inl hfirst))
    obtain ⟨rest, rfl⟩ : ∃ rest, fuel = rest + 1 := ⟨fuel - 1, by omega⟩
    beta_reduce
    rw [latestLoop_firstSample hlong hlate hfuel, if_pos hfirst]
    exact ⟨_, _, rfl⟩
  have hnext : t.secondSample = t.firstSample - t.firstSample % 4 := rfl
  rcases le_or_gt t.secondSample (2 ^ 24) with hexact | hlate₂
  · -- one step down, the times are exact
    have heven := (firstSample_even hlong hlate).1
    refine iff_of_true ⟨t.segments.length + 3 + 2 ^ 24, fun fuel hfuel => ?_⟩
      (.inl (hshort.mp (by omega)))
    obtain ⟨rest, rfl⟩ : ∃ rest, fuel = rest + 1 := ⟨fuel - 1, by omega⟩
    beta_reduce
    rw [latestLoop_firstSample hlong hlate (by omega), if_neg hfirst]
    exact latestLoop_stops hfits (by omega) hexact firstPassed_le (by omega)
  by_cases hsecond : altitude ≤ (t.shown t.secondPassed (t.secondSample / 16)).z
  · refine iff_of_true ⟨t.segments.length + 2, fun fuel hfuel => ?_⟩ (.inr (.inr hsecond))
    obtain ⟨rest, rfl⟩ : ∃ rest, fuel = rest + 1 + 1 := ⟨fuel - 2, by omega⟩
    beta_reduce
    rw [latestLoop_firstSample hlong hlate hfuel, if_neg hfirst,
      latestLoop_secondSample hlong hlate₂ hfuel, if_pos hsecond]
    exact ⟨_, _, rfl⟩
  · refine iff_of_false (not_terminates (t.segments.length + 2) fun fuel hfuel => ?_) ?_
    · obtain ⟨rest, rfl⟩ : ∃ rest, fuel = rest + 1 + 1 := ⟨fuel - 2, by omega⟩
      rw [latestLoop_firstSample hlong hlate hfuel, if_neg hfirst,
        latestLoop_secondSample hlong hlate₂ hfuel, if_neg hsecond]
    · rintro (hle | hhigh | hhigh)
      · have hsmall := hshort.mpr hle
        omega
      · exact hfirst hhigh
      · exact hsecond hhigh

end End

end StoredTrajectory

/-! ### Both searches -/

/-- A block of 65535 bytes lasts for two weeks and a half at most. -/
theorem StoredTrajectory.totalDuration_le {t : StoredTrajectory} (h : t.bytes.length ≤ 65535) :
    StoredSegment.totalDuration t.segments ≤ 1431415470 := by
  have hcount := StoredSegment.length_le t.segments
  have hduration := StoredSegment.totalDuration_le t.segments
  have hheader : t.header.length = 9 := by
    simp [StoredTrajectory.header, encodeInt16, length_encodeUint16]
  rw [StoredTrajectory.bytes, List.length_append, hheader] at h
  omega

open StoredTrajectory Rounding in
/-- **The altitude searches stop**, both of them, exactly if the trajectory is short enough or
the altitude is reached where the times are exact: for a trajectory of 65535 bytes at most, any
altitude and any state of the player, with times in single precision. -/
theorem altitude_searches_terminate_iff (t : StoredTrajectory) (hlength : t.bytes.length ≤ 65535)
    (owned : Bool) (altitude : ℚ) {player : TrajectoryPlayer}
    (hplayer : Trajectory.initFromBytes .exact owned t.bytes = ok player.trajectory) :
    (Terminates (fun fuel =>
          player.findEarliestTimeReachingAltitude .exact binary32 fuel altitude) ∧
        Terminates (fun fuel =>
          player.findLatestTimeAboveAltitude .exact binary32 fuel altitude)) ↔
      t.EarliestStops altitude ∧ t.LatestStops altitude := by
  have hlong := totalDuration_le hlength
  rw [t.initFromBytes, Checked.ok.injEq] at hplayer
  rw [earliest_terminates_iff (by omega) hplayer.symm, latest_terminates_iff hlong hplayer.symm]

open StoredTrajectory Rounding in
/-- On a short flight, the searches stop, whether the altitude is reached or not. -/
theorem altitude_searches_terminate_iff_upAndDown :
    Terminates (fun fuel => (⟨upAndDown.trajectory, upAndDown.standing 0⟩ :
        TrajectoryPlayer).findEarliestTimeReachingAltitude .exact binary32 fuel 2000) ∧
      Terminates (fun fuel => (⟨upAndDown.trajectory, upAndDown.standing 0⟩ :
        TrajectoryPlayer).findLatestTimeAboveAltitude .exact binary32 fuel 2000) :=
  (altitude_searches_terminate_iff upAndDown (by decide) true 2000
    (upAndDown.initFromBytes true)).mpr ⟨.inl (by decide), .inl (by decide)⟩

theorem length_bytes_hover (count : ℕ) : (hover count).bytes.length = 9 + count * 3 := by
  rw [StoredTrajectory.bytes, List.length_append, hover, StoredTrajectory.fromOrigin,
    List.flatMap_replicate, List.length_flatten, List.map_replicate, List.sum_replicate,
    smul_eq_mul]
  rfl

open StoredTrajectory Rounding in
/-- Hovering for twelve days and a bit: neither search for an altitude of one millimetre stops. -/
theorem hover_neverStops :
    (hover 16001).bytes.length ≤ 65535 ∧ ∀ player : TrajectoryPlayer,
      player.trajectory = (hover 16001).trajectory →
      ¬ Terminates (fun fuel =>
          player.findEarliestTimeReachingAltitude .exact binary32 fuel 1) ∧
        ¬ Terminates (fun fuel =>
          player.findLatestTimeAboveAltitude .exact binary32 fuel 1) := by
  have htotal := totalDuration_hover 16001
  have hlow : ∀ k x, ¬ 1 ≤ ((hover 16001).shown k x).z := by
    intro k x
    rw [shown_level (hover_level 16001), start_hover]
    norm_num
  refine ⟨(length_bytes_hover 16001).trans_le (by decide), fun player hplayer => ⟨?_, ?_⟩⟩
  · rw [earliest_terminates_iff (by omega) hplayer]
    rintro (hshort | ⟨n, -, hhigh⟩)
    · omega
    · exact hlow _ _ hhigh
  · rw [latest_terminates_iff (by omega) hplayer]
    rintro (hshort | hhigh | hhigh)
    · omega
    · exact hlow _ _ hhigh
    · exact hlow _ _ hhigh

end Skybrush
