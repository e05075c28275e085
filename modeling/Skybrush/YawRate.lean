import Skybrush.YawEvaluation

/-!
# Yaw Rates

The rate that a player of a yaw control returns is the slope of the yaw: on the whole setpoint
at which it is found, the yaw grows by the rate in every second. At the boundary of two setpoints
the player may return the rate of either of them. No rate is larger than that of the fastest
delta, and the yaw never turns faster.

## Main results

* `YawDelta.changeAt_of_mem`: on a delta, the yaw changes at its rate.
* `YawDelta.abs_changeAt_sub_le`: the yaw does not turn faster than the fastest delta.
* `StoredYawControl.Timed.yawRate_slope`: the rate that is found is a slope.
* `yaw_rate_at_any_history`: rates and yaws that are returned, after any history.
-/

namespace Skybrush

open Checked

/-! ### Rates of deltas -/

namespace YawDelta

/-- How fast a delta turns, in degrees in a second. -/
def rate (d : YawDelta) : ℚ := 100 * d.yawChange.toInt / d.durationMsec.toNat

/-- The rate of the fastest delta. -/
def topRate : List YawDelta → ℚ
  | [] => 0
  | d :: rest => max |d.rate| (topRate rest)

theorem topRate_nonneg (deltas : List YawDelta) : 0 ≤ topRate deltas := by
  induction deltas with
  | nil => exact le_rfl
  | cons d rest ih => exact le_max_of_le_right ih

theorem abs_rate_le {d : YawDelta} {deltas : List YawDelta} (hd : d ∈ deltas) :
    |d.rate| ≤ topRate deltas := by
  induction deltas with
  | nil => cases hd
  | cons e rest ih =>
      rcases List.mem_cons.1 hd with rfl | hrest
      · exact le_max_left _ _
      · exact le_max_of_le_right (ih hrest)

/-- **On a delta**, the yaw changes at its rate. -/
theorem changeAt_of_mem {done rest : List YawDelta} {d : YawDelta}
    (hpos : ∀ e ∈ done ++ d :: rest, 0 < e.durationMsec.toNat) {t : ℚ}
    (hlow : (totalDuration done : ℚ) ≤ t)
    (hhigh : t ≤ totalDuration done + d.durationMsec.toNat) :
    100 * changeAt t (done ++ d :: rest) =
      100 * totalChange done + d.rate * (t - totalDuration done) := by
  have hd : 0 < d.durationMsec.toNat := hpos d (List.mem_append_right _ List.mem_cons_self)
  have hne : (d.durationMsec.toNat : ℚ) ≠ 0 := by exact_mod_cast hd.ne'
  rw [changeAt_append (fun e he => hpos e (List.mem_append_left _ he)) _ hlow, changeAt,
    if_pos (by linarith), rate]
  field_simp

/-- **The yaw does not turn** faster than the fastest delta. -/
theorem abs_changeAt_sub_le {top : ℚ} {deltas : List YawDelta}
    (hpos : ∀ d ∈ deltas, 0 < d.durationMsec.toNat) (htop : topRate deltas ≤ top) {a b : ℚ}
    (hnonneg : 0 ≤ a) (hle : a ≤ b) :
    100 * |changeAt b deltas - changeAt a deltas| ≤ top * (b - a) := by
  induction deltas generalizing a b with
  | nil =>
      rw [changeAt, changeAt, sub_self, abs_zero, mul_zero]
      exact mul_nonneg htop (sub_nonneg.2 hle)
  | cons d rest ih =>
      have hrest : ∀ {a b : ℚ}, 0 ≤ a → a ≤ b → _ := @ih
        (fun d hd => hpos d (List.mem_cons_of_mem _ hd)) ((le_max_right _ _).trans htop)
      have hd := hpos d List.mem_cons_self
      have hduration : (0 : ℚ) < d.durationMsec.toNat := by exact_mod_cast hd
      have hrate : |d.rate| ≤ top := (le_max_left _ _).trans htop
      have hfirst : ∀ {c e : ℚ}, c ≤ e →
          100 * |d.yawChange.toInt * (e / d.durationMsec.toNat) -
            d.yawChange.toInt * (c / d.durationMsec.toNat)| ≤ top * (e - c) := by
        intro c e hce
        have hslope : d.yawChange.toInt * (e / d.durationMsec.toNat) -
            d.yawChange.toInt * (c / d.durationMsec.toNat) = d.rate / 100 * (e - c) := by
          rw [rate]
          ring
        rw [hslope, abs_mul, abs_div, abs_of_nonneg (sub_nonneg.2 hce),
          abs_of_pos (show (0 : ℚ) < 100 by norm_num)]
        have hmul := mul_le_mul_of_nonneg_right hrate (sub_nonneg.2 hce)
        linarith
      rw [changeAt, changeAt]
      by_cases ha : a ≤ d.durationMsec.toNat
      · by_cases hb : b ≤ d.durationMsec.toNat
        · rw [if_pos ha, if_pos hb]
          exact hfirst hle
        · -- the times are on both sides of the end of the delta
          rw [if_pos ha, if_neg hb]
          have hbefore := hfirst ha
          have hbehind := hrest le_rfl (sub_nonneg.2 (not_le.1 hb).le)
          rw [div_self hduration.ne', mul_one] at hbefore
          rw [changeAt_zero, sub_zero, sub_zero] at hbehind
          have hsplit := abs_sub_le
            (d.yawChange.toInt + changeAt (b - d.durationMsec.toNat) rest)
            (d.yawChange.toInt : ℚ) (d.yawChange.toInt * (a / d.durationMsec.toNat))
          rw [add_sub_cancel_left] at hsplit
          linarith
      · have hb : ¬ b ≤ d.durationMsec.toNat := fun hb => ha (hle.trans hb)
        rw [if_neg ha, if_neg hb, add_sub_add_left_eq_sub]
        have hbehind := hrest (sub_nonneg.2 (not_le.1 ha).le)
          (sub_le_sub_right hle (d.durationMsec.toNat : ℚ))
        rw [sub_sub_sub_cancel_right] at hbehind
        exact hbehind

end YawDelta

namespace StoredYawControl

open YawDelta YawPlayer

open StoredTrajectory (toSeconds_exact)

variable {c : StoredYawControl}

/-- **The yaw does not turn** faster than the fastest delta. -/
theorem Timed.abs_yawAt_sub_le (h : c.Timed) (a b : ℚ) :
    |c.yawAt (.finite a) - c.yawAt (.finite b)| ≤ topRate c.deltas * |a - b| := by
  -- until time zero, the yaw is that at time zero
  have hclip : ∀ x : ℚ, c.yawAt (.finite x) =
      (c.yawOffset.toInt + changeAt (1000 * max 0 x) c.deltas) / 10 := by
    intro x
    rw [yawAt]
    split
    case isTrue hle => rw [max_eq_left hle, mul_zero, changeAt_zero, add_zero]
    case isFalse hlt => rw [max_eq_right (not_le.1 hlt).le]
  have hordered : ∀ {x y : ℚ}, x ≤ y →
      |c.yawAt (.finite y) - c.yawAt (.finite x)| ≤ topRate c.deltas * (y - x) := by
    intro x y hle
    have hapart : max 0 y - max 0 x ≤ y - x := by
      rcases le_total y 0 with hy | hy
      · rw [max_eq_left hy, max_eq_left (hle.trans hy), sub_self]
        linarith
      · rw [max_eq_right hy]
        linarith [le_max_right 0 x]
    have hchange := abs_changeAt_sub_le h.pos le_rfl
      (show (0 : ℚ) ≤ 1000 * max 0 x from by positivity)
      (show 1000 * max 0 x ≤ 1000 * max 0 y by linarith [max_le_max_left 0 hle])
    have hrate := mul_le_mul_of_nonneg_left hapart (topRate_nonneg c.deltas)
    have hyaw : c.yawAt (.finite y) - c.yawAt (.finite x) =
        (changeAt (1000 * max 0 y) c.deltas - changeAt (1000 * max 0 x) c.deltas) / 10 := by
      rw [hclip, hclip]
      ring
    rw [hyaw, abs_div, abs_of_pos (show (0 : ℚ) < 10 by norm_num)]
    linarith
  rcases le_total a b with hle | hle
  · rw [abs_sub_comm, abs_sub_comm a b, abs_of_nonneg (sub_nonneg.2 hle)]
    exact hordered hle
  · rw [abs_of_nonneg (sub_nonneg.2 hle)]
    exact hordered hle

/-- The yaw at a time that is not before the start. -/
theorem yawAt_of_nonneg {x : ℚ} (hx : 0 ≤ x) :
    c.yawAt (.finite x) = (c.yawOffset.toInt + changeAt (1000 * x) c.deltas) / 10 := by
  rw [yawAt]
  split
  case isTrue hle => rw [le_antisymm hle hx, mul_zero, changeAt_zero, add_zero]
  case isFalse => rfl

/-- A seek stops at a setpoint that the time is neither before nor behind. -/
theorem seekLoop_eq_ok {F : Rounding} {time : TimeSec} {fuel : ℕ} {player player' : YawPlayer}
    {rel : ℚ} (h : YawPlayer.seekLoop F time fuel player = ok (rel, player')) :
    time.isBefore player'.currentSetpoint.data.startTimeSec = false ∧
      time.isAfter player'.currentSetpoint.data.endTimeSec = false := by
  induction fuel generalizing player with
  | zero => cases h
  | succ fuel ih =>
      rw [YawPlayer.seekLoop] at h
      split at h
      · obtain ⟨_, -, hrest⟩ := bind_eq_ok.mp h
        exact ih hrest
      · split at h
        · obtain ⟨_, -, hrest⟩ := bind_eq_ok.mp h
          exact ih hrest
        case isFalse hbefore hafter =>
          cases h
          exact ⟨Bool.eq_false_iff.mpr hbefore, Bool.eq_false_iff.mpr hafter⟩

/-- The yaw grows at a rate around a time: for some while that the time belongs to. -/
def GrowsAt (c : StoredYawControl) (x rate : ℚ) : Prop :=
  ∃ low high : ℚ, low ≤ x ∧ x ≤ high ∧ low < high ∧ ∀ y, low ≤ y → y ≤ high →
    c.yawAt (.finite y) = c.yawAt (.finite x) + rate * (y - x)

/-- On a delta, the yaw grows at its rate. -/
theorem Timed.growsAt_delta (h : c.Timed) {done rest : List YawDelta} {d : YawDelta}
    (hsplit : c.deltas = done ++ d :: rest) {x : ℚ} (hlow : (totalDuration done : ℚ) ≤ 1000 * x)
    (hhigh : 1000 * x ≤ totalDuration done + d.durationMsec.toNat) : c.GrowsAt x d.rate := by
  have hd : 0 < d.durationMsec.toNat := h.pos d (by simp [hsplit])
  have hduration : (0 : ℚ) < d.durationMsec.toNat := by exact_mod_cast hd
  have hdone : (0 : ℚ) ≤ totalDuration done := Nat.cast_nonneg _
  have hpos := h.pos
  rw [hsplit] at hpos
  refine ⟨(totalDuration done : ℚ) / 1000, (totalDuration done + d.durationMsec.toNat : ℚ) / 1000,
    by linarith, by linarith, by linarith, fun y hy hy' => ?_⟩
  have hx := changeAt_of_mem hpos hlow hhigh
  have hchange := changeAt_of_mem hpos (t := 1000 * y) (by linarith) (by linarith)
  rw [yawAt_of_nonneg (by linarith), yawAt_of_nonneg (by linarith), hsplit]
  linarith

/-- Behind the end, the yaw does not change. -/
theorem Timed.growsAt_behind (h : c.Timed) {x : ℚ} (hx : 0 ≤ x)
    (hle : (totalDuration c.deltas : ℚ) ≤ 1000 * x) : c.GrowsAt x 0 := by
  refine ⟨x, x + 1, le_rfl, by linarith, by linarith, fun y hy _ => ?_⟩
  rw [yawAt_of_nonneg (hx.trans hy), yawAt_of_nonneg hx, changeAt_of_le h.pos hle,
    changeAt_of_le h.pos (by linarith), zero_mul, add_zero]

/-- The rate of a delta that takes some time. -/
theorem yawRate_delta {d : YawDelta} (hpos : 0 < d.durationMsec.toNat) (time : ℕ) (yaw : ℤ) :
    yawRate .exact (deltaSetpoint .exact time yaw d.durationMsec.toNat d.yawChange.toInt) =
      (d.rate : ℚ) := by
  have hne : (d.durationMsec.toNat : ℚ) / 1000 ≠ 0 := by
    have hcast : (d.durationMsec.toNat : ℚ) ≠ 0 := by exact_mod_cast hpos.ne'
    exact div_ne_zero hcast (by norm_num)
  simp only [yawRate, deltaSetpoint, toSeconds_exact, toDegrees, Rounding.exact_apply, if_neg hne]
  rw [YawDelta.rate]
  congr 1
  field_simp
  ring

/-- **The rate that is found** by a seek is a slope of the yaw. -/
theorem Timed.yawRate_slope (h : c.Timed) {x : ℚ} (hx : 0 ≤ x) {setpoint : CurrentSetpoint}
    (hstands : c.Stands setpoint)
    (hbefore : (TimeSec.finite x).isBefore setpoint.data.startTimeSec = false)
    (hafter : (TimeSec.finite x).isAfter setpoint.data.endTimeSec = false) :
    ∃ rate : ℚ, yawRate .exact setpoint.data = rate ∧ |rate| ≤ topRate c.deltas ∧
      c.GrowsAt x rate := by
  have hzero : |(0 : ℚ)| ≤ topRate c.deltas := by
    rw [abs_zero]
    exact topRate_nonneg c.deltas
  cases hstands with
  | @delta done rest hsplit =>
      rw [isBefore_current, decide_eq_false_iff_not, not_lt] at hbefore
      cases rest with
      | nil =>
          rw [List.append_nil] at hsplit
          subst hsplit
          exact ⟨0, rfl, hzero, h.growsAt_behind hx hbefore⟩
      | cons d rest =>
          have hd : d ∈ c.deltas := hsplit ▸ List.mem_append_right done List.mem_cons_self
          have hfits := h.totalDuration_lt (hsplit.trans (List.append_cons done d rest))
          rw [totalDuration_concat] at hfits
          rw [isAfter_current, Nat.mod_eq_of_lt hfits, decide_eq_false_iff_not, not_lt] at hafter
          push_cast at hafter
          exact ⟨d.rate, yawRate_delta (h.pos d hd) _ _, abs_rate_le hd,
            h.growsAt_delta hsplit hbefore hafter⟩
  | @behind time hle =>
      rw [isBefore_current, decide_eq_false_iff_not, not_lt] at hbefore
      have hend : (totalDuration c.deltas : ℚ) ≤ 1000 * x :=
        le_trans (by exact_mod_cast hle) hbefore
      exact ⟨0, rfl, hzero, h.growsAt_behind hx hend⟩

end StoredYawControl

open StoredYawControl YawDelta YawPlayer in
/-- **The yaw rate at a time** is a slope of the yaw, whatever the player was asked before: for
some while that the time belongs to, the yaw grows at the rate that is returned. No rate is larger
than that of the fastest delta, and two yaws are no further apart than it allows. -/
theorem yaw_rate_at_any_history (c : StoredYawControl) (h : c.Timed) (ops ops' : List Op)
    {a : ℚ} (ha : 0 ≤ a) (b : ℚ) :
    ∃ fuel₀, ∀ fuel ≥ fuel₀, ∃ player player' yaw yaw' reached reached', ∃ rate : ℚ,
      yawSession .exact c.bytes fuel ops = ok player ∧
      yawSession .exact c.bytes fuel ops' = ok player' ∧
      player.getYawAt .exact fuel (.finite a) = ok (yaw, reached) ∧
      player.getYawRateAt .exact fuel (.finite a) = ok ((rate : WithTop ℚ), reached) ∧
      player'.getYawAt .exact fuel (.finite b) = ok (yaw', reached') ∧
      c.GrowsAt a rate ∧ |rate| ≤ topRate c.deltas ∧
      |yaw - yaw'| ≤ topRate c.deltas * |a - b| := by
  refine ⟨c.deltas.length + 2, fun fuel hfuel => ?_⟩
  have hsession : ∀ (ops : List Op) (x : ℚ), ∃ player setpoint rel,
      yawSession .exact c.bytes fuel ops = ok player ∧
      player.seekToTime .exact fuel (.finite x) = ok (rel, ⟨c.yawControl [], setpoint⟩) ∧
      c.Stands setpoint ∧ yawOf setpoint.data rel = c.yawAt (.finite x) := by
    intro ops x
    obtain ⟨setpoint, hrun, hstands⟩ := h.run c.stands_start hfuel ops
    obtain ⟨rel, setpoint', hseek, hstands', -, -, hyaw⟩ :=
      h.seekToTime hstands (show TimeSec.finite x ≠ .nan from nofun) hfuel
    refine ⟨⟨c.yawControl [], setpoint⟩, setpoint', rel, ?_, hseek, hstands', hyaw⟩
    have hinit := c.initFromBuffer []
    rw [List.append_nil] at hinit
    rw [yawSession, hinit, ok_bind, c.rewind_eq, ok_bind]
    exact hrun
  obtain ⟨player, setpoint, rel, hopen, hseek, hstands, hyaw⟩ := hsession ops a
  obtain ⟨player', setpoint', rel', hopen', hseek', -, hyaw'⟩ := hsession ops' b
  have hfound := hseek
  rw [YawPlayer.seekToTime, TimeSec.clip_of_nonneg ha] at hfound
  obtain ⟨hbefore, hafter⟩ := seekLoop_eq_ok hfound
  obtain ⟨rate, hrate, htop, hslope⟩ := h.yawRate_slope ha hstands hbefore hafter
  refine ⟨player, player', _, _, ⟨c.yawControl [], setpoint⟩, ⟨c.yawControl [], setpoint'⟩, rate,
    hopen, hopen', ?_, ?_, ?_, hslope, htop, h.abs_yawAt_sub_le a b⟩
  · rw [getYawAt, hseek, ok_bind, ← hyaw]
    rfl
  · rw [getYawRateAt, hseek, ok_bind, ← hrate]
    rfl
  · rw [getYawAt, hseek', ok_bind, ← hyaw']
    rfl

/-- On the way back, the yaw turns at 90 degrees in a second, which is the top rate. -/
theorem yaw_rate_at_any_history_turnAndBack :
    YawDelta.topRate turnAndBack.deltas = 90 ∧
      ∃ fuel₀, ∀ fuel ≥ fuel₀, ∃ player player' yaw yaw' reached reached', ∃ rate : ℚ,
        yawSession .exact turnAndBack.bytes fuel [.getYawAt .infinity] = ok player ∧
        yawSession .exact turnAndBack.bytes fuel [] = ok player' ∧
        player.getYawAt .exact fuel (.finite (5 / 2)) = ok (yaw, reached) ∧
        player.getYawRateAt .exact fuel (.finite (5 / 2)) = ok ((rate : WithTop ℚ), reached) ∧
        player'.getYawAt .exact fuel (.finite 1) = ok (yaw', reached') ∧
        turnAndBack.GrowsAt (5 / 2) rate ∧ |rate| ≤ YawDelta.topRate turnAndBack.deltas ∧
        |yaw - yaw'| ≤ YawDelta.topRate turnAndBack.deltas * |5 / 2 - 1| :=
  ⟨by decide +kernel, yaw_rate_at_any_history turnAndBack ⟨by decide, by decide⟩
    [.getYawAt .infinity] [] (by norm_num) 1⟩

end Skybrush
