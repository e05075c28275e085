import Skybrush.Library.Rounding

/-!
# Color Transitions

The time-related half of a fade, as in `transition.h`: whether it is running, when it
started, and how long it takes. The executor only ever runs transitions with the linear
easing mode, whose easing function is the identity, so the progress after easing is the
progress before it.

## Main results

* `Transition.progressPreEasing_mono`: a transition never goes backwards.
* `Transition.progressPreEasing_of_one_le`: a transition that is complete stays complete.
* `Transition.progressPreEasing_start`, `Transition.progressPreEasing_of_complete`: how a
  transition starts, and that it is complete when its duration is over.
-/

namespace Skybrush

/-- A color transition in progress: `Transition`. -/
structure Transition where
  active : Bool
  start : ℕ
  duration : ℕ
  deriving DecidableEq, Repr

namespace Transition

/-- The constructed, inactive transition. -/
def idle : Transition := { active := false, start := 0, duration := 0 }

/-- Cancel the current transition: `Transition::cancel`. -/
def cancel (tr : Transition) : Transition := { tr with active := false }

/-- Start a transition: `Transition::start`. -/
def startAt (duration startTime : ℕ) : Transition :=
  { active := true, start := startTime, duration := duration }

/-- The progress of the transition before applying the easing function:
`Transition::progressPreEasing`. -/
def progressPreEasing (F : Rounding) (tr : Transition) (clock : ℕ) : ℚ :=
  if clock < tr.start then
    0
  else if tr.duration = 0 then
    1
  else
    let result := F (F ((clock - tr.start : ℕ) : ℚ) / F tr.duration)
    if 1 < result then 1 else result

/-- The linear easing function: `easing_func_linear`. -/
def easingFuncLinear (p : ℚ) : ℚ := p

/-- Progress is at most one. -/
theorem progressPreEasing_le_one (F : Rounding) (tr : Transition) (clock : ℕ) :
    tr.progressPreEasing F clock ≤ 1 := by
  simp only [progressPreEasing]
  split
  · exact zero_le_one
  · split
    · exact le_rfl
    · split
      · exact le_rfl
      · exact not_lt.mp ‹_›

/-- The unclamped progress grows with the clock. -/
theorem ratio_mono (F : Rounding) (d : ℕ) {a b : ℕ} (h : a ≤ b) :
    F (F a / F d) ≤ F (F b / F d) := by
  have hd : 0 ≤ F d := F.nonneg (Nat.cast_nonneg d)
  exact F.mono (div_le_div_of_nonneg_right (F.mono (Nat.cast_le.mpr h)) hd)

/-- **Monotone progress.** A later clock shows at least as much progress. -/
theorem progressPreEasing_mono (F : Rounding) (tr : Transition) {a b : ℕ} (h : a ≤ b) :
    tr.progressPreEasing F a ≤ tr.progressPreEasing F b := by
  by_cases hb : b < tr.start
  · have ha : a < tr.start := lt_of_le_of_lt h hb
    simp only [progressPreEasing, ha, hb, if_true, le_refl]
  · by_cases ha : a < tr.start
    · simp only [progressPreEasing, ha, hb, if_true, if_false]
      split
      · exact zero_le_one
      · split
        · exact zero_le_one
        · exact F.nonneg (div_nonneg (F.nonneg (Nat.cast_nonneg _))
            (F.nonneg (Nat.cast_nonneg _)))
    · simp only [progressPreEasing, ha, hb, if_false]
      split
      · exact le_rfl
      · have hr := ratio_mono F tr.duration (Nat.sub_le_sub_right h tr.start)
        split
        · rw [if_pos (lt_of_lt_of_le ‹_› hr)]
        · split
          · exact not_lt.mp ‹_›
          · exact hr

/-- A transition that is complete stays complete. -/
theorem progressPreEasing_of_one_le {F : Rounding} {tr : Transition} {a b : ℕ} (h : a ≤ b)
    (ha : 1 ≤ tr.progressPreEasing F a) : tr.progressPreEasing F b = 1 :=
  le_antisymm (progressPreEasing_le_one F tr b)
    (ha.trans (progressPreEasing_mono F tr h))

/-- A transition starts with no progress, unless it takes no time. -/
theorem progressPreEasing_start (F : Rounding) (tr : Transition) :
    tr.progressPreEasing F tr.start = if tr.duration = 0 then 1 else 0 := by
  rw [progressPreEasing, if_neg (lt_irrefl _)]
  simp only [Nat.sub_self, Nat.cast_zero, F.apply_zero, zero_div, not_lt.mpr zero_le_one,
    if_false]

/-- **A transition is complete** when its duration is over, however its progress is rounded. -/
theorem progressPreEasing_of_complete (F : Rounding) {tr : Transition} {clock : ℕ}
    (h : tr.start + tr.duration ≤ clock) : tr.progressPreEasing F clock = 1 := by
  have hend : tr.progressPreEasing F (tr.start + tr.duration) = 1 := by
    rw [progressPreEasing, if_neg (by omega)]
    split
    · rfl
    case isFalse hd =>
      have hone : (1 : ℚ) ≤ tr.duration := by
        exact_mod_cast Nat.one_le_iff_ne_zero.mpr hd
      have hpos : (1 : ℚ) ≤ F tr.duration := by simpa using F.mono hone
      rw [Nat.add_sub_cancel_left, div_self (by linarith), F.apply_one]
      simp
  exact progressPreEasing_of_one_le h hend.ge

end Transition

end Skybrush
