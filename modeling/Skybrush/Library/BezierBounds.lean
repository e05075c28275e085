import Mathlib.Algebra.Order.Ring.Abs
import Mathlib.Tactic.Linarith
import Mathlib.Tactic.Positivity
import Skybrush.Library.Bezier

/-!
# Bounds of Bézier Curves

Between the parameters zero and one, a Bézier curve stays between the least and the greatest of
its control points, and moves no faster than along the largest step from one control point to
the next. Both follow from de Casteljau's recursion: a curve is a mean of the curve without its
last control point and the one without its first.

## Main results

* `Bezier.blend_succ`: the recursion.
* `Bezier.curve_mem_Icc`: a curve stays between its control points.
* `Bezier.abs_curve_sub_le`: a curve moves no faster than its control points allow.
-/

namespace Bezier

open Finset

section Blend

variable {R : Type*} [CommRing R]

/-- The mean of the first `n + 1` values of a sequence, weighted as the control points of a
curve. -/
def blend (n : ℕ) (f : ℕ → R) (t : R) : R := ∑ i ∈ range (n + 1), weight n i t * f i

theorem curve_eq_blend {points : List R} {n : ℕ} (hlength : points.length = n + 1) (t : R) :
    curve points t = blend n (fun i => points.getD i 0) t := by
  rw [curve, blend, hlength, Nat.add_sub_cancel]

@[simp] theorem blend_zero (f : ℕ → R) (t : R) : blend 0 f t = f 0 := by
  simp [blend, weight]

theorem blend_sub (n : ℕ) (f g : ℕ → R) (t : R) :
    blend n f t - blend n g t = blend n (fun i => f i - g i) t := by
  rw [blend, blend, blend, ← sum_sub_distrib]
  exact sum_congr rfl fun i _ => (mul_sub ..).symm

theorem blend_neg (n : ℕ) (f : ℕ → R) (t : R) : blend n (fun i => -f i) t = -blend n f t := by
  simp only [blend, mul_neg, sum_neg_distrib]

/-- The first weight of the next degree. -/
theorem weight_succ_zero (n : ℕ) (t : R) : weight (n + 1) 0 t = (1 - t) * weight n 0 t := by
  simp only [weight, Nat.choose_zero_right, Nat.sub_zero, pow_zero, pow_succ]
  ring

/-- The other weights of the next degree. -/
theorem weight_succ_succ (n i : ℕ) (t : R) :
    weight (n + 1) (i + 1) t = t * weight n i t + (1 - t) * weight n (i + 1) t := by
  rw [weight, weight, weight, Nat.choose_succ_succ', Nat.add_sub_add_right]
  rcases Nat.lt_or_ge i n with hlt | hge
  · obtain ⟨m, rfl⟩ := Nat.exists_eq_add_of_lt hlt
    rw [show i + m + 1 - i = m + 1 by omega, show i + m + 1 - (i + 1) = m by omega]
    push_cast
    ring
  · -- behind the last control point, there are no weights
    rw [Nat.choose_eq_zero_of_lt (Nat.lt_succ_of_le hge)]
    push_cast
    ring

/-- **De Casteljau's recursion**: a mean of the values but the last one and of those but the
first one. -/
theorem blend_succ (n : ℕ) (f : ℕ → R) (t : R) :
    blend (n + 1) f t = (1 - t) * blend n f t + t * blend n (fun i => f (i + 1)) t := by
  have hlast : weight n (n + 1) t = (0 : R) := by
    rw [weight, Nat.choose_succ_self, Nat.cast_zero, zero_mul, zero_mul]
  have hlow : (1 - t) * blend n f t =
      ∑ i ∈ range (n + 1), (1 - t) * weight n (i + 1) t * f (i + 1) +
        (1 - t) * weight n 0 t * f 0 := by
    have hextend : blend n f t = ∑ i ∈ range (n + 1 + 1), weight n i t * f i := by
      rw [sum_range_succ, hlast, zero_mul, add_zero, blend]
    rw [hextend, sum_range_succ', mul_add, mul_sum]
    refine congrArg₂ _ (sum_congr rfl fun i _ => ?_) ?_ <;> ring
  have hhigh : t * blend n (fun i => f (i + 1)) t =
      ∑ i ∈ range (n + 1), t * weight n i t * f (i + 1) := by
    rw [blend, mul_sum]
    exact sum_congr rfl fun i _ => (mul_assoc ..).symm
  rw [hlow, hhigh, blend, sum_range_succ', weight_succ_zero, add_right_comm, ← sum_add_distrib]
  refine congrArg (· + _) (sum_congr rfl fun i _ => ?_)
  rw [weight_succ_succ]
  ring

end Blend

variable {K : Type*} [CommRing K] [LinearOrder K]

/-! ### Steps -/

/-- The largest step from one point to the next. -/
def largestStep : List K → K
  | p :: q :: points => max |q - p| (largestStep (q :: points))
  | _ => 0

/-- No step is larger than the largest one. -/
theorem abs_step_le {points : List K} {i : ℕ} (hi : i + 1 < points.length) :
    |points.getD (i + 1) 0 - points.getD i 0| ≤ largestStep points := by
  induction points generalizing i with
  | nil => cases hi
  | cons p points ih =>
      cases points with
      | nil => simp at hi
      | cons q points =>
          cases i with
          | zero => exact le_max_left _ _
          | succ i => exact le_max_of_le_right (ih (Nat.lt_of_succ_lt_succ hi))

/-! ### Means -/

variable [IsStrictOrderedRing K]

/-- A mean of values that are not below a bound. -/
theorem le_blend {n : ℕ} {f : ℕ → K} {low : K} (h : ∀ i ≤ n, low ≤ f i) {t : K} (hnonneg : 0 ≤ t)
    (hle : t ≤ 1) : low ≤ blend n f t := by
  induction n generalizing f with
  | zero =>
      rw [blend_zero]
      exact h 0 le_rfl
  | succ n ih =>
      have hlow := ih (f := f) fun i hi => h i (Nat.le_succ_of_le hi)
      have hhigh := ih (f := fun i => f (i + 1)) fun i hi => h (i + 1) (Nat.succ_le_succ hi)
      calc low = (1 - t) * low + t * low := by ring
        _ ≤ (1 - t) * blend n f t + t * blend n (fun i => f (i + 1)) t :=
          add_le_add (mul_le_mul_of_nonneg_left hlow (sub_nonneg.2 hle))
            (mul_le_mul_of_nonneg_left hhigh hnonneg)
        _ = blend (n + 1) f t := (blend_succ n f t).symm

/-- A mean of values that are not above a bound. -/
theorem blend_le {n : ℕ} {f : ℕ → K} {high : K} (h : ∀ i ≤ n, f i ≤ high) {t : K}
    (hnonneg : 0 ≤ t) (hle : t ≤ 1) : blend n f t ≤ high := by
  have hneg := le_blend (f := fun i => -f i) (fun i hi => neg_le_neg (h i hi)) hnonneg hle
  rw [blend_neg] at hneg
  exact neg_le_neg_iff.1 hneg

/-- **The speed of a mean**: if no step from one value to the next is larger than a bound, the
mean moves at most `n` times as fast. -/
theorem abs_blend_sub_le {n : ℕ} {f : ℕ → K} {step : K} (h : ∀ i < n, |f (i + 1) - f i| ≤ step)
    {s t : K} (hs : 0 ≤ s ∧ s ≤ 1) (ht : 0 ≤ t ∧ t ≤ 1) :
    |blend n f s - blend n f t| ≤ n * step * |s - t| := by
  induction n generalizing f with
  | zero => simp
  | succ n ih =>
      obtain ⟨hs₀, hs₁⟩ := hs
      have hlow := ih (f := f) fun i hi => h i (Nat.lt_succ_of_lt hi)
      have hhigh := ih (f := fun i => f (i + 1)) fun i hi => h (i + 1) (Nat.succ_lt_succ hi)
      -- the two halves of the recursion are one step apart
      have hapart : |blend n (fun i => f (i + 1)) t - blend n f t| ≤ step := by
        rw [blend_sub, abs_le]
        have hstep := fun i (hi : i ≤ n) => abs_le.1 (h i (Nat.lt_succ_of_le hi))
        exact ⟨le_blend (fun i hi => (hstep i hi).1) ht.1 ht.2,
          blend_le (fun i hi => (hstep i hi).2) ht.1 ht.2⟩
      have hsplit : blend (n + 1) f s - blend (n + 1) f t =
          (1 - s) * (blend n f s - blend n f t) +
            s * (blend n (fun i => f (i + 1)) s - blend n (fun i => f (i + 1)) t) +
            (s - t) * (blend n (fun i => f (i + 1)) t - blend n f t) := by
        rw [blend_succ, blend_succ]
        ring
      calc |blend (n + 1) f s - blend (n + 1) f t|
          ≤ (1 - s) * |blend n f s - blend n f t| +
              s * |blend n (fun i => f (i + 1)) s - blend n (fun i => f (i + 1)) t| +
              |s - t| * |blend n (fun i => f (i + 1)) t - blend n f t| := by
            rw [hsplit]
            refine (abs_add_le _ _).trans (add_le_add ((abs_add_le _ _).trans ?_) (abs_mul ..).le)
            rw [abs_mul, abs_mul, abs_of_nonneg (sub_nonneg.2 hs₁), abs_of_nonneg hs₀]
        _ ≤ (1 - s) * (n * step * |s - t|) + s * (n * step * |s - t|) + |s - t| * step :=
          add_le_add (add_le_add (mul_le_mul_of_nonneg_left hlow (sub_nonneg.2 hs₁))
            (mul_le_mul_of_nonneg_left hhigh hs₀))
            (mul_le_mul_of_nonneg_left hapart (abs_nonneg _))
        _ = (n + 1 : ℕ) * step * |s - t| := by
          push_cast
          ring

/-! ### Control points -/

/-- **A curve stays** between its control points. -/
theorem curve_mem_Icc {points : List K} (hne : points ≠ []) {low high : K}
    (h : ∀ p ∈ points, low ≤ p ∧ p ≤ high) {t : K} (hnonneg : 0 ≤ t) (hle : t ≤ 1) :
    low ≤ curve points t ∧ curve points t ≤ high := by
  obtain ⟨n, hlength⟩ := Nat.exists_eq_succ_of_ne_zero (List.length_pos_iff.2 hne).ne'
  have hpoint : ∀ i ≤ n, low ≤ points.getD i 0 ∧ points.getD i 0 ≤ high := by
    intro i hi
    have hlt : i < points.length := by omega
    rw [List.getD_eq_getElem _ _ hlt]
    exact h _ (List.getElem_mem hlt)
  rw [curve_eq_blend hlength]
  exact ⟨le_blend (fun i hi => (hpoint i hi).1) hnonneg hle,
    blend_le (fun i hi => (hpoint i hi).2) hnonneg hle⟩

/-- **A curve moves** no faster than its largest step allows, taken once for every step. -/
theorem abs_curve_sub_le (points : List K) {s t : K} (hs : 0 ≤ s ∧ s ≤ 1) (ht : 0 ≤ t ∧ t ≤ 1) :
    |curve points s - curve points t| ≤
      (points.length - 1 : ℕ) * largestStep points * |s - t| := by
  rcases eq_or_ne points [] with rfl | hne
  · simp [curve]
  · obtain ⟨n, hlength⟩ := Nat.exists_eq_succ_of_ne_zero (List.length_pos_iff.2 hne).ne'
    rw [curve_eq_blend hlength, curve_eq_blend hlength, hlength, Nat.succ_sub_one]
    exact abs_blend_sub_le (fun i hi => abs_step_le (by omega)) hs ht

end Bezier
