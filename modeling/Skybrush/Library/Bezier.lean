import Mathlib.Algebra.BigOperators.Intervals
import Mathlib.Algebra.Order.Ring.Rat
import Mathlib.Data.List.GetD
import Mathlib.Data.Nat.Choose.Sum
import Mathlib.Tactic.LinearCombination
import Mathlib.Tactic.Ring

/-!
# Bézier Curves

One coordinate of a Bézier curve, over any commutative ring. A curve with `n + 1` control
points is their mean, weighted by the Bernstein polynomials of degree `n`.

## Main results

* `Bezier.curve_zero`, `Bezier.curve_one`: a curve goes from its first control point to its
  last one.
* `Bezier.map_curve`: the image of a curve under a homomorphism.
* `Bezier.curve_eq_sum_coeff`: a curve in powers of its parameter.
-/

namespace Bezier

open Finset

variable {R : Type*} [CommRing R]

/-- The weight of control point `i` of a curve of degree `n`: a Bernstein polynomial. -/
def weight (n i : ℕ) (t : R) : R := n.choose i * t ^ i * (1 - t) ^ (n - i)

/-- A curve, at the parameter `t`. -/
def curve (points : List R) (t : R) : R :=
  ∑ i ∈ range points.length, weight (points.length - 1) i t * points.getD i 0

/-- The coefficient of degree `j` of a curve of degree `n`. -/
def coeff (points : List R) (n j : ℕ) : R :=
  n.choose j * ∑ i ∈ range (j + 1), (-1) ^ (i + j) * j.choose i * points.getD i 0

/-! ### End points -/

/-- **A curve begins** at its first control point. -/
theorem curve_zero (p : R) (points : List R) : curve (p :: points) 0 = p := by
  rw [curve, List.length_cons, sum_range_succ']
  have hrest : ∀ i ∈ range points.length,
      weight (points.length + 1 - 1) (i + 1) 0 * (p :: points).getD (i + 1) 0 = (0 : R) := by
    intro i _
    simp [weight]
  rw [sum_eq_zero hrest]
  simp [weight]

/-- The last one of some points. -/
theorem getD_length_eq_getLastD (p : R) (points : List R) :
    (p :: points).getD points.length 0 = points.getLastD p := by
  induction points generalizing p with
  | nil => rfl
  | cons q points ih =>
      rw [List.getLastD_cons]
      exact ih q

/-- **A curve ends** at its last control point. -/
theorem curve_one (p : R) (points : List R) : curve (p :: points) 1 = points.getLastD p := by
  rw [curve, List.length_cons, sum_range_succ]
  have hrest : ∀ i ∈ range points.length,
      weight (points.length + 1 - 1) i 1 * (p :: points).getD i 0 = (0 : R) := by
    intro i hi
    have hne : points.length - i ≠ 0 := Nat.sub_ne_zero_of_lt (mem_range.mp hi)
    simp [weight, hne]
  rw [sum_eq_zero hrest, getD_length_eq_getLastD]
  simp [weight]

/-- A curve with a single control point stays there. -/
theorem curve_singleton (p t : R) : curve [p] t = p := by
  simp [curve, weight]

/-- **A curve of images** is the image of the curve. -/
theorem map_curve {S : Type*} [CommRing S] (f : R →+* S) (points : List R) (t : R) :
    f (curve points t) = curve (points.map f) (f t) := by
  have hpoint : ∀ i, (points.map f).getD i 0 = f (points.getD i 0) := by
    intro i
    have hmap : f (points.getD i 0) = (points.map f).getD i (f 0) :=
      (List.getD_map ..).symm
    rw [hmap, map_zero]
  simp only [curve, weight, map_sum, map_mul, map_natCast, map_pow, map_sub, map_one, hpoint,
    List.length_map]

/-! ### Powers of the parameter -/

/-- A weight in powers of the parameter. -/
theorem weight_eq_sum {n i : ℕ} (hi : i ≤ n) (t : R) :
    weight n i t =
      ∑ j ∈ range (n + 1), (-1) ^ (i + j) * (n.choose j * j.choose i : ℕ) * t ^ j := by
  obtain ⟨m, rfl⟩ := Nat.exists_eq_add_of_le hi
  have hlow : ∀ j ∈ range i,
      (-1) ^ (i + j) * ((i + m).choose j * j.choose i : ℕ) * t ^ j = (0 : R) := by
    intro j hj
    rw [Nat.choose_eq_zero_of_lt (mem_range.mp hj)]
    simp
  have hhigh : ∀ k ∈ range (m + 1),
      (-1) ^ (i + (i + k)) * ((i + m).choose (i + k) * (i + k).choose i : ℕ) * t ^ (i + k) =
        (i + m).choose i * t ^ i * ((-t) ^ k * 1 ^ (m - k) * m.choose k) := by
    intro k _
    have hchoose : (i + m).choose (i + k) * (i + k).choose i = (i + m).choose i * m.choose k := by
      have h := @Nat.choose_mul (i + m) (i + k) i (Nat.le_add_right i k)
      rwa [Nat.add_sub_cancel_left, Nat.add_sub_cancel_left] at h
    have hsign : (-1 : R) ^ (i + (i + k)) = (-1) ^ k := by
      rw [← add_assoc, pow_add, ← two_mul, pow_mul, neg_one_sq, one_pow, one_mul]
    rw [hchoose, hsign, neg_pow t k]
    push_cast
    ring
  calc weight (i + m) i t
      = (i + m).choose i * t ^ i * (-t + 1) ^ m := by
        rw [weight, Nat.add_sub_cancel_left, neg_add_eq_sub]
    _ = ∑ k ∈ range (m + 1),
          (-1) ^ (i + (i + k)) * ((i + m).choose (i + k) * (i + k).choose i : ℕ) * t ^ (i + k) := by
        rw [add_pow, mul_sum, sum_congr rfl hhigh]
    _ = ∑ j ∈ range (i + (m + 1)),
          (-1) ^ (i + j) * ((i + m).choose j * j.choose i : ℕ) * t ^ j := by
        rw [sum_range_add _ i, sum_eq_zero hlow, zero_add]

/-- **A curve in powers of its parameter.** -/
theorem curve_eq_sum_coeff {points : List R} {n : ℕ} (hlength : points.length = n + 1) (t : R) :
    curve points t = ∑ j ∈ range (n + 1), coeff points n j * t ^ j := by
  have hexpand : ∀ i ∈ range (n + 1), weight n i t * points.getD i 0 =
      ∑ j ∈ range (n + 1),
        (-1) ^ (i + j) * (n.choose j * j.choose i : ℕ) * t ^ j * points.getD i 0 := by
    intro i hi
    rw [weight_eq_sum (Nat.lt_succ_iff.mp (mem_range.mp hi)), sum_mul]
  rw [curve, hlength, Nat.add_sub_cancel, sum_congr rfl hexpand, sum_comm]
  refine sum_congr rfl fun j hj => ?_
  have hj : j ≤ n := Nat.lt_succ_iff.mp (mem_range.mp hj)
  -- the control points behind `j` do not contribute
  have hhigh : ∀ i ∈ range (n - j),
      (-1) ^ (j + 1 + i + j) * (n.choose j * j.choose (j + 1 + i) : ℕ) * t ^ j *
        points.getD (j + 1 + i) 0 = (0 : R) := by
    intro i _
    rw [Nat.choose_eq_zero_of_lt (show j < j + 1 + i by omega)]
    simp
  have hsplit : n + 1 = j + 1 + (n - j) := by omega
  rw [hsplit, sum_range_add, sum_eq_zero hhigh, add_zero, coeff, mul_sum, sum_mul]
  refine sum_congr rfl fun i _ => ?_
  push_cast
  ring

end Bezier
