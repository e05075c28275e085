import Skybrush.BasicTypes
import Skybrush.Library.Bezier
import Skybrush.Library.Rounding
import Mathlib.Data.Nat.Choose.Cast
import Mathlib.Tactic.FieldSimp

/-!
# Polynomials

The polynomials that describe the coordinates of a trajectory segment (`poly.c`), computed
in single precision, modelled by a `Rounding`. A polynomial is the list of its
coefficients, the constant one first; segments are made of Bézier curves of degree zero,
one, three or seven, with control points that are spread evenly.

## Main results

* `Poly.eval_makeBezier_line`: between two points, a Bézier curve is the straight line.
* `Poly.eval_makeBezier`: in exact arithmetic, the polynomial of up to eight control points
  is their Bézier curve.
-/

namespace Skybrush

/-- `SB_MAX_POLY_COEFFS`. -/
def maxPolyCoeffs : ℕ := 8

/-- A polynomial: `sb_poly_t`. -/
structure Poly where
  coeffs : List ℚ
  deriving DecidableEq, Repr

namespace Poly

variable (F : Rounding)

/-- `sb_poly_make_constant`. -/
def makeConstant (x : ℚ) : Poly := ⟨[x]⟩

/-- `sb_poly_make_zero`. -/
def makeZero : Poly := makeConstant 0

/-- `sb_poly_make_linear`. The threshold is `FLT_EPSILON`. -/
def makeLinear (duration x₀ x₁ : ℚ) : Poly :=
  if 1 / 2 ^ 23 ≤ |duration| then
    ⟨[x₀, F (F (x₁ - x₀) / duration)]⟩
  else
    ⟨[F (F (x₀ + x₁) / 2), 0]⟩

/-- The factorials: `facs`. -/
def facs (n : ℕ) : ℚ := ([1, 1, 2, 6, 24, 120, 720, 5040] : List ℚ).getD n 0

/-- The sum in a coefficient of a Bézier curve, up to the control point `i`. -/
def bezierSum (xs : List ℚ) (j : ℕ) : ℕ → ℚ
  | 0 => 0
  | i + 1 =>
      let sign : ℚ := if (i + j) % 2 = 0 then 1 else -1
      F (bezierSum xs j i + F (F (F (sign * xs.getD i 0) / facs i) / facs (j - i)))

/-- The coefficients of a Bézier curve of degree `n`. -/
def bezierCoeff (xs : List ℚ) (n j : ℕ) : ℚ :=
  F (F (bezierSum F xs j (j + 1) * facs n) / facs (n - j))

/-- `sb_poly_stretch`, from the coefficient of degree one on. -/
def stretchFrom (factor : ℚ) : ℚ → List ℚ → List ℚ
  | _, [] => []
  | scale, c :: cs => F (c * scale) :: stretchFrom factor (F (scale * factor)) cs

/-- `sb_poly_stretch`. -/
def stretch (poly : Poly) (factor : ℚ) : Poly :=
  match poly.coeffs with
  | [] => poly
  | c :: cs => ⟨c :: stretchFrom F (F (1 / factor)) (F (1 / factor)) cs⟩

/-- `sb_poly_make_bezier`. -/
def makeBezier (duration : ℚ) (xs : List ℚ) : Poly :=
  match xs with
  | [] => makeZero
  | [x] => makeConstant x
  | [x₀, x₁] => makeLinear F duration x₀ x₁
  | xs =>
      let n := min xs.length maxPolyCoeffs - 1
      stretch F ⟨(List.range (n + 1)).map (bezierCoeff F xs n)⟩ duration

/-- `sb_poly_eval`. -/
def eval (poly : Poly) (t : ℚ) : ℚ := poly.coeffs.foldr (fun c result => F (F (result * t) + c)) 0

/-- `sb_poly_deriv`. -/
def deriv (poly : Poly) : Poly :=
  if 1 < poly.coeffs.length then
    ⟨poly.coeffs.tail.mapIdx fun i c => F ((i + 1 : ℕ) * c)⟩
  else
    makeZero

/-- `sb_poly_scale`. -/
def scale (poly : Poly) (factor : ℚ) : Poly := ⟨poly.coeffs.map fun c => F (c * factor)⟩

/-- A curve through one point stays there. -/
theorem eval_makeBezier_point (x t : ℚ) : (makeBezier .exact 1 [x]).eval .exact t = x := by
  simp [makeBezier, makeConstant, eval]

/-- **Between two points**, a curve is the straight line. -/
theorem eval_makeBezier_line (x₀ x₁ t : ℚ) :
    (makeBezier .exact 1 [x₀, x₁]).eval .exact t = x₀ + t * (x₁ - x₀) := by
  have hthreshold : (1 : ℚ) / 2 ^ 23 ≤ |1| := by norm_num
  simp only [makeBezier, makeLinear, if_pos hthreshold, eval, List.foldr_cons, List.foldr_nil,
    Rounding.exact_apply]
  ring

/-! ### Bézier curves in exact arithmetic -/

theorem eval_cons (c : ℚ) (cs : List ℚ) (t : ℚ) :
    (⟨c :: cs⟩ : Poly).eval .exact t = (⟨cs⟩ : Poly).eval .exact t * t + c := rfl

/-- Horner's scheme adds up the powers. -/
theorem eval_eq_sum (coeffs : List ℚ) (t : ℚ) :
    (⟨coeffs⟩ : Poly).eval .exact t =
      ∑ j ∈ Finset.range coeffs.length, coeffs.getD j 0 * t ^ j := by
  induction coeffs with
  | nil => rfl
  | cons c cs ih =>
      rw [eval_cons, ih, List.length_cons, Finset.sum_range_succ', Finset.sum_mul]
      simp [pow_succ, mul_assoc]

theorem stretchFrom_one (cs : List ℚ) : stretchFrom .exact 1 1 cs = cs := by
  induction cs with
  | nil => rfl
  | cons c cs ih => simp [stretchFrom, ih]

/-- A polynomial for a unit of time is not stretched. -/
theorem stretch_one (poly : Poly) : stretch .exact poly 1 = poly := by
  obtain ⟨coeffs⟩ := poly
  cases coeffs with
  | nil => rfl
  | cons c cs => simp [stretch, stretchFrom_one]

/-- The coefficients are multiplied by the powers of a factor. -/
theorem eval_stretchFrom (factor scale : ℚ) (cs : List ℚ) (t : ℚ) :
    (⟨stretchFrom .exact factor scale cs⟩ : Poly).eval .exact t =
      scale * (⟨cs⟩ : Poly).eval .exact (t * factor) := by
  induction cs generalizing scale with
  | nil => exact (mul_zero scale).symm
  | cons c cs ih =>
      rw [stretchFrom, eval_cons, ih, eval_cons]
      simp only [Rounding.exact_apply]
      ring

/-- **A stretched polynomial** takes its values that much later. -/
theorem eval_stretch (poly : Poly) (factor t : ℚ) :
    (stretch .exact poly factor).eval .exact t = poly.eval .exact (t / factor) := by
  obtain ⟨coeffs⟩ := poly
  cases coeffs with
  | nil => rfl
  | cons c cs =>
      rw [stretch, eval_cons, eval_stretchFrom, eval_cons]
      simp only [Rounding.exact_apply]
      rw [div_eq_mul_one_div t factor]
      ring

/-- **A curve for any duration** is the curve for a unit of time, stretched. -/
theorem eval_makeBezier_div (xs : List ℚ) {duration : ℚ} (h : 1 / 2 ^ 23 ≤ |duration|) (t : ℚ) :
    (makeBezier .exact duration xs).eval .exact t =
      (makeBezier .exact 1 xs).eval .exact (t / duration) := by
  match xs with
  | [] => simp [makeBezier, makeZero, makeConstant, eval]
  | [x] => simp [makeBezier, makeConstant, eval]
  | [x₀, x₁] =>
      rw [eval_makeBezier_line, makeBezier, makeLinear, if_pos h, eval_cons, eval_cons]
      simp only [eval, List.foldr_nil, Rounding.exact_apply]
      ring
  | x₀ :: x₁ :: x₂ :: xs =>
      rw [makeBezier, makeBezier, eval_stretch, stretch_one]
      all_goals simp

theorem facs_eq_factorial {n : ℕ} (h : n < maxPolyCoeffs) : facs n = n.factorial := by
  have hall : ∀ n : Fin maxPolyCoeffs, facs n = (n : ℕ).factorial := by decide
  exact hall ⟨n, h⟩

/-- The sum in a coefficient, in binomials. -/
theorem bezierSum_eq (xs : List ℚ) {j : ℕ} (hj : j < maxPolyCoeffs) {k : ℕ} (hk : k ≤ j + 1) :
    bezierSum .exact xs j k =
      (∑ i ∈ Finset.range k, (-1) ^ (i + j) * (j.choose i : ℚ) * xs.getD i 0) / j.factorial := by
  induction k with
  | zero => simp [bezierSum]
  | succ i ih =>
      have hi : i ≤ j := Nat.le_of_succ_le_succ hk
      have hsign : (if (i + j) % 2 = 0 then 1 else -1 : ℚ) = (-1) ^ (i + j) := by
        rw [neg_one_pow_eq_ite]
        simp only [Nat.even_iff]
      rw [bezierSum, ih (Nat.le_of_succ_le hk), Finset.sum_range_succ, hsign,
        facs_eq_factorial (Nat.lt_of_le_of_lt hi hj),
        facs_eq_factorial (Nat.lt_of_le_of_lt (Nat.sub_le j i) hj), Nat.cast_choose ℚ hi]
      simp only [Rounding.exact_apply]
      field_simp

/-- The coefficients of a Bézier curve. -/
theorem bezierCoeff_eq (xs : List ℚ) {n j : ℕ} (hn : n < maxPolyCoeffs) (hj : j ≤ n) :
    bezierCoeff .exact xs n j = Bezier.coeff xs n j := by
  rw [bezierCoeff, bezierSum_eq xs (Nat.lt_of_le_of_lt hj hn) le_rfl, facs_eq_factorial hn,
    facs_eq_factorial (Nat.lt_of_le_of_lt (Nat.sub_le n j) hn), Bezier.coeff,
    Nat.cast_choose ℚ hj]
  simp only [Rounding.exact_apply]
  field_simp

/-- **The polynomial of up to eight control points** is their Bézier curve. -/
theorem eval_makeBezier {xs : List ℚ} (hne : xs ≠ []) (hle : xs.length ≤ maxPolyCoeffs) (t : ℚ) :
    (makeBezier .exact 1 xs).eval .exact t = Bezier.curve xs t := by
  match xs with
  | [] => exact absurd rfl hne
  | [x] => rw [eval_makeBezier_point, Bezier.curve_singleton]
  | [x₀, x₁] =>
      have hcurve : Bezier.curve [x₀, x₁] t = (1 - t) * x₀ + t * x₁ := by
        simp [Bezier.curve, Bezier.weight, Finset.sum_range_succ]
      rw [eval_makeBezier_line, hcurve]
      ring
  | x₀ :: x₁ :: x₂ :: xs =>
      set points := x₀ :: x₁ :: x₂ :: xs with hpoints
      have hlength : points.length = points.length - 1 + 1 := by simp [hpoints]
      have hdegree : min points.length maxPolyCoeffs - 1 = points.length - 1 := by
        rw [Nat.min_eq_left hle]
      have hmake : makeBezier .exact 1 points =
          ⟨(List.range (points.length - 1 + 1)).map
            (bezierCoeff .exact points (points.length - 1))⟩ := by
        rw [← hdegree]
        exact stretch_one _
      rw [hmake, eval_eq_sum, Bezier.curve_eq_sum_coeff hlength, List.length_map,
        List.length_range]
      refine Finset.sum_congr rfl fun j hj => ?_
      have hj : j < points.length - 1 + 1 := Finset.mem_range.mp hj
      rw [← bezierCoeff_eq points (show points.length - 1 < maxPolyCoeffs by omega)
        (Nat.lt_succ_iff.mp hj)]
      simp [List.getD_eq_getElem?_getD, hj]

/-- **The polynomial of control points** is their Bézier curve, for every duration that is not
almost zero: at the time `t` it is the mean of the control points, weighted by the Bernstein
polynomials at `t / duration`. So it begins at the first control point and ends at the last
one. -/
theorem makeBezier_curve {xs : List ℚ} {n : ℕ} (hlength : xs.length = n + 1)
    (hle : xs.length ≤ maxPolyCoeffs) {duration : ℚ} (hduration : 1 / 2 ^ 23 ≤ |duration|) :
    (∀ t, (makeBezier .exact duration xs).eval .exact t =
      ∑ i ∈ Finset.range (n + 1), (n.choose i : ℚ) * (1 - t / duration) ^ (n - i) *
        (t / duration) ^ i * xs.getD i 0) ∧
      (makeBezier .exact duration xs).eval .exact 0 = xs.getD 0 0 ∧
      (makeBezier .exact duration xs).eval .exact duration = xs.getD n 0 := by
  have hne : xs ≠ [] := List.ne_nil_of_length_eq_add_one hlength
  have hpos : 0 < |duration| := lt_of_lt_of_le (by norm_num) hduration
  have hcurve : ∀ t, (makeBezier .exact duration xs).eval .exact t =
      Bezier.curve xs (t / duration) := by
    intro t
    rw [eval_makeBezier_div xs hduration, eval_makeBezier hne hle]
  obtain ⟨first, points, rfl⟩ := List.exists_cons_of_ne_nil hne
  refine ⟨fun t => ?_, ?_, ?_⟩
  · rw [hcurve, Bezier.curve, hlength, Nat.add_sub_cancel]
    refine Finset.sum_congr rfl fun i _ => ?_
    rw [Bezier.weight]
    ring
  · rw [hcurve, zero_div, Bezier.curve_zero]
    rfl
  · rw [hcurve, div_self (abs_pos.mp hpos), Bezier.curve_one, ← Bezier.getD_length_eq_getLastD]
    rw [List.length_cons, Nat.add_right_cancel_iff] at hlength
    rw [hlength]

/-- The cubic curve with the control points 3, 5, -2 and 7, in four seconds. -/
theorem makeBezier_curve_cubic :
    (∀ t, (makeBezier .exact 4 [3, 5, -2, 7]).eval .exact t =
      ∑ i ∈ Finset.range 4, (Nat.choose 3 i : ℚ) * (1 - t / 4) ^ (3 - i) *
        (t / 4) ^ i * [3, 5, -2, 7].getD i 0) ∧
      (makeBezier .exact 4 [3, 5, -2, 7]).eval .exact 0 = 3 ∧
      (makeBezier .exact 4 [3, 5, -2, 7]).eval .exact 4 = 7 :=
  @makeBezier_curve [3, 5, -2, 7] 3 rfl (by decide) 4 (by norm_num)

end Poly

/-- A polynomial in each coordinate: `sb_poly_4d_t`. -/
structure Poly4D where
  x : Poly
  y : Poly
  z : Poly
  yaw : Poly
  deriving DecidableEq, Repr

namespace Poly4D

variable (F : Rounding)

/-- The value-initialised polynomials, which have no coefficients. -/
def zeroed : Poly4D := ⟨⟨[]⟩, ⟨[]⟩, ⟨[]⟩, ⟨[]⟩⟩

/-- `sb_poly_4d_make_constant`. -/
def makeConstant (v : Vector3WithYaw) : Poly4D :=
  ⟨.makeConstant v.x, .makeConstant v.y, .makeConstant v.z, .makeConstant v.yaw⟩

/-- `sb_poly_4d_eval`. -/
def eval (poly : Poly4D) (t : ℚ) : Vector3WithYaw :=
  ⟨poly.x.eval F t, poly.y.eval F t, poly.z.eval F t, poly.yaw.eval F t⟩

/-- `sb_poly_4d_deriv`. -/
def deriv (poly : Poly4D) : Poly4D :=
  ⟨poly.x.deriv F, poly.y.deriv F, poly.z.deriv F, poly.yaw.deriv F⟩

/-- `sb_poly_4d_scale`. -/
def scale (poly : Poly4D) (factor : ℚ) : Poly4D :=
  ⟨poly.x.scale F factor, poly.y.scale F factor, poly.z.scale F factor, poly.yaw.scale F factor⟩

end Poly4D

end Skybrush
