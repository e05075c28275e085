import Mathlib.Algebra.Order.Archimedean.Basic
import Mathlib.Data.Rat.Floor
import Mathlib.Tactic.Linarith
import Mathlib.Tactic.Positivity

/-!
# Rounded Rational Arithmetic

Single-precision arithmetic is modelled by exact rational arithmetic followed by a
rounding. A `Rounding` is any monotone map of the rationals that leaves the integers of
at most 24 bits alone: rounding to the nearest binary32 number, in any rounding mode and
as long as no intermediate result overflows, is one, and so is the identity
`Rounding.exact`, which gives exact arithmetic. What is proved for every `Rounding` holds
for both.

The integer conversions of C are defined here as well, on exact rationals: truncation
towards zero (`truncate`), the `round` function (`roundAway`, halves away from zero) and
the remainder `fmod`.

## Main results

* `Rounding.nonneg`, `Rounding.apply_natCast`: facts that monotonicity and exactness on small
  integers give.
* `Rounding.abs_truncate_le`, `Rounding.abs_sub_truncate_lt`: truncation moves a number
  towards zero, by less than one.
* `Rounding.roundAway_intCast`: an integer is not changed by `roundAway`.
* `Rounding.abs_fmod_lt`: a remainder is smaller than its divisor.
-/

/-- A rounding of the rationals: monotone, and exact on the integers of 24 bits. -/
structure Rounding where
  /-- The rounded value. -/
  round : ℚ → ℚ
  mono : Monotone round
  exact_int : ∀ n : ℤ, |n| ≤ 2 ^ 24 → round n = n

namespace Rounding

instance : CoeFun Rounding (fun _ => ℚ → ℚ) := ⟨Rounding.round⟩

/-- Exact arithmetic: nothing is rounded. -/
def exact : Rounding where
  round := id
  mono := monotone_id
  exact_int _ _ := rfl

@[simp] theorem exact_apply (q : ℚ) : exact q = q := rfl

variable (F : Rounding)

@[simp] theorem apply_zero : F 0 = 0 := by
  simpa using F.exact_int 0 (by simp)

@[simp] theorem apply_one : F 1 = 1 := by
  simpa using F.exact_int 1 (by norm_num)

/-- Small natural numbers are not rounded. -/
theorem apply_natCast {n : ℕ} (h : n ≤ 2 ^ 24) : F n = n := by
  have := F.exact_int n (by rw [abs_of_nonneg (by omega)]; omega)
  exact_mod_cast this

/-- Rounding a nonnegative number gives a nonnegative number. -/
theorem nonneg {q : ℚ} (h : 0 ≤ q) : 0 ≤ F q := by
  simpa using F.mono h

/-- The natural numbers up to a bound are not rounded. -/
def ExactUpTo (bound : ℕ) : Prop := ∀ n : ℕ, n ≤ bound → F n = n

/-- Exact arithmetic is exact up to every bound. -/
theorem exactUpTo_exact (bound : ℕ) : exact.ExactUpTo bound := fun _ _ => rfl

/-! ### Conversions to integers -/

/-- Conversion of a floating-point number to an integer type: truncation towards zero. -/
def truncate (q : ℚ) : ℤ := if 0 ≤ q then ⌊q⌋ else ⌈q⌉

/-- The `round` function: the nearest integer, halves away from zero. -/
def roundAway (q : ℚ) : ℤ := if 0 ≤ q then ⌊q + 1 / 2⌋ else ⌈q - 1 / 2⌉

/-- The `fmod` function: the remainder of the truncated quotient, with the sign of `a`. -/
def fmod (a b : ℚ) : ℚ := a - b * truncate (a / b)

@[simp] theorem truncate_intCast (n : ℤ) : truncate n = n := by
  simp [truncate]

@[simp] theorem truncate_natCast (n : ℕ) : truncate n = n := by
  exact_mod_cast truncate_intCast n

@[simp] theorem truncate_zero : truncate 0 = 0 := by
  simp [truncate]

/-- Truncation stays within one of the number, on the side of zero. -/
theorem abs_truncate_le (q : ℚ) : |(truncate q : ℚ)| ≤ |q| := by
  unfold truncate
  split
  case isTrue h =>
    have hf : (0 : ℚ) ≤ (⌊q⌋ : ℚ) := by exact_mod_cast Int.floor_nonneg.mpr h
    rw [abs_of_nonneg hf, abs_of_nonneg h]
    exact Int.floor_le q
  case isFalse h =>
    have hq : q ≤ 0 := le_of_lt (lt_of_not_ge h)
    have hc : (⌈q⌉ : ℚ) ≤ 0 := by exact_mod_cast Int.ceil_le.mpr (by simpa using hq)
    rw [abs_of_nonpos hc, abs_of_nonpos hq]
    linarith [Int.le_ceil q]

/-- Truncation is off by less than one. -/
theorem abs_sub_truncate_lt (q : ℚ) : |q - truncate q| < 1 := by
  unfold truncate
  split
  case isTrue h =>
    rw [abs_lt]
    constructor <;> linarith [Int.floor_le q, Int.lt_floor_add_one q]
  case isFalse h =>
    rw [abs_lt]
    constructor <;> linarith [Int.le_ceil q, Int.ceil_lt_add_one q]

@[simp] theorem roundAway_intCast (n : ℤ) : roundAway n = n := by
  have h : ⌊(n : ℚ) + 1 / 2⌋ = n := by
    rw [Int.floor_eq_iff]
    constructor <;> norm_num
  have h' : ⌈(n : ℚ) - 1 / 2⌉ = n := by
    rw [Int.ceil_eq_iff]
    constructor <;> norm_num
  simp only [roundAway, h, h', ite_self]

@[simp] theorem roundAway_natCast (n : ℕ) : roundAway n = n := by
  exact_mod_cast roundAway_intCast n

/-- A remainder is smaller than its divisor. -/
theorem abs_fmod_lt (a : ℚ) {b : ℚ} (hb : 0 < b) : |fmod a b| < b := by
  have h : fmod a b = b * (a / b - truncate (a / b)) := by
    unfold fmod
    field_simp
  rw [h, abs_mul, abs_of_pos hb]
  calc b * |a / b - truncate (a / b)| < b * 1 :=
        mul_lt_mul_of_pos_left (abs_sub_truncate_lt _) hb
    _ = b := mul_one b

end Rounding
