import Skybrush.Library.Rounding
import Mathlib.Algebra.Order.Field.Power
import Mathlib.Data.Int.Log
import Mathlib.Tactic.FieldSimp
import Mathlib.Tactic.NormNum

/-!
# Single-Precision Rounding

Rounding to the nearest binary floating-point number with a significand of 24 bits, ties to
the even significand, with the smallest exponent of binary32. There is no largest exponent:
overflow to infinity is left out.

## Main results

* `Rounding.roundEven_mono`, `Rounding.roundEven_half`: rounding to integers, ties to even.
* `Rounding.toBinary32_of_mem`: numbers with 24 significant bits are not rounded.
* `Rounding.toBinary32_half`: a number halfway between two neighbours.
* `Rounding.binary32`: rounding is monotone.
* `Rounding.KeepsBinary32`: roundings that leave the numbers of single precision alone.
-/

namespace Rounding

/-! ### Rounding to integers -/

/-- The nearest integer, halves to the even one. -/
def roundEven (q : ℚ) : ℤ :=
  if q - ⌊q⌋ < 1 / 2 ∨ q - ⌊q⌋ = 1 / 2 ∧ ⌊q⌋ % 2 = 0 then ⌊q⌋ else ⌊q⌋ + 1

@[simp] theorem roundEven_intCast (n : ℤ) : roundEven n = n := by
  simp [roundEven]

/-- Rounding goes to one of the two neighbours. -/
theorem floor_le_roundEven (q : ℚ) : ⌊q⌋ ≤ roundEven q ∧ roundEven q ≤ ⌊q⌋ + 1 := by
  rw [roundEven]
  split <;> omega

/-- **Rounding to integers is monotone.** -/
theorem roundEven_mono {p q : ℚ} (hle : p ≤ q) : roundEven p ≤ roundEven q := by
  rcases (Int.floor_mono hle).eq_or_lt with heq | hlt
  · -- between the same two integers
    rw [roundEven, roundEven, heq]
    split
    case isTrue => split <;> omega
    case isFalse hp =>
      rw [if_neg]
      rintro (hq | ⟨hq, heven⟩)
      · exact hp (.inl (by linarith))
      · rcases hle.eq_or_lt with rfl | hpq
        · exact hp (.inr ⟨hq, heven⟩)
        · exact hp (.inl (by linarith))
  · calc roundEven p ≤ ⌊p⌋ + 1 := (floor_le_roundEven p).2
      _ ≤ ⌊q⌋ := hlt
      _ ≤ roundEven q := (floor_le_roundEven q).1

theorem roundEven_le {q : ℚ} {n : ℤ} (h : q ≤ n) : roundEven q ≤ n := by
  simpa using roundEven_mono h

theorem le_roundEven {q : ℚ} {n : ℤ} (h : (n : ℚ) ≤ q) : n ≤ roundEven q := by
  simpa using roundEven_mono h

/-- Not halfway between two integers, the nearest one is taken. -/
theorem roundEven_eq {q : ℚ} {n : ℤ} (hlow : n - 1 / 2 < q) (hhigh : q < n + 1 / 2) :
    roundEven q = n := by
  rcases le_or_gt (n : ℚ) q with hle | hgt
  · have hfloor : ⌊q⌋ = n := by
      rw [Int.floor_eq_iff]
      constructor <;> linarith
    rw [roundEven, hfloor, if_pos (.inl (by linarith))]
  · have hfloor : ⌊q⌋ = n - 1 := by
      rw [Int.floor_eq_iff]
      push_cast
      constructor <;> linarith
    rw [roundEven, hfloor, if_neg]
    · ring
    · push_cast
      rintro (h | ⟨h, -⟩) <;> linarith

/-- **Halfway** between two integers, the even one is taken. -/
theorem roundEven_half (n : ℤ) : roundEven (n + 1 / 2) = if n % 2 = 0 then n else n + 1 := by
  have hfloor : ⌊(n : ℚ) + 1 / 2⌋ = n := by
    rw [Int.floor_eq_iff]
    constructor <;> norm_num
  rw [roundEven, hfloor]
  simp

/-- Rounding does not depend on the sign. -/
theorem roundEven_neg (q : ℚ) : roundEven (-q) = -roundEven q := by
  have hfloor := Int.floor_le q
  have hlt := Int.lt_floor_add_one q
  generalize hn : ⌊q⌋ = n at hfloor hlt
  obtain ⟨r, rfl⟩ : ∃ r, q = n + r := ⟨q - n, by ring⟩
  rcases lt_trichotomy r (1 / 2) with hr | rfl | hr
  · have hpos : roundEven (n + r) = n := by
      rw [roundEven, hn, if_pos (.inl (by linarith))]
    rcases (show 0 ≤ r by linarith).eq_or_lt with rfl | hr0
    · have hint : -((n : ℚ) + 0) = (-n : ℤ) := by push_cast; ring
      rw [hpos, hint, roundEven_intCast]
    · have hneg : ⌊-((n : ℚ) + r)⌋ = -n - 1 := by
        rw [Int.floor_eq_iff]
        push_cast
        constructor <;> linarith
      rw [hpos, roundEven, hneg, if_neg]
      · ring
      · push_cast
        rintro (h | ⟨h, -⟩) <;> linarith
  · have hint : -((n : ℚ) + 1 / 2) = (-n - 1 : ℤ) + 1 / 2 := by push_cast; ring
    rw [hint, roundEven_half, roundEven_half]
    split <;> split <;> omega
  · have hpos : roundEven (n + r) = n + 1 := by
      rw [roundEven, hn, if_neg]
      rintro (h | ⟨h, -⟩) <;> linarith
    have hneg : ⌊-((n : ℚ) + r)⌋ = -n - 1 := by
      rw [Int.floor_eq_iff]
      push_cast
      constructor <;> linarith
    rw [hpos, roundEven, hneg, if_pos]
    · ring
    · left
      push_cast
      linarith

/-! ### Rounding to 24 bits -/

/-- The exponent of the last bit of the significand. -/
def lastBit (q : ℚ) : ℤ := max (Int.log 2 |q| - 23) (-149)

/-- Rounding to the nearest number with 24 significant bits. -/
def toBinary32 (q : ℚ) : ℚ := roundEven (q / 2 ^ lastBit q) * 2 ^ lastBit q

theorem lastBit_neg (q : ℚ) : lastBit (-q) = lastBit q := by
  rw [lastBit, lastBit, abs_neg]

theorem toBinary32_neg (q : ℚ) : toBinary32 (-q) = -toBinary32 q := by
  rw [toBinary32, toBinary32, lastBit_neg, neg_div, roundEven_neg, Int.cast_neg, neg_mul]

/-- The last bit in a binade. -/
theorem lastBit_eq {q : ℚ} {e : ℤ} (he : -149 ≤ e) (hlow : 2 ^ (e + 23) ≤ |q|)
    (hhigh : |q| < 2 ^ (e + 24)) : lastBit q = e := by
  have hpos : 0 < |q| := lt_of_lt_of_le (by positivity) hlow
  have hle := (Int.zpow_le_iff_le_log (b := 2) one_lt_two hpos).mp (by exact_mod_cast hlow)
  have hlt := (Int.lt_zpow_iff_log_lt (b := 2) one_lt_two hpos).mp (by exact_mod_cast hhigh)
  rw [lastBit]
  omega

/-- The last bit below a power of two. -/
theorem lastBit_le {q : ℚ} {e : ℤ} (he : -149 ≤ e) (hne : q ≠ 0) (hhigh : |q| < 2 ^ (e + 24)) :
    lastBit q ≤ e := by
  have hlt := (Int.lt_zpow_iff_log_lt (b := 2) one_lt_two (abs_pos.mpr hne)).mp
    (by exact_mod_cast hhigh)
  rw [lastBit]
  omega

/-- A multiple of the last bit is not rounded. -/
theorem toBinary32_of_multiple {q : ℚ} {n : ℤ} (h : q = n * 2 ^ lastBit q) : toBinary32 q = q := by
  have hdiv : q / 2 ^ lastBit q = n := (div_eq_iff (by positivity)).mpr h
  rw [toBinary32, hdiv, roundEven_intCast, ← h]

theorem toBinary32_of_lt {m e : ℤ} (he : -149 ≤ e) (hm : |m| < 2 ^ 24) :
    toBinary32 (m * 2 ^ e) = m * 2 ^ e := by
  rcases eq_or_ne m 0 with rfl | hne
  · simp [toBinary32, show roundEven 0 = 0 from by exact_mod_cast roundEven_intCast 0]
  have habs : |(m : ℚ) * 2 ^ e| < 2 ^ (e + 24) := by
    have hcast : |(m : ℚ)| < 2 ^ 24 := by exact_mod_cast hm
    rw [abs_mul, abs_of_pos (by positivity : (0 : ℚ) < 2 ^ e), zpow_add₀ two_ne_zero, mul_comm]
    exact mul_lt_mul_of_pos_left (by exact_mod_cast hcast) (by positivity)
  have hle := lastBit_le he (by positivity) habs
  obtain ⟨k, hk⟩ := Int.le.dest hle
  refine toBinary32_of_multiple (n := m * 2 ^ k) ?_
  push_cast
  conv_lhs => rw [← hk, zpow_add₀ two_ne_zero, zpow_natCast]
  ring

/-- **Numbers with 24 significant bits** are not rounded. -/
theorem toBinary32_of_mem {m e : ℤ} (he : -149 ≤ e) (hm : |m| ≤ 2 ^ 24) :
    toBinary32 (m * 2 ^ e) = m * 2 ^ e := by
  rcases hm.lt_or_eq with hlt | heq
  · exact toBinary32_of_lt he hlt
  · obtain ⟨n, rfl⟩ : ∃ n, m = n * 2 := by
      rcases abs_choice m with h | h
      · exact ⟨2 ^ 23, by omega⟩
      · exact ⟨-2 ^ 23, by omega⟩
    have hn : |n| < 2 ^ 24 := by
      rw [abs_mul] at heq
      norm_num at heq ⊢
      omega
    have hshift : ((n * 2 : ℤ) : ℚ) * 2 ^ e = n * 2 ^ (e + 1) := by
      push_cast
      rw [zpow_add₀ two_ne_zero]
      ring
    rw [hshift]
    exact toBinary32_of_lt (by omega) hn

/-- Rounding in a binade. -/
theorem toBinary32_of_binade {q : ℚ} {e : ℤ} (he : -149 ≤ e) (hlow : 2 ^ (e + 23) ≤ |q|)
    (hhigh : |q| < 2 ^ (e + 24)) : toBinary32 q = roundEven (q / 2 ^ e) * 2 ^ e := by
  rw [toBinary32, lastBit_eq he hlow hhigh]

/-- **Halfway** between two neighbours, the one with the even significand is taken. -/
theorem toBinary32_half {m e : ℤ} (he : -149 ≤ e) (hlow : 2 ^ 23 ≤ m) (hhigh : m < 2 ^ 24) :
    toBinary32 ((m + 1 / 2) * 2 ^ e) = (if m % 2 = 0 then m else m + 1 : ℤ) * 2 ^ e := by
  have hlow' : (2 : ℚ) ^ 23 ≤ m := by exact_mod_cast hlow
  have hhigh' : (m : ℚ) + 1 ≤ 2 ^ 24 := by exact_mod_cast hhigh
  have habs : |((m : ℚ) + 1 / 2) * 2 ^ e| = (m + 1 / 2) * 2 ^ e := abs_of_pos (by positivity)
  have hlow₂ : (2 : ℚ) ^ (e + 23) ≤ |((m : ℚ) + 1 / 2) * 2 ^ e| := by
    rw [habs, zpow_add₀ two_ne_zero, mul_comm]
    exact mul_le_mul_of_nonneg_right (by exact_mod_cast (by linarith)) (by positivity)
  have hhigh₂ : |((m : ℚ) + 1 / 2) * 2 ^ e| < 2 ^ (e + 24) := by
    rw [habs, zpow_add₀ two_ne_zero, mul_comm]
    exact mul_lt_mul_of_pos_left (by exact_mod_cast (by linarith)) (by positivity)
  rw [toBinary32_of_binade he hlow₂ hhigh₂, mul_div_cancel_right₀ _ (by positivity),
    roundEven_half]

/-! ### Monotonicity -/

theorem toBinary32_nonneg {q : ℚ} (h : 0 ≤ q) : 0 ≤ toBinary32 q := by
  have hdiv : ((0 : ℤ) : ℚ) ≤ q / 2 ^ lastBit q := by
    rw [Int.cast_zero]
    positivity
  have hround : (0 : ℚ) ≤ roundEven (q / 2 ^ lastBit q) := by exact_mod_cast le_roundEven hdiv
  rw [toBinary32]
  positivity

/-- Rounding is monotone on positive numbers: a power of two separates two binades. -/
theorem toBinary32_le_of_pos {p q : ℚ} (hp : 0 < p) (hle : p ≤ q) :
    toBinary32 p ≤ toBinary32 q := by
  have hq := hp.trans_le hle
  have hlog : Int.log 2 p ≤ Int.log 2 q := Int.log_mono_right hp hle
  rcases eq_or_ne (lastBit p) (lastBit q) with heq | hne
  · have hround : (roundEven (p / 2 ^ lastBit q) : ℚ) ≤ roundEven (q / 2 ^ lastBit q) := by
      exact_mod_cast roundEven_mono (div_le_div_of_nonneg_right hle (by positivity))
    rw [toBinary32, toBinary32, heq]
    exact mul_le_mul_of_nonneg_right hround (by positivity)
  · simp only [lastBit, abs_of_pos hp, abs_of_pos hq] at hne
    have hbit : lastBit q = Int.log 2 q - 23 := by
      rw [lastBit, abs_of_pos hq]
      omega
    have hlt : p < 2 ^ Int.log 2 q := by
      have hpow := (Int.lt_zpow_iff_log_lt (b := 2) one_lt_two hp).mpr
        (show Int.log 2 p < Int.log 2 q by omega)
      exact_mod_cast hpow
    have hlow : (2 : ℚ) ^ Int.log 2 q ≤ q := by
      exact_mod_cast Int.zpow_log_le_self (b := 2) one_lt_two hq
    obtain ⟨k, hk⟩ := Int.eq_ofNat_of_zero_le
      (show 0 ≤ Int.log 2 q - lastBit p by rw [lastBit, abs_of_pos hp]; omega)
    have hstep : (2 : ℚ) ^ Int.log 2 q = 2 ^ k * 2 ^ lastBit p := by
      rw [← zpow_natCast, ← zpow_add₀ two_ne_zero, ← hk, sub_add_cancel]
    have hbelow : roundEven (p / 2 ^ lastBit p) ≤ 2 ^ k := by
      refine roundEven_le ?_
      rw [div_le_iff₀ (by positivity)]
      push_cast
      exact hstep ▸ hlt.le
    have hsplit : (2 : ℚ) ^ Int.log 2 q = 2 ^ 23 * 2 ^ lastBit q := by
      rw [hbit, ← zpow_natCast, ← zpow_add₀ two_ne_zero]
      norm_num
    have habove : 2 ^ 23 ≤ roundEven (q / 2 ^ lastBit q) := by
      refine le_roundEven ?_
      rw [le_div_iff₀ (by positivity)]
      push_cast
      exact hsplit ▸ hlow
    calc toBinary32 p ≤ 2 ^ k * 2 ^ lastBit p :=
          mul_le_mul_of_nonneg_right (by exact_mod_cast hbelow) (by positivity)
      _ = 2 ^ 23 * 2 ^ lastBit q := hstep.symm.trans hsplit
      _ ≤ toBinary32 q := mul_le_mul_of_nonneg_right (by exact_mod_cast habove) (by positivity)

/-- **Rounding is monotone.** -/
theorem toBinary32_mono : Monotone toBinary32 := by
  intro p q hle
  rcases lt_trichotomy p 0 with hp | rfl | hp
  · rcases le_or_gt 0 q with hq | hq
    · have hneg := toBinary32_nonneg (neg_nonneg.mpr hp.le)
      rw [toBinary32_neg] at hneg
      linarith [toBinary32_nonneg hq]
    · have hneg := toBinary32_le_of_pos (neg_pos.mpr hq) (neg_le_neg hle)
      rw [toBinary32_neg, toBinary32_neg] at hneg
      linarith
  · have hzero : toBinary32 0 = 0 := by simpa using @toBinary32_of_mem 0 0 (by omega) (by simp)
    rw [hzero]
    exact toBinary32_nonneg hle
  · exact toBinary32_le_of_pos hp hle

/-- Single precision. -/
def binary32 : Rounding where
  round := toBinary32
  mono := toBinary32_mono
  exact_int n hn := by simpa using @toBinary32_of_mem n 0 (by omega) hn

@[simp] theorem binary32_apply (q : ℚ) : binary32 q = toBinary32 q := rfl

/-! ### Roundings that are precise enough -/

/-- The numbers of single precision are not rounded. -/
def KeepsBinary32 (F : Rounding) : Prop :=
  ∀ m e : ℤ, -149 ≤ e → |m| ≤ 2 ^ 24 → F (m * 2 ^ e) = m * 2 ^ e

theorem keepsBinary32_exact : exact.KeepsBinary32 := fun _ _ _ _ => rfl

theorem keepsBinary32_binary32 : binary32.KeepsBinary32 := fun _ _ he hm => toBinary32_of_mem he hm

end Rounding
