import Skybrush.Error
import Skybrush.Polynomial
import Mathlib

/-!
# Roots of Polynomials

Solving polynomials of low degree (`poly.c`). A polynomial is the list of its coefficients, the
constant one first; leading coefficients may be zero. The functions work over any ordered
field with a square root, which has no value for some numbers: a root that is not a number
fails every comparison. The test whether a coefficient is zero is exact.

Over the real numbers, all roots of a polynomial of degree two at most are found. A quadratic
polynomial that has none gets two roots that are not numbers.

## Main results

* `hasDerivAt_evalOver`: the derivative.
* `natDegree_le_iff`: the degree of a polynomial, in significant coefficients.
* `solved_solve`: what solving a polynomial of degree two at most comes to.
* `solvesAsDocumented_iff`: exactly the quadratic polynomials without real roots are not solved
  as documented.
-/

namespace Skybrush

open Polynomial

/-! ### Functions -/

variable {K : Type} [Field K]

/-- `sb_poly_eval`. -/
def evalOver (coeffs : List K) (t : K) : K := coeffs.foldr (fun c result => result * t + c) 0

/-- `sb_poly_deriv`. -/
def derivOver (coeffs : List K) : List K :=
  if 1 < coeffs.length then coeffs.tail.mapIdx fun i c => (i + 1 : ℕ) * c else [0]

theorem evalOver_cons (c : K) (cs : List K) (t : K) :
    evalOver (c :: cs) t = evalOver cs t * t + c := rfl

variable [LinearOrder K]

/-- The number of coefficients without the leading ones that are zero, but not less than a
bound. -/
def significant (coeffs : List K) (least : ℕ) : ℕ → ℕ
  | 0 => 0
  | n + 1 => if least < n + 1 ∧ coeffs.getD n 0 = 0 then significant coeffs least n else n + 1

/-- `sb_i_poly_solve_1d`. -/
def solve1d (coeffs : List K) : List (Option K) := if coeffs.getD 0 0 = 0 then [some 0] else []

/-- `sb_i_poly_solve_2d`. -/
def solve2d (coeffs : List K) : List (Option K) :=
  let a := coeffs.getD 1 0
  let b := coeffs.getD 0 0
  if a = 0 then [] else [some (-b / a)]

/-- `sb_i_poly_solve_3d`. A square root that is not a number makes both roots so. -/
def solve3d (sqrt : K → Option K) (coeffs : List K) : List (Option K) :=
  let a := coeffs.getD 2 0
  let b := coeffs.getD 1 0
  let c := coeffs.getD 0 0
  if a = 0 then
    solve2d coeffs
  else
    let d := b * b - 4 * a * c
    if d = 0 then
      [some (-b / (2 * a))]
    else
      let d := sqrt d
      [d.map fun d => (-b - d) / (2 * a), d.map fun d => (-b + d) / (2 * a)]

/-- `sb_poly_solve`. -/
def solve (sqrt : K → Option K) (coeffs : List K) : Except SbError (List (Option K)) :=
  match significant coeffs 1 coeffs.length with
  | 0 => .ok []
  | 1 => .ok (solve1d coeffs)
  | 2 => .ok (solve2d coeffs)
  | 3 => .ok (solve3d sqrt coeffs)
  | _ => .error .eunimplemented

/-- The square root of a real number, if it is one. -/
noncomputable def realSqrt (d : ℝ) : Option ℝ := if d < 0 then none else some √d

/-! ### Polynomials as such -/

/-- The polynomial that a list of coefficients stands for. -/
noncomputable def toPolynomial : List ℝ → ℝ[X]
  | [] => 0
  | c :: cs => C c + X * toPolynomial cs

theorem coeff_toPolynomial (coeffs : List ℝ) (i : ℕ) :
    (toPolynomial coeffs).coeff i = coeffs.getD i 0 := by
  induction coeffs generalizing i with
  | nil => simp [toPolynomial]
  | cons c cs ih =>
      cases i with
      | zero => simp [toPolynomial]
      | succ i => simp [toPolynomial, coeff_C_succ, ih]

theorem eval_toPolynomial (coeffs : List ℝ) (u : ℝ) :
    (toPolynomial coeffs).eval u = evalOver coeffs u := by
  induction coeffs with
  | nil => simp [toPolynomial, evalOver]
  | cons c cs ih =>
      rw [toPolynomial, eval_add, eval_C, eval_mul, eval_X, ih, evalOver_cons]
      ring

/-- `sb_poly_deriv` is the derivative. -/
theorem toPolynomial_derivOver (coeffs : List ℝ) :
    toPolynomial (derivOver coeffs) = derivative (toPolynomial coeffs) := by
  ext i
  rw [coeff_derivative, coeff_toPolynomial, coeff_toPolynomial, derivOver]
  split
  case isTrue hlong =>
    simp only [List.getD_eq_getElem?_getD, List.getElem?_mapIdx, List.getElem?_tail]
    cases coeffs[i + 1]? with
    | none => simp
    | some c =>
        simp only [Option.map_some, Option.getD_some]
        push_cast
        ring
  case isFalse hshort =>
    rw [List.getD_eq_default coeffs 0 (by omega)]
    cases i <;> simp

/-- **The derivative** of a polynomial. -/
theorem hasDerivAt_evalOver (coeffs : List ℝ) (t : ℝ) :
    HasDerivAt (evalOver coeffs) (evalOver (derivOver coeffs) t) t := by
  have hderiv := (toPolynomial coeffs).hasDerivAt t
  rw [← toPolynomial_derivOver, eval_toPolynomial] at hderiv
  rwa [← funext (eval_toPolynomial coeffs)]

/-- Exact evaluation is evaluation over the real numbers. -/
theorem cast_eval (poly : Poly) (t : ℚ) :
    ((poly.eval .exact t : ℚ) : ℝ) = evalOver (poly.coeffs.map fun c : ℚ => (c : ℝ)) t := by
  obtain ⟨coeffs⟩ := poly
  induction coeffs with
  | nil => simp [Poly.eval, evalOver]
  | cons c cs ih =>
      rw [Poly.eval_cons, List.map_cons, evalOver_cons, ← ih]
      push_cast
      rfl

/-! ### Significant coefficients -/

/-- Few coefficients are significant if the others are zero. -/
theorem significant_le_iff (coeffs : List ℝ) {least k : ℕ} (hk : least ≤ k) (n : ℕ) :
    significant coeffs least n ≤ k ↔ ∀ i, k ≤ i → i < n → coeffs.getD i 0 = 0 := by
  induction n with
  | zero => simp [significant]
  | succ n ih =>
      rw [significant]
      split
      case isTrue hzero =>
        rw [ih]
        refine ⟨fun h i hi hlt => ?_, fun h i hi hlt => h i hi (Nat.lt_succ_of_lt hlt)⟩
        rcases Nat.lt_succ_iff_lt_or_eq.mp hlt with hlt | rfl
        · exact h i hi hlt
        · exact hzero.2
      case isFalse hne =>
        constructor
        · intro h i hi hlt
          omega
        · intro h
          by_contra hlt
          exact hne ⟨by omega, h n (by omega) n.lt_succ_self⟩

/-- No fewer coefficients are significant than are asked for. -/
theorem min_le_significant (coeffs : List ℝ) (least n : ℕ) :
    min least n ≤ significant coeffs least n := by
  induction n with
  | zero => simp
  | succ n ih =>
      rw [significant]
      split
      case isTrue hzero => omega
      case isFalse => omega

/-- The degree, in significant coefficients. -/
theorem natDegree_le_iff {coeffs : List ℝ} (least : ℕ) {k : ℕ} (hk : least ≤ k + 1) :
    (toPolynomial coeffs).natDegree ≤ k ↔ significant coeffs least coeffs.length ≤ k + 1 := by
  rw [natDegree_le_iff_coeff_eq_zero, significant_le_iff coeffs hk]
  simp only [coeff_toPolynomial]
  refine ⟨fun h i hi _ => h i hi, fun h i hi => ?_⟩
  rcases Nat.lt_or_ge i coeffs.length with hlt | hge
  · exact h i hi hlt
  · exact List.getD_eq_default _ _ hge

/-- The degree is below the number of coefficients. -/
theorem natDegree_le_of_length_le {coeffs : List ℝ} {k : ℕ} (h : coeffs.length ≤ k + 1) :
    (toPolynomial coeffs).natDegree ≤ k := by
  refine natDegree_le_iff_coeff_eq_zero.mpr fun i hi => ?_
  rw [coeff_toPolynomial, List.getD_eq_default _ _ (by omega)]

/-- A significant leading coefficient is not zero. -/
theorem getD_ne_zero_of_significant {coeffs : List ℝ} {least k : ℕ} (hk : least ≤ k)
    (h : significant coeffs least coeffs.length = k + 1) : coeffs.getD k 0 ≠ 0 := by
  intro hzero
  have hrest := (significant_le_iff coeffs (hk.trans k.le_succ) coeffs.length).mp h.le
  have hle : significant coeffs least coeffs.length ≤ k := by
    refine (significant_le_iff coeffs hk _).mpr fun i hi hlt => ?_
    rcases eq_or_lt_of_le hi with rfl | hi
    · exact hzero
    · exact hrest i hi hlt
  omega

/-- A polynomial is the sum of its powers with significant coefficients. -/
theorem evalOver_eq_sum {coeffs : List ℝ} {least k : ℕ} (hk : least ≤ k + 1)
    (h : significant coeffs least coeffs.length ≤ k + 1) (u : ℝ) :
    evalOver coeffs u = ∑ i ∈ Finset.range (k + 1), coeffs.getD i 0 * u ^ i := by
  have hdegree := (natDegree_le_iff least hk).mpr h
  rw [← eval_toPolynomial, eval_eq_sum_range' (Nat.lt_succ_of_le hdegree)]
  simp only [coeff_toPolynomial]

/-! ### Roots -/

variable {coeffs : List ℝ}

/-- A quadratic polynomial without real roots. -/
def NegativeDiscriminant (p : ℝ[X]) : Prop :=
  p.natDegree = 2 ∧ discrim (p.coeff 2) (p.coeff 1) (p.coeff 0) < 0

/-- What solving a polynomial of degree two at most comes to: its real roots, or, for a quadratic
polynomial that has none, two roots that are not numbers. -/
inductive Solved (coeffs : List ℝ) : Except SbError (List (Option ℝ)) → Prop
  | roots {roots : List ℝ} (hdiscrim : ¬ NegativeDiscriminant (toPolynomial coeffs))
      (hnodup : roots.Nodup) (hroots : ∀ u, u ∈ roots ↔ evalOver coeffs u = 0) :
      Solved coeffs (.ok (roots.map some))
  | noRoots (hdiscrim : NegativeDiscriminant (toPolynomial coeffs))
      (hroots : ∀ u, evalOver coeffs u ≠ 0) : Solved coeffs (.ok [none, none])

/-- The constant polynomial. -/
theorem solved_solve1d (hcount : significant coeffs 1 coeffs.length = 1)
    (hne : toPolynomial coeffs ≠ 0) : Solved coeffs (.ok (solve1d coeffs)) := by
  have hdegree := (natDegree_le_iff 1 (k := 0) le_rfl).mpr hcount.le
  have heval : ∀ u, evalOver coeffs u = coeffs.getD 0 0 := by
    intro u
    simpa using evalOver_eq_sum (k := 0) le_rfl hcount.le u
  have hc : coeffs.getD 0 0 ≠ 0 := by
    intro hzero
    rw [eq_C_of_natDegree_le_zero hdegree, coeff_toPolynomial, hzero, C_0] at hne
    exact hne rfl
  rw [solve1d, if_neg hc]
  refine @Solved.roots _ [] (fun h => ?_) List.nodup_nil fun u => ?_
  · have := h.1
    omega
  · simpa [heval] using hc

/-- The linear polynomial. -/
theorem solved_solve2d (hcount : significant coeffs 1 coeffs.length = 2) :
    Solved coeffs (.ok (solve2d coeffs)) := by
  have hdegree := (natDegree_le_iff 1 (k := 1) (by decide)).mpr hcount.le
  have ha : coeffs.getD 1 0 ≠ 0 := getD_ne_zero_of_significant le_rfl hcount
  have heval : ∀ u, evalOver coeffs u = coeffs.getD 1 0 * u + coeffs.getD 0 0 := by
    intro u
    rw [evalOver_eq_sum (k := 1) (by decide) hcount.le]
    simp [Finset.sum_range_succ, add_comm]
  rw [solve2d, if_neg ha]
  refine @Solved.roots _ [_] (fun h => ?_) (List.nodup_singleton _) fun u => ?_
  · have := h.1
    omega
  · rw [List.mem_singleton, heval, eq_div_iff ha, eq_neg_iff_add_eq_zero, mul_comm]

/-- The quadratic polynomial. -/
theorem solved_solve3d (hcount : significant coeffs 1 coeffs.length = 3) :
    Solved coeffs (.ok (solve3d realSqrt coeffs)) := by
  have ha : coeffs.getD 2 0 ≠ 0 := getD_ne_zero_of_significant (by decide) hcount
  have hdegree : (toPolynomial coeffs).natDegree = 2 := by
    refine le_antisymm ((natDegree_le_iff 1 (by decide)).mpr hcount.le) (le_natDegree_of_ne_zero ?_)
    rwa [coeff_toPolynomial]
  have hdiscrim : NegativeDiscriminant (toPolynomial coeffs) ↔
      discrim (coeffs.getD 2 0) (coeffs.getD 1 0) (coeffs.getD 0 0) < 0 := by
    simp only [NegativeDiscriminant, hdegree, true_and, coeff_toPolynomial]
  have heval : ∀ u, evalOver coeffs u =
      coeffs.getD 2 0 * (u * u) + coeffs.getD 1 0 * u + coeffs.getD 0 0 := by
    intro u
    rw [evalOver_eq_sum (k := 2) (by decide) hcount.le]
    simp only [Finset.sum_range_succ, Finset.range_zero, Finset.sum_empty]
    ring
  have hd : coeffs.getD 1 0 * coeffs.getD 1 0 - 4 * coeffs.getD 2 0 * coeffs.getD 0 0 =
      discrim (coeffs.getD 2 0) (coeffs.getD 1 0) (coeffs.getD 0 0) := by
    rw [discrim, sq]
  simp only [solve3d, if_neg ha, hd]
  generalize coeffs.getD 2 0 = a at *
  generalize coeffs.getD 1 0 = b at *
  generalize coeffs.getD 0 0 = c at *
  by_cases hzero : discrim a b c = 0
  · rw [if_pos hzero]
    refine @Solved.roots _ [_] (fun h => ?_) (List.nodup_singleton _) fun u => ?_
    · exact (hdiscrim.mp h).ne hzero
    · rw [List.mem_singleton, heval, quadratic_eq_zero_iff_of_discrim_eq_zero ha hzero]
  rw [if_neg hzero]
  by_cases hneg : discrim a b c < 0
  · have hsquare : ∀ s, discrim a b c ≠ s ^ 2 := fun s hs =>
      absurd (sq_nonneg s) (not_le.mpr (hs ▸ hneg))
    simp only [realSqrt, if_pos hneg, Option.map_none]
    refine .noRoots (hdiscrim.mpr hneg) fun u => ?_
    rw [heval]
    exact quadratic_ne_zero_of_discrim_ne_sq hsquare u
  · have hroot : discrim a b c = √(discrim a b c) * √(discrim a b c) :=
      (Real.mul_self_sqrt (not_lt.mp hneg)).symm
    have hpos : 0 < √(discrim a b c) :=
      Real.sqrt_pos.mpr (lt_of_le_of_ne (not_lt.mp hneg) (Ne.symm hzero))
    simp only [realSqrt, if_neg hneg, Option.map_some]
    refine @Solved.roots _ [_, _] (mt hdiscrim.mp hneg) ?_ fun u => ?_
    · rw [List.nodup_cons, List.mem_singleton, div_left_inj' (mul_ne_zero two_ne_zero ha)]
      exact ⟨by linarith, List.nodup_singleton _⟩
    · rw [heval, quadratic_eq_zero_iff ha hroot, List.mem_cons, List.mem_singleton]
      exact or_comm

/-- **Solving a polynomial** of degree two at most that is not zero everywhere. -/
theorem solved_solve (hdegree : (toPolynomial coeffs).natDegree ≤ 2)
    (hne : toPolynomial coeffs ≠ 0) : Solved coeffs (solve realSqrt coeffs) := by
  have hle := (natDegree_le_iff 1 (by decide)).mp hdegree
  have hpos : min 1 coeffs.length ≤ significant coeffs 1 coeffs.length := min_le_significant ..
  rw [solve]
  match hcount : significant coeffs 1 coeffs.length, hle with
  | 0, _ =>
      obtain rfl : coeffs = [] := List.eq_nil_of_length_eq_zero (by omega)
      exact absurd rfl hne
  | 1, _ => exact solved_solve1d hcount hne
  | 2, _ => exact solved_solve2d hcount
  | 3, _ => exact solved_solve3d hcount

/-- The roots of a polynomial of degree two at most are among what is found. -/
theorem Solved.exists_roots {found : Except SbError (List (Option ℝ))} (h : Solved coeffs found) :
    ∃ roots, found = .ok roots ∧ ∀ u, some u ∈ roots ↔ evalOver coeffs u = 0 := by
  cases h with
  | @roots roots _ _ hroots =>
      refine ⟨_, rfl, fun u => ?_⟩
      rw [List.mem_map_of_injective (Option.some_injective ℝ), hroots]
  | noRoots _ hroots => exact ⟨_, rfl, fun u => by simp [hroots u]⟩

/-- **A polynomial of a higher degree** is not solved. -/
theorem solve_of_lt_natDegree (hdegree : 2 < (toPolynomial coeffs).natDegree) :
    solve realSqrt coeffs = .error .eunimplemented := by
  have hlt : ¬ significant coeffs 1 coeffs.length ≤ 3 := fun hle =>
    absurd ((natDegree_le_iff 1 (by decide)).mpr hle) (not_le.mpr hdegree)
  rw [solve]
  match hcount : significant coeffs 1 coeffs.length with
  | 0 | 1 | 2 | 3 => omega
  | n + 4 => rfl

/-- What `sb_poly_solve` is documented to do: find the distinct real roots of a polynomial of degree
two at most, and report that a higher degree is not implemented. -/
structure SolvesAsDocumented (coeffs : List ℝ) : Prop where
  finds : toPolynomial coeffs ≠ 0 → (toPolynomial coeffs).natDegree ≤ 2 →
    ∃ roots : List ℝ, solve realSqrt coeffs = .ok (roots.map some) ∧
      roots.length = (toPolynomial coeffs).roots.toFinset.card ∧
      ∀ u, u ∈ roots ↔ (toPolynomial coeffs).IsRoot u
  unimplemented : 2 < (toPolynomial coeffs).natDegree →
    solve realSqrt coeffs = .error .eunimplemented

/-- **A polynomial is solved as documented** unless it is quadratic with a negative
discriminant. -/
theorem solvesAsDocumented_iff (coeffs : List ℝ) :
    SolvesAsDocumented coeffs ↔ ¬ NegativeDiscriminant (toPolynomial coeffs) := by
  constructor
  · intro h hneg
    have hne : toPolynomial coeffs ≠ 0 := by
      intro hzero
      rw [hzero] at hneg
      exact absurd hneg.1 (by simp)
    obtain ⟨roots, hsolve, -⟩ := h.finds hne hneg.1.le
    have hsolved := solved_solve hneg.1.le hne
    rw [hsolve] at hsolved
    generalize hfound : (Except.ok (roots.map some) : Except SbError _) = found at hsolved
    cases hsolved with
    | roots hdiscrim => exact hdiscrim hneg
    | noRoots =>
        have hmem : none ∈ roots.map some := by simp [Except.ok.inj hfound]
        simp at hmem
  · intro hdiscrim
    refine ⟨fun hne hdegree => ?_, solve_of_lt_natDegree⟩
    have hsolved := solved_solve hdegree hne
    generalize solve realSqrt coeffs = found at hsolved
    cases hsolved with
    | @roots roots _ hnodup hroots =>
        have hmem : ∀ u, u ∈ roots ↔ (toPolynomial coeffs).IsRoot u := by
          intro u
          rw [hroots, IsRoot, eval_toPolynomial]
        refine ⟨roots, rfl, ?_, hmem⟩
        rw [← List.toFinset_card_of_nodup hnodup]
        congr 1
        ext u
        rw [List.mem_toFinset, Multiset.mem_toFinset, mem_roots hne, hmem]
    | noRoots hneg => exact absurd hneg hdiscrim

/-- The polynomial x² + 1 has no real root, but two are found, which are not numbers. -/
theorem solve_noRealRoot :
    solve realSqrt [1, 0, 1] = .ok [none, none] ∧ (∀ u : ℝ, evalOver [1, 0, 1] u ≠ 0) ∧
      ¬ SolvesAsDocumented [1, 0, 1] := by
  have hsolve : solve realSqrt [1, 0, 1] = .ok [none, none] := by
    norm_num [solve, significant, solve3d, realSqrt]
  refine ⟨hsolve, fun u => ?_, fun h => ?_⟩
  · have hpos : 0 < u * u + 1 := add_pos_of_nonneg_of_pos (mul_self_nonneg u) one_pos
    simpa [evalOver] using hpos.ne'
  · have hdegree : (toPolynomial [1, 0, 1]).natDegree ≤ 2 :=
      (natDegree_le_iff 1 (by decide)).mpr (by simp [significant])
    have hne : toPolynomial [1, 0, 1] ≠ 0 := by
      intro hzero
      have hcoeff := coeff_toPolynomial [1, 0, 1] 0
      rw [hzero] at hcoeff
      simp at hcoeff
    obtain ⟨roots, hroots, -⟩ := h.finds hne hdegree
    rw [hsolve] at hroots
    have hmem : none ∈ roots.map some := by simp [← Except.ok.inj hroots]
    simp at hmem

end Skybrush
