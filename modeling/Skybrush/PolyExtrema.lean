import Skybrush.Library.CriticalPoints
import Skybrush.PolyRoots

/-!
# Extrema of Polynomials

The smallest and the largest value of a polynomial between zero and one (`poly.c`), from the
roots of its derivative. They are found for polynomials of degree three at most. For the
others nothing is done, and no error is reported.

## Main results

* `extrema_extremaOfRoots`: the interval over the roots of the derivative.
* `finds_getExtrema`: the extrema of a polynomial of degree three at most.
* `getExtrema_iff`: exactly these polynomials are treated as documented.
-/

namespace Skybrush

open CriticalPoints Polynomial

/-- An interval: `sb_interval_t`. -/
structure Interval (α : Type) where
  min : α
  max : α
  deriving DecidableEq, Repr

/-! ### Functions -/

variable {K : Type} [Field K] [LinearOrder K]

/-- Make an interval contain the value at a root, if the root is a number between zero and
one. -/
def widen (coeffs : List K) (result : Interval K) : Option K → Interval K
  | none => result
  | some y =>
      if 0 ≤ y ∧ y ≤ 1 then
        let y := evalOver coeffs y
        ⟨if y < result.min then y else result.min, if result.max < y then y else result.max⟩
      else
        result

/-- The extrema of a polynomial with at least three coefficients, from the roots of its
derivative, the last root first. -/
def extremaOfRoots (coeffs : List K) (roots : List (Option K)) : Interval K :=
  let y₀ := evalOver coeffs 0
  let y₁ := evalOver coeffs 1
  roots.reverse.foldl (widen coeffs) (if y₁ < y₀ then ⟨y₁, y₀⟩ else ⟨y₀, y₁⟩)

/-- `sb_poly_get_extrema`. An interval that cannot be found is left as it was. -/
def getExtrema (sqrt : K → Option K) (coeffs : List K) : EStateM SbError (Interval K) Unit :=
  let c₀ := coeffs.getD 0 0
  let c₁ := coeffs.getD 1 0
  match significant coeffs 2 coeffs.length with
  | 0 => set (⟨0, 0⟩ : Interval K)
  | 1 => set (⟨c₀, c₀⟩ : Interval K)
  | 2 =>
      if 0 < c₁ then
        set (⟨c₀, c₀ + c₁⟩ : Interval K)
      else
        set (⟨c₀ + c₁, c₀⟩ : Interval K)
  | n + 3 =>
      if n + 3 ≤ 4 then
        match solve sqrt (derivOver coeffs) with
        | .error e => throw e
        | .ok roots => set (extremaOfRoots coeffs roots)
      else
        pure ()

/-! ### Extrema -/

/-- The values of a polynomial at those of the given roots that are between zero and one. -/
def rootValues (coeffs : List ℝ) (roots : List (Option ℝ)) : Set ℝ :=
  {v | ∃ u, some u ∈ roots ∧ u ∈ Set.Icc 0 1 ∧ evalOver coeffs u = v}

/-- One more root. -/
theorem extrema_widen {coeffs : List ℝ} {s : Set ℝ} {i : Interval ℝ} (h : Extrema s i.min i.max)
    (root : Option ℝ) :
    Extrema (rootValues coeffs [root] ∪ s) (widen coeffs i root).min
      (widen coeffs i root).max := by
  cases root with
  | none =>
      have hempty : rootValues coeffs [none] = ∅ := by
        ext v
        simp [rootValues]
      rwa [hempty, Set.empty_union]
  | some u =>
      by_cases hu : 0 ≤ u ∧ u ≤ 1
      · have hsingle : rootValues coeffs [some u] = {evalOver coeffs u} := by
          ext v
          simp [rootValues, hu, eq_comm]
        have hinsert := h.insert (evalOver coeffs u)
        rw [max_comm, min_def_lt, max_def_lt] at hinsert
        rw [hsingle, Set.singleton_union, widen, if_pos hu]
        exact hinsert
      · have hempty : rootValues coeffs [some u] = ∅ := by
          ext v
          simp [rootValues, hu]
        rwa [hempty, Set.empty_union, widen, if_neg hu]

theorem rootValues_cons (coeffs : List ℝ) (root : Option ℝ) (roots : List (Option ℝ)) :
    rootValues coeffs (root :: roots) = rootValues coeffs [root] ∪ rootValues coeffs roots := by
  ext v
  simp only [rootValues, List.mem_cons, List.not_mem_nil, or_false, Set.mem_union,
    Set.mem_ofPred_eq, or_and_right, exists_or]

/-- **The interval over the roots** has the extrema of the values at the ends and the roots. -/
theorem extrema_extremaOfRoots (coeffs : List ℝ) (roots : List (Option ℝ)) :
    Extrema (rootValues coeffs roots ∪ {evalOver coeffs 0, evalOver coeffs 1})
      (extremaOfRoots coeffs roots).min (extremaOfRoots coeffs roots).max := by
  rw [extremaOfRoots, List.foldl_reverse]
  induction roots with
  | nil =>
      have hempty : rootValues coeffs [] = ∅ := by
        ext v
        simp [rootValues]
      rw [hempty, Set.empty_union, List.foldr_nil]
      split
      case isTrue hlt =>
        rw [Set.pair_comm]
        exact extrema_pair hlt.le
      case isFalse hle => exact extrema_pair (not_lt.mp hle)
  | cons root roots ih =>
      rw [rootValues_cons, Set.union_assoc, List.foldr_cons]
      exact extrema_widen ih root

/-- The values at the ends and at all roots of the derivative. -/
theorem candidates_rootValues {coeffs : List ℝ} {roots : List (Option ℝ)}
    (h : ∀ u, evalOver (derivOver coeffs) u = 0 → some u ∈ roots) :
    Candidates (evalOver coeffs) (evalOver (derivOver coeffs))
      (rootValues coeffs roots ∪ {evalOver coeffs 0, evalOver coeffs 1}) where
  subset := by
    rintro v (⟨u, -, hu, rfl⟩ | rfl | rfl)
    · exact ⟨u, hu, rfl⟩
    · exact ⟨0, by simp, rfl⟩
    · exact ⟨1, by simp, rfl⟩
  zero_mem := .inr (.inl rfl)
  one_mem := .inr (.inr rfl)
  critical_mem u hu hzero := .inl ⟨u, h u hzero, hu, rfl⟩

/-- The interval of a function that returns one. -/
def FindsExtrema (coeffs : List ℝ) (x : EStateM SbError (Interval ℝ) Unit) : Prop :=
  ∃ result : Interval ℝ, (∀ old, x.run old = .ok () result) ∧
    Extrema (evalOver coeffs '' Set.Icc 0 1) result.min result.max

/-- The extrema of a polynomial of degree two or three. -/
theorem finds_of_significant {coeffs : List ℝ} {n : ℕ}
    (hn : significant coeffs 2 coeffs.length = n + 3) (hle : n + 3 ≤ 4) :
    FindsExtrema coeffs (getExtrema realSqrt coeffs) := by
  have hdegree : (toPolynomial coeffs).natDegree ≤ 3 :=
    (natDegree_le_iff 2 (by decide)).mpr (hn.trans_le hle)
  have hpos : ¬ (toPolynomial coeffs).natDegree ≤ 1 := by
    rw [natDegree_le_iff 2 le_rfl]
    omega
  have hne : toPolynomial (derivOver coeffs) ≠ 0 := by
    rw [toPolynomial_derivOver]
    intro hzero
    have hconst := derivative_eq_zero.mp hzero
    omega
  have hderiv : (toPolynomial (derivOver coeffs)).natDegree ≤ 2 := by
    rw [toPolynomial_derivOver]
    exact (natDegree_derivative_le _).trans (Nat.sub_le_sub_right hdegree 1)
  obtain ⟨roots, hsolve, hroots⟩ := (solved_solve hderiv hne).exists_roots
  refine ⟨extremaOfRoots coeffs roots, fun old => ?_, ?_⟩
  · simp only [getExtrema, hn, hle, if_true, hsolve, EStateM.run_set]
  · exact (candidates_rootValues fun u => (hroots u).mpr).extrema (hasDerivAt_evalOver coeffs)
      (extrema_extremaOfRoots coeffs roots)

/-- The extrema of a line are at its ends. -/
theorem extrema_line {coeffs : List ℝ} {a b : ℝ} (heval : ∀ u, evalOver coeffs u = a + b * u) :
    Extrema (evalOver coeffs '' Set.Icc 0 1) (min a (a + b)) (max a (a + b)) := by
  have hderiv : ∀ u, HasDerivAt (evalOver coeffs) b u := by
    intro u
    rw [funext heval]
    exact (((hasDerivAt_id u).const_mul b).const_add a).congr_deriv (mul_one b)
  have hcandidates : Candidates (evalOver coeffs) (fun _ => b) {a, a + b} := by
    refine ⟨?_, by simp [heval], by simp [heval], fun u _ hb => by simp [heval, hb]⟩
    rintro v (rfl | rfl)
    · exact ⟨0, by simp, by simp [heval]⟩
    · exact ⟨1, by simp, by simp [heval]⟩
  refine hcandidates.extrema hderiv ⟨?_, ?_⟩
  · exact isLeast_pair
  · exact isGreatest_pair

/-- The extrema of a polynomial of degree one at most. -/
theorem finds_line {coeffs : List ℝ} (hn : significant coeffs 2 coeffs.length = 2) :
    FindsExtrema coeffs (getExtrema realSqrt coeffs) := by
  have heval : ∀ u, evalOver coeffs u = coeffs.getD 0 0 + coeffs.getD 1 0 * u := by
    intro u
    rw [evalOver_eq_sum (k := 1) le_rfl hn.le]
    simp [Finset.sum_range_succ]
  have hline := extrema_line heval
  simp only [FindsExtrema, getExtrema, hn]
  generalize coeffs.getD 0 0 = a at hline
  generalize coeffs.getD 1 0 = b at hline
  by_cases hpos : 0 < b
  · rw [min_eq_left (by linarith), max_eq_right (by linarith)] at hline
    exact ⟨⟨a, a + b⟩, fun old => by rw [if_pos hpos]; rfl, hline⟩
  · rw [min_eq_right (by linarith), max_eq_left (by linarith)] at hline
    exact ⟨⟨a + b, a⟩, fun old => by rw [if_neg hpos]; rfl, hline⟩

/-- **The extrema of a polynomial** of degree three at most are found. -/
theorem finds_getExtrema {coeffs : List ℝ} (hdegree : (toPolynomial coeffs).natDegree ≤ 3) :
    FindsExtrema coeffs (getExtrema realSqrt coeffs) := by
  rcases coeffs with _ | ⟨c₀, _ | ⟨c₁, cs⟩⟩
  · have hline := @extrema_line [] 0 0 (by simp [evalOver])
    rw [add_zero, min_self, max_self] at hline
    exact ⟨⟨0, 0⟩, fun old => rfl, hline⟩
  · have hline := @extrema_line [c₀] c₀ 0 (by simp [evalOver])
    rw [add_zero, min_self, max_self] at hline
    exact ⟨⟨c₀, c₀⟩, fun old => by simp [getExtrema, significant], hline⟩
  · have hle := (natDegree_le_iff 2 (by decide)).mp hdegree
    have hpos := min_le_significant (c₀ :: c₁ :: cs) 2 (cs.length + 1 + 1)
    have hcases : significant (c₀ :: c₁ :: cs) 2 (cs.length + 1 + 1) = 2 ∨
        significant (c₀ :: c₁ :: cs) 2 (cs.length + 1 + 1) = 0 + 3 ∨
        significant (c₀ :: c₁ :: cs) 2 (cs.length + 1 + 1) = 1 + 3 := by
      rw [List.length_cons, List.length_cons] at hle
      omega
    rcases hcases with hcount | hcount | hcount
    · exact finds_line hcount
    · exact finds_of_significant hcount (by omega)
    · exact finds_of_significant hcount (by omega)

/-- What `sb_poly_get_extrema` is documented to do, whatever the interval held before: store the
smallest and the largest value, or return an error, the latter only for a degree above
three. -/
def ExtremaAsDocumented (coeffs : List ℝ) : Prop :=
  ∀ old : Interval ℝ,
    (∃ result : Interval ℝ, (getExtrema realSqrt coeffs).run old = .ok () result ∧
      Extrema (evalOver coeffs '' Set.Icc 0 1) result.min result.max) ∨
    ∃ e left, (getExtrema realSqrt coeffs).run old = .error e left ∧
      3 < (toPolynomial coeffs).natDegree

/-- For a higher degree, success is reported and nothing is stored. -/
theorem getExtrema_of_lt_natDegree {coeffs : List ℝ}
    (hdegree : 3 < (toPolynomial coeffs).natDegree) (old : Interval ℝ) :
    (getExtrema realSqrt coeffs).run old = .ok () old := by
  have hlt : ¬ significant coeffs 2 coeffs.length ≤ 4 := fun hle =>
    absurd ((natDegree_le_iff 2 (by decide)).mpr hle) (not_le.mpr hdegree)
  rw [getExtrema]
  match hcount : significant coeffs 2 coeffs.length with
  | 0 | 1 | 2 | 3 | 4 => omega
  | n + 5 =>
      have hlong : ¬ n + 5 ≤ 4 := by omega
      simp only [hlong, if_false]
      rfl

/-- **The extrema are found as documented** exactly for the polynomials of degree three at
most. -/
theorem getExtrema_iff (coeffs : List ℝ) :
    ExtremaAsDocumented coeffs ↔ (toPolynomial coeffs).natDegree ≤ 3 := by
  constructor
  · intro h
    by_contra hdegree
    have hrun := getExtrema_of_lt_natDegree (not_le.mp hdegree)
    -- an interval that is the wrong way around is left as it is
    obtain ⟨result, hok, hextrema⟩ | ⟨e, left, herror, -⟩ := h ⟨1, 0⟩
    · rw [hrun] at hok
      cases hok
      exact absurd (hextrema.isLeast.2 hextrema.isGreatest.1) (by norm_num)
    · rw [hrun] at herror
      cases herror
  · intro hdegree old
    obtain ⟨result, hrun, hextrema⟩ := finds_getExtrema hdegree
    exact .inl ⟨result, hrun old, hextrema⟩

/-- The extrema of x⁴ are not found, and the interval is what it was. -/
theorem getExtrema_quartic :
    (getExtrema realSqrt [0, 0, 0, 0, 1]).run ⟨2, 2⟩ = .ok () ⟨2, 2⟩ ∧
      ¬ Extrema (evalOver [0, 0, 0, 0, 1] '' Set.Icc 0 1) (2 : ℝ) 2 ∧
      ¬ ExtremaAsDocumented [0, 0, 0, 0, 1] := by
  have hrun : (getExtrema realSqrt [0, 0, 0, 0, 1]).run ⟨2, 2⟩ = .ok () ⟨2, 2⟩ := by
    simp [getExtrema, significant]
  have hne : ¬ Extrema (evalOver [0, 0, 0, 0, 1] '' Set.Icc 0 1) (2 : ℝ) 2 := by
    intro h
    have hmem : (0 : ℝ) ∈ evalOver [0, 0, 0, 0, 1] '' Set.Icc 0 1 :=
      ⟨0, by simp, by simp [evalOver]⟩
    exact absurd (h.isLeast.2 hmem) (by norm_num)
  refine ⟨hrun, hne, fun h => ?_⟩
  obtain ⟨result, hok, hextrema⟩ | ⟨e, left, herror, -⟩ := h ⟨2, 2⟩
  · rw [hrun] at hok
    cases hok
    exact hne hextrema
  · rw [hrun] at herror
    cases herror

end Skybrush
