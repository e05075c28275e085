import Mathlib

/-!
# Extrema and Critical Points

A differentiable real function has its extrema on a closed interval at the ends or where its
derivative is zero. So a set of values that has the values at these points has the extrema
of the function, and no others.

## Main definitions

* `CriticalPoints.Extrema`: the least and the greatest element of a set.
* `CriticalPoints.Candidates`: values of a function among which its extrema are.

## Main results

* `CriticalPoints.Extrema.union`, `CriticalPoints.Extrema.insert`: extrema of several sets.
* `CriticalPoints.Candidates.extrema`: the extrema of the candidates are those of the function.
-/

namespace CriticalPoints

open Set

/-! ### Extrema of sets -/

section Order

variable {α : Type*} [LinearOrder α]

/-- A least and a greatest element. -/
structure Extrema (s : Set α) (lo hi : α) : Prop where
  isLeast : IsLeast s lo
  isGreatest : IsGreatest s hi

variable {s t : Set α} {lo lo' hi hi' : α}

theorem extrema_pair {a b : α} (h : a ≤ b) : Extrema {a, b} a b := by
  have hmin : IsLeast {a, b} (min a b) := isLeast_pair
  have hmax : IsGreatest {a, b} (max a b) := isGreatest_pair
  rw [min_eq_left h] at hmin
  rw [max_eq_right h] at hmax
  exact ⟨hmin, hmax⟩

theorem Extrema.union (h : Extrema s lo hi) (h' : Extrema t lo' hi') :
    Extrema (s ∪ t) (min lo lo') (max hi hi') :=
  ⟨h.isLeast.union h'.isLeast, h.isGreatest.union h'.isGreatest⟩

theorem Extrema.insert (h : Extrema s lo hi) (a : α) :
    Extrema (insert a s) (min a lo) (max a hi) :=
  ⟨h.isLeast.insert a, h.isGreatest.insert a⟩

theorem Extrema.mem_Icc (h : Extrema s lo hi) {a : α} (ha : a ∈ s) : a ∈ Icc lo hi :=
  ⟨h.isLeast.2 ha, h.isGreatest.2 ha⟩

end Order

/-! ### Extrema of functions -/

/-- Values of a function between zero and one, among them the values at both ends and at all
points where its derivative is zero. -/
structure Candidates (f f' : ℝ → ℝ) (s : Set ℝ) : Prop where
  subset : s ⊆ f '' Icc 0 1
  zero_mem : f 0 ∈ s
  one_mem : f 1 ∈ s
  critical_mem : ∀ u ∈ Icc (0 : ℝ) 1, f' u = 0 → f u ∈ s

variable {f f' : ℝ → ℝ} {s : Set ℝ} {lo hi : ℝ}

/-- **An extremum** is at an end or at a critical point. -/
theorem Candidates.mem_of_isExtrOn (h : Candidates f f' s) (hf : ∀ u, HasDerivAt f (f' u) u)
    {u : ℝ} (hu : u ∈ Icc (0 : ℝ) 1) (hextr : IsExtrOn f (Icc 0 1) u) : f u ∈ s := by
  rcases eq_or_lt_of_le hu.1 with rfl | hpos
  · exact h.zero_mem
  rcases eq_or_lt_of_le hu.2 with rfl | hlt
  · exact h.one_mem
  · have hlocal : IsLocalExtr f u := hextr.isLocalExtr (Icc_mem_nhds hpos hlt)
    exact h.critical_mem u hu (hlocal.hasDerivAt_eq_zero (hf u))

/-- **The extrema of the candidates** are the extrema of the function. -/
theorem Candidates.extrema (h : Candidates f f' s) (hf : ∀ u, HasDerivAt f (f' u) u)
    (hs : Extrema s lo hi) : Extrema (f '' Icc 0 1) lo hi := by
  have hcontinuous : ContinuousOn f (Icc 0 1) := fun u _ => (hf u).continuousAt.continuousWithinAt
  have hne : (Icc (0 : ℝ) 1).Nonempty := nonempty_Icc.mpr zero_le_one
  obtain ⟨u, hu, hmin⟩ := isCompact_Icc.exists_isMinOn hne hcontinuous
  obtain ⟨v, hv, hmax⟩ := isCompact_Icc.exists_isMaxOn hne hcontinuous
  have humem := h.mem_of_isExtrOn hf hu (.inl hmin)
  have hvmem := h.mem_of_isExtrOn hf hv (.inr hmax)
  constructor
  · refine ⟨h.subset hs.isLeast.1, ?_⟩
    rintro _ ⟨w, hw, rfl⟩
    exact (hs.isLeast.2 humem).trans (hmin hw)
  · refine ⟨h.subset hs.isGreatest.1, ?_⟩
    rintro _ ⟨w, hw, rfl⟩
    exact (show f w ≤ f v from hmax hw).trans (hs.isGreatest.2 hvmem)

end CriticalPoints
