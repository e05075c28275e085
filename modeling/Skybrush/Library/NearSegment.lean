import Mathlib.Analysis.Convex.Radon
import Mathlib.Tactic.FieldSimp
import Mathlib.Tactic.Linarith
import Mathlib.Tactic.Ring

/-!
# Points near a Segment

A segment begins at the origin and ends at a point `u`, and each coordinate has a tolerance of
its own. A point `v` is near the segment if, at some fraction of the way, it is near in all
coordinates at once. There is such a fraction as soon as there is one for every single
coordinate and one for every two of them: fractions that suit one coordinate are an interval,
and intervals that meet in pairs have a point in common. For two coordinates, `v` and `u` have to
point in about the same direction.

## Main results

* `NearSegment.exists_common`: intervals that meet in pairs, by Helly's theorem.
* `NearSegment.exists_fraction_iff`: when a point is near a segment.
-/

namespace NearSegment

variable {K ι : Type*} [Field K] [LinearOrder K]

/-- The fractions of the way at which a coordinate is near. -/
def fractions (step u v : K) : Set K := {f | |v - f * u| ≤ step}

/-- A coordinate is within its tolerance of the range of the segment. -/
def InRange (step u v : K) : Prop := min 0 u - step ≤ v ∧ v ≤ max 0 u + step

/-- In two coordinates, a point and the end of the segment are in about the same direction. -/
def Aligned (step u v step' u' v' : K) : Prop := |v * u' - v' * u| ≤ step * |u'| + step' * |u|

theorem mem_fractions {step u v f : K} : f ∈ fractions step u v ↔ |v - f * u| ≤ step := Iff.rfl

variable [IsStrictOrderedRing K]

/-- Convex sets of numbers, any two of which meet, have a number in common. -/
theorem exists_common [Fintype ι] {F : ι → Set K} (hconvex : ∀ i, Convex K (F i))
    (hpairs : ∀ i j, (F i ∩ F j).Nonempty) : ∃ x, ∀ i, x ∈ F i := by
  classical
  have hcommon : (⋂ i ∈ Finset.univ, F i).Nonempty := by
    refine Convex.helly_theorem' (fun i _ => hconvex i) fun I _ hcard => ?_
    rw [Module.finrank_self] at hcard
    rcases I.eq_empty_or_nonempty with rfl | ⟨i, hi⟩
    · simp
    -- at most one more set is left
    have hrest : (I.erase i).card ≤ 1 := by
      rw [Finset.card_erase_of_mem hi]
      omega
    have : Nonempty ι := ⟨i⟩
    obtain ⟨j, hj⟩ := Finset.card_le_one_iff_subset_singleton.mp hrest
    obtain ⟨x, hxi, hxj⟩ := hpairs i j
    refine ⟨x, Set.mem_iInter₂.mpr fun k hk => ?_⟩
    by_cases hki : k = i
    · exact hki ▸ hxi
    · exact Finset.mem_singleton.mp (hj (Finset.mem_erase.mpr ⟨hki, hk⟩)) ▸ hxj
  obtain ⟨x, hx⟩ := hcommon
  exact ⟨x, fun i => Set.mem_iInter₂.mp hx i (Finset.mem_univ i)⟩

/-! ### One coordinate -/

theorem convex_fractions (step u v : K) : Convex K (fractions step u v) := by
  intro x hx y hy a b ha hb hab
  have hsplit : v - (a • x + b • y) * u = a * (v - x * u) + b * (v - y * u) := by
    rw [smul_eq_mul, smul_eq_mul]
    linear_combination (-v) * hab
  calc |v - (a • x + b • y) * u|
      ≤ |a * (v - x * u)| + |b * (v - y * u)| := hsplit ▸ abs_add_le _ _
    _ = a * |v - x * u| + b * |v - y * u| := by
        rw [abs_mul, abs_mul, abs_of_nonneg ha, abs_of_nonneg hb]
    _ ≤ a * step + b * step :=
        add_le_add (mul_le_mul_of_nonneg_left hx ha) (mul_le_mul_of_nonneg_left hy hb)
    _ = step := by rw [← add_mul, hab, one_mul]

/-- The range is that of the coordinate at some fraction of the way. -/
theorem inRange_iff {step u v : K} (hstep : 0 ≤ step) :
    (Set.Icc 0 1 ∩ fractions step u v).Nonempty ↔ InRange step u v := by
  constructor
  · rintro ⟨f, ⟨h₀, h₁⟩, hf⟩
    obtain ⟨hlow, hhigh⟩ := abs_le.mp (mem_fractions.mp hf)
    have hbetween : min 0 u ≤ f * u ∧ f * u ≤ max 0 u := by
      rcases le_total 0 u with hu | hu
      · rw [min_eq_left hu, max_eq_right hu]
        exact ⟨mul_nonneg h₀ hu, mul_le_of_le_one_left hu h₁⟩
      · rw [min_eq_right hu, max_eq_left hu]
        exact ⟨by nlinarith, mul_nonpos_of_nonneg_of_nonpos h₀ hu⟩
    constructor <;> linarith [hbetween.1, hbetween.2]
  · rintro ⟨hlow, hhigh⟩
    -- the nearest point of the segment is at an end, or it is met
    have hclamp : ∃ f, 0 ≤ f ∧ f ≤ 1 ∧ f * u = max (min 0 u) (min v (max 0 u)) := by
      by_cases hu : u = 0
      · exact ⟨0, le_rfl, zero_le_one, by simp [hu]⟩
      refine ⟨max (min 0 u) (min v (max 0 u)) / u, ?_, ?_, div_mul_cancel₀ _ hu⟩
      · rcases le_total 0 u with hpos | hneg
        · exact div_nonneg ((min_eq_left hpos).ge.trans (le_max_left _ _)) hpos
        · refine div_nonneg_of_nonpos (max_le (min_le_left _ _) ?_) hneg
          exact (min_le_right _ _).trans (max_eq_left hneg).le
      · rcases lt_or_gt_of_ne hu with hneg | hpos
        · rw [div_le_one_of_neg hneg]
          exact (min_eq_right hneg.le).ge.trans (le_max_left _ _)
        · rw [div_le_one hpos]
          refine max_le (min_le_right _ _) ((min_le_right _ _).trans (max_eq_right hpos.le).le)
    obtain ⟨f, h₀, h₁, hf⟩ := hclamp
    refine ⟨f, ⟨h₀, h₁⟩, ?_⟩
    rw [mem_fractions, hf, abs_le]
    rcases le_total v (max 0 u) with hv | hv
    · rw [min_eq_left hv]
      rcases le_total (min 0 u) v with hv' | hv'
      · rw [max_eq_right hv']
        constructor <;> linarith
      · rw [max_eq_left hv']
        constructor <;> linarith
    · have hle : min 0 u ≤ max 0 u := (min_le_left _ _).trans (le_max_left _ _)
      rw [min_eq_right hv, max_eq_right hle]
      constructor <;> linarith

/-! ### Two coordinates -/

/-- A fraction that suits two coordinates aligns them. -/
theorem aligned_of_mem {step u v step' u' v' f : K} (h : f ∈ fractions step u v)
    (h' : f ∈ fractions step' u' v') : Aligned step u v step' u' v' := by
  have hsplit : v * u' - v' * u = (v - f * u) * u' - (v' - f * u') * u := by ring
  calc |v * u' - v' * u|
      ≤ |(v - f * u) * u'| + |(v' - f * u') * u| := hsplit ▸ abs_sub _ _
    _ = |v - f * u| * |u'| + |v' - f * u'| * |u| := by rw [abs_mul, abs_mul]
    _ ≤ step * |u'| + step' * |u| :=
        add_le_add (mul_le_mul_of_nonneg_right h (abs_nonneg _))
          (mul_le_mul_of_nonneg_right h' (abs_nonneg _))

/-- **Two coordinates that are aligned** are near at one fraction: the mean of those at which
each of them is met, weighted with the tolerance of the other one. -/
theorem exists_of_aligned {step u v step' u' v' : K} (hstep : 0 < step) (hstep' : 0 < step')
    (hu : u ≠ 0) (hu' : u' ≠ 0) (h : Aligned step u v step' u' v') :
    (fractions step u v ∩ fractions step' u' v').Nonempty := by
  have hsum : 0 < step * |u'| + step' * |u| :=
    add_pos (mul_pos hstep (abs_pos.mpr hu')) (mul_pos hstep' (abs_pos.mpr hu))
  have hratio : |(v * u' - v' * u) / (step * |u'| + step' * |u|)| ≤ 1 := by
    rw [abs_div, abs_of_pos hsum, div_le_one hsum]
    exact h
  refine ⟨(v / u * (step' * |u|) + v' / u' * (step * |u'|)) / (step * |u'| + step' * |u|), ?_, ?_⟩
  · have hmiss : v - (v / u * (step' * |u|) + v' / u' * (step * |u'|)) /
        (step * |u'| + step' * |u|) * u =
          step * (|u'| / u') * ((v * u' - v' * u) / (step * |u'| + step' * |u|)) := by
      field_simp
      ring
    rw [mem_fractions, hmiss, abs_mul, abs_mul, abs_div, abs_abs,
      div_self (abs_ne_zero.mpr hu'), mul_one, abs_of_pos hstep]
    exact mul_le_of_le_one_right hstep.le hratio
  · have hmiss : v' - (v / u * (step' * |u|) + v' / u' * (step * |u'|)) /
        (step * |u'| + step' * |u|) * u' =
          -(step' * (|u| / u) * ((v * u' - v' * u) / (step * |u'| + step' * |u|))) := by
      field_simp
      ring
    rw [mem_fractions, hmiss, abs_neg, abs_mul, abs_mul, abs_div, abs_abs,
      div_self (abs_ne_zero.mpr hu), mul_one, abs_of_pos hstep']
    exact mul_le_of_le_one_right hstep'.le hratio

/-! ### All coordinates -/

/-- A coordinate in which the segment does not move is near everywhere or nowhere. -/
theorem fractions_of_zero {step v : K} (h : InRange step 0 v) : fractions step 0 v = Set.univ := by
  obtain ⟨hlow, hhigh⟩ := h
  rw [min_self] at hlow
  rw [max_self] at hhigh
  refine Set.eq_univ_of_forall fun f => ?_
  rw [mem_fractions, abs_le]
  constructor <;> linarith

/-- **When a point is near a segment**: every coordinate is in the range of the segment, and every
two of them are aligned. -/
theorem exists_fraction_iff [Fintype ι] {step u v : ι → K} (hstep : ∀ i, 0 < step i) :
    (∃ f, 0 ≤ f ∧ f ≤ 1 ∧ ∀ i, |v i - f * u i| ≤ step i) ↔
      (∀ i, InRange (step i) (u i) (v i)) ∧
        ∀ i j, Aligned (step i) (u i) (v i) (step j) (u j) (v j) := by
  constructor
  · rintro ⟨f, h₀, h₁, hf⟩
    exact ⟨fun i => (inRange_iff (hstep i).le).mp ⟨f, ⟨h₀, h₁⟩, hf i⟩,
      fun i j => aligned_of_mem (hf i) (hf j)⟩
  · rintro ⟨hrange, haligned⟩
    have hinside := fun i => (inRange_iff (hstep i).le).mpr (hrange i)
    -- the fractions of the way are one more interval
    let F : Option ι → Set K := fun i =>
      i.elim (Set.Icc 0 1) fun i => fractions (step i) (u i) (v i)
    have hconvex : ∀ i, Convex K (F i) := by
      rintro (_ | i)
      · exact convex_Icc 0 1
      · exact convex_fractions _ _ _
    have hpairs : ∀ i j, (F i ∩ F j).Nonempty := by
      rintro (_ | i) (_ | j)
      · exact ⟨0, ⟨le_rfl, zero_le_one⟩, le_rfl, zero_le_one⟩
      · exact hinside j
      · exact Set.inter_comm _ _ ▸ hinside i
      · obtain ⟨fi, -, hfi⟩ := hinside i
        obtain ⟨fj, -, hfj⟩ := hinside j
        change (fractions (step i) (u i) (v i) ∩ fractions (step j) (u j) (v j)).Nonempty
        by_cases hui : u i = 0
        · have hall : fractions (step i) (u i) (v i) = Set.univ := by
            rw [hui]
            exact fractions_of_zero (hui ▸ hrange i)
          exact ⟨fj, hall ▸ Set.mem_univ fj, hfj⟩
        by_cases huj : u j = 0
        · have hall : fractions (step j) (u j) (v j) = Set.univ := by
            rw [huj]
            exact fractions_of_zero (huj ▸ hrange j)
          exact ⟨fi, hfi, hall ▸ Set.mem_univ fi⟩
        exact exists_of_aligned (hstep i) (hstep j) hui huj (haligned i j)
    obtain ⟨f, hf⟩ := exists_common hconvex hpairs
    obtain ⟨h₀, h₁⟩ := hf none
    exact ⟨f, h₀, h₁, fun i => hf (some i)⟩

end NearSegment
