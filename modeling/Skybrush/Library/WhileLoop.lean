import Mathlib.Data.Set.Finite.Basic
import Mathlib.Logic.Function.Iterate
import Mathlib.Logic.Relation

/-!
# While Loops of a Deterministic Step

A loop `while (cond s) s = body s` over a state type `σ` is run here with fuel by
`WhileLoop.run`, and its meaning is read off the orbit `body^[n] s`: the loop stops at
the first state of the orbit that fails the condition. The module relates the two and
gives the two ways of showing that a loop stops — a state of the orbit that fails the
condition, and, for a loop that lives on finitely many control states, the absence of a
control state that is met twice.

## Main results

* `WhileLoop.run_eq_some_iff`: a run with fuel `n` returns `t` exactly when `t` is the
  first state of the orbit, within `n` steps, that fails the condition.
* `WhileLoop.run_mono`: more fuel returns the same state.
* `WhileLoop.Reaches.induction`, `WhileLoop.Reaches.invariant`: induction over the
  iterations of a loop that returns, and invariants of its body.
* `WhileLoop.Reaches.iff_of_imp`: a loop that runs further goes through the state in which
  one with a stronger condition stops.
* `WhileLoop.trace_invariant`, `WhileLoop.rel_run`: an invariant of a loop, and a relation
  between two loops, kept as long as the states on the way permit.
* `WhileLoop.map_run`: a loop that is matched step by step by another one.
* `WhileLoop.halts_iff_no_revisit`, `WhileLoop.halts_iff_no_cycle`: a loop with finitely many
  control states halts exactly when it never meets a control state twice, that is, when it does
  not get into a cycle.
-/

namespace WhileLoop

variable {σ τ : Type*}

/-- Run `while (cond s) s = body s` for at most `fuel` iterations; `none` when the
condition still holds after them. -/
def run (cond : σ → Prop) [DecidablePred cond] (body : σ → σ) : ℕ → σ → Option σ
  | 0, s => if cond s then none else some s
  | fuel + 1, s => if cond s then run cond body fuel (body s) else some s

/-- The loop started in `s` reaches a state that fails its condition. -/
def Halts (cond : σ → Prop) (body : σ → σ) (s : σ) : Prop :=
  ∃ n, ¬ cond (body^[n] s)

variable {cond : σ → Prop} [DecidablePred cond] {body : σ → σ}

/-- A loop whose condition fails at once returns its start state. -/
theorem run_of_not {s : σ} (h : ¬ cond s) (fuel : ℕ) : run cond body fuel s = some s := by
  cases fuel <;> simp [run, h]

/-- One iteration of a loop whose condition holds. -/
theorem run_succ_of {s : σ} (h : cond s) (fuel : ℕ) :
    run cond body (fuel + 1) s = run cond body fuel (body s) := by
  simp [run, h]

/-- The run returns the first state of the orbit that fails the condition. -/
theorem run_eq_some_iff {fuel : ℕ} {s t : σ} :
    run cond body fuel s = some t ↔
      ∃ n ≤ fuel, body^[n] s = t ∧ ¬ cond t ∧ ∀ i < n, cond (body^[i] s) := by
  induction fuel generalizing s with
  | zero =>
      by_cases h : cond s
      · simp only [run, h, if_true, reduceCtorEq, Nat.le_zero_eq, exists_eq_left,
          Function.iterate_zero, id_eq, Nat.not_lt_zero, IsEmpty.forall_iff, implies_true,
          and_true, false_iff, not_and, not_not]
        rintro rfl
        exact h
      · simp only [run_of_not h, Option.some.injEq, Nat.le_zero_eq, exists_eq_left,
          Function.iterate_zero, id_eq, Nat.not_lt_zero, IsEmpty.forall_iff, implies_true,
          and_true, iff_self_and]
        rintro rfl
        exact h
  | succ fuel ih =>
      by_cases h : cond s
      · rw [run_succ_of h, ih]
        constructor
        · rintro ⟨n, hn, rfl, ht, hlt⟩
          refine ⟨n + 1, by omega, rfl, ht, ?_⟩
          rintro (- | i) hi
          · exact h
          · exact hlt i (by omega)
        · rintro ⟨n, hn, rfl, ht, hlt⟩
          obtain ⟨n, rfl⟩ : ∃ m, n = m + 1 := by
            cases n with
            | zero => exact absurd h ht
            | succ n => exact ⟨n, rfl⟩
          exact ⟨n, by omega, rfl, ht, fun i hi => hlt (i + 1) (by omega)⟩
      · rw [run_of_not h, Option.some.injEq]
        constructor
        · rintro rfl
          exact ⟨0, by omega, rfl, h, by omega⟩
        · rintro ⟨n, -, rfl, -, hlt⟩
          cases n with
          | zero => rfl
          | succ n => exact absurd (hlt 0 (by omega)) h

/-- More fuel returns the same state. -/
theorem run_mono {m n : ℕ} {s t : σ} (hmn : m ≤ n) (h : run cond body m s = some t) :
    run cond body n s = some t := by
  obtain ⟨k, hk, hrest⟩ := run_eq_some_iff.mp h
  exact run_eq_some_iff.mpr ⟨k, by omega, hrest⟩

/-- The returned state does not depend on the fuel. -/
theorem run_unique {m n : ℕ} {s t u : σ} (h₁ : run cond body m s = some t)
    (h₂ : run cond body n s = some u) : t = u := by
  have e₁ := run_mono (le_max_left m n) h₁
  rw [run_mono (le_max_right m n) h₂] at e₁
  exact (Option.some.inj e₁).symm

/-! ### The state that a loop reaches -/

/-- The loop started in `s` returns `t`. -/
def Reaches (cond : σ → Prop) [DecidablePred cond] (body : σ → σ) (s t : σ) : Prop :=
  ∃ fuel, run cond body fuel s = some t

/-- A loop whose condition fails reaches its start state only. -/
theorem reaches_of_not {s t : σ} (h : ¬ cond s) : Reaches cond body s t ↔ t = s := by
  simp only [Reaches, run_of_not h, Option.some.injEq, exists_const, eq_comm]

/-- A loop whose condition holds reaches what it reaches behind its first iteration. -/
theorem reaches_of {s t : σ} (h : cond s) :
    Reaches cond body s t ↔ Reaches cond body (body s) t := by
  constructor
  · rintro ⟨fuel, hrun⟩
    cases fuel with
    | zero => simp [run, h] at hrun
    | succ fuel => exact ⟨fuel, by rwa [run_succ_of h] at hrun⟩
  · rintro ⟨fuel, hrun⟩
    exact ⟨fuel + 1, by rwa [run_succ_of h]⟩

/-- Induction over the iterations of a loop that reaches a state. -/
theorem Reaches.induction {t : σ} {P : σ → Prop} (hstop : ¬ cond t → P t)
    (hbody : ∀ s, cond s → Reaches cond body (body s) t → P (body s) → P s) {s : σ}
    (h : Reaches cond body s t) : P s := by
  obtain ⟨fuel, hrun⟩ := h
  induction fuel generalizing s with
  | zero =>
      by_cases hc : cond s
      · simp [run, hc] at hrun
      · obtain rfl := (reaches_of_not hc).mp ⟨0, hrun⟩
        exact hstop hc
  | succ fuel ih =>
      by_cases hc : cond s
      · rw [run_succ_of hc] at hrun
        exact hbody s hc ⟨fuel, hrun⟩ (ih hrun)
      · obtain rfl := (reaches_of_not hc).mp ⟨fuel + 1, hrun⟩
        exact hstop hc

/-- The reached state fails the condition. -/
theorem Reaches.not_cond {s t : σ} (h : Reaches cond body s t) : ¬ cond t := by
  obtain ⟨fuel, hrun⟩ := h
  obtain ⟨-, -, -, ht, -⟩ := run_eq_some_iff.mp hrun
  exact ht

/-- The reached state is unique. -/
theorem Reaches.unique {s t u : σ} (h₁ : Reaches cond body s t) (h₂ : Reaches cond body s u) :
    t = u := by
  obtain ⟨m, hm⟩ := h₁
  obtain ⟨n, hn⟩ := h₂
  exact run_unique hm hn

/-- A loop with a weaker condition first goes where the loop with the stronger one stops. -/
theorem Reaches.iff_of_imp {cond' : σ → Prop} [DecidablePred cond'] {s t u : σ}
    (h : Reaches cond body s t) (himp : ∀ s, cond s → cond' s) :
    Reaches cond' body s u ↔ Reaches cond' body t u := by
  refine h.induction (P := fun s => Reaches cond' body s u ↔ Reaches cond' body t u)
    (fun _ => Iff.rfl) fun s hc _ ih => ?_
  rw [reaches_of (himp s hc)]
  exact ih

/-- An invariant of the body holds of the reached state. -/
theorem Reaches.invariant {I : σ → Prop} (hI : ∀ s, I s → I (body s)) {s t : σ}
    (h : Reaches cond body s t) (hs : I s) : I t := by
  revert hs
  exact h.induction (P := fun s => I s → I t) (fun _ => id)
    (fun s _ _ ih hs => ih (hI s hs))

/-! ### The states on the way -/

/-- The states in which a run executes the body of the loop. -/
def trace (cond : σ → Prop) [DecidablePred cond] (body : σ → σ) : ℕ → σ → List σ
  | 0, _ => []
  | fuel + 1, s => if cond s then s :: trace cond body fuel (body s) else []

/-- A loop whose condition fails executes nothing. -/
theorem trace_of_not {s : σ} (h : ¬ cond s) (fuel : ℕ) : trace cond body fuel s = [] := by
  cases fuel <;> simp [trace, h]

/-- A loop whose condition holds executes its body in the state it starts from. -/
theorem trace_succ_of {s : σ} (h : cond s) (fuel : ℕ) :
    trace cond body (fuel + 1) s = s :: trace cond body fuel (body s) := by
  simp [trace, h]

/-- **Invariants under a condition.** An invariant that the body keeps in permitted states
holds all the way, as long as only permitted states are met. -/
theorem trace_invariant {I P : σ → Prop} (hI : ∀ s, I s → cond s → P s → I (body s))
    {fuel : ℕ} {s : σ} (hs : I s) (hok : ∀ t ∈ trace cond body fuel s, P t) :
    (∀ t ∈ trace cond body fuel s, I t ∧ cond t) ∧ ∀ t ∈ run cond body fuel s, I t := by
  induction fuel generalizing s with
  | zero =>
      refine ⟨by simp [trace], ?_⟩
      rintro t ht
      by_cases hc : cond s
      · simp [run, hc] at ht
      · obtain rfl : s = t := by simpa [run, hc] using ht
        exact hs
  | succ fuel ih =>
      by_cases hc : cond s
      · rw [trace_succ_of hc] at hok ⊢
        rw [run_succ_of hc]
        have hbody := hI s hs hc (hok s (List.mem_cons_self ..))
        obtain ⟨htrace, hrun⟩ := ih hbody fun t ht => hok t (List.mem_cons_of_mem _ ht)
        refine ⟨fun t ht => ?_, hrun⟩
        rcases List.mem_cons.mp ht with rfl | ht
        · exact ⟨hs, hc⟩
        · exact htrace t ht
      · rw [trace_of_not hc, run_of_not hc]
        refine ⟨by simp, fun t ht => ?_⟩
        obtain rfl : s = t := by simpa using ht
        exact hs

/-- **Two loops in lockstep.** A relation that decides the conditions alike and is kept by
the bodies in permitted states relates the results and the states on the way. -/
theorem rel_run {R : σ → τ → Prop} {P : σ → Prop} {cond' : τ → Prop} [DecidablePred cond']
    {body' : τ → τ} (hc : ∀ s t, R s t → (cond s ↔ cond' t))
    (hbody : ∀ s t, R s t → cond s → P s → R (body s) (body' t)) {fuel : ℕ} {s : σ} {t : τ}
    (hst : R s t) (hok : ∀ u ∈ trace cond body fuel s, P u) :
    List.Forall₂ R (trace cond body fuel s) (trace cond' body' fuel t) ∧
      Option.Rel R (run cond body fuel s) (run cond' body' fuel t) := by
  induction fuel generalizing s t with
  | zero =>
      by_cases h : cond s
      · simp [trace, run, h, (hc s t hst).mp h]
      · simpa [trace, run, h, mt (hc s t hst).mpr h] using hst
  | succ fuel ih =>
      by_cases h : cond s
      · have h' := (hc s t hst).mp h
        rw [trace_succ_of h] at hok ⊢
        rw [trace_succ_of h', run_succ_of h, run_succ_of h']
        obtain ⟨htrace, hrun⟩ := ih (hbody s t hst h (hok s (List.mem_cons_self ..)))
          fun u hu => hok u (List.mem_cons_of_mem _ hu)
        exact ⟨.cons hst htrace, hrun⟩
      · have h' := mt (hc s t hst).mpr h
        rw [trace_of_not h, trace_of_not h', run_of_not h, run_of_not h']
        exact ⟨.nil, .some hst⟩

/-! ### Projections -/

/-- **Projection of a loop.** A loop that keeps an invariant and is matched, step by step,
by a loop on a projected state, is matched by it as a whole. -/
theorem map_run {I : σ → Prop} {π : σ → τ} {cond' : τ → Prop} [DecidablePred cond']
    {body' : τ → τ} (hI : ∀ s, I s → I (body s)) (hπ : ∀ s, I s → π (body s) = body' (π s))
    (hc : ∀ s, I s → (cond s ↔ cond' (π s))) {s : σ} (hs : I s) (fuel : ℕ) :
    (run cond body fuel s).map π = run cond' body' fuel (π s) := by
  induction fuel generalizing s with
  | zero => by_cases h : cond s <;> simp [run, h, (hc s hs).symm]
  | succ fuel ih =>
      by_cases h : cond s
      · rw [run_succ_of h, run_succ_of ((hc s hs).mp h), ih (hI s hs), hπ s hs]
      · rw [run_of_not h, run_of_not (mt (hc s hs).mpr h), Option.map_some]

omit [DecidablePred cond] in
/-- A loop that meets a state twice before its condition fails runs forever. -/
theorem not_halts_of_revisit {s : σ} {i j : ℕ} (hij : i < j)
    (heq : body^[i] s = body^[j] s) (hc : ∀ k < j, cond (body^[k] s)) :
    ¬ Halts cond body s := by
  have key : ∀ n, ∃ k < j, body^[n] s = body^[k] s := by
    intro n
    induction n with
    | zero => exact ⟨0, by omega, rfl⟩
    | succ n ih =>
        obtain ⟨k, hk, hn⟩ := ih
        rw [Function.iterate_succ_apply', hn, ← Function.iterate_succ_apply' body]
        rcases Nat.lt_or_ge (k + 1) j with hlt | hge
        · exact ⟨k + 1, hlt, rfl⟩
        · obtain rfl : k + 1 = j := by omega
          exact ⟨i, hij, heq.symm⟩
  rintro ⟨n, hn⟩
  obtain ⟨k, hk, he⟩ := key n
  exact hn (he ▸ hc k hk)

omit [DecidablePred cond] in
/-- **Halting over finitely many states.** A loop whose orbit stays in a finite set
halts exactly when it never meets a state twice while its condition holds. -/
theorem halts_iff_no_revisit {s : σ} {S : Set σ} (hS : S.Finite)
    (horbit : ∀ n, body^[n] s ∈ S) :
    Halts cond body s ↔
      ¬ ∃ i j, i < j ∧ body^[i] s = body^[j] s ∧ ∀ k < j, cond (body^[k] s) := by
  constructor
  · rintro h ⟨i, j, hij, heq, hc⟩
    exact not_halts_of_revisit hij heq hc h
  · intro h
    by_contra hdiv
    have hcond : ∀ n, cond (body^[n] s) := by simpa [Halts] using hdiv
    -- infinitely many steps inside a finite set meet some state twice
    obtain ⟨i, -, j, -, hne, heq⟩ := Set.infinite_univ.exists_ne_map_eq_of_mapsTo
      (f := fun n => body^[n] s) (fun n _ => horbit n) hS
    rcases Nat.lt_or_gt_of_ne hne with hlt | hlt
    · exact h ⟨i, j, hlt, heq, fun k _ => hcond k⟩
    · exact h ⟨j, i, hlt, heq.symm, fun k _ => hcond k⟩

/-! ### Cycles -/

/-- An iteration of the loop leads from `s` to `t`. -/
def Iterates (cond : σ → Prop) (body : σ → σ) (s t : σ) : Prop := cond s ∧ body s = t

open Relation

omit [DecidablePred cond] in
/-- The orbit of a loop, as iterations. -/
theorem reflTransGen_iterate {s : σ} {n : ℕ} (h : ∀ k < n, cond (body^[k] s)) :
    ReflTransGen (Iterates cond body) s (body^[n] s) := by
  induction n with
  | zero => exact .refl
  | succ n ih =>
      have hlast : Iterates cond body (body^[n] s) (body^[n + 1] s) :=
        ⟨h n n.lt_succ_self, (Function.iterate_succ_apply' body n s).symm⟩
      exact (ih fun k hk => h k (hk.trans n.lt_succ_self)).tail hlast

omit [DecidablePred cond] in
/-- Iterations, as a part of the orbit. -/
theorem exists_iterate_of_transGen {s t : σ} (h : TransGen (Iterates cond body) s t) :
    ∃ n, 0 < n ∧ body^[n] s = t ∧ ∀ k < n, cond (body^[k] s) := by
  induction h with
  | single h => exact ⟨1, one_pos, h.2, fun k hk => Nat.lt_one_iff.mp hk ▸ h.1⟩
  | tail _ h ih =>
      obtain ⟨n, hn, rfl, hc⟩ := ih
      refine ⟨n + 1, n.succ_pos, (Function.iterate_succ_apply' body n s).trans h.2, fun k hk => ?_⟩
      rcases Nat.lt_succ_iff_lt_or_eq.mp hk with hlt | rfl
      · exact hc k hlt
      · exact h.1

omit [DecidablePred cond] in
/-- A loop that halts does so wherever it gets to. -/
theorem Halts.of_reflTransGen {s t : σ} (h : Halts cond body s)
    (hst : ReflTransGen (Iterates cond body) s t) : Halts cond body t := by
  induction hst with
  | refl => exact h
  | tail _ hlast ih =>
      obtain ⟨hc, rfl⟩ := hlast
      obtain ⟨n, hn⟩ := ih
      cases n with
      | zero => exact absurd hc hn
      | succ n => exact ⟨n, hn⟩

omit [DecidablePred cond] in
/-- **Halting and cycles.** A loop whose orbit stays in a finite set halts exactly when its
iterations do not lead into a cycle. -/
theorem halts_iff_no_cycle {s : σ} {S : Set σ} (hS : S.Finite) (horbit : ∀ n, body^[n] s ∈ S) :
    Halts cond body s ↔
      ¬ ∃ t, ReflTransGen (Iterates cond body) s t ∧ TransGen (Iterates cond body) t t := by
  constructor
  · rintro h ⟨t, hst, hcycle⟩
    obtain ⟨n, hn, hsame, hc⟩ := exists_iterate_of_transGen hcycle
    exact not_halts_of_revisit hn hsame.symm hc (h.of_reflTransGen hst)
  · rw [halts_iff_no_revisit hS horbit]
    rintro h ⟨i, j, hij, heq, hc⟩
    refine h ⟨body^[i] s, reflTransGen_iterate fun k hk => hc k (hk.trans hij), ?_⟩
    -- from the first visit to the second one, at least one iteration is made
    obtain ⟨n, rfl⟩ : ∃ n, j = n + 1 + i := ⟨j - i - 1, by omega⟩
    have horbit : ∀ k, body^[k] (body^[i] s) = body^[k + i] s := fun k =>
      (Function.iterate_add_apply body k i s).symm
    have hback : ReflTransGen (Iterates cond body) (body^[i] s) (body^[n] (body^[i] s)) :=
      reflTransGen_iterate fun k hk => horbit k ▸ hc (k + i) (by omega)
    refine TransGen.tail' hback ⟨horbit n ▸ hc (n + i) (by omega), ?_⟩
    rw [← Function.iterate_succ_apply' body n, horbit, heq]

end WhileLoop
