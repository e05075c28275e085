import Mathlib.Tactic.Common

/-!
# Lockstep

Two programs over a state run in lockstep when they succeed or fail together, with the same
value or the same error. `Lockstep R x y Q E` says so for states related by `R`, and that the
states are related by `Q` afterwards, or by `E` if both programs have failed. Programs in
lockstep can be put together.

Two machines that answer operations are compared by what can be observed of them: machines
that answer every operation alike, in states related by an invariant, cannot be told apart
(`observe_eq`). Where the answers agree only under a condition on the operation and the state,
they agree on exactly the sequences that meet it all along.

## Main results

* `Lockstep.bind`: sequencing.
* `observe_eq`: machines in lockstep are observed to be the same.
* `observe_eq_of_along`, `along_of_observe_eq`: and under a condition.
-/

variable {ε σ τ α β ι ω : Type}

/-- Two outcomes with the same value or the same error, and related states. -/
inductive SameOutcome (Q : α → σ → τ → Prop) (E : σ → τ → Prop) :
    EStateM.Result ε σ α → EStateM.Result ε τ α → Prop
  | ok {a : α} {s : σ} {t : τ} (h : Q a s t) : SameOutcome Q E (.ok a s) (.ok a t)
  | error {e : ε} {s : σ} {t : τ} (h : E s t) : SameOutcome Q E (.error e s) (.error e t)

/-- From related states, two programs have the same outcome. -/
def Lockstep (R : σ → τ → Prop) (x : EStateM ε σ α) (y : EStateM ε τ α) (Q : α → σ → τ → Prop)
    (E : σ → τ → Prop) : Prop :=
  ∀ s t, R s t → SameOutcome Q E (x.run s) (y.run t)

section Rules

variable {R : σ → τ → Prop} {x : EStateM ε σ α} {y : EStateM ε τ α}
variable {Q : α → σ → τ → Prop} {E : σ → τ → Prop}

theorem lockstep_pure {a : α} (h : ∀ s t, R s t → Q a s t) :
    Lockstep R (pure a : EStateM ε σ α) (pure a) Q E :=
  fun s t hR => .ok (h s t hR)

/-- **Sequencing.** -/
theorem Lockstep.bind {f : α → EStateM ε σ β} {g : α → EStateM ε τ β} {Q' : β → σ → τ → Prop}
    (h : Lockstep R x y Q E) (h' : ∀ a, Lockstep (Q a) (f a) (g a) Q' E) :
    Lockstep R (x >>= f) (y >>= g) Q' E := by
  intro s t hR
  have hfirst := h s t hR
  rw [EStateM.run_bind, EStateM.run_bind]
  generalize x.run s = r at hfirst
  generalize y.run t = r' at hfirst
  cases hfirst with
  | @ok a s' t' hQ => exact h' a s' t' hQ
  | error hE => exact .error hE

end Rules

/-! ### Observing a machine -/

/-- What can be observed of a machine that is asked to do some operations. -/
def observe (step : σ → ι → ω × σ) : σ → List ι → List ω
  | _, [] => []
  | s, i :: is => (step s i).1 :: observe step (step s i).2 is

/-- **Machines in lockstep** are observed to be the same: by induction on the operations. -/
theorem observe_eq {step : σ → ι → ω × σ} {step' : τ → ι → ω × τ} {R : σ → τ → Prop}
    (hstep : ∀ s t i, R s t → (step s i).1 = (step' t i).1 ∧ R (step s i).2 (step' t i).2)
    {s : σ} {t : τ} (h : R s t) (is : List ι) : observe step s is = observe step' t is := by
  induction is generalizing s t with
  | nil => rfl
  | cons i is ih =>
      obtain ⟨hobs, hnext⟩ := hstep s t i h
      rw [observe, observe, hobs, ih hnext]

/-- A machine meets a condition at every operation, in the state in which it is asked. -/
def Along (step : σ → ι → ω × σ) (ok : σ → ι → Prop) : σ → List ι → Prop
  | _, [] => True
  | s, i :: is => ok s i ∧ Along step ok (step s i).2 is

/-- Where the condition can be decided, it can be decided for all operations. -/
instance decidableAlong {step : σ → ι → ω × σ} {ok : σ → ι → Prop} [∀ s i, Decidable (ok s i)] :
    (s : σ) → (is : List ι) → Decidable (Along step ok s is)
  | _, [] => isTrue trivial
  | s, i :: is => @instDecidableAnd _ _ inferInstance (decidableAlong (step s i).2 is)

section Conditions

variable {step : σ → ι → ω × σ} {step' : τ → ι → ω × τ} {R : σ → τ → Prop} {ok : τ → ι → Prop}
  (hstep : ∀ s t i, R s t → ok t i →
    (step s i).1 = (step' t i).1 ∧ R (step s i).2 (step' t i).2)

include hstep

/-- **Under the condition**, the machines are observed to be the same. -/
theorem observe_eq_of_along {s : σ} {t : τ} (h : R s t) {is : List ι}
    (hok : Along step' ok t is) : observe step s is = observe step' t is := by
  induction is generalizing s t with
  | nil => rfl
  | cons i is ih =>
      obtain ⟨hfirst, hrest⟩ := hok
      obtain ⟨hobs, hnext⟩ := hstep s t i h hfirst
      rw [observe, observe, hobs, ih hnext hrest]

/-- Machines that are observed to be the same meet the condition, if it is met by every
operation that they answer alike. -/
theorem along_of_observe_eq (hcond : ∀ s t i, R s t → (step s i).1 = (step' t i).1 → ok t i)
    {s : σ} {t : τ} (h : R s t) {is : List ι} (hobs : observe step s is = observe step' t is) :
    Along step' ok t is := by
  induction is generalizing s t with
  | nil => trivial
  | cons i is ih =>
      obtain ⟨hfirst, hrest⟩ := List.cons.inj hobs
      have hok := hcond s t i h hfirst
      exact ⟨hok, ih (hstep s t i h hok).2 hrest⟩

end Conditions
