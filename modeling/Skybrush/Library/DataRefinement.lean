import Skybrush.Library.Checked

/-!
# Data Refinement

A program that works on memory may touch a cell outside of it, or may not come back; if it comes
back, with a value or an error, it leaves a state behind. `Refines` says that it does neither of
the two from the states that satisfy a precondition, and does what a program on abstract states
does: an abstraction function takes the states before and after to those of the abstract
program, and the values and errors are the same. Programs that refine others can be put together.

## Main results

* `Refines.bind`: sequencing.
* `Refines.consequence`: a stronger precondition, and weaker postconditions.
* `refines_modify`, `refines_fail`: programs that change the state or report an error.
-/

open Checked

variable {ε σ τ α β : Type}

/-- A program on memory: an error leaves a state behind, too. -/
abbrev MemoryProgram (ε σ : Type) : Type → Type := StateT σ (Checked (ε × σ))

/-- Report an error and leave the state as it is. -/
def MemoryProgram.fail (e : ε) : MemoryProgram ε σ α := fun s => error (e, s)

/-- The outcome of a program on memory represents that of an abstract program: the states are
related by the abstraction function, and what is left behind satisfies the postcondition for
values or for errors. -/
inductive Represents (abs : σ → τ) (Q : α → σ → Prop) (E : σ → Prop) :
    Checked (ε × σ) (α × σ) → EStateM.Result ε τ α → Prop
  | ok {a : α} {s : σ} (h : Q a s) : Represents abs Q E (ok (a, s)) (.ok a (abs s))
  | error {e : ε} {s : σ} (h : E s) : Represents abs Q E (error (e, s)) (.error e (abs s))

/-- From the states that satisfy a precondition, a program on memory does what an abstract program
does. -/
def Refines (abs : σ → τ) (P : σ → Prop) (x : MemoryProgram ε σ α) (y : EStateM ε τ α)
    (Q : α → σ → Prop) (E : σ → Prop) : Prop :=
  ∀ s, P s → Represents abs Q E (x.run s) (y.run (abs s))

section Rules

variable {abs : σ → τ} {P : σ → Prop} {x : MemoryProgram ε σ α} {y : EStateM ε τ α}
variable {Q : α → σ → Prop} {E : σ → Prop}

theorem refines_pure {a : α} (h : ∀ s, P s → Q a s) :
    Refines abs P (pure a : MemoryProgram ε σ α) (pure a) Q E :=
  fun s hP => .ok (h s hP)

theorem refines_fail {e : ε} (h : ∀ s, P s → E s) :
    Refines abs P (MemoryProgram.fail e : MemoryProgram ε σ α) (throw e) Q E :=
  fun s hP => .error (h s hP)

/-- **Sequencing.** -/
theorem Refines.bind {f : α → MemoryProgram ε σ β} {g : α → EStateM ε τ β} {Q' : β → σ → Prop}
    (h : Refines abs P x y Q E) (h' : ∀ a, Refines abs (Q a) (f a) (g a) Q' E) :
    Refines abs P (x >>= f) (y >>= g) Q' E := by
  intro s hP
  have hfirst := h s hP
  rw [StateT.run_bind, EStateM.run_bind]
  generalize x.run s = r at hfirst
  generalize y.run (abs s) = r' at hfirst
  cases hfirst with
  | @ok a s' hQ => exact h' a s' hQ
  | error hE => exact .error hE

/-- A stronger precondition, and weaker postconditions. -/
theorem Refines.consequence {P' : σ → Prop} {Q' : α → σ → Prop} {E' : σ → Prop}
    (h : Refines abs P x y Q E) (hP : ∀ s, P' s → P s) (hQ : ∀ a s, Q a s → Q' a s)
    (hE : ∀ s, E s → E' s) : Refines abs P' x y Q' E' := by
  intro s hs
  have hrun := h s (hP s hs)
  generalize x.run s = r at hrun ⊢
  generalize y.run (abs s) = r' at hrun ⊢
  cases hrun with
  | @ok a s' hQs => exact .ok (hQ a s' hQs)
  | @error e s' hEs => exact .error (hE s' hEs)

/-- A precondition may come with facts about values. -/
theorem refines_of_imp {p : Prop} (h : p → Refines abs P x y Q E) :
    Refines abs (fun s => P s ∧ p) x y Q E :=
  fun s hs => h hs.2 s hs.1

/-- Changing the state. -/
theorem refines_modify {f : σ → σ} {g : τ → τ} {Q : Unit → σ → Prop}
    (h : ∀ s, P s → abs (f s) = g (abs s) ∧ Q () (f s)) :
    Refines abs P (modify f : MemoryProgram ε σ Unit) (modify g) Q E := by
  intro s hP
  obtain ⟨habs, hQ⟩ := h s hP
  have hrun : (modify g : EStateM ε τ Unit).run (abs s) = .ok () (abs (f s)) := by
    rw [habs]
    rfl
  rw [hrun]
  exact .ok hQ

end Rules
