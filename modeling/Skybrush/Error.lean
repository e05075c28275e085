import Mathlib.Tactic.Common

/-!
# Error Codes

The error codes of the library, and the two ways in which its functions report them. A
function that only computes returns an `Except SbError`; a function that works on an
object in place is an action of `EStateM SbError` on that object, so that what it has done
to the object before it fails is part of the model. In both, sequencing is the macro
`SB_CHECK`.
-/

namespace Skybrush

/-- The error codes: `sb_error_t`, without the code for success. -/
inductive SbError where
  | enomem
  | einval
  | eopen
  | eclose
  | eread
  | ewrite
  | ereadwrite
  | eparse
  | timeout
  | elocked
  | failure
  | eunsupported
  | eunimplemented
  | eperm
  | efull
  | eempty
  | eagain
  | enoent
  | ecorrupted
  | eoverflow
  deriving DecidableEq, Repr

/-- A computation succeeds exactly when its head does and the rest does on its result. -/
theorem except_bind_eq_ok {ε α β : Type} {x : Except ε α} {f : α → Except ε β} {b : β} :
    (x >>= f) = .ok b ↔ ∃ a, x = .ok a ∧ f a = .ok b := by
  cases x with
  | error e =>
      constructor
      · intro h
        cases h
      · rintro ⟨a, h, -⟩
        cases h
  | ok a =>
      constructor
      · intro h
        exact ⟨a, rfl, h⟩
      · rintro ⟨a', h, hrest⟩
        cases h
        exact hrest

/-- A computation fails exactly when its head does or the rest does on its result. -/
theorem except_bind_eq_error {ε α β : Type} {x : Except ε α} {f : α → Except ε β} {e : ε} :
    (x >>= f) = .error e ↔ x = .error e ∨ ∃ a, x = .ok a ∧ f a = .error e := by
  cases x with
  | error e' =>
      constructor
      · intro h
        cases h
        exact .inl rfl
      · rintro (h | ⟨a, h, -⟩)
        · cases h
          rfl
        · cases h
  | ok a =>
      constructor
      · intro h
        exact .inr ⟨a, rfl, h⟩
      · rintro (h | ⟨a', h, hrest⟩)
        · cases h
        · cases h
          exact hrest

/-- Work on a part of an object. -/
def onPart {σ τ α : Type} (get : σ → τ) (set : τ → σ → σ) (x : EStateM SbError τ α) :
    EStateM SbError σ α := fun s =>
  match x.run (get s) with
  | .ok a t => .ok a (set t s)
  | .error e t => .error e (set t s)

end Skybrush
