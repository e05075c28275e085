import Mathlib.Tactic.Common

/-!
# Checked Memory Access

This module defines `Checked ε α`, the outcome of a computation that reads memory it
does not own. Such a computation succeeds with a value, returns an error code of its
own choosing, or touches a cell outside the memory it was handed — and the last outcome
is kept apart from the error codes, because code that reports an error has behaved
while code that reads outside its buffer has not. A fourth outcome marks a loop whose
fuel ran out; it is a device of the model and stands for a loop still running.

## Main definitions

* `Checked`: the four outcomes, a monad.
* `Checked.read`: a read of one cell, which faults outside the memory.
* `Checked.Safe`: the computation does not fault.
* `Checked.Succeeds`: the computation has a value.

## Main results

* `Checked.bind_eq_ok`: inversion of a successful sequence.
* `Checked.safe_bind`: a sequence is safe when its head is and every continuation of a
  successful head is.
* `Checked.safe_read`: a read is safe exactly inside the memory.
-/

/-- The outcome of a computation over memory: a value, an error code, a read outside
the memory, or a loop that was not run to its end. -/
inductive Checked (ε α : Type) where
  | ok (a : α)
  | error (e : ε)
  | fault
  | outOfFuel
  deriving DecidableEq, Repr

namespace Checked

variable {ε α β γ : Type}

/-- Sequencing: only a success continues. -/
def bind (x : Checked ε α) (f : α → Checked ε β) : Checked ε β :=
  match x with
  | ok a => f a
  | error e => error e
  | fault => fault
  | outOfFuel => outOfFuel

instance : Monad (Checked ε) where
  pure := ok
  bind := bind

@[simp] theorem pure_eq (a : α) : (pure a : Checked ε α) = ok a := rfl

@[simp] theorem ok_bind (a : α) (f : α → Checked ε β) : (ok a >>= f) = f a := rfl

@[simp] theorem error_bind (e : ε) (f : α → Checked ε β) :
    ((error e : Checked ε α) >>= f) = error e := rfl

@[simp] theorem fault_bind (f : α → Checked ε β) :
    ((fault : Checked ε α) >>= f) = fault := rfl

@[simp] theorem outOfFuel_bind (f : α → Checked ε β) :
    ((outOfFuel : Checked ε α) >>= f) = outOfFuel := rfl

/-- A sequence succeeds exactly when its head does and the continuation does on it. -/
theorem bind_eq_ok {x : Checked ε α} {f : α → Checked ε β} {b : β} :
    (x >>= f) = ok b ↔ ∃ a, x = ok a ∧ f a = ok b := by
  cases x <;> simp

/-- The computation has a value. -/
def Succeeds (x : Checked ε α) : Prop := ∃ a, x = ok a

@[simp] theorem succeeds_ok (a : α) : (ok a : Checked ε α).Succeeds := ⟨a, rfl⟩

@[simp] theorem not_succeeds_error (e : ε) : ¬ (error e : Checked ε α).Succeeds := by
  simp [Succeeds]

@[simp] theorem not_succeeds_fault : ¬ (fault : Checked ε α).Succeeds := by simp [Succeeds]

@[simp] theorem not_succeeds_outOfFuel : ¬ (outOfFuel : Checked ε α).Succeeds := by
  simp [Succeeds]

/-- A result that reads no memory. -/
def lift : Except ε α → Checked ε α
  | .ok a => ok a
  | .error e => error e

/-! ### Safety -/

/-- The computation does not read outside its memory. -/
def Safe (x : Checked ε α) : Prop := x ≠ fault

instance [DecidableEq ε] [DecidableEq α] (x : Checked ε α) : Decidable x.Safe :=
  inferInstanceAs (Decidable (x ≠ fault))

@[simp] theorem safe_ok (a : α) : (ok a : Checked ε α).Safe := by simp [Safe]

@[simp] theorem safe_error (e : ε) : (error e : Checked ε α).Safe := by simp [Safe]

@[simp] theorem safe_outOfFuel : (outOfFuel : Checked ε α).Safe := by simp [Safe]

@[simp] theorem not_safe_fault : ¬ (fault : Checked ε α).Safe := by simp [Safe]

/-- A sequence is safe when its head is, and its continuation is on every success of
the head. -/
theorem safe_bind {x : Checked ε α} {f : α → Checked ε β} :
    (x >>= f).Safe ↔ x.Safe ∧ ∀ a, x = ok a → (f a).Safe := by
  cases x <;> simp

/-! ### Reading one cell -/

/-- Read the cell at index `i`; a read at or past the end faults. -/
def read (mem : List α) (i : ℕ) : Checked ε α :=
  match mem[i]? with
  | some a => ok a
  | none => fault

/-- Inside the memory a read returns the cell. -/
theorem read_of_lt {mem : List α} {i : ℕ} (h : i < mem.length) :
    (read mem i : Checked ε α) = ok mem[i] := by
  simp [read, List.getElem?_eq_getElem h]

/-- Outside the memory a read faults. -/
theorem read_of_ge {mem : List α} {i : ℕ} (h : mem.length ≤ i) :
    (read mem i : Checked ε α) = fault := by
  simp [read, List.getElem?_eq_none h]

/-- A successful read returns the cell of that index. -/
theorem read_eq_ok {mem : List α} {i : ℕ} {a : α} :
    (read mem i : Checked ε α) = ok a ↔ mem[i]? = some a := by
  cases h : mem[i]? <;> simp [read, h]

/-- A read is safe exactly inside the memory. -/
@[simp] theorem safe_read {mem : List α} {i : ℕ} :
    (read mem i : Checked ε α).Safe ↔ i < mem.length := by
  by_cases h : i < mem.length
  · simp [read_of_lt h, h]
  · simp [read_of_ge (Nat.le_of_not_lt h), h]

end Checked
