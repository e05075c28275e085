import Skybrush.Library.Checked

/-!
# Parsers over a Cursor

A `Parser ε β α` reads a value of type `α` from a memory of cells of type `β`, from a
cursor on, and moves the cursor behind what it has read. It may return an error, and it
faults when it reads outside the memory.

Two facts about a parser compose along its sequencing. `Parser.Reads` says which value
is read from which cells, wherever they stand. `Parser.Needs` says that a parser succeeds
with a fixed number of cells, and faults when there are fewer.

## Main results

* `Parser.Reads.bind`, `Parser.Needs.bind`: the two rules for sequencing.
* `Parser.Needs.many`, `Parser.Reads.many`: and for repetition.
* `Parser.Extends.bind`: parsers that read the same from a longer memory compose as well.
* `Parser.Ensures.bind`: what is known of all values that a parser reads.
-/

/-- A parser: from the memory and the cursor, the value and the cursor behind it. -/
def Parser (ε β α : Type) : Type := List β → ℕ → Checked ε (α × ℕ)

namespace Parser

open Checked

variable {ε β α γ : Type}

instance : Monad (Parser ε β) where
  pure a := fun _ cursor => ok (a, cursor)
  bind p f := fun mem cursor => p mem cursor >>= fun r => f r.1 mem r.2

@[simp] theorem bind_apply (p : Parser ε β α) (f : α → Parser ε β γ) (mem : List β)
    (cursor : ℕ) : (p >>= f) mem cursor = p mem cursor >>= fun r => f r.1 mem r.2 := rfl

/-- Read one cell. -/
def cell : Parser ε β β := fun mem cursor => read mem cursor >>= fun b => ok (b, cursor + 1)

/-- Fail with an error. -/
def throw (e : ε) : Parser ε β α := fun _ _ => error e

/-- Fail if the result of a parser is an error. -/
def check (p : Parser ε β (Except ε α)) : Parser ε β α := fun mem cursor =>
  p mem cursor >>= fun r =>
    match r.1 with
    | .ok a => ok (a, r.2)
    | .error e => error e

/-- Use a parser or, if the condition is not met, a default. -/
def optional (condition : Prop) [Decidable condition] (p : Parser ε β α) (default : α) :
    Parser ε β α := if condition then p else pure default

/-- Repeat a parser. -/
def many (p : Parser ε β α) : ℕ → Parser ε β (List α)
  | 0 => pure []
  | n + 1 => do
      let a ← p
      let as ← many p n
      pure (a :: as)

/-! ### What is read -/

/-- Wherever these cells stand, the parser reads the value from them. -/
def Reads (p : Parser ε β α) (cells : List β) (a : α) : Prop :=
  ∀ before after : List β,
    p (before ++ (cells ++ after)) before.length = ok (a, before.length + cells.length)

theorem reads_pure (a : α) : Reads (pure a : Parser ε β α) [] a := fun _ _ => rfl

theorem reads_cell (b : β) : Reads (cell : Parser ε β β) [b] b := by
  intro before after
  have hget : (before ++ ([b] ++ after))[before.length]? = some b := by simp
  rw [cell, read_eq_ok.mpr hget]
  rfl

/-- **Sequencing**: what is read first stands first. -/
theorem Reads.bind {p : Parser ε β α} {f : α → Parser ε β γ} {cells cells' : List β} {a : α}
    {c : γ} (h : Reads p cells a) (h' : Reads (f a) cells' c) :
    Reads (p >>= f) (cells ++ cells') c := by
  intro before after
  have hrest := h' (before ++ cells) after
  rw [List.append_assoc, List.length_append] at hrest
  rw [bind_apply, List.append_assoc, h before (cells' ++ after), ok_bind, hrest,
    List.length_append, Nat.add_assoc]

theorem Reads.bind_pure {p : Parser ε β α} {f : α → γ} {cells : List β} {a : α}
    (h : Reads p cells a) : Reads (p >>= fun a => pure (f a)) cells (f a) := by
  intro before after
  rw [bind_apply, h before after]
  rfl

/-- Nothing more is read behind what was read first. -/
theorem Reads.bind_nil {p : Parser ε β α} {f : α → Parser ε β γ} {cells : List β} {a : α} {c : γ}
    (h : Reads p cells a) (h' : Reads (f a) [] c) : Reads (p >>= f) cells c := by
  have hbind := h.bind h'
  rwa [List.append_nil] at hbind

theorem Reads.optional {condition : Prop} [Decidable condition] {p : Parser ε β α}
    {cells : List β} {a default : α} (h : condition → Reads p cells a) :
    Reads (optional condition p default) (if condition then cells else [])
      (if condition then a else default) := by
  rw [Parser.optional]
  split
  case isTrue hcondition => exact h hcondition
  case isFalse => exact reads_pure default

/-- **Repetition.** -/
theorem Reads.many {p : Parser ε β α} {encode : γ → List β} {value : γ → α}
    (h : ∀ c, Reads p (encode c) (value c)) (cs : List γ) :
    Reads (many p cs.length) (cs.flatMap encode) (cs.map value) := by
  induction cs with
  | nil => exact reads_pure []
  | cons c cs ih =>
      rw [List.flatMap_cons]
      exact (h c).bind ih.bind_pure

/-! ### How much is read -/

/-- From inside the memory, the parser succeeds with `k` cells and faults with fewer. -/
def Needs (p : Parser ε β α) (k : ℕ) : Prop :=
  ∀ (mem : List β) (cursor : ℕ), cursor ≤ mem.length →
    (cursor + k ≤ mem.length → ∃ a, p mem cursor = ok (a, cursor + k)) ∧
      (mem.length < cursor + k → p mem cursor = fault)

theorem needs_pure (a : α) : Needs (pure a : Parser ε β α) 0 :=
  fun _ _ _ => ⟨fun _ => ⟨a, rfl⟩, fun h => absurd h (by omega)⟩

theorem needs_cell : Needs (cell : Parser ε β β) 1 := by
  intro mem cursor _
  refine ⟨fun h => ⟨mem[cursor], ?_⟩, fun h => ?_⟩
  · rw [cell, read_of_lt h]
    rfl
  · rw [cell, read_of_ge (by omega)]
    rfl

/-- **Sequencing** adds up, when the second part needs the same whatever was read. -/
theorem Needs.bind {p : Parser ε β α} {f : α → Parser ε β γ} {k k' : ℕ} (h : Needs p k)
    (h' : ∀ a, Needs (f a) k') : Needs (p >>= f) (k + k') := by
  intro mem cursor hcursor
  obtain ⟨hok, hfault⟩ := h mem cursor hcursor
  by_cases hk : cursor + k ≤ mem.length
  · obtain ⟨a, ha⟩ := hok hk
    obtain ⟨hok', hfault'⟩ := h' a mem (cursor + k) hk
    rw [bind_apply, ha, ok_bind, ← Nat.add_assoc]
    exact ⟨hok', hfault'⟩
  · rw [bind_apply, hfault (by omega)]
    exact ⟨fun hle => absurd hle (by omega), fun _ => rfl⟩

theorem Needs.bind_pure {p : Parser ε β α} {f : α → γ} {k : ℕ} (h : Needs p k) :
    Needs (p >>= fun a => pure (f a)) k :=
  h.bind fun a => needs_pure (f a)

/-- **Repetition.** -/
theorem Needs.many {p : Parser ε β α} {k : ℕ} (h : Needs p k) (n : ℕ) :
    Needs (many p n) (n * k) := by
  induction n with
  | zero =>
      rw [Nat.zero_mul]
      exact needs_pure []
  | succ n ih =>
      have hsum : (n + 1) * k = k + n * k := by
        rw [Nat.succ_mul, Nat.add_comm]
      rw [hsum]
      exact h.bind fun a => ih.bind_pure

/-! ### More memory -/

/-- What the parser reads does not change when memory is added at the end. -/
def Extends (p : Parser ε β α) : Prop :=
  ∀ (mem more : List β) (cursor : ℕ) (r : α × ℕ),
    p mem cursor = ok r → p (mem ++ more) cursor = ok r

theorem extends_pure (a : α) : Extends (pure a : Parser ε β α) := fun _ _ _ _ h => h

theorem extends_cell : Extends (cell : Parser ε β β) := by
  intro mem more cursor r h
  obtain ⟨b, hb, hrest⟩ := bind_eq_ok.mp h
  have hget := read_eq_ok.mp hb
  have hmore : (mem ++ more)[cursor]? = some b := by
    rw [List.getElem?_append_left (List.getElem?_eq_some_iff.mp hget).1, hget]
  rw [cell, read_eq_ok.mpr hmore]
  exact hrest

/-- **Sequencing.** -/
theorem Extends.bind {p : Parser ε β α} {f : α → Parser ε β γ} (h : Extends p)
    (h' : ∀ a, Extends (f a)) : Extends (p >>= f) := by
  intro mem more cursor r hok
  obtain ⟨⟨a, cursor'⟩, hfirst, hrest⟩ := bind_eq_ok.mp hok
  rw [bind_apply, h mem more cursor _ hfirst]
  exact h' a mem more cursor' r hrest

theorem Extends.bind_pure {p : Parser ε β α} {f : α → γ} (h : Extends p) :
    Extends (p >>= fun a => pure (f a)) := h.bind fun a => extends_pure (f a)

/-- **Repetition.** -/
theorem Extends.many {p : Parser ε β α} (h : Extends p) (n : ℕ) : Extends (many p n) := by
  induction n with
  | zero => exact extends_pure []
  | succ n ih => exact h.bind fun _ => ih.bind_pure

/-! ### What can be read -/

/-- Whatever the parser reads has a property. -/
def Ensures (p : Parser ε β α) (P : α → Prop) : Prop :=
  ∀ (mem : List β) (cursor : ℕ) (a : α) (cursor' : ℕ), p mem cursor = ok (a, cursor') → P a

theorem ensures_pure {P : α → Prop} {a : α} (h : P a) : Ensures (pure a : Parser ε β α) P := by
  intro mem cursor a' cursor' hok
  cases hok
  exact h

theorem ensures_throw (e : ε) (P : α → Prop) : Ensures (throw e : Parser ε β α) P :=
  fun _ _ _ _ hok => by cases hok

/-- Nothing need be known of a value. -/
theorem ensures_true (p : Parser ε β α) : Ensures p fun _ => True := fun _ _ _ _ _ => trivial

/-- **Sequencing.** -/
theorem Ensures.bind {p : Parser ε β α} {f : α → Parser ε β γ} {P : α → Prop} {Q : γ → Prop}
    (h : Ensures p P) (h' : ∀ a, P a → Ensures (f a) Q) : Ensures (p >>= f) Q := by
  intro mem cursor c cursor' hok
  obtain ⟨⟨a, cursor''⟩, hfirst, hrest⟩ := bind_eq_ok.mp hok
  exact h' a (h mem cursor a cursor'' hfirst) mem cursor'' c cursor' hrest

theorem Ensures.optional {condition : Prop} [Decidable condition] {p : Parser ε β α}
    {P : α → Prop} {default : α} (h : condition → Ensures p P)
    (hdefault : ¬ condition → P default) : Ensures (optional condition p default) P := by
  rw [Parser.optional]
  split
  case isTrue hcondition => exact h hcondition
  case isFalse hnot => exact ensures_pure (hdefault hnot)

end Parser
