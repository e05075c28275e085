import Mathlib.Logic.Function.Basic
import Mathlib.Tactic.Common
import Skybrush.Library.Checked

/-!
# Heaps and Their Holders

A heap is a list of blocks of cells, in the order in which they were handed out. A block that
has been given back stays in the list as a gap, so no two blocks ever have the same number.
Giving back a block twice, or touching it afterwards, is a fault.

Who has to give a block back is bookkeeping that no heap does by itself. A family of holders is
a *ledger* of the heap when each of them holds at most one block, no block has two holders, and
every block that was not given back has one (`Heap.Ledger`). A routine that keeps a ledger never
gives back a block twice, and leaves nothing behind once nobody holds anything.

## Main results

* `Heap.block_push_self`, `Heap.block_push_of_ne`, `Heap.block_put_self`,
  `Heap.block_put_of_ne`: the blocks after each operation.
* `Heap.Ledger.take`, `Heap.Ledger.giveBack`, `Heap.Ledger.handOver`, `Heap.Ledger.same`: how a
  ledger is kept.
* `Heap.Ledger.nothing_left`: nobody holds anything exactly if all blocks were given back.
-/

/-- A heap: its blocks, in the order in which they were handed out. -/
structure Heap (β : Type) where
  blocks : List (Option (List β))
  deriving DecidableEq, Repr

namespace Heap

variable {β : Type}

/-- Nothing has been handed out yet. -/
def empty : Heap β := ⟨[]⟩

/-- The cells of a block, unless it was given back. -/
def block (h : Heap β) (id : ℕ) : Option (List β) := h.blocks[id]?.join

/-- The number of the block that is handed out next. -/
def next (h : Heap β) : ℕ := h.blocks.length

/-- Hand out another block. -/
def push (h : Heap β) (cells : List β) : Heap β := ⟨h.blocks ++ [some cells]⟩

/-- Replace the cells of a block, or give it back. -/
def put (h : Heap β) (id : ℕ) (cells : Option (List β)) : Heap β := ⟨h.blocks.set id cells⟩

/-- A block is there: it was handed out, and was not given back. -/
def Live (h : Heap β) (id : ℕ) : Prop := (h.block id).isSome

instance (h : Heap β) (id : ℕ) : Decidable (h.Live id) :=
  inferInstanceAs (Decidable ((h.block id).isSome = true))

/-! ### The blocks after an operation -/

theorem live_iff {h : Heap β} {id : ℕ} : h.Live id ↔ ∃ cells, h.block id = some cells :=
  Option.isSome_iff_exists

theorem lt_next_of_live {h : Heap β} {id : ℕ} (hlive : h.Live id) : id < h.next := by
  obtain ⟨cells, hcells⟩ := live_iff.1 hlive
  by_contra hle
  rw [block, List.getElem?_eq_none (Nat.le_of_not_lt hle)] at hcells
  cases hcells

theorem block_next (h : Heap β) : h.block h.next = none := by
  rw [block, next, List.getElem?_eq_none (Nat.le_refl _)]
  rfl

theorem block_push_self (h : Heap β) (cells : List β) :
    (h.push cells).block h.next = some cells := by
  rw [block, push, next, List.getElem?_concat_length]
  rfl

theorem block_push_of_ne {h : Heap β} (cells : List β) {id : ℕ} (hne : id ≠ h.next) :
    (h.push cells).block id = h.block id := by
  rw [block, block, push]
  rcases Nat.lt_or_gt_of_ne hne with hlt | hgt
  · rw [List.getElem?_append_left hlt]
  · have hlength : (h.blocks ++ [some cells]).length ≤ id := by
      rw [List.length_append]
      exact hgt
    rw [List.getElem?_eq_none hlength, List.getElem?_eq_none (Nat.le_of_lt hgt)]

/-- Other blocks do not change when a block is handed out. -/
theorem block_push_of_live {h : Heap β} (cells : List β) {id : ℕ} (hlive : h.Live id) :
    (h.push cells).block id = h.block id :=
  block_push_of_ne cells (Nat.ne_of_lt (lt_next_of_live hlive))

theorem block_put_self {h : Heap β} {id : ℕ} (hlive : h.Live id) (cells : Option (List β)) :
    (h.put id cells).block id = cells := by
  rw [block, put, List.getElem?_set_self (lt_next_of_live hlive)]
  rfl

theorem block_put_of_ne (h : Heap β) {id id' : ℕ} (hne : id' ≠ id) (cells : Option (List β)) :
    (h.put id cells).block id' = h.block id' := by
  rw [block, block, put, List.getElem?_set_ne hne.symm]

/-- Two heaps with the same blocks; gaps at the end do not count. -/
def Same (h h' : Heap β) : Prop := ∀ id, h'.block id = h.block id

theorem Same.refl (h : Heap β) : h.Same h := fun _ => rfl

/-- A block that is given back at once leaves the heap as it was. -/
theorem same_put_push (h : Heap β) (cells : List β) : h.Same ((h.push cells).put h.next none) := by
  intro id
  rcases eq_or_ne id h.next with rfl | hne
  · have hlive : (h.push cells).Live h.next := live_iff.2 ⟨cells, block_push_self h cells⟩
    rw [block_put_self hlive, block_next]
  · rw [block_put_of_ne _ hne, block_push_of_ne cells hne]

/-! ### Ledgers -/

/-- Every block that is there has a holder, and only one. -/
structure Ledger {κ : Type} (h : Heap β) (holds : κ → Option ℕ) : Prop where
  live : ∀ k id, holds k = some id → h.Live id
  unique : ∀ k k' id, holds k = some id → holds k' = some id → k = k'
  held : ∀ id, h.Live id → ∃ k, holds k = some id

namespace Ledger

variable {κ : Type} {h h' : Heap β} {holds : κ → Option ℕ}

theorem empty : (Heap.empty : Heap β).Ledger fun _ : κ => none :=
  ⟨fun _ _ hholds => absurd hholds.symm (Option.some_ne_none _),
    fun _ _ _ hholds => absurd hholds.symm (Option.some_ne_none _),
    fun _ hlive => absurd (lt_next_of_live hlive) (Nat.not_lt_zero _)⟩

theorem congr (hledger : h.Ledger holds) {holds' : κ → Option ℕ} (heq : ∀ k, holds' k = holds k) :
    h.Ledger holds' := by
  obtain rfl : holds' = holds := funext heq
  exact hledger

/-- The same blocks have the same holders. -/
theorem same (hledger : h.Ledger holds) (hsame : h.Same h') : h'.Ledger holds := by
  have hlive : ∀ id, h'.Live id ↔ h.Live id := fun id => by rw [Live, Live, hsame]
  exact ⟨fun k id hk => (hlive id).2 (hledger.live k id hk), hledger.unique,
    fun id hid => hledger.held id ((hlive id).1 hid)⟩

/-- Writing to a block does not change who holds it. -/
theorem write (hledger : h.Ledger holds) {id : ℕ} (hid : h.Live id) (cells : List β) :
    (h.put id (some cells)).Ledger holds := by
  have hlive : ∀ id', (h.put id (some cells)).Live id' ↔ h.Live id' := by
    intro id'
    rcases eq_or_ne id' id with rfl | hne
    · rw [Live, block_put_self hid]
      exact ⟨fun _ => hid, fun _ => rfl⟩
    · rw [Live, Live, block_put_of_ne h hne]
  exact ⟨fun k id' hk => (hlive id').2 (hledger.live k id' hk), hledger.unique,
    fun id' hid' => hledger.held id' ((hlive id').1 hid')⟩

/-- **Nobody holds anything exactly if every block was given back.** -/
theorem nothing_left (hledger : h.Ledger holds) :
    (∀ k, holds k = none) ↔ ∀ id, ¬ h.Live id := by
  constructor
  · intro hnone id hlive
    obtain ⟨k, hk⟩ := hledger.held id hlive
    rw [hnone k] at hk
    cases hk
  · intro hdead k
    cases hk : holds k with
    | none => rfl
    | some id => exact absurd (hledger.live k id hk) (hdead id)

variable [DecidableEq κ]

/-- **A block is handed out** to somebody who holds none. -/
theorem take (hledger : h.Ledger holds) {k : κ} (hk : holds k = none) (cells : List β) :
    (h.push cells).Ledger (Function.update holds k (some h.next)) := by
  have hother : ∀ k' id, holds k' = some id → id ≠ h.next := fun k' id hid =>
    Nat.ne_of_lt (lt_next_of_live (hledger.live k' id hid))
  refine ⟨fun k' id hid => ?_, fun k₁ k₂ id h₁ h₂ => ?_, fun id hid => ?_⟩
  · rcases eq_or_ne k' k with rfl | hne
    · rw [Function.update_self] at hid
      cases hid
      exact live_iff.2 ⟨cells, block_push_self h cells⟩
    · rw [Function.update_of_ne hne] at hid
      have hlive := hledger.live k' id hid
      rw [Live, block_push_of_live cells hlive]
      exact hlive
  · rcases eq_or_ne k₁ k with heq₁ | hne₁ <;> rcases eq_or_ne k₂ k with heq₂ | hne₂
    · rw [heq₁, heq₂]
    · rw [heq₁, Function.update_self] at h₁
      rw [Function.update_of_ne hne₂] at h₂
      exact absurd (Option.some.inj h₁).symm (hother _ _ h₂)
    · rw [heq₂, Function.update_self] at h₂
      rw [Function.update_of_ne hne₁] at h₁
      exact absurd (Option.some.inj h₂).symm (hother _ _ h₁)
    · rw [Function.update_of_ne hne₁] at h₁
      rw [Function.update_of_ne hne₂] at h₂
      exact hledger.unique _ _ _ h₁ h₂
  · rcases eq_or_ne id h.next with rfl | hne
    · exact ⟨k, Function.update_self ..⟩
    · rw [Live, block_push_of_ne cells hne] at hid
      obtain ⟨k', hk'⟩ := hledger.held id hid
      refine ⟨k', ?_⟩
      rw [Function.update_of_ne, hk']
      rintro rfl
      rw [hk] at hk'
      cases hk'

/-- **A holder gives its block back.** -/
theorem giveBack (hledger : h.Ledger holds) {k : κ} {id : ℕ} (hk : holds k = some id) :
    (h.put id none).Ledger (Function.update holds k none) := by
  have hid := hledger.live k id hk
  have hother : ∀ k', k' ≠ k → ∀ id', holds k' = some id' → id' ≠ id := by
    rintro k' hne id' hid' rfl
    exact hne (hledger.unique _ _ _ hid' hk)
  refine ⟨fun k' id' hid' => ?_, fun k₁ k₂ id' h₁ h₂ => ?_, fun id' hid' => ?_⟩
  · rcases eq_or_ne k' k with rfl | hne
    · rw [Function.update_self] at hid'
      cases hid'
    · rw [Function.update_of_ne hne] at hid'
      rw [Live, block_put_of_ne h (hother k' hne id' hid')]
      exact hledger.live k' id' hid'
  · rcases eq_or_ne k₁ k with rfl | hne₁
    · rw [Function.update_self] at h₁
      cases h₁
    · rcases eq_or_ne k₂ k with rfl | hne₂
      · rw [Function.update_self] at h₂
        cases h₂
      · rw [Function.update_of_ne hne₁] at h₁
        rw [Function.update_of_ne hne₂] at h₂
        exact hledger.unique _ _ _ h₁ h₂
  · rcases eq_or_ne id' id with rfl | hne
    · rw [Live, block_put_self hid] at hid'
      cases hid'
    · rw [Live, block_put_of_ne h hne] at hid'
      obtain ⟨k', hk'⟩ := hledger.held id' hid'
      refine ⟨k', ?_⟩
      rw [Function.update_of_ne, hk']
      rintro rfl
      rw [hk] at hk'
      exact hne (Option.some.inj hk').symm

/-- **A holder hands its block over** to another one, who holds none. -/
theorem handOver (hledger : h.Ledger holds) {k k' : κ} {id : ℕ} (hk : holds k = some id)
    (hk' : holds k' = none) :
    h.Ledger (Function.update (Function.update holds k none) k' (some id)) := by
  have hne : k ≠ k' := by
    rintro rfl
    rw [hk] at hk'
    cases hk'
  -- who holds a block afterwards, held it before, or `k` did
  have hbefore : ∀ j id', Function.update (Function.update holds k none) k' (some id) j =
      some id' → (j = k' ∧ id' = id) ∨ (j ≠ k ∧ j ≠ k' ∧ holds j = some id') := by
    intro j id' hj
    rcases eq_or_ne j k' with rfl | hjk'
    · rw [Function.update_self] at hj
      exact .inl ⟨rfl, (Option.some.inj hj).symm⟩
    · rw [Function.update_of_ne hjk'] at hj
      rcases eq_or_ne j k with rfl | hjk
      · rw [Function.update_self] at hj
        cases hj
      · rw [Function.update_of_ne hjk] at hj
        exact .inr ⟨hjk, hjk', hj⟩
  refine ⟨fun j id' hj => ?_, fun j₁ j₂ id' h₁ h₂ => ?_, fun id' hid' => ?_⟩
  · rcases hbefore j id' hj with ⟨-, rfl⟩ | ⟨-, -, hold⟩
    · exact hledger.live k _ hk
    · exact hledger.live j id' hold
  · rcases hbefore j₁ id' h₁ with ⟨rfl, rfl⟩ | ⟨hk₁, -, hold₁⟩ <;>
      rcases hbefore j₂ _ h₂ with ⟨rfl, heq⟩ | ⟨hk₂, -, hold₂⟩
    · rfl
    · exact absurd (hledger.unique _ _ _ hold₂ hk) hk₂
    · exact absurd (hledger.unique _ _ _ (heq ▸ hold₁) hk) hk₁
    · exact hledger.unique _ _ _ hold₁ hold₂
  · obtain ⟨j, hj⟩ := hledger.held id' hid'
    rcases eq_or_ne j k with rfl | hjk
    · rw [hk] at hj
      cases hj
      exact ⟨k', Function.update_self ..⟩
    · have hjk' : j ≠ k' := by
        rintro rfl
        rw [hk'] at hj
        cases hj
      exact ⟨j, by rw [Function.update_of_ne hjk', Function.update_of_ne hjk, hj]⟩

end Ledger

/-! ### Programs over a heap -/

/-- A routine over a heap. It keeps what it has done to the heap when it ends with an error. -/
def Routine (ε β α : Type) : Type := Heap β → Checked (ε × Heap β) (α × Heap β)

namespace Routine

open Checked

variable {ε α γ : Type}

instance : Monad (Routine ε β) where
  pure a := fun h => ok (a, h)
  bind p f := fun h => p h >>= fun r => f r.1 r.2

theorem bind_apply (p : Routine ε β α) (f : α → Routine ε β γ) (h : Heap β) :
    (p >>= f) h = p h >>= fun r => f r.1 r.2 := rfl

theorem bind_of_ok {p : Routine ε β α} {h h' : Heap β} {a : α} (hp : p h = ok (a, h'))
    (f : α → Routine ε β γ) : (p >>= f) h = f a h' := by
  rw [bind_apply, hp, ok_bind]

/-- Fail with an error. -/
def throw (e : ε) : Routine ε β α := fun h => error (e, h)

/-- A computation that does not concern the heap. -/
def lift : Checked ε α → Routine ε β α
  | ok a => fun h => ok (a, h)
  | error e => fun h => error (e, h)
  | fault => fun _ => fault
  | outOfFuel => fun _ => outOfFuel

/-- Ask for a block of some cells, which may be refused. -/
def allocate (granted : Bool) (cells : List β) : Routine ε β (Option ℕ) := fun h =>
  if granted then ok (some h.next, h.push cells) else ok (none, h)

/-- Give a block back. -/
def free (id : ℕ) : Routine ε β Unit := fun h =>
  if h.Live id then ok ((), h.put id none) else fault

/-- The cells of a block. -/
def contents (id : ℕ) : Routine ε β (List β) := fun h =>
  match h.block id with
  | some cells => ok (cells, h)
  | none => fault

/-- Write to the start of a block. -/
def store (id : ℕ) (cells : List β) : Routine ε β Unit := fun h =>
  match h.block id with
  | some old =>
      if cells.length ≤ old.length then
        ok ((), h.put id (some (cells ++ old.drop cells.length)))
      else
        fault
  | none => fault

theorem free_of_live {h : Heap β} {id : ℕ} (hlive : h.Live id) :
    (free id : Routine ε β Unit) h = ok ((), h.put id none) := if_pos hlive

theorem contents_of_block {h : Heap β} {id : ℕ} {cells : List β}
    (hblock : h.block id = some cells) :
    (contents id : Routine ε β (List β)) h = ok (cells, h) := by
  rw [contents, hblock]

/-- Filling a block. -/
theorem store_of_block {h : Heap β} {id : ℕ} {old cells : List β} (hblock : h.block id = some old)
    (hlength : cells.length = old.length) :
    (store id cells : Routine ε β Unit) h = ok ((), h.put id (some cells)) := by
  rw [store, hblock]
  dsimp only
  rw [if_pos (Nat.le_of_eq hlength), hlength, List.drop_length, List.append_nil]

end Routine

end Heap
