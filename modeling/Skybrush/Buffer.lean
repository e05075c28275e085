import Mathlib.Tactic.Ring
import Skybrush.Error

/-!
# Growable Buffers

The byte buffers of the library: bytes, the capacity of the memory behind them, and
whether the buffer owns that memory. Sizes are computed in `size_t`, so modulo `2 ^ 64`.
Memory comes from an `Allocator`, which may refuse: the buffer whose storage cannot be
grown is lost, its pointers null and its size zero. The assertions of the source that the
pointers are not null are compiled out (`NDEBUG`).

## Main results

* `Buffer.extendWithZeros_refused`, `Buffer.extendWithZeros_lost`,
  `Buffer.extendWithZeros_granted`: extending a buffer either refuses and leaves it alone,
  or loses it, or extends it.
* `Buffer.reservation_ne_none`: only a buffer of about half the address space is refused.
-/

namespace Skybrush

/-- The largest `size_t`: `SIZE_MAX`. -/
def sizeMax : ℕ := 2 ^ 64 - 1

/-- Whether a block of this many bytes can be had from the memory allocator. -/
abbrev Allocator := ℕ → Bool

/-- A buffer: `sb_buffer_t`. A lost buffer has no bytes and no capacity. -/
structure Buffer where
  bytes : List UInt8
  capacity : ℕ
  owned : Bool
  deriving DecidableEq, Repr

namespace Buffer

/-- A buffer of zeros: `sb_buffer_init`. -/
def init (initialSize : ℕ) : Buffer :=
  ⟨List.replicate initialSize 0, max initialSize 1, true⟩

/-- `sb_buffer_size`. -/
def size (b : Buffer) : ℕ := b.bytes.length

/-- The buffer after a failed allocation. -/
def lost (b : Buffer) : Buffer := { b with bytes := [], capacity := 0 }

/-- The loop of `sb_i_buffer_ensure_free_space`: double the capacity until it suffices.
With the fuel used below it stops for every capacity but zero. -/
def growCapacity : ℕ → ℕ → ℕ → Option ℕ
  | 0, _, _ => none
  | fuel + 1, newSize, desiredCapacity =>
      if desiredCapacity < newSize then
        if sizeMax - 1 ≤ desiredCapacity then
          none
        else if desiredCapacity ≤ sizeMax / 2 then
          growCapacity fuel newSize (desiredCapacity * 2)
        else
          growCapacity fuel newSize (sizeMax - 1)
      else
        some desiredCapacity

variable (alloc : Allocator)

/-- `sb_i_buffer_realloc`. -/
def realloc (newCapacity : ℕ) : EStateM SbError Buffer Unit := do
  let b ← get
  let newCapacity := max newCapacity 1
  if b.capacity ≠ newCapacity then
    if !b.owned then
      throw .failure
    else if alloc newCapacity then
      set { b with bytes := b.bytes.take newCapacity, capacity := newCapacity }
    else
      set b.lost
      throw .enomem

/-- The size that has to be available, `none` standing for an overflow: the buffer is asked
for `minSpace` bytes behind its end. -/
def sizeWith (size minSpace : ℕ) : Option ℕ :=
  if (size + minSpace) % 2 ^ 64 < size then none else some ((size + minSpace) % 2 ^ 64)

/-- `sb_i_buffer_ensure_free_space`. -/
def ensureFreeSpace (minSpace : ℕ) : EStateM SbError Buffer Unit := do
  let b ← get
  if minSpace ≠ 0 then
    match sizeWith b.size minSpace with
    | none => throw .enomem
    | some newSize =>
        match growCapacity 66 newSize b.capacity with
        | none => throw .enomem
        | some desiredCapacity => realloc alloc desiredCapacity

/-- `sb_buffer_extend_with_zeros`. -/
def extendWithZeros (numZeros : ℕ) : EStateM SbError Buffer Unit := do
  let b ← get
  ensureFreeSpace alloc ((b.size + numZeros) % 2 ^ 64)
  modify fun b => { b with bytes := b.bytes ++ List.replicate numZeros 0 }

/-- `sb_buffer_resize`. -/
def resize (newSize : ℕ) : EStateM SbError Buffer Unit := do
  let b ← get
  if !b.owned then
    throw .failure
  else if b.size < newSize then
    realloc alloc newSize
    modify fun b => { b with bytes := b.bytes ++ List.replicate (newSize - b.size) 0 }
  else
    set { b with bytes := b.bytes.take newSize }

/-! ### Reserving space -/

/-- The capacity that a buffer has to have when it is extended, `none` when that is refused.
The buffer asks for its own size on top of what it needs. -/
def reservation (size capacity numZeros : ℕ) : Option ℕ :=
  if (size + numZeros) % 2 ^ 64 = 0 then
    some capacity
  else
    (sizeWith size ((size + numZeros) % 2 ^ 64)).bind fun newSize =>
      growCapacity 66 newSize capacity

/-- A block of this capacity is there already, or can be had. -/
def Available (capacity newCapacity : ℕ) : Prop :=
  capacity = newCapacity ∨ alloc newCapacity = true

theorem le_of_growCapacity {fuel newSize capacity c : ℕ}
    (h : growCapacity fuel newSize capacity = some c) : newSize ≤ c := by
  induction fuel generalizing capacity with
  | zero => cases h
  | succ fuel ih =>
      rw [growCapacity] at h
      split at h
      · split at h
        · cases h
        · split at h
          · exact ih h
          · exact ih h
      case isFalse hle =>
        obtain rfl := Option.some.inj h
        omega

theorem growCapacity_ne_none {fuel newSize capacity : ℕ} (hsize : newSize ≤ sizeMax - 1)
    (h : newSize ≤ capacity * 2 ^ fuel ∨ newSize ≤ capacity) :
    growCapacity (fuel + 2) newSize capacity ≠ none := by
  induction fuel generalizing capacity with
  | zero =>
      have hle : newSize ≤ capacity := by simpa using h
      rw [growCapacity, if_neg (by omega)]
      exact Option.some_ne_none _
  | succ fuel ih =>
      rw [growCapacity]
      split
      case isTrue hlt =>
        rw [if_neg (by omega)]
        split
        · refine ih (Or.inl ?_)
          rw [pow_succ] at h
          have hpow : capacity * 2 * 2 ^ fuel = capacity * (2 ^ fuel * 2) := by ring
          omega
        · exact ih (Or.inr hsize)
      case isFalse => exact Option.some_ne_none _

/-- **Only a huge buffer is refused**: one of about half the address space. -/
theorem reservation_ne_none {size capacity numZeros : ℕ} (hcapacity : 0 < capacity)
    (h : 2 * size + numZeros ≤ sizeMax - 1) : reservation size capacity numZeros ≠ none := by
  have hmax : sizeMax = 2 ^ 64 - 1 := rfl
  rw [reservation]
  split
  · exact Option.some_ne_none _
  · have hmod : (size + numZeros) % 2 ^ 64 = size + numZeros := Nat.mod_eq_of_lt (by omega)
    have hsum : (size + (size + numZeros)) % 2 ^ 64 = size + (size + numZeros) :=
      Nat.mod_eq_of_lt (by omega)
    rw [hmod, sizeWith, hsum, if_neg (by omega), Option.bind_some]
    exact growCapacity_ne_none (by omega) (Or.inl (by omega))

/-- A granted reservation is large enough for what is in the buffer. -/
theorem le_of_reservation {size capacity numZeros c : ℕ}
    (h : reservation size capacity numZeros = some c)
    (hpos : (size + numZeros) % 2 ^ 64 ≠ 0) : size ≤ c ∧ 1 ≤ c := by
  rw [reservation, if_neg hpos] at h
  obtain ⟨newSize, hsize, hgrow⟩ := Option.bind_eq_some_iff.mp h
  have hle := le_of_growCapacity hgrow
  rw [sizeWith] at hsize
  split at hsize
  · cases hsize
  case isFalse hover =>
    obtain rfl := Option.some.inj hsize
    have hlt : (size + numZeros) % 2 ^ 64 < 2 ^ 64 := Nat.mod_lt _ (by decide)
    constructor
    · omega
    · omega

/-- A reservation that needs another block asks for something. -/
theorem reservation_pos {size capacity numZeros c : ℕ}
    (h : reservation size capacity numZeros = some c) (hne : capacity ≠ c) :
    (size + numZeros) % 2 ^ 64 ≠ 0 := by
  intro hzero
  rw [reservation, if_pos hzero] at h
  exact hne (Option.some.inj h)

/-- Making room is what the reservation says. -/
theorem run_ensureFreeSpace (b : Buffer) (numZeros : ℕ) :
    (ensureFreeSpace alloc ((b.size + numZeros) % 2 ^ 64)).run b =
      match reservation b.size b.capacity numZeros with
      | none => .error .enomem b
      | some c =>
          if (b.size + numZeros) % 2 ^ 64 = 0 then .ok () b else (realloc alloc c).run b := by
  rw [ensureFreeSpace, reservation]
  by_cases hzero : (b.size + numZeros) % 2 ^ 64 = 0
  · simp only [EStateM.run_bind, EStateM.run_get, hzero, ne_eq, not_true_eq_false, if_false,
      if_true, EStateM.run_pure]
  · simp only [EStateM.run_bind, EStateM.run_get, hzero, ne_eq, not_false_eq_true, if_true,
      if_false]
    cases sizeWith b.size ((b.size + numZeros) % 2 ^ 64) with
    | none => rfl
    | some newSize =>
        simp only [Option.bind_some]
        cases growCapacity 66 newSize b.capacity with
        | none => rfl
        | some c => rfl

/-- A reservation that is refused leaves the buffer alone. -/
theorem extendWithZeros_refused {b : Buffer} {numZeros : ℕ}
    (h : reservation b.size b.capacity numZeros = none) :
    (extendWithZeros alloc numZeros).run b = .error .enomem b := by
  simp only [extendWithZeros, EStateM.run_bind, EStateM.run_get, run_ensureFreeSpace, h]

/-- A reservation that the allocator does not serve loses the buffer. -/
theorem extendWithZeros_lost {b : Buffer} {numZeros c : ℕ} (howned : b.owned = true)
    (h : reservation b.size b.capacity numZeros = some c)
    (halloc : ¬ Available alloc b.capacity c) :
    (extendWithZeros alloc numZeros).run b = .error .enomem b.lost := by
  rw [Available, not_or, Bool.not_eq_true] at halloc
  obtain ⟨hne, hrefuse⟩ := halloc
  have hpos := reservation_pos h hne
  have hmax : max c 1 = c := max_eq_left (le_of_reservation h hpos).2
  simp only [extendWithZeros, EStateM.run_bind, EStateM.run_get, run_ensureFreeSpace, h, hpos,
    if_false, realloc, hmax, ne_eq, hne, not_false_eq_true, if_true, howned, hrefuse,
    Bool.not_true, Bool.false_eq_true, EStateM.run_set, EStateM.run_throw]

/-- A reservation that is served extends the buffer. -/
theorem extendWithZeros_granted {b : Buffer} {numZeros c : ℕ} (howned : b.owned = true)
    (h : reservation b.size b.capacity numZeros = some c) (halloc : Available alloc b.capacity c) :
    (extendWithZeros alloc numZeros).run b =
      .ok () { b with bytes := b.bytes ++ List.replicate numZeros 0, capacity := c } := by
  by_cases hne : b.capacity = c
  · subst hne
    have hroom : (if (b.size + numZeros) % 2 ^ 64 = 0 then EStateM.Result.ok () b
        else (realloc alloc b.capacity).run b) = .ok () b := by
      split
      · rfl
      case isFalse hpos =>
        have hmax : max b.capacity 1 = b.capacity := max_eq_left (le_of_reservation h hpos).2
        simp only [realloc, EStateM.run_bind, EStateM.run_get, hmax, ne_eq, not_true_eq_false,
          if_false, EStateM.run_pure]
    simp only [extendWithZeros, EStateM.run_bind, EStateM.run_get, run_ensureFreeSpace, h, hroom,
      EStateM.run_modify]
  · have halloc' : alloc c = true := halloc.resolve_left hne
    have hpos := reservation_pos h hne
    obtain ⟨hsize, hone⟩ := le_of_reservation h hpos
    have hmax : max c 1 = c := max_eq_left hone
    simp only [extendWithZeros, EStateM.run_bind, EStateM.run_get, run_ensureFreeSpace, h, hpos,
      if_false, realloc, hmax, ne_eq, hne, not_false_eq_true, if_true, howned, halloc',
      Bool.not_true, Bool.false_eq_true, EStateM.run_set, EStateM.run_modify]
    rw [List.take_of_length_le hsize]

/-- Shrinking a buffer drops the bytes at its end. -/
theorem resize_of_le {b : Buffer} {newSize : ℕ} (howned : b.owned = true)
    (h : newSize ≤ b.size) :
    (resize alloc newSize).run b = .ok () { b with bytes := b.bytes.take newSize } := by
  simp only [resize, EStateM.run_bind, EStateM.run_get, howned, Bool.not_true,
    Bool.false_eq_true, if_false, Nat.not_lt.mpr h, EStateM.run_set]

end Buffer

end Skybrush
