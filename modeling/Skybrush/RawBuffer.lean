import Mathlib.Tactic.Ring
import Skybrush.Buffer
import Skybrush.Library.Checked

/-!
# Buffers with Their Memory

The byte buffers of the library (`buffer.c`) with the block of memory behind them: the block
is as long as the capacity, the bytes of the buffer are at its start, and behind them is
whatever was left there. Two pointers are stored besides the start of the block, the end of
the used part and the end of the block. What is in a block that was made larger is not known,
and the allocator may refuse it: the pointers of the buffer are null then.

Writing outside of the block is a fault, and the loop that grows the capacity runs on fuel.
Neither happens to a well-formed buffer as long as memory can be had: every operation either
succeeds or reports an error and leaves the buffer as it was. An error is reported to a buffer
that owns its memory only if a size overflows.

## Main results

* `RawBuffer.ensureFreeSpace_cases`: making room keeps the bytes.
* `RawBuffer.performs_resize`, `RawBuffer.performs_prune`, `RawBuffer.performs_fill`,
  `RawBuffer.performs_appendBytes`, `RawBuffer.performs_extendWithZeros`: what the operations
  do to the bytes.
* `RawBuffer.simulates_resize`, `RawBuffer.simulates_extendWithZeros`: without the memory behind
  them, the operations are those of `Buffer`.
-/

namespace Skybrush

open Checked

/-- A memory allocator: it refuses a block of some size, or hands it out, with the bytes that
happen to be in the new part of it. -/
abbrev Memory := ℕ → Option (ℕ → UInt8)

/-- Memory that can always be had. -/
def Memory.plenty (fresh : ℕ → UInt8) : Memory := fun _ => some fresh

@[simp] theorem Memory.plenty_apply (fresh : ℕ → UInt8) (c : ℕ) :
    Memory.plenty fresh c = some fresh := rfl

/-- A buffer with its memory: `sb_buffer_t`. The two end pointers are offsets in the block. -/
structure RawBuffer where
  storage : List UInt8
  bufEnd : ℕ
  storEnd : ℕ
  owned : Bool
  deriving DecidableEq, Repr

namespace RawBuffer

/-- What an operation leaves: a buffer, with an error code if there was an error. -/
abbrev Outcome := Checked (SbError × RawBuffer) RawBuffer

/-- The buffer after a failed reallocation: its pointers are null. The functions go on with it, as
they do with assertions compiled out. -/
def lost (b : RawBuffer) : RawBuffer := { b with storage := [], bufEnd := 0, storEnd := 0 }

/-! ### Functions -/

/-- `sb_buffer_init`: the memory is cleared. -/
def init (initialSize : ℕ) : RawBuffer :=
  let allocSize := max initialSize 1
  ⟨List.replicate allocSize 0, initialSize, allocSize, true⟩

/-- `sb_buffer_init_from_bytes`. -/
def initFromBytes (bytes : List UInt8) : Except SbError RawBuffer :=
  if bytes.length = 0 then
    .error .einval
  else
    .ok ⟨bytes, bytes.length, bytes.length, true⟩

/-- `sb_buffer_init_view`. -/
def initView (bytes : List UInt8) : RawBuffer := ⟨bytes, bytes.length, bytes.length, false⟩

/-- `sb_buffer_size`. -/
def size (b : RawBuffer) : ℕ := b.bufEnd

/-- `sb_buffer_capacity`. -/
def capacity (b : RawBuffer) : ℕ := b.storEnd

/-- Write into the block: `memset` and `memcpy`. -/
def store (offset : ℕ) (bytes : List UInt8) (b : RawBuffer) : Outcome :=
  if offset + bytes.length ≤ b.storage.length then
    ok { b with
      storage := b.storage.take offset ++ (bytes ++ b.storage.drop (offset + bytes.length)) }
  else
    fault

/-- The loop of `sb_i_buffer_ensure_free_space`: double the capacity until it suffices. -/
def growLoop : ℕ → ℕ → ℕ → Checked SbError ℕ
  | 0, _, _ => outOfFuel
  | fuel + 1, newSize, desiredCapacity =>
      if desiredCapacity < newSize then
        if sizeMax - 1 ≤ desiredCapacity then
          error .enomem
        else if desiredCapacity ≤ sizeMax / 2 then
          growLoop fuel newSize (desiredCapacity * 2)
        else
          growLoop fuel newSize (sizeMax - 1)
      else
        ok desiredCapacity

variable (memory : Memory)

/-- `sb_i_buffer_realloc`. -/
def realloc (newCapacity : ℕ) (b : RawBuffer) : Outcome :=
  let newCapacity := max newCapacity 1
  if b.capacity ≠ newCapacity then
    if !b.owned then
      error (.failure, b)
    else
      match memory newCapacity with
      | some fresh =>
          ok { b with
            storage := b.storage.take newCapacity ++
              (List.range (newCapacity - b.storage.length)).map fresh
            storEnd := newCapacity
            bufEnd := min b.size newCapacity }
      | none => error (.enomem, b.lost)
  else
    ok b

/-- `sb_i_buffer_ensure_free_space`. -/
def ensureFreeSpace (minSpace : ℕ) (b : RawBuffer) : Outcome :=
  if minSpace = 0 then
    ok b
  else
    let newSize := (b.size + minSpace) % 2 ^ 64
    if newSize < b.size then
      error (.enomem, b)
    else
      match growLoop 66 newSize b.capacity with
      | ok desiredCapacity => realloc memory desiredCapacity b
      | error e => error (e, b)
      | fault => fault
      | outOfFuel => outOfFuel

/-- `sb_buffer_resize`. -/
def resize (newSize : ℕ) (b : RawBuffer) : Outcome :=
  if !b.owned then
    error (.failure, b)
  else if b.size < newSize then do
    let grown ← realloc memory newSize b
    let grown ← store grown.bufEnd (List.replicate (newSize - b.size) 0) grown
    ok { grown with bufEnd := newSize }
  else
    ok { b with bufEnd := newSize }

/-- `sb_buffer_clear`. -/
def clear (b : RawBuffer) : Outcome := resize memory 0 b

/-- `sb_buffer_prune`. -/
def prune (b : RawBuffer) : Outcome := realloc memory b.size b

/-- `sb_buffer_fill`. -/
def fill (value : UInt8) (b : RawBuffer) : Outcome := store 0 (List.replicate b.size value) b

/-- `sb_buffer_append_bytes`, from another block of memory. -/
def appendBytes (bytes : List UInt8) (numBytes : ℕ) (b : RawBuffer) : Outcome := do
  let b ← ensureFreeSpace memory numBytes b
  if numBytes ≤ bytes.length then
    let b ← store b.bufEnd (bytes.take numBytes) b
    ok { b with bufEnd := b.bufEnd + numBytes }
  else
    fault

/-- `sb_buffer_append_byte`. -/
def appendByte (byte : UInt8) (b : RawBuffer) : Outcome := appendBytes memory [byte] 1 b

/-- `sb_buffer_concat`. -/
def concat (other : RawBuffer) (b : RawBuffer) : Outcome :=
  appendBytes memory other.storage other.size b

/-- `sb_buffer_extend_with_zeros`: the buffer asks for its own size on top of what it needs. -/
def extendWithZeros (numZeros : ℕ) (b : RawBuffer) : Outcome := do
  let b ← ensureFreeSpace memory ((b.size + numZeros) % 2 ^ 64) b
  let b ← store b.bufEnd (List.replicate numZeros 0) b
  ok { b with bufEnd := b.bufEnd + numZeros }

/-! ### Well-formed buffers -/

/-- The bytes of a buffer. -/
def contents (b : RawBuffer) : List UInt8 := b.storage.take b.size

/-- The end pointers are where they have to be. A view is full. -/
structure WellFormed (b : RawBuffer) : Prop where
  capacity_eq : b.capacity = b.storage.length
  size_le : b.size ≤ b.capacity
  pos : 1 ≤ b.capacity
  le_max : b.capacity ≤ sizeMax
  view_full : b.owned = false → b.size = b.capacity

theorem WellFormed.length_contents {b : RawBuffer} (h : b.WellFormed) :
    b.contents.length = b.size := by
  rw [contents, List.length_take, ← h.capacity_eq]
  exact min_eq_left h.size_le

theorem wellFormed_init {initialSize : ℕ} (h : initialSize ≤ sizeMax) :
    (init initialSize).WellFormed where
  capacity_eq := List.length_replicate.symm
  size_le := le_max_left _ _
  pos := le_max_right _ _
  le_max := max_le h (by decide)
  view_full := by rintro ⟨⟩

theorem initFromBytes_of_ne {bytes : List UInt8} (hne : bytes ≠ []) :
    initFromBytes bytes = .ok ⟨bytes, bytes.length, bytes.length, true⟩ :=
  if_neg fun hzero => hne (List.eq_nil_of_length_eq_zero hzero)

/-- A buffer that is full. -/
theorem wellFormed_full {bytes : List UInt8} (hne : bytes ≠ []) (h : bytes.length ≤ sizeMax)
    (owned : Bool) : (RawBuffer.mk bytes bytes.length bytes.length owned).WellFormed :=
  ⟨rfl, le_rfl, List.length_pos_iff.mpr hne, h, fun _ => rfl⟩

/-- The memory behind the end of a new buffer is cleared, too. -/
theorem contents_init (initialSize : ℕ) :
    (init initialSize).contents = List.replicate initialSize 0 := by
  simp [init, contents, size]

/-- **What an operation does** to a buffer: it changes the bytes of the buffer in one way, but
not the number of bytes of a view, or it reports an error and changes nothing. -/
inductive Performs (b : RawBuffer) (bytes : List UInt8) : Outcome → Prop
  | done {b' : RawBuffer} (wellFormed : b'.WellFormed) (contents_eq : b'.contents = bytes)
      (owned_eq : b'.owned = b.owned) (view_size : b.owned = false → b'.size = b.size) :
      Performs b bytes (ok b')
  | refused (e : SbError) : Performs b bytes (error (e, b))

/-! ### Making room -/

/-- The loop stops: it finds a capacity that suffices, or reports an overflow. -/
theorem growLoop_stops {fuel newSize capacity : ℕ} (hcapacity : capacity ≤ sizeMax)
    (hfuel : newSize ≤ capacity * 2 ^ fuel ∨ sizeMax - 1 ≤ capacity) :
    (∃ c, growLoop (fuel + 2) newSize capacity = ok c ∧ newSize ≤ c ∧ capacity ≤ c ∧
        c ≤ sizeMax) ∨
      growLoop (fuel + 2) newSize capacity = error .enomem := by
  induction fuel generalizing capacity with
  | zero =>
      rw [growLoop]
      split
      case isTrue hlt =>
        rw [if_pos (by omega)]
        exact Or.inr rfl
      case isFalse hge => exact Or.inl ⟨capacity, rfl, by omega, le_rfl, hcapacity⟩
  | succ fuel ih =>
      rw [growLoop]
      split
      case isTrue hlt =>
        split
        · exact Or.inr rfl
        case isFalse hsmall =>
          have hfuel := hfuel.resolve_right hsmall
          split
          case isTrue hhalf =>
            have hpow : capacity * 2 ^ (fuel + 1) = capacity * 2 * 2 ^ fuel := by ring
            refine (ih (by omega) (Or.inl (hpow ▸ hfuel))).imp_left ?_
            rintro ⟨c, hrun, hnew, hle, hmax⟩
            exact ⟨c, hrun, hnew, by omega, hmax⟩
          case isFalse hhalf =>
            refine (ih (by omega) (Or.inr le_rfl)).imp_left ?_
            rintro ⟨c, hrun, hnew, hle, hmax⟩
            exact ⟨c, hrun, hnew, by omega, hmax⟩
      case isFalse hge => exact Or.inl ⟨capacity, rfl, by omega, le_rfl, hcapacity⟩

/-- A buffer with the same bytes in a block of another size. -/
structure Moved (b b' : RawBuffer) (newCapacity : ℕ) : Prop where
  wellFormed : b'.WellFormed
  contents_eq : b'.contents = b.contents
  owned_eq : b'.owned = b.owned
  size_eq : b'.size = b.size
  capacity_eq : b'.capacity = newCapacity

variable {fresh : ℕ → UInt8} {b : RawBuffer}

/-- Reallocating keeps the bytes, or refuses to move a view. -/
theorem realloc_cases (h : b.WellFormed) {newCapacity : ℕ} (hsize : b.size ≤ newCapacity)
    (hmax : newCapacity ≤ sizeMax) :
    (∃ b', realloc (.plenty fresh) newCapacity b = ok b' ∧ Moved b b' (max newCapacity 1)) ∨
      realloc (.plenty fresh) newCapacity b = error (.failure, b) := by
  by_cases hsame : b.capacity = max newCapacity 1
  · exact Or.inl ⟨b, if_neg (not_not.mpr hsame), h, rfl, rfl, rfl, hsame⟩
  · simp only [realloc, ne_eq, hsame, not_false_eq_true, if_true]
    cases howned : b.owned with
    | false => exact Or.inr rfl
    | true =>
        refine Or.inl ⟨_, rfl, ?_⟩
        have hend : min b.size (max newCapacity 1) = b.size :=
          min_eq_left (hsize.trans (le_max_left _ _))
        have hinside : b.size ≤ (b.storage.take (max newCapacity 1)).length := by
          have := h.size_le
          rw [List.length_take, ← h.capacity_eq]
          omega
        rw [hend]
        refine ⟨⟨?_, hend ▸ min_le_right _ _, le_max_right _ _, max_le hmax (by decide), ?_⟩, ?_,
          howned.symm, rfl, rfl⟩
        · rw [List.length_append, List.length_take, List.length_map, List.length_range]
          change max newCapacity 1 = _
          omega
        · exact fun hview => absurd hview Bool.true_eq_false.mp
        · change List.take b.size _ = List.take b.size _
          rw [List.take_append_of_le_length hinside, List.take_take, hend]

/-- **Making room** keeps the bytes, or reports an error. -/
theorem ensureFreeSpace_cases (h : b.WellFormed) {minSpace : ℕ} (hspace : minSpace ≤ sizeMax) :
    (∃ b' c, ensureFreeSpace (.plenty fresh) minSpace b = ok b' ∧ Moved b b' c ∧
        b.size + minSpace ≤ c) ∨
      ∃ e, ensureFreeSpace (.plenty fresh) minSpace b = error (e, b) := by
  have hend := h.size_le
  have hmax := h.le_max
  have hpos := h.pos
  have hdef : sizeMax = 2 ^ 64 - 1 := rfl
  simp only [ensureFreeSpace]
  by_cases hzero : minSpace = 0
  · rw [if_pos hzero]
    exact Or.inl ⟨b, b.capacity, rfl, ⟨h, rfl, rfl, rfl, rfl⟩, by omega⟩
  · rw [if_neg hzero]
    by_cases hover : (b.size + minSpace) % 2 ^ 64 < b.size
    · rw [if_pos hover]
      exact Or.inr ⟨_, rfl⟩
    · have hsum : (b.size + minSpace) % 2 ^ 64 = b.size + minSpace := by omega
      have hfuel : b.size + minSpace ≤ b.capacity * 2 ^ 64 := by omega
      rw [if_neg hover, hsum]
      obtain ⟨c, hgrow, hnew, hle, hc⟩ | hgrow := @growLoop_stops 64 _ _ hmax (Or.inl hfuel)
      · rw [hgrow]
        refine (realloc_cases h (hend.trans hle) hc).imp ?_ (fun hrun => ⟨_, hrun⟩)
        rintro ⟨b', hrun, hmoved⟩
        exact ⟨b', _, hrun, hmoved, hnew.trans (le_max_left _ _)⟩
      · rw [hgrow]
        exact Or.inr ⟨_, rfl⟩

/-! ### What the operations do -/

/-- Writing at the end of a buffer with enough room. -/
theorem store_bufEnd (h : b.WellFormed) {bytes : List UInt8}
    (hroom : b.size + bytes.length ≤ b.capacity) :
    ∃ storage, store b.bufEnd bytes b = ok { b with storage := storage } ∧
      b.capacity = storage.length ∧
      storage.take (b.size + bytes.length) = b.contents ++ bytes := by
  have hfits : b.size + bytes.length ≤ b.storage.length := h.capacity_eq ▸ hroom
  have htake : (b.storage.take b.size).length = b.size := h.length_contents
  refine ⟨_, if_pos hfits, ?_, ?_⟩
  · change _ = (b.storage.take b.size ++ (bytes ++ b.storage.drop (b.size + bytes.length))).length
    rw [List.length_append, List.length_append, htake, List.length_drop, h.capacity_eq]
    omega
  · change List.take _ (b.storage.take b.size ++ _) = b.storage.take b.size ++ bytes
    rw [← List.append_assoc, List.take_append_of_le_length, List.take_of_length_le]
    · rw [List.length_append, htake]
    · rw [List.length_append, htake]

/-- Bytes that are written behind the end of a moved buffer. -/
theorem Moved.append {b' : RawBuffer} {c : ℕ} (h : Moved b b' c) {bytes : List UInt8}
    (hroom : b.size + bytes.length ≤ c) :
    ∃ storage, store b'.bufEnd bytes b' = ok { b' with storage := storage } ∧
      Performs b (b.contents ++ bytes)
        (ok { b' with storage := storage, bufEnd := b'.bufEnd + bytes.length }) := by
  rw [← h.size_eq, ← h.capacity_eq] at hroom
  obtain ⟨storage, hstore, hlength, htake⟩ := store_bufEnd h.wellFormed hroom
  -- nothing can be written behind the end of a view
  have hview : b'.owned = false → b'.size + bytes.length = b'.size := by
    intro hview
    have := h.wellFormed.view_full hview
    omega
  refine ⟨storage, hstore, .done ⟨hlength, hroom, h.wellFormed.pos, h.wellFormed.le_max, ?_⟩ ?_
    h.owned_eq ?_⟩
  · exact fun howned => (hview howned).trans (h.wellFormed.view_full howned)
  · rw [← h.contents_eq]
    exact htake
  · exact fun howned => (hview (h.owned_eq.trans howned)).trans h.size_eq

/-- `sb_buffer_append_bytes` appends the bytes. -/
theorem performs_appendBytes (h : b.WellFormed) {bytes : List UInt8} {numBytes : ℕ}
    (hbytes : numBytes ≤ bytes.length) (hmax : numBytes ≤ sizeMax) :
    Performs b (b.contents ++ bytes.take numBytes)
      (appendBytes (.plenty fresh) bytes numBytes b) := by
  have hlength : (bytes.take numBytes).length = numBytes := List.length_take_of_le hbytes
  rw [appendBytes]
  obtain ⟨b', c, hrun, hmoved, hroom⟩ | ⟨e, hrun⟩ := @ensureFreeSpace_cases fresh b h _ hmax
  · obtain ⟨storage, hstore, hperforms⟩ := hmoved.append (hlength.symm ▸ hroom)
    rw [hlength] at hperforms
    rw [hrun, ok_bind, if_pos hbytes, hstore]
    exact hperforms
  · rw [hrun]
    exact .refused e

/-- `sb_buffer_append_byte` appends the byte. -/
theorem performs_appendByte (h : b.WellFormed) (byte : UInt8) :
    Performs b (b.contents ++ [byte]) (appendByte (.plenty fresh) byte b) :=
  @performs_appendBytes fresh b h [byte] 1 le_rfl (by decide)

/-- `sb_buffer_concat` appends the bytes of the other buffer. -/
theorem performs_concat (h : b.WellFormed) {other : RawBuffer} (hother : other.WellFormed) :
    Performs b (b.contents ++ other.contents) (concat (.plenty fresh) other b) :=
  performs_appendBytes h (hother.size_le.trans_eq hother.capacity_eq)
    (hother.size_le.trans hother.le_max)

/-- `sb_buffer_extend_with_zeros` appends zeros. -/
theorem performs_extendWithZeros (h : b.WellFormed) {numZeros : ℕ}
    (hmax : b.size + numZeros ≤ sizeMax) :
    Performs b (b.contents ++ List.replicate numZeros 0)
      (extendWithZeros (.plenty fresh) numZeros b) := by
  have hsum : (b.size + numZeros) % 2 ^ 64 = b.size + numZeros := by
    have hdef : sizeMax = 2 ^ 64 - 1 := rfl
    omega
  rw [extendWithZeros, hsum]
  obtain ⟨b', c, hrun, hmoved, hroom⟩ | ⟨e, hrun⟩ := @ensureFreeSpace_cases fresh b h _ hmax
  · have hlength : (List.replicate numZeros (0 : UInt8)).length = numZeros :=
      List.length_replicate
    obtain ⟨storage, hstore, hperforms⟩ :=
      @Moved.append b b' c hmoved (List.replicate numZeros 0) (by omega)
    rw [hlength] at hperforms
    rw [hrun, ok_bind, hstore]
    exact hperforms
  · rw [hrun]
    exact .refused e

/-- `sb_buffer_resize` drops bytes at the end, or appends zeros. -/
theorem performs_resize (h : b.WellFormed) {newSize : ℕ} (hmax : newSize ≤ sizeMax) :
    Performs b (b.contents.take newSize ++ List.replicate (newSize - b.size) 0)
      (resize (.plenty fresh) newSize b) := by
  rw [resize]
  cases howned : b.owned with
  | false => exact .refused .failure
  | true =>
      simp only [Bool.not_true, Bool.false_eq_true, if_false]
      by_cases hlt : b.size < newSize
      · rw [if_pos hlt, List.take_of_length_le (h.length_contents.trans_le hlt.le)]
        obtain ⟨b', hrun, hmoved⟩ | hrun := @realloc_cases fresh b h newSize hlt.le hmax
        · have hlength : (List.replicate (newSize - b.size) (0 : UInt8)).length =
              newSize - b.size := List.length_replicate
          obtain ⟨storage, hstore, hperforms⟩ :=
            @Moved.append b b' _ hmoved (List.replicate (newSize - b.size) 0) (by omega)
          have hend : b'.bufEnd + (newSize - b.size) = newSize := by
            have hsize : b'.bufEnd = b.size := hmoved.size_eq
            omega
          rw [hlength, hend] at hperforms
          rw [hrun, ok_bind, hstore]
          exact hperforms
        · rw [hrun]
          exact .refused .failure
      · have hle : newSize ≤ b.size := Nat.le_of_not_lt hlt
        rw [if_neg hlt, Nat.sub_eq_zero_of_le hle, List.replicate_zero, List.append_nil]
        refine .done ⟨h.capacity_eq, hle.trans h.size_le, h.pos, h.le_max, ?_⟩ ?_ howned.symm ?_
        · exact fun hview => absurd hview Bool.true_eq_false.mp
        · rw [contents, contents, List.take_take, min_eq_left hle]
          rfl
        · exact fun hview => absurd (howned.symm.trans hview) Bool.true_eq_false.mp

/-- `sb_buffer_prune` keeps the bytes. -/
theorem performs_prune (h : b.WellFormed) : Performs b b.contents (prune (.plenty fresh) b) := by
  obtain ⟨b', hrun, hmoved⟩ | hrun :=
    @realloc_cases fresh b h b.size le_rfl (h.size_le.trans h.le_max)
  · rw [prune, hrun]
    exact .done hmoved.wellFormed hmoved.contents_eq hmoved.owned_eq fun _ => hmoved.size_eq
  · rw [prune, hrun]
    exact .refused .failure

/-- The bytes of a buffer are inside of its block. -/
theorem fill_eq_ok (h : b.WellFormed) (value : UInt8) :
    fill value b = ok { b with
      storage := List.replicate b.size value ++ b.storage.drop b.size } := by
  have hfits : 0 + (List.replicate b.size value).length ≤ b.storage.length := by
    rw [Nat.zero_add, List.length_replicate]
    exact h.size_le.trans_eq h.capacity_eq
  rw [fill, store, if_pos hfits, List.take_zero, List.nil_append, Nat.zero_add,
    List.length_replicate]

/-- `sb_buffer_fill` overwrites all bytes. -/
theorem performs_fill (h : b.WellFormed) (value : UInt8) :
    Performs b (List.replicate b.size value) (fill value b) := by
  have hle := h.size_le
  rw [fill_eq_ok h]
  refine .done ⟨?_, hle, h.pos, h.le_max, h.view_full⟩ ?_ rfl fun _ => rfl
  · change b.capacity = _
    rw [List.length_append, List.length_replicate, List.length_drop, ← h.capacity_eq]
    omega
  · change List.take b.size _ = _
    rw [List.take_append_of_le_length List.length_replicate.ge,
      List.take_of_length_le List.length_replicate.le]

/-! ### Forgetting the memory -/

/-- The buffer without the memory behind its bytes. -/
def toBuffer (b : RawBuffer) : Buffer := ⟨b.contents, b.capacity, b.owned⟩

/-- The operation has the same result without the memory, if memory can always be had. -/
def Simulates (b : RawBuffer) (x : EStateM SbError Buffer Unit) : Outcome → Prop
  | ok b' => x.run b.toBuffer = .ok () b'.toBuffer
  | error (e, b') => x.run b.toBuffer = .error e b'.toBuffer
  | fault => False
  | outOfFuel => False

variable {alloc : Allocator}

theorem Simulates.of_run_eq {x y : EStateM SbError Buffer Unit} {outcome : Outcome}
    (h : b.Simulates y outcome) (hrun : x.run b.toBuffer = y.run b.toBuffer) :
    b.Simulates x outcome := by
  cases outcome with
  | ok b' => exact hrun.trans h
  | error e => exact hrun.trans h
  | fault => exact h
  | outOfFuel => exact h

theorem simulates_realloc (h : b.WellFormed) (halloc : ∀ n, alloc n = true) {newCapacity : ℕ}
    (hsize : b.size ≤ newCapacity) (hmax : newCapacity ≤ sizeMax) :
    b.Simulates (Buffer.realloc alloc newCapacity) (realloc (.plenty fresh) newCapacity b) := by
  have hcases := @realloc_cases fresh b h newCapacity hsize hmax
  by_cases hsame : b.capacity = max newCapacity 1
  · have hbuffer : b.toBuffer.capacity = max newCapacity 1 := hsame
    simp only [realloc, ne_eq, hsame, not_true_eq_false, if_false, Simulates, Buffer.realloc,
      EStateM.run_bind, EStateM.run_get, hbuffer, EStateM.run_pure]
  · have hbuffer : b.toBuffer.capacity ≠ max newCapacity 1 := hsame
    cases howned : b.owned with
    | false =>
        have hview : b.toBuffer.owned = false := howned
        simp only [realloc, ne_eq, hsame, not_false_eq_true, if_true, howned, Bool.not_false,
          Simulates, Buffer.realloc, EStateM.run_bind, EStateM.run_get, hbuffer, hview,
          EStateM.run_throw]
    | true =>
        have hview : b.toBuffer.owned = true := howned
        obtain ⟨b', hrun, hmoved⟩ | hrun := hcases
        · have htake : b.toBuffer.bytes.take (max newCapacity 1) = b'.contents := by
            rw [hmoved.contents_eq]
            exact List.take_of_length_le
              (h.length_contents.trans_le (hsize.trans (le_max_left _ _)))
          rw [hrun]
          simp only [Simulates, Buffer.realloc, EStateM.run_bind, EStateM.run_get, ne_eq, hbuffer,
            not_false_eq_true, if_true, hview, Bool.not_true, Bool.false_eq_true, if_false,
            halloc, EStateM.run_set, htake]
          simp only [toBuffer, hmoved.capacity_eq, hmoved.owned_eq, howned]
        · simp only [realloc, ne_eq, hsame, not_false_eq_true, if_true, howned, Bool.not_true,
            Bool.false_eq_true, if_false] at hrun
          cases hrun

/-- The loop that grows the capacity, with an overflow reported or not. -/
theorem growCapacity_eq (fuel newSize capacity : ℕ) :
    Buffer.growCapacity fuel newSize capacity =
      match growLoop fuel newSize capacity with
      | ok c => some c
      | _ => none := by
  induction fuel generalizing capacity with
  | zero => rfl
  | succ fuel ih =>
      rw [Buffer.growCapacity, growLoop]
      split
      · split
        · rfl
        · split
          · exact ih _
          · exact ih _
      · rfl

theorem simulates_ensureFreeSpace (h : b.WellFormed) (halloc : ∀ n, alloc n = true)
    (minSpace : ℕ) :
    b.Simulates (Buffer.ensureFreeSpace alloc minSpace)
      (ensureFreeSpace (.plenty fresh) minSpace b) := by
  have hsize : b.toBuffer.size = b.size := h.length_contents
  have hcapacity : b.toBuffer.capacity = b.capacity := rfl
  have hend := h.size_le
  have hmax := h.le_max
  have hpos := h.pos
  have hdef : sizeMax = 2 ^ 64 - 1 := rfl
  by_cases hzero : minSpace = 0
  · simp only [ensureFreeSpace, hzero, if_true, Simulates, Buffer.ensureFreeSpace,
      EStateM.run_bind, EStateM.run_get, ne_eq, not_true_eq_false, if_false, EStateM.run_pure]
  by_cases hover : (b.size + minSpace) % 2 ^ 64 < b.size
  · simp only [ensureFreeSpace, hzero, if_false, hover, if_true, Simulates,
      Buffer.ensureFreeSpace, EStateM.run_bind, EStateM.run_get, ne_eq, not_false_eq_true,
      hsize, Buffer.sizeWith, EStateM.run_throw]
  · have hfuel : (b.size + minSpace) % 2 ^ 64 ≤ b.capacity * 2 ^ 64 := by omega
    have hgrow := growCapacity_eq 66 ((b.size + minSpace) % 2 ^ 64) b.capacity
    have hstops := @growLoop_stops 64 _ _ hmax (Or.inl hfuel)
    simp only [ensureFreeSpace, hzero, if_false, hover]
    obtain ⟨c, hloop, hnew, hle, hc⟩ | hloop := hstops
    · rw [hloop] at hgrow ⊢
      have hrun := @simulates_realloc fresh b alloc h halloc c (hend.trans hle) hc
      have hensure : (Buffer.ensureFreeSpace alloc minSpace).run b.toBuffer =
          (Buffer.realloc alloc c).run b.toBuffer := by
        simp only [Buffer.ensureFreeSpace, EStateM.run_bind, EStateM.run_get, ne_eq, hzero,
          not_false_eq_true, if_true, hsize, hcapacity, Buffer.sizeWith, hover, if_false, hgrow]
      exact hrun.of_run_eq hensure
    · rw [hloop] at hgrow ⊢
      simp only [Simulates, Buffer.ensureFreeSpace, EStateM.run_bind, EStateM.run_get, ne_eq,
        hzero, not_false_eq_true, if_true, hsize, hcapacity, Buffer.sizeWith, hover, if_false,
        hgrow, EStateM.run_throw]

/-- Bytes that are written behind the end of a moved buffer are appended. -/
theorem Moved.toBuffer_append {b' : RawBuffer} {c : ℕ} (h : Moved b b' c) {bytes : List UInt8}
    (hroom : b.size + bytes.length ≤ c) :
    ∃ storage, store b'.bufEnd bytes b' = ok { b' with storage := storage } ∧
      ({ b' with storage := storage, bufEnd := b'.bufEnd + bytes.length } : RawBuffer).toBuffer =
        { b'.toBuffer with bytes := b'.toBuffer.bytes ++ bytes } := by
  obtain ⟨storage, hstore, hperforms⟩ := h.append hroom
  refine ⟨storage, hstore, ?_⟩
  cases hperforms with
  | done _ contents_eq _ _ =>
      rw [toBuffer, contents_eq, ← h.contents_eq]
      rfl

/-- **Extending a buffer**, without its memory. -/
theorem simulates_extendWithZeros (h : b.WellFormed) (halloc : ∀ n, alloc n = true)
    {numZeros : ℕ} (hmax : b.size + numZeros ≤ sizeMax) :
    b.Simulates (Buffer.extendWithZeros alloc numZeros)
      (extendWithZeros (.plenty fresh) numZeros b) := by
  have hsize : b.toBuffer.size = b.size := h.length_contents
  have hsum : (b.size + numZeros) % 2 ^ 64 = b.size + numZeros := by
    have hdef : sizeMax = 2 ^ 64 - 1 := rfl
    omega
  have hensure := @simulates_ensureFreeSpace fresh b alloc h halloc (b.size + numZeros)
  rw [extendWithZeros, hsum]
  obtain ⟨b', c, hrun, hmoved, hroom⟩ | ⟨e, hrun⟩ := @ensureFreeSpace_cases fresh b h _ hmax
  · have hlength : (List.replicate numZeros (0 : UInt8)).length = numZeros :=
      List.length_replicate
    obtain ⟨storage, hstore, happend⟩ :=
      @Moved.toBuffer_append b b' c hmoved (List.replicate numZeros 0) (by omega)
    rw [hrun, Simulates] at hensure
    rw [hlength] at happend
    rw [hrun, ok_bind, hstore, ok_bind, Simulates, happend]
    simp only [Buffer.extendWithZeros, EStateM.run_bind, EStateM.run_get, hsize, hsum, hensure,
      EStateM.run_modify]
  · rw [hrun, Simulates] at hensure
    rw [hrun, error_bind, Simulates]
    simp only [Buffer.extendWithZeros, EStateM.run_bind, EStateM.run_get, hsize, hsum, hensure]

/-- **Resizing a buffer**, without its memory. -/
theorem simulates_resize (h : b.WellFormed) (halloc : ∀ n, alloc n = true) {newSize : ℕ}
    (hmax : newSize ≤ sizeMax) :
    b.Simulates (Buffer.resize alloc newSize) (resize (.plenty fresh) newSize b) := by
  have hsize : b.toBuffer.size = b.size := h.length_contents
  rw [resize]
  cases howned : b.owned with
  | false =>
      have hview : b.toBuffer.owned = false := howned
      simp only [Bool.not_false, if_true, Simulates, Buffer.resize, EStateM.run_bind,
        EStateM.run_get, hview, EStateM.run_throw]
  | true =>
      have hview : b.toBuffer.owned = true := howned
      simp only [Bool.not_true, Bool.false_eq_true, if_false]
      by_cases hlt : b.size < newSize
      · rw [if_pos hlt]
        have hrealloc := @simulates_realloc fresh b alloc h halloc newSize hlt.le hmax
        have hlength : (List.replicate (newSize - b.size) (0 : UInt8)).length =
            newSize - b.size := List.length_replicate
        obtain ⟨b', hrun, hmoved⟩ | hrun := @realloc_cases fresh b h newSize hlt.le hmax
        · obtain ⟨storage, hstore, happend⟩ :=
            @Moved.toBuffer_append b b' _ hmoved (List.replicate (newSize - b.size) 0) (by omega)
          have hend : b'.bufEnd + (newSize - b.size) = newSize := by
            have hsame : b'.bufEnd = b.size := hmoved.size_eq
            omega
          have hkept : b'.toBuffer.size = b.size :=
            hmoved.wellFormed.length_contents.trans hmoved.size_eq
          rw [hrun, Simulates] at hrealloc
          rw [hlength, hend] at happend
          rw [hrun, ok_bind, hstore, ok_bind, Simulates, happend]
          simp only [Buffer.resize, EStateM.run_bind, EStateM.run_get, hview, Bool.not_true,
            Bool.false_eq_true, if_false, hsize, hlt, if_true, hrealloc, EStateM.run_modify, hkept]
        · rw [hrun, Simulates] at hrealloc
          rw [hrun, error_bind, Simulates]
          simp only [Buffer.resize, EStateM.run_bind, EStateM.run_get, hview, Bool.not_true,
            Bool.false_eq_true, if_false, hsize, hlt, if_true, hrealloc]
      · have hle : newSize ≤ b.size := Nat.le_of_not_lt hlt
        have hcut : b.toBuffer.bytes.take newSize = b.storage.take newSize := by
          rw [toBuffer, contents, List.take_take, min_eq_left hle]
        rw [if_neg hlt, Simulates, Buffer.resize_of_le alloc hview (hsize.symm ▸ hle), hcut]
        simp only [toBuffer, howned]
        rfl

end RawBuffer

end Skybrush
