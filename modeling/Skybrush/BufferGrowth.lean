import Skybrush.RawBuffer

/-!
# Growing Buffers

A buffer that is asked for more room doubles its capacity until there is enough, and
reallocates its block (`buffer.c`). Two things can go wrong. The room that is needed is computed
in `size_t`: extending a buffer with zeros adds its size to the number of zeros before the test
for an overflow, so a sum that has wrapped around already is not noticed. And the memory
allocator may refuse the block: the pointers of the buffer are null then.

A capacity of zero cannot be doubled. A buffer that owns its memory always has at least one
byte, but a view may have none, and a buffer that has lost its memory has none either. The
assertions of the source, that a buffer still has its pointers, are compiled out here (`NDEBUG`);
where they are not, the next call on a buffer that has lost its memory aborts.

## Main results

* `RawBuffer.ensureFreeSpace_eq_plenty`, `RawBuffer.ensureFreeSpace_refused`: making room with
  limited memory.
* `RawBuffer.ensureFreeSpace_succeeds_iff`: when room is made if memory can be had.
* `growth_iff`: when a buffer is extended by exactly what was asked for, or left alone.
* `BufferCall.wellFormed_of_leaves`: what calls keep that are not refused any memory.
* `buffer_returns_iff`: when all calls on a buffer return.
-/

namespace Skybrush

open Checked

namespace RawBuffer

/-! ### Limited memory -/

/-- The block that reallocating asks for, if the capacity changes. -/
def blockForCapacity (newCapacity : ℕ) (b : RawBuffer) : Option ℕ :=
  if b.owned ∧ b.capacity ≠ max newCapacity 1 then some (max newCapacity 1) else none

/-- The block that making room asks for, if the capacity changes. -/
def blockForSpace (minSpace : ℕ) (b : RawBuffer) : Option ℕ :=
  if minSpace = 0 ∨ (b.size + minSpace) % 2 ^ 64 < b.size then
    none
  else
    match growLoop 66 ((b.size + minSpace) % 2 ^ 64) b.capacity with
    | ok desiredCapacity => blockForCapacity desiredCapacity b
    | _ => none

section Limited

variable {memory : Memory} {fresh : ℕ → UInt8} {b : RawBuffer}

/-- **Reallocating** a block that is not refused. -/
theorem realloc_eq_plenty {newCapacity : ℕ}
    (h : ∀ c, blockForCapacity newCapacity b = some c → memory c = some fresh) :
    realloc memory newCapacity b = realloc (.plenty fresh) newCapacity b := by
  rw [realloc, realloc]
  by_cases hsame : b.capacity = max newCapacity 1
  · simp only [hsame, ne_eq, not_true_eq_false, if_false]
  · simp only [ne_eq, hsame, not_false_eq_true, if_true]
    cases howned : b.owned with
    | false => rfl
    | true =>
        have hblock : blockForCapacity newCapacity b = some (max newCapacity 1) :=
          if_pos ⟨howned, hsame⟩
        simp only [Bool.not_true, Bool.false_eq_true, if_false, h _ hblock, Memory.plenty_apply]

theorem realloc_refused {newCapacity c : ℕ} (hblock : blockForCapacity newCapacity b = some c)
    (hmemory : memory c = none) : realloc memory newCapacity b = error (.enomem, b.lost) := by
  rw [blockForCapacity] at hblock
  split at hblock
  case isTrue h =>
    cases hblock
    simp only [realloc, ne_eq, h.2, not_false_eq_true, if_true, h.1, Bool.not_true,
      Bool.false_eq_true, if_false, hmemory]
  case isFalse => cases hblock

/-- **Making room** with a block that is not refused. -/
theorem ensureFreeSpace_eq_plenty {minSpace : ℕ}
    (h : ∀ c, blockForSpace minSpace b = some c → memory c = some fresh) :
    ensureFreeSpace memory minSpace b = ensureFreeSpace (.plenty fresh) minSpace b := by
  rw [ensureFreeSpace, ensureFreeSpace]
  rw [blockForSpace] at h
  by_cases hzero : minSpace = 0
  · rw [if_pos hzero, if_pos hzero]
  by_cases hover : (b.size + minSpace) % 2 ^ 64 < b.size
  · simp only [hzero, if_false, hover, if_true]
  simp only [hzero, if_false, hover, or_self] at h ⊢
  cases hloop : growLoop 66 ((b.size + minSpace) % 2 ^ 64) b.capacity with
  | ok c =>
      rw [hloop] at h
      exact realloc_eq_plenty h
  | error | fault | outOfFuel => rfl

theorem ensureFreeSpace_refused {minSpace c : ℕ} (hblock : blockForSpace minSpace b = some c)
    (hmemory : memory c = none) :
    ensureFreeSpace memory minSpace b = error (.enomem, b.lost) := by
  rw [blockForSpace] at hblock
  split at hblock
  · cases hblock
  case isFalse h =>
    rw [not_or] at h
    simp only [ensureFreeSpace, h.1, h.2, if_false]
    split at hblock
    case h_1 desiredCapacity hloop =>
      rw [hloop]
      exact realloc_refused hblock hmemory
    case h_2 => cases hblock

end Limited

/-! ### When room is declined -/

/-- The tests for an overflow decline a request for room. -/
def Declines (minSpace : ℕ) (b : RawBuffer) : Prop :=
  minSpace ≠ 0 ∧
    (sizeMax < b.size + minSpace ∨ b.size + minSpace = sizeMax ∧ b.capacity < sizeMax)

/-- The loop reports an overflow only for the largest size. -/
theorem growLoop_error {fuel newSize capacity : ℕ} {e : SbError} (hmax : newSize ≤ sizeMax)
    (h : growLoop fuel newSize capacity = error e) : newSize = sizeMax ∧ capacity < sizeMax := by
  induction fuel generalizing capacity with
  | zero => cases h
  | succ fuel ih =>
      rw [growLoop] at h
      split at h
      case isTrue hlt =>
        split at h
        case isTrue hlarge => omega
        case isFalse hsmall =>
          split at h
          · exact ⟨(ih h).1, by omega⟩
          · exact ⟨(ih h).1, by omega⟩
      case isFalse => cases h

/-- The largest size is found only if it is there already. -/
theorem growLoop_sizeMax {fuel capacity : ℕ} (hlt : capacity < sizeMax) (c : ℕ) :
    growLoop fuel sizeMax capacity ≠ ok c := by
  have hdef : sizeMax = 2 ^ 64 - 1 := rfl
  induction fuel generalizing capacity with
  | zero =>
      intro h
      cases h
  | succ fuel ih =>
      rw [growLoop, if_pos hlt]
      split
      · intro h
        cases h
      · split
        · exact ih (by omega)
        · exact ih (by omega)

section Exact

variable {memory : Memory} {fresh : ℕ → UInt8} {b : RawBuffer}

/-- More zeros than any block can hold are written behind the end of the block. -/
theorem Moved.store_overflow {b' : RawBuffer} {c count : ℕ} (h : Moved b b' c)
    (hover : sizeMax < b.size + count) :
    store b'.bufEnd (List.replicate count 0) b' = fault := by
  have hsize : b'.bufEnd = b.size := h.size_eq
  have hcapacity := h.wellFormed.capacity_eq
  have hmax := h.wellFormed.le_max
  refine if_neg ?_
  rw [List.length_replicate]
  omega

/-- Only a view is refused to be moved. -/
theorem realloc_ne_error (howned : b.owned = true) (newCapacity : ℕ) (e : SbError × RawBuffer) :
    realloc (.plenty fresh) newCapacity b ≠ error e := by
  intro herror
  rw [realloc] at herror
  simp only [howned, Bool.not_true, Bool.false_eq_true, if_false] at herror
  split at herror <;> cases herror

/-- **Room is declined** to a buffer that owns its memory exactly by the tests for an overflow. -/
theorem ensureFreeSpace_declined_iff (h : b.WellFormed) (howned : b.owned = true) {minSpace : ℕ}
    (hspace : minSpace ≤ sizeMax) :
    (∃ e, ensureFreeSpace (.plenty fresh) minSpace b = error (e, b)) ↔ b.Declines minSpace := by
  have hend := h.size_le
  have hmax := h.le_max
  have hpos := h.pos
  have hdef : sizeMax = 2 ^ 64 - 1 := rfl
  rw [ensureFreeSpace, Declines]
  by_cases hzero : minSpace = 0
  · simp [hzero]
  by_cases hover : (b.size + minSpace) % 2 ^ 64 < b.size
  · have hlarge : sizeMax < b.size + minSpace := by omega
    simp only [hzero, if_false, hover, if_true]
    exact iff_of_true ⟨_, rfl⟩ ⟨hzero, .inl hlarge⟩
  · have hsum : (b.size + minSpace) % 2 ^ 64 = b.size + minSpace := by omega
    have hfuel : b.size + minSpace ≤ b.capacity * 2 ^ 64 := by omega
    have hsmall : ¬ sizeMax < b.size + minSpace := by omega
    simp only [hzero, if_false, hover, ne_eq, not_false_eq_true, true_and, hsmall, false_or]
    rw [hsum]
    obtain ⟨c, hloop, hnew, hle, hc⟩ | hloop := @growLoop_stops 64 _ _ hmax (Or.inl hfuel)
    · have hnot : ¬ (b.size + minSpace = sizeMax ∧ b.capacity < sizeMax) := by
        rintro ⟨hsize, hlt⟩
        rw [hsize] at hloop
        exact growLoop_sizeMax hlt c hloop
      rw [hloop]
      refine iff_of_false ?_ hnot
      rintro ⟨e, herror⟩
      exact realloc_ne_error howned c _ herror
    · have hlargest := growLoop_error (by omega) hloop
      rw [hloop]
      exact iff_of_true ⟨_, rfl⟩ hlargest

/-- Room cannot be made: the buffer is a view, or the tests for an overflow decline the request. -/
def RefusesSpace (minSpace : ℕ) (b : RawBuffer) : Prop :=
  minSpace ≠ 0 ∧ b.owned = false ∨ b.Declines minSpace

/-- A buffer that owns its memory is refused room only because a size overflows. -/
theorem refusesSpace_iff_declines (howned : b.owned = true) (minSpace : ℕ) :
    b.RefusesSpace minSpace ↔ b.Declines minSpace := by
  rw [RefusesSpace, howned]
  simp

/-- A view is full, so it is not given any room. -/
theorem ensureFreeSpace_view (h : b.WellFormed) (hview : b.owned = false) {minSpace : ℕ}
    (hzero : minSpace ≠ 0) (hspace : minSpace ≤ sizeMax) :
    ∃ e, ensureFreeSpace (.plenty fresh) minSpace b = error (e, b) := by
  obtain ⟨b', c, -, hmoved, hroom⟩ | herror := @ensureFreeSpace_cases fresh b h _ hspace
  · have hfull := hmoved.wellFormed.view_full (hmoved.owned_eq.trans hview)
    rw [hmoved.size_eq, hmoved.capacity_eq] at hfull
    omega
  · exact herror

/-- **Room is made** unless the buffer is a view or an overflow test declines the request. -/
theorem ensureFreeSpace_succeeds_iff (h : b.WellFormed) {minSpace : ℕ}
    (hspace : minSpace ≤ sizeMax) :
    (ensureFreeSpace (.plenty fresh) minSpace b).Succeeds ↔ ¬ b.RefusesSpace minSpace := by
  have herror : (∃ e, ensureFreeSpace (.plenty fresh) minSpace b = error (e, b)) ↔
      b.RefusesSpace minSpace := by
    by_cases hzero : minSpace = 0
    · refine iff_of_false ?_ ?_
      · rintro ⟨e, hrun⟩
        rw [ensureFreeSpace, if_pos hzero] at hrun
        cases hrun
      · rintro (hview | hdeclined)
        · exact hview.1 hzero
        · exact hdeclined.1 hzero
    · cases howned : b.owned with
      | true =>
          rw [@ensureFreeSpace_declined_iff fresh b h howned _ hspace,
            refusesSpace_iff_declines howned]
      | false =>
          exact iff_of_true (ensureFreeSpace_view h howned hzero hspace) (.inl ⟨hzero, howned⟩)
  rw [← herror]
  obtain ⟨b', c, hrun, -⟩ | ⟨e, hrun⟩ := @ensureFreeSpace_cases fresh b h _ hspace
  · simp [hrun]
  · simp [hrun]

/-- **Appending bytes** succeeds if there is room for them. -/
theorem appendBytes_succeeds_iff (h : b.WellFormed) {bytes : List UInt8} {numBytes : ℕ}
    (hbytes : numBytes ≤ bytes.length) (hmax : numBytes ≤ sizeMax) :
    (appendBytes (.plenty fresh) bytes numBytes b).Succeeds ↔ ¬ b.RefusesSpace numBytes := by
  have hlength : (bytes.take numBytes).length = numBytes := List.length_take_of_le hbytes
  rw [← @ensureFreeSpace_succeeds_iff fresh b h _ hmax, appendBytes]
  obtain ⟨b', c, hrun, hmoved, hroom⟩ | ⟨e, hrun⟩ := @ensureFreeSpace_cases fresh b h _ hmax
  · obtain ⟨storage, hstore, -⟩ := hmoved.append (hlength.symm ▸ hroom)
    simp [hrun, hbytes, hstore]
  · simp [hrun]

/-- **Extending with zeros** succeeds if there is room for the size of the buffer and them. -/
theorem extendWithZeros_succeeds_iff (h : b.WellFormed) {numZeros : ℕ}
    (hmax : b.size + numZeros ≤ sizeMax) :
    (extendWithZeros (.plenty fresh) numZeros b).Succeeds ↔
      ¬ b.RefusesSpace (b.size + numZeros) := by
  have hsum : (b.size + numZeros) % 2 ^ 64 = b.size + numZeros := by
    have hdef : sizeMax = 2 ^ 64 - 1 := rfl
    omega
  rw [← @ensureFreeSpace_succeeds_iff fresh b h _ hmax, extendWithZeros, hsum]
  obtain ⟨b', c, hrun, hmoved, hroom⟩ | ⟨e, hrun⟩ := @ensureFreeSpace_cases fresh b h _ hmax
  · have hlength : (List.replicate numZeros (0 : UInt8)).length = numZeros :=
      List.length_replicate
    obtain ⟨storage, hstore, -⟩ :=
      @Moved.append b b' c hmoved (List.replicate numZeros 0) (by omega)
    simp [hrun, hstore]
  · simp [hrun]

/-- **Resizing** succeeds unless the buffer is a view. -/
theorem resize_succeeds_iff (h : b.WellFormed) {newSize : ℕ} (hmax : newSize ≤ sizeMax) :
    (resize (.plenty fresh) newSize b).Succeeds ↔ b.owned = true := by
  rw [resize]
  cases howned : b.owned with
  | false => simp
  | true =>
      by_cases hlt : b.size < newSize
      · obtain ⟨b', hrun, hmoved⟩ | herror := @realloc_cases fresh b h newSize hlt.le hmax
        · have hlength : (List.replicate (newSize - b.size) (0 : UInt8)).length =
              newSize - b.size := List.length_replicate
          obtain ⟨storage, hstore, -⟩ :=
            @Moved.append b b' _ hmoved (List.replicate (newSize - b.size) 0) (by omega)
          simp [hlt, hrun, hstore]
        · exact absurd herror (realloc_ne_error howned newSize _)
      · simp [hlt]

/-- **Pruning** always succeeds: a view is full already. -/
theorem prune_succeeds (h : b.WellFormed) : (prune (.plenty fresh) b).Succeeds := by
  obtain ⟨b', hrun, -⟩ | herror :=
    @realloc_cases fresh b h b.size le_rfl (h.size_le.trans h.le_max)
  · exact ⟨b', hrun⟩
  · cases howned : b.owned with
    | true => exact absurd herror (realloc_ne_error howned b.size _)
    | false =>
        have hpos := h.pos
        have hfull := h.view_full howned
        exact ⟨b, if_neg (not_not.mpr (by omega))⟩

/-- What is promised of a call that extends a buffer by a number of bytes: it does, without a
wrap-around and within the capacity, or reports an error and leaves the buffer alone. -/
inductive GrowsExactly (b : RawBuffer) (count : ℕ) : Outcome → Prop
  | extended {b' : RawBuffer} (hsize : b'.size = b.size + count) (hle : b'.size ≤ b'.capacity)
      (hmax : b'.capacity ≤ sizeMax) : GrowsExactly b count (ok b')
  | refused {b' : RawBuffer} (e : SbError) (hsize : b'.size = b.size)
      (hcapacity : b'.capacity = b.capacity) (hcontents : b'.contents = b.contents) :
      GrowsExactly b count (error (e, b'))

theorem Performs.growsExactly {bytes : List UInt8} {count : ℕ} {outcome : Outcome}
    (h : b.Performs bytes outcome) (hlength : bytes.length = b.size + count) :
    b.GrowsExactly count outcome := by
  cases h with
  | @done b' wellFormed contents_eq _ _ =>
      refine .extended ?_ wellFormed.size_le wellFormed.le_max
      rw [← wellFormed.length_contents, contents_eq, hlength]
  | refused e => exact .refused e rfl rfl rfl

/-- A buffer that is lost was not left alone. -/
theorem not_growsExactly_lost (h : b.WellFormed) (count : ℕ) (e : SbError) :
    ¬ b.GrowsExactly count (error (e, b.lost)) := by
  have hpos := h.pos
  intro hgrows
  cases hgrows with
  | refused _ _ hcapacity _ =>
      change 0 = b.capacity at hcapacity
      omega

/-- The block that is asked for, if there is one, is not refused. -/
def Served (memory : Memory) (block : Option ℕ) : Prop := ∀ c, block = some c → memory c ≠ none

/-- Either a block is refused, or all that matters is in one new part. -/
theorem refused_or_served (memory : Memory) (block : Option ℕ) :
    (¬ Served memory block ∧ ∃ c, block = some c ∧ memory c = none) ∨
      Served memory block ∧ ∃ fresh, ∀ c, block = some c → memory c = some fresh := by
  cases block with
  | none => exact .inr ⟨nofun, fun _ => 0, nofun⟩
  | some c =>
      cases hmemory : memory c with
      | none => exact .inl ⟨fun hserved => hserved c rfl hmemory, c, rfl, hmemory⟩
      | some fresh =>
          refine .inr ⟨?_, fresh, ?_⟩
          · rintro _ ⟨⟩
            rw [hmemory]
            exact nofun
          · rintro _ ⟨⟩
            exact hmemory

/-- **Appending bytes** grows a buffer exactly if the block that it needs is not refused. -/
theorem growsExactly_appendBytes_iff (h : b.WellFormed) (howned : b.owned = true)
    {bytes : List UInt8} {count : ℕ} (hcount : count ≤ sizeMax)
    (hbytes : b.size + count ≤ sizeMax → count ≤ bytes.length) :
    b.GrowsExactly count (appendBytes memory bytes count b) ↔
      Served memory (b.blockForSpace count) := by
  obtain ⟨hnot, c, hblock, hmemory⟩ | ⟨hserved, fresh, hfresh⟩ :=
    refused_or_served memory (b.blockForSpace count)
  · rw [appendBytes, ensureFreeSpace_refused hblock hmemory]
    exact iff_of_false (not_growsExactly_lost h count _) hnot
  · refine iff_of_true ?_ hserved
    rw [appendBytes, ensureFreeSpace_eq_plenty hfresh]
    by_cases hover : b.size + count ≤ sizeMax
    · refine (@performs_appendBytes fresh b h bytes count (hbytes hover) hcount).growsExactly ?_
      rw [List.length_append, h.length_contents, List.length_take_of_le (hbytes hover)]
    · have hdef : sizeMax = 2 ^ 64 - 1 := rfl
      have hend := h.size_le
      have hmax := h.le_max
      obtain ⟨e, herror⟩ := (@ensureFreeSpace_declined_iff fresh b h howned count hcount).mpr
        ⟨by omega, .inl (by omega)⟩
      rw [herror]
      exact .refused e rfl rfl rfl

/-- **Extending with zeros** grows a buffer exactly if the block that it asks for is not refused,
and the new size does not overflow or what is left of it is declined. -/
theorem growsExactly_extendWithZeros_iff (h : b.WellFormed) (howned : b.owned = true) {count : ℕ} :
    b.GrowsExactly count (extendWithZeros memory count b) ↔
      Served memory (b.blockForSpace ((b.size + count) % 2 ^ 64)) ∧
        (b.size + count ≤ sizeMax ∨ b.Declines ((b.size + count) % 2 ^ 64)) := by
  have hdef : sizeMax = 2 ^ 64 - 1 := rfl
  have hlt : (b.size + count) % 2 ^ 64 < 2 ^ 64 := Nat.mod_lt _ (by decide)
  obtain ⟨hnot, c, hblock, hmemory⟩ | ⟨hserved, fresh, hfresh⟩ :=
    refused_or_served memory (b.blockForSpace ((b.size + count) % 2 ^ 64))
  · rw [extendWithZeros, ensureFreeSpace_refused hblock hmemory]
    exact iff_of_false (not_growsExactly_lost h count _) fun hboth => hnot hboth.1
  · rw [extendWithZeros, ensureFreeSpace_eq_plenty hfresh, and_iff_right hserved]
    by_cases hfits : b.size + count ≤ sizeMax
    · refine iff_of_true ?_ (.inl hfits)
      refine (@performs_extendWithZeros fresh b h count hfits).growsExactly ?_
      rw [List.length_append, h.length_contents, List.length_replicate]
    · rw [or_iff_right hfits,
        ← @ensureFreeSpace_declined_iff fresh b h howned _ (show _ ≤ sizeMax by omega)]
      obtain ⟨b', c, hrun, hmoved, -⟩ | ⟨e, herror⟩ :=
        @ensureFreeSpace_cases fresh b h _ (show (b.size + count) % 2 ^ 64 ≤ sizeMax by omega)
      · rw [hrun, ok_bind, hmoved.store_overflow (not_le.mp hfits)]
        refine iff_of_false ?_ ?_
        · intro hgrows
          cases hgrows
        · rintro ⟨e, herror⟩
          cases herror
      · rw [herror]
        exact iff_of_true (.refused e rfl rfl rfl) ⟨e, rfl⟩

end Exact

end RawBuffer

open RawBuffer

/-- **A buffer grows exactly**: for every buffer that owns its memory and every number of bytes,
appending bytes extends the buffer by that many or leaves it alone, if and only if the block
that it needs is not refused; extending with zeros does if and only if the block that it asks
for is not refused, and the new size does not overflow or what is left of it behind the
overflow is declined. -/
theorem growth_iff (memory : Memory) {b : RawBuffer} (h : b.WellFormed) (howned : b.owned = true)
    {bytes : List UInt8} {count : ℕ} (hcount : count ≤ sizeMax)
    (hbytes : b.size + count ≤ sizeMax → count ≤ bytes.length) :
    (b.GrowsExactly count (appendBytes memory bytes count b) ↔
        Served memory (b.blockForSpace count)) ∧
      (b.GrowsExactly count (extendWithZeros memory count b) ↔
        Served memory (b.blockForSpace ((b.size + count) % 2 ^ 64)) ∧
          (b.size + count ≤ sizeMax ∨ b.Declines ((b.size + count) % 2 ^ 64))) :=
  ⟨growsExactly_appendBytes_iff h howned hcount hbytes, growsExactly_extendWithZeros_iff h howned⟩

/-- A new buffer of one byte is extended by two bytes. -/
theorem growth_iff_twoBytes :
    (RawBuffer.init 1).GrowsExactly 2
        (appendBytes (fun _ => some fun _ => 0) [1, 2] 2 (RawBuffer.init 1)) ∧
      (RawBuffer.init 1).GrowsExactly 2
        (extendWithZeros (fun _ => some fun _ => 0) 2 (RawBuffer.init 1)) := by
  have hserved : ∀ block, Served (fun _ => some fun _ => 0) block := fun _ _ _ => nofun
  have hgrowth := @growth_iff (fun _ => some fun _ => 0) (RawBuffer.init 1)
    (wellFormed_init (by decide)) rfl [1, 2] 2 (by decide) fun _ => le_rfl
  exact ⟨hgrowth.1.mpr (hserved _), hgrowth.2.mpr ⟨hserved _, .inl (by decide)⟩⟩

/-- A buffer of one byte is extended with `SIZE_MAX` zeros: one and `SIZE_MAX` make zero, no room
is asked for, and the zeros are written behind the end of the block. -/
theorem extend_wrapsAround :
    (RawBuffer.init 1).WellFormed ∧ (RawBuffer.init 1).owned = true ∧
      ∀ memory, extendWithZeros memory sizeMax (RawBuffer.init 1) = fault ∧
        ¬ (RawBuffer.init 1).GrowsExactly sizeMax
          (extendWithZeros memory sizeMax (RawBuffer.init 1)) := by
  refine ⟨wellFormed_init (by decide), rfl, fun memory => ?_⟩
  have hfault : extendWithZeros memory sizeMax (RawBuffer.init 1) = fault := by
    have hzero : ((RawBuffer.init 1).size + sizeMax) % 2 ^ 64 = 0 := by decide
    have hroom : ensureFreeSpace memory 0 (RawBuffer.init 1) = ok (RawBuffer.init 1) :=
      if_pos rfl
    have hoverflow : ¬ (RawBuffer.init 1).bufEnd + (List.replicate sizeMax (0 : UInt8)).length ≤
        (RawBuffer.init 1).storage.length := by
      rw [List.length_replicate]
      decide
    rw [extendWithZeros, hzero, hroom, ok_bind, store, if_neg hoverflow]
    rfl
  refine ⟨hfault, ?_⟩
  rw [hfault]
  intro h
  cases h

/-! ### Calls -/

/-- How a buffer comes into being. -/
inductive BufferCreation where
  | init (initialSize : ℕ)
  | initFromBytes (bytes : List UInt8)
  | initView (bytes : List UInt8)

/-- A call on a buffer. -/
inductive BufferCall where
  | resize (newSize : ℕ)
  | clear
  | prune
  | fill (value : UInt8)
  | appendByte (byte : UInt8)
  | appendBytes (bytes : List UInt8) (numBytes : ℕ)
  | concat (other : RawBuffer)
  | extendWithZeros (numZeros : ℕ)

namespace BufferCreation

/-- Sizes are of type `size_t`. -/
def Valid : BufferCreation → Prop
  | init initialSize => initialSize ≤ sizeMax
  | initFromBytes bytes => bytes.length ≤ sizeMax
  | initView bytes => bytes.length ≤ sizeMax

/-- The buffer that is made. -/
def make : BufferCreation → Except SbError RawBuffer
  | init initialSize => .ok (RawBuffer.init initialSize)
  | initFromBytes bytes => RawBuffer.initFromBytes bytes
  | initView bytes => .ok (RawBuffer.initView bytes)

/-- A new buffer is well-formed, unless it is a view of nothing. -/
theorem wellFormed {creation : BufferCreation} {b : RawBuffer} (hvalid : creation.Valid)
    (hmake : creation.make = .ok b) (hne : creation ≠ initView []) : b.WellFormed := by
  cases creation with
  | init initialSize =>
      cases hmake
      exact wellFormed_init hvalid
  | initFromBytes bytes =>
      rcases eq_or_ne bytes [] with rfl | hbytes
      · cases hmake
      · rw [make, initFromBytes_of_ne hbytes] at hmake
        cases hmake
        exact wellFormed_full hbytes hvalid true
  | initView bytes =>
      cases hmake
      exact wellFormed_full (fun hnil => hne (hnil ▸ rfl)) hvalid false

end BufferCreation

namespace BufferCall

/-- What a call does. -/
def exec (memory : Memory) (b : RawBuffer) : BufferCall → Outcome
  | resize newSize => RawBuffer.resize memory newSize b
  | clear => RawBuffer.clear memory b
  | prune => RawBuffer.prune memory b
  | fill value => RawBuffer.fill value b
  | appendByte byte => RawBuffer.appendByte memory byte b
  | appendBytes bytes numBytes => RawBuffer.appendBytes memory bytes numBytes b
  | concat other => RawBuffer.concat memory other b
  | extendWithZeros numZeros => RawBuffer.extendWithZeros memory numZeros b

/-- The block that a call asks for, if it needs another one. -/
def block (b : RawBuffer) : BufferCall → Option ℕ
  | resize newSize => if b.size < newSize then b.blockForCapacity newSize else none
  | clear => none
  | prune => b.blockForCapacity b.size
  | fill _ => none
  | appendByte _ => b.blockForSpace 1
  | appendBytes _ numBytes => b.blockForSpace numBytes
  | concat other => b.blockForSpace other.size
  | extendWithZeros numZeros => b.blockForSpace ((b.size + numZeros) % 2 ^ 64)

/-- Sizes are of type `size_t`. -/
def Valid : BufferCall → Prop
  | resize newSize => newSize ≤ sizeMax
  | appendBytes _ numBytes => numBytes ≤ sizeMax
  | concat other => other.size ≤ sizeMax
  | extendWithZeros numZeros => numZeros ≤ sizeMax
  | _ => True

/-- The call leaves a buffer, with or without an error. -/
def Leaves (memory : Memory) (b b' : RawBuffer) (call : BufferCall) : Prop :=
  call.exec memory b = ok b' ∨ ∃ e, call.exec memory b = error (e, b')

variable {memory : Memory} {fresh : ℕ → UInt8} {b b' : RawBuffer} {call : BufferCall}

/-- **A call that is not refused any memory** does what it does if memory can always be had. -/
theorem exec_eq_plenty (h : ∀ c, call.block b = some c → memory c = some fresh) :
    call.exec memory b = call.exec (.plenty fresh) b := by
  cases call with
  | resize newSize =>
      rw [block] at h
      rw [exec, exec, RawBuffer.resize, RawBuffer.resize]
      by_cases hlt : b.size < newSize
      · rw [if_pos hlt] at h
        rw [realloc_eq_plenty h]
      · rw [if_neg hlt, if_neg hlt]
  | clear => rfl
  | prune => exact realloc_eq_plenty h
  | fill value => rfl
  | appendByte byte =>
      rw [exec, RawBuffer.appendByte, RawBuffer.appendBytes, ensureFreeSpace_eq_plenty h]
      rfl
  | appendBytes bytes numBytes =>
      rw [exec, RawBuffer.appendBytes, ensureFreeSpace_eq_plenty h]
      rfl
  | concat other =>
      rw [exec, RawBuffer.concat, RawBuffer.appendBytes, ensureFreeSpace_eq_plenty h]
      rfl
  | extendWithZeros numZeros =>
      rw [exec, RawBuffer.extendWithZeros, ensureFreeSpace_eq_plenty h]
      rfl

/-- A call that is refused its block loses the buffer. -/
theorem exec_refused {c : ℕ} (hblock : call.block b = some c) (hmemory : memory c = none) :
    call.exec memory b = error (.enomem, b.lost) := by
  cases call with
  | resize newSize =>
      rw [block] at hblock
      split at hblock
      case isTrue hlt =>
        have howned : b.owned = true := by
          rw [blockForCapacity] at hblock
          split at hblock
          case isTrue h => exact h.1
          case isFalse => cases hblock
        rw [exec, RawBuffer.resize, howned, if_pos hlt, RawBuffer.realloc_refused hblock hmemory]
        rfl
      case isFalse => cases hblock
  | clear => cases hblock
  | prune => exact RawBuffer.realloc_refused hblock hmemory
  | fill value => cases hblock
  | appendByte byte =>
      rw [exec, RawBuffer.appendByte, RawBuffer.appendBytes,
        RawBuffer.ensureFreeSpace_refused hblock hmemory]
      rfl
  | appendBytes bytes numBytes =>
      rw [exec, RawBuffer.appendBytes, RawBuffer.ensureFreeSpace_refused hblock hmemory]
      rfl
  | concat other =>
      rw [exec, RawBuffer.concat, RawBuffer.appendBytes,
        RawBuffer.ensureFreeSpace_refused hblock hmemory]
      rfl
  | extendWithZeros numZeros =>
      rw [exec, RawBuffer.extendWithZeros, RawBuffer.ensureFreeSpace_refused hblock hmemory]
      rfl

/-- A call that can have memory writes outside of the block, or leaves a well-formed buffer, or
reports an error and changes nothing. -/
def Settles (b : RawBuffer) (outcome : Outcome) : Prop :=
  outcome = fault ∨ (∃ b' : RawBuffer, outcome = ok b' ∧ b'.WellFormed) ∨
    ∃ e, outcome = error (e, b)

theorem settles_of_performs {bytes : List UInt8} {outcome : Outcome}
    (h : b.Performs bytes outcome) : Settles b outcome := by
  cases h with
  | @done b' wellFormed _ _ _ => exact .inr (.inl ⟨b', rfl, wellFormed⟩)
  | refused e => exact .inr (.inr ⟨e, rfl⟩)

theorem settles_appendBytes (h : b.WellFormed) (bytes : List UInt8) {numBytes : ℕ}
    (hmax : numBytes ≤ sizeMax) :
    Settles b (RawBuffer.appendBytes (.plenty fresh) bytes numBytes b) := by
  by_cases hbytes : numBytes ≤ bytes.length
  · exact settles_of_performs (performs_appendBytes h hbytes hmax)
  · rw [RawBuffer.appendBytes]
    obtain ⟨b', c, hrun, -⟩ | ⟨e, herror⟩ := @ensureFreeSpace_cases fresh b h _ hmax
    · rw [hrun, ok_bind, if_neg hbytes]
      exact .inl rfl
    · rw [herror]
      exact .inr (.inr ⟨e, rfl⟩)

theorem settles_extendWithZeros (h : b.WellFormed) (numZeros : ℕ) :
    Settles b (RawBuffer.extendWithZeros (.plenty fresh) numZeros b) := by
  have hdef : sizeMax = 2 ^ 64 - 1 := rfl
  have hlt : (b.size + numZeros) % 2 ^ 64 < 2 ^ 64 := Nat.mod_lt _ (by decide)
  by_cases hfits : b.size + numZeros ≤ sizeMax
  · exact settles_of_performs (performs_extendWithZeros h hfits)
  · rw [RawBuffer.extendWithZeros]
    obtain ⟨b', c, hrun, hmoved, -⟩ | ⟨e, herror⟩ :=
      @ensureFreeSpace_cases fresh b h _ (show (b.size + numZeros) % 2 ^ 64 ≤ sizeMax by omega)
    · rw [hrun, ok_bind, hmoved.store_overflow (by omega)]
      exact .inl rfl
    · rw [herror]
      exact .inr (.inr ⟨e, rfl⟩)

/-- **What a call comes to** on a well-formed buffer if memory can be had. -/
theorem settles_exec (h : b.WellFormed) (hvalid : call.Valid) :
    Settles b (call.exec (.plenty fresh) b) := by
  cases call with
  | resize newSize => exact settles_of_performs (performs_resize h hvalid)
  | clear => exact settles_of_performs (performs_resize h (Nat.zero_le _))
  | prune => exact settles_of_performs (performs_prune h)
  | fill value => exact settles_of_performs (performs_fill h value)
  | appendByte byte => exact settles_of_performs (performs_appendByte h byte)
  | appendBytes bytes numBytes => exact settles_appendBytes h bytes hvalid
  | concat other => exact settles_appendBytes h other.storage hvalid
  | extendWithZeros numZeros => exact settles_extendWithZeros h numZeros

/-- **A call that is not refused any memory** leaves a well-formed buffer. -/
theorem wellFormed_of_leaves (h : b.WellFormed) (hvalid : call.Valid)
    (hserved : Served memory (call.block b)) (hleaves : call.Leaves memory b b') :
    b'.WellFormed := by
  obtain ⟨hnot, -⟩ | ⟨-, fresh, hfresh⟩ := refused_or_served memory (call.block b)
  · exact absurd hserved hnot
  have hsettles := @settles_exec fresh b call h hvalid
  rw [Leaves, exec_eq_plenty hfresh] at hleaves
  obtain hfault | ⟨b₁, hok, hwf⟩ | ⟨e, herror⟩ := hsettles
  · rw [hfault] at hleaves
    rcases hleaves with hleaves | ⟨e, hleaves⟩ <;> cases hleaves
  · rw [hok] at hleaves
    rcases hleaves with hleaves | ⟨e, hleaves⟩
    · cases hleaves
      exact hwf
    · cases hleaves
  · rw [herror] at hleaves
    rcases hleaves with hleaves | ⟨e, hleaves⟩
    · cases hleaves
    · cases hleaves
      exact h

/-- **Every call on a well-formed buffer returns.** -/
theorem exec_ne_outOfFuel (h : b.WellFormed) (hvalid : call.Valid) :
    call.exec memory b ≠ outOfFuel := by
  obtain ⟨-, c, hblock, hmemory⟩ | ⟨-, fresh, hfresh⟩ := refused_or_served memory (call.block b)
  · rw [exec_refused hblock hmemory]
    exact nofun
  · rw [exec_eq_plenty hfresh]
    obtain hfault | ⟨b₁, hok, -⟩ | ⟨e, herror⟩ := @settles_exec fresh b call h hvalid
    · rw [hfault]
      exact nofun
    · rw [hok]
      exact nofun
    · rw [herror]
      exact nofun

end BufferCall

/-! ### Runs -/

open BufferCall

/-- Whatever is asked of a buffer, the loop that doubles the capacity stops, and the call
returns. -/
structure AlwaysReturns (b : RawBuffer) : Prop where
  loop_stops : ∀ minSpace, 0 < minSpace → minSpace ≤ sizeMax →
    ∃ fuel, growLoop fuel ((b.size + minSpace) % 2 ^ 64) b.capacity ≠ outOfFuel
  returns : ∀ (memory : Memory) (call : BufferCall), call.Valid →
    call.exec memory b ≠ outOfFuel

theorem RawBuffer.WellFormed.alwaysReturns {b : RawBuffer} (h : b.WellFormed) :
    AlwaysReturns b where
  loop_stops := by
    intro minSpace _ _
    have hpos := h.pos
    have hlt : (b.size + minSpace) % 2 ^ 64 < 2 ^ 64 := Nat.mod_lt _ (by decide)
    refine ⟨66, ?_⟩
    obtain ⟨c, hloop, -⟩ | hloop := @growLoop_stops 64 ((b.size + minSpace) % 2 ^ 64) _ h.le_max
      (Or.inl (by omega))
    · rw [hloop]
      exact nofun
    · rw [hloop]
      exact nofun
  returns _ _ hvalid := exec_ne_outOfFuel h hvalid

/-- A capacity of zero is never doubled to anything else. -/
theorem growLoop_zero (fuel : ℕ) : growLoop fuel 1 0 = outOfFuel := by
  induction fuel with
  | zero => rfl
  | succ fuel ih =>
      rw [growLoop, if_pos one_pos, if_neg (by decide), if_pos (by decide), zero_mul]
      exact ih

/-- A buffer without any memory runs for ever when it is asked for a byte. -/
theorem not_alwaysReturns {b : RawBuffer} (hsize : b.size = 0) (hcapacity : b.capacity = 0) :
    ¬ AlwaysReturns b := by
  intro h
  obtain ⟨fuel, hloop⟩ := h.loop_stops 1 one_pos (by decide)
  rw [hsize, hcapacity] at hloop
  exact hloop (growLoop_zero fuel)

/-- A run of calls on a buffer, each with the memory that can be had and with the buffer behind
it. -/
inductive BufferRun : RawBuffer → List (BufferCall × Memory × RawBuffer) → Prop
  | nil {b : RawBuffer} : BufferRun b []
  | cons {b b' : RawBuffer} {call : BufferCall} {memory : Memory}
      {steps : List (BufferCall × Memory × RawBuffer)} (hvalid : call.Valid)
      (hleaves : call.Leaves memory b b') (hrest : BufferRun b' steps) :
      BufferRun b ((call, memory, b') :: steps)

/-- No call of a run is refused the block that it asks for. -/
def NoneRefused : RawBuffer → List (BufferCall × Memory × RawBuffer) → Prop
  | _, [] => True
  | b, (call, memory, b') :: steps => Served memory (call.block b) ∧ NoneRefused b' steps

/-- **In a run** on a well-formed buffer, all calls return in all states as long as no block is
refused. -/
theorem BufferRun.alwaysReturns_iff {b : RawBuffer}
    {steps : List (BufferCall × Memory × RawBuffer)} (h : b.WellFormed) (hrun : BufferRun b steps) :
    (∀ s ∈ steps, AlwaysReturns s.2.2) ↔ NoneRefused b steps := by
  induction hrun with
  | nil => exact ⟨fun _ => trivial, fun _ => List.forall_mem_nil _⟩
  | @cons b b' call memory steps hvalid hleaves hrest ih =>
      rw [List.forall_mem_cons, NoneRefused]
      obtain ⟨hnot, c, hblock, hmemory⟩ | ⟨hserved, -⟩ := refused_or_served memory (call.block b)
      · -- the buffer is lost
        have hlost : b' = b.lost := by
          rw [Leaves, exec_refused hblock hmemory] at hleaves
          rcases hleaves with hleaves | ⟨e, hleaves⟩
          · cases hleaves
          · cases hleaves
            rfl
        subst hlost
        exact iff_of_false (fun hall => not_alwaysReturns rfl rfl hall.1) fun hall => hnot hall.1
      · have hwf := wellFormed_of_leaves h hvalid hserved hleaves
        rw [and_iff_right hwf.alwaysReturns, and_iff_right hserved]
        exact ih hwf

/-- **All calls on a buffer return**: for every buffer that was initialised, from nothing, from
bytes or as a view, and every run of calls, the loop that doubles the capacity stops and every
call returns, in all states of the run, if and only if the buffer is not a view of nothing and
no call of the run was refused the block that it asked for. -/
theorem buffer_returns_iff {creation : BufferCreation} {b : RawBuffer}
    (hvalid : creation.Valid) (hmake : creation.make = .ok b)
    {steps : List (BufferCall × Memory × RawBuffer)} (hrun : BufferRun b steps) :
    (AlwaysReturns b ∧ ∀ s ∈ steps, AlwaysReturns s.2.2) ↔
      creation ≠ .initView [] ∧ NoneRefused b steps := by
  by_cases hview : creation = .initView []
  · subst hview
    cases hmake
    exact iff_of_false (fun h => not_alwaysReturns rfl rfl h.1) fun h => h.1 rfl
  · have hwf := BufferCreation.wellFormed hvalid hmake hview
    rw [and_iff_right hwf.alwaysReturns, and_iff_right hview]
    exact hrun.alwaysReturns_iff hwf

/-- A new buffer without bytes, after a byte was appended. -/
theorem buffer_returns_iff_oneByte :
    AlwaysReturns (RawBuffer.init 0) ∧ AlwaysReturns ⟨[7], 1, 1, true⟩ := by
  have hrun : BufferRun (RawBuffer.init 0)
      [(.appendByte 7, fun _ => none, ⟨[7], 1, 1, true⟩)] :=
    .cons trivial (.inl (by decide +kernel)) .nil
  have hserved : NoneRefused (RawBuffer.init 0)
      [(.appendByte 7, fun _ => none, ⟨[7], 1, 1, true⟩)] := by
    have hblock : (RawBuffer.init 0).blockForSpace 1 = none := by decide +kernel
    refine ⟨?_, trivial⟩
    rw [block, hblock]
    exact nofun
  have hreturns := (@buffer_returns_iff (.init 0) _ (Nat.zero_le _) rfl _ hrun).mpr
    ⟨nofun, hserved⟩
  exact ⟨hreturns.1, hreturns.2 _ (List.mem_singleton_self _)⟩

/-- A byte that is appended to a view of nothing: the loop runs for ever. -/
theorem emptyView_runsForever :
    BufferCreation.make (.initView []) = .ok ⟨[], 0, 0, false⟩ ∧
      (∀ fuel, growLoop fuel ((0 + 1) % 2 ^ 64) 0 = outOfFuel) ∧
      (∀ memory, (BufferCall.appendByte 7).exec memory ⟨[], 0, 0, false⟩ = outOfFuel) ∧
      ¬ AlwaysReturns ⟨[], 0, 0, false⟩ := by
  refine ⟨rfl, growLoop_zero, fun memory => ?_, not_alwaysReturns rfl rfl⟩
  have hroom : RawBuffer.ensureFreeSpace memory 1 ⟨[], 0, 0, false⟩ = outOfFuel := by
    have hloop : growLoop 66 ((0 + 1) % 2 ^ 64) 0 = outOfFuel := growLoop_zero 66
    simp only [RawBuffer.ensureFreeSpace, size, capacity, hloop]
    rfl
  rw [exec, RawBuffer.appendByte, RawBuffer.appendBytes, hroom]
  rfl

end Skybrush
