import Mathlib.Tactic.Common
import Skybrush.Library.Base128

/-!
# Bytecode Stores

The store that the light player reads its bytecode from (`ArrayBytecodeStore`): a
read-only array with a location, and a counter of the suspensions that are pending. A
read at or behind the end of the store yields `CMD_END` and does not move; a read from a
suspended store yields `CMD_NOP`.

## Main results

* `BytecodeStore.nextVarint_eq`: the variable-length integer reader of the executor
  always stops, with any fuel from the number of remaining bytes on.
* `BytecodeStore.sameCode_next`: reading moves the location and changes nothing else.
-/

namespace Skybrush

/-! ### Command codes -/

/-- The codes of the bytecode commands: `command_t`. -/
inductive CommandCode where
  | end_
  | nop
  | sleep
  | waitUntil
  | setColor
  | setGray
  | setBlack
  | setWhite
  | fadeToColor
  | fadeToGray
  | fadeToBlack
  | fadeToWhite
  | loopBegin
  | loopEnd
  | resetClock
  | setColorFromChannels
  | fadeToColorFromChannels
  | jump
  | triggeredJump
  | setPyro
  | setPyroAll
  deriving DecidableEq, Repr

/-- The command of a code byte; `0x0F` and everything from `0x16` on is no command. -/
def CommandCode.ofByte (b : UInt8) : Option CommandCode :=
  match b.toNat with
  | 0x00 => some end_
  | 0x01 => some nop
  | 0x02 => some sleep
  | 0x03 => some waitUntil
  | 0x04 => some setColor
  | 0x05 => some setGray
  | 0x06 => some setBlack
  | 0x07 => some setWhite
  | 0x08 => some fadeToColor
  | 0x09 => some fadeToGray
  | 0x0A => some fadeToBlack
  | 0x0B => some fadeToWhite
  | 0x0C => some loopBegin
  | 0x0D => some loopEnd
  | 0x0E => some resetClock
  | 0x10 => some setColorFromChannels
  | 0x11 => some fadeToColorFromChannels
  | 0x12 => some jump
  | 0x13 => some triggeredJump
  | 0x14 => some setPyro
  | 0x15 => some setPyroAll
  | _ => none

/-- `CMD_END`. -/
def cmdEnd : UInt8 := 0x00

/-- `CMD_NOP`. -/
def cmdNop : UInt8 := 0x01

/-! ### The store -/

/-- A store over an array: `ArrayBytecodeStore`. The size is a 16-bit number that never
exceeds the length of the array. -/
structure BytecodeStore where
  data : List UInt8
  size : ℕ
  size_le : size ≤ data.length
  nextIndex : ℕ
  suspendCounter : Int16

namespace BytecodeStore

/-- The store over a program: the length of the program is converted to 16 bits. -/
def ofArray (data : List UInt8) : BytecodeStore where
  data := data
  size := data.length % 2 ^ 16
  size_le := Nat.mod_le _ _
  nextIndex := 0
  suspendCounter := 0

/-- Whether the store contains no code: `ArrayBytecodeStore::empty`. -/
def isEmpty (s : BytecodeStore) : Bool := s.size = 0

/-- Whether the store is suspended: `BytecodeStore::suspended`. -/
def suspended (s : BytecodeStore) : Bool := 0 < s.suspendCounter

/-- Resume the store after a suspension: `BytecodeStore::resume`. -/
def resume (s : BytecodeStore) : BytecodeStore :=
  { s with suspendCounter := s.suspendCounter - 1 }

/-- Move to a location: `ArrayBytecodeStore::seek`. -/
def seek (s : BytecodeStore) (location : ℕ) : BytecodeStore := { s with nextIndex := location }

/-- Move to the start of the bytecode: `ArrayBytecodeStore::rewind`. -/
def rewind (s : BytecodeStore) : BytecodeStore := { s with nextIndex := 0 }

/-- The current location, `none` standing for `BYTECODE_LOCATION_NOWHERE`:
`ArrayBytecodeStore::tell`. -/
def tell (s : BytecodeStore) : Option ℕ := some s.nextIndex

/-- The next byte, even from a suspended store: `ArrayBytecodeStore::nextByte`. -/
def nextByte (s : BytecodeStore) : UInt8 × BytecodeStore :=
  if h : s.nextIndex < s.size then
    (s.data.get ⟨s.nextIndex, Nat.lt_of_lt_of_le h s.size_le⟩,
      { s with nextIndex := s.nextIndex + 1 })
  else
    (cmdEnd, s)

/-- The next byte: `ArrayBytecodeStore::next`. -/
def next (s : BytecodeStore) : UInt8 × BytecodeStore :=
  if s.suspended then (cmdNop, s) else s.nextByte

/-- The next byte of an active store that is not at its end. -/
theorem next_of_lt {s : BytecodeStore} (hactive : s.suspended = false)
    (h : s.nextIndex < s.size) :
    s.next = (s.data.get ⟨s.nextIndex, Nat.lt_of_lt_of_le h s.size_le⟩,
      { s with nextIndex := s.nextIndex + 1 }) := by
  rw [next, hactive, if_neg Bool.false_ne_true, nextByte, dif_pos h]

/-- At the end of an active store there is the end marker only. -/
theorem next_of_ge {s : BytecodeStore} (hactive : s.suspended = false)
    (h : s.size ≤ s.nextIndex) : s.next = (cmdEnd, s) := by
  rw [next, hactive, if_neg Bool.false_ne_true, nextByte, dif_neg (Nat.not_lt.mpr h)]

/-- Two stores that differ in their locations only. -/
structure SameCode (s s' : BytecodeStore) : Prop where
  data_eq : s'.data = s.data
  size_eq : s'.size = s.size
  suspend_eq : s'.suspendCounter = s.suspendCounter

theorem SameCode.refl (s : BytecodeStore) : s.SameCode s := ⟨rfl, rfl, rfl⟩

theorem SameCode.trans {s₁ s₂ s₃ : BytecodeStore} (h₁ : s₁.SameCode s₂) (h₂ : s₂.SameCode s₃) :
    s₁.SameCode s₃ :=
  ⟨h₂.data_eq.trans h₁.data_eq, h₂.size_eq.trans h₁.size_eq,
    h₂.suspend_eq.trans h₁.suspend_eq⟩

theorem SameCode.seek {s s' : BytecodeStore} (h : s.SameCode s') (location : ℕ) :
    s.SameCode (s'.seek location) := ⟨h.data_eq, h.size_eq, h.suspend_eq⟩

/-- Two stores over the same code at the same location are equal. -/
theorem SameCode.eq {s s' : BytecodeStore} (h : s.SameCode s') (hi : s'.nextIndex = s.nextIndex) :
    s' = s := by
  obtain ⟨hd, hs, hc⟩ := h
  cases s
  cases s'
  simp only [mk.injEq]
  exact ⟨hd, hs, hi, hc⟩

/-- Reading a byte moves the location only. -/
theorem sameCode_next (s : BytecodeStore) : s.SameCode s.next.2 := by
  simp only [next, nextByte]
  split
  · exact .refl s
  · split
    · exact ⟨rfl, rfl, rfl⟩
    · exact .refl s

/-- A byte that is not the end of the store moves the location, by one. -/
theorem nextIndex_next_le (s : BytecodeStore) :
    s.nextIndex ≤ s.next.2.nextIndex ∧ s.next.2.nextIndex ≤ max s.nextIndex s.size := by
  simp only [next, nextByte]
  split
  · exact ⟨le_rfl, le_max_left _ _⟩
  · split
    case isTrue h => exact ⟨Nat.le_succ _, le_max_of_le_right h⟩
    · exact ⟨le_rfl, le_max_left _ _⟩

/-- A byte that continues a number was read from the code, so the location moved. -/
theorem nextIndex_of_continues {s : BytecodeStore} (h : Base128.continues s.next.1 = true) :
    s.nextIndex < s.size ∧ s.next.2.nextIndex = s.nextIndex + 1 := by
  have hend : Base128.continues cmdEnd = false := by decide
  have hnop : Base128.continues cmdNop = false := by decide
  simp only [next, nextByte] at h ⊢
  split at h
  · simp [hnop] at h
  · split at h
    case isTrue hsusp hlt =>
      rw [if_neg hsusp, dif_pos hlt]
      exact ⟨hlt, rfl⟩
    · simp [hend] at h

/-! ### Variable-length integers -/

/-- The loop of `CommandExecutor::nextVarint`, with fuel. A shift by 64 or more, which
the language leaves open, is taken modulo 64 as 64-bit processors do. -/
def nextVarintLoop : ℕ → BytecodeStore → UInt64 → UInt8 → UInt64 × BytecodeStore
  | 0, s, result, _ => (result, s)
  | fuel + 1, s, result, shift =>
      let readByte := s.next.1
      let result := result ||| ((readByte &&& 0x7F).toUInt64 <<< shift.toUInt64)
      if Base128.continues readByte then
        nextVarintLoop fuel s.next.2 result (shift + 7)
      else
        (result, s.next.2)

/-- The next variable-length integer: `CommandExecutor::nextVarint`. -/
def nextVarint (s : BytecodeStore) : UInt64 × BytecodeStore :=
  nextVarintLoop (s.size - s.nextIndex + 1) s 0 0

/-- One iteration of the loop. -/
theorem nextVarintLoop_succ (fuel : ℕ) (s : BytecodeStore) (result : UInt64) (shift : UInt8) :
    nextVarintLoop (fuel + 1) s result shift =
      if Base128.continues s.next.1 then
        nextVarintLoop fuel s.next.2
          (result ||| ((s.next.1 &&& 0x7F).toUInt64 <<< shift.toUInt64)) (shift + 7)
      else
        (result ||| ((s.next.1 &&& 0x7F).toUInt64 <<< shift.toUInt64), s.next.2) := rfl

/-- With one byte of fuel more than the store has left, more fuel changes nothing. -/
theorem nextVarintLoop_eq {fuel : ℕ} {s : BytecodeStore} (h : s.size - s.nextIndex < fuel)
    (result : UInt64) (shift : UInt8) :
    nextVarintLoop (fuel + 1) s result shift = nextVarintLoop fuel s result shift := by
  induction fuel generalizing s result shift with
  | zero => omega
  | succ fuel ih =>
      rw [nextVarintLoop_succ (fuel + 1) s, nextVarintLoop_succ fuel s]
      split
      case isTrue hc =>
        obtain ⟨hlt, hidx⟩ := nextIndex_of_continues hc
        have hsize := (sameCode_next s).size_eq
        exact ih (by rw [hsize, hidx]; omega) _ _
      case isFalse => rfl

/-- **The varint reader stops**: any larger fuel gives the same number and location. -/
theorem nextVarint_eq {fuel : ℕ} {s : BytecodeStore} (h : s.size - s.nextIndex < fuel) :
    nextVarintLoop fuel s 0 0 = s.nextVarint := by
  induction fuel with
  | zero => omega
  | succ fuel ih =>
      rcases Nat.lt_or_ge (s.size - s.nextIndex) fuel with hlt | hge
      · rw [nextVarintLoop_eq hlt, ih hlt]
      · rw [nextVarint, show s.size - s.nextIndex + 1 = fuel + 1 by omega]

end BytecodeStore

end Skybrush
