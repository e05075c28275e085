import Skybrush.BufferGrowth
import Skybrush.BuilderAtomicity
import Skybrush.Library.DataRefinement

/-!
# The Trajectory Builder on Memory

The trajectory builder again (`trajectory/builder.c`), now with the block of memory behind its
buffer: it writes through pointers into the block, among them one to the flags of the segment
that it appends, and the block may have to be moved when a segment is reserved. Memory can be
refused at any time.

The builder on lists of bytes says what comes out of this as long as there is memory. A builder
that was refused a block has lost its buffer. With the assertions of the source compiled out
(`NDEBUG`), as they are here, it cannot be given a start position any more, and the next call that
appends something doubles a capacity of zero for ever; with them, either call aborts.

## Main results

* `RawBuffer.extendWithZeros_cases`: extending a buffer with limited memory.
* `RawBuilder.refines_appendSegment`, `RawBuilder.refines_appendLine`,
  `RawBuilder.refines_holdPositionFor`, `RawBuilder.refines_setStartPosition`: the calls write
  inside of the block, and do what the calls on lists of bytes do.
* `builder_on_memory`: runs of calls, up to the call that does not return.
-/

namespace Skybrush

open Checked

/-! ### Buffers with limited memory -/

/-- The capacity is not grown to more than twice what is needed. -/
theorem Buffer.growCapacity_le {fuel newSize capacity c : ℕ}
    (h : growCapacity fuel newSize capacity = some c) : c ≤ max capacity (2 * newSize) := by
  have hdef : sizeMax = 2 ^ 64 - 1 := rfl
  induction fuel generalizing capacity with
  | zero => cases h
  | succ fuel ih =>
      rw [growCapacity] at h
      split at h
      case isTrue hlt =>
        split at h
        · cases h
        case isFalse hsmall =>
          split at h
          case isTrue => exact (ih h).trans (by omega)
          case isFalse hhalf => exact (ih h).trans (by omega)
      case isFalse =>
        obtain rfl := Option.some.inj h
        exact le_max_left _ _

/-- A reservation that is granted: the size does not overflow, and neither size nor capacity
become much larger. -/
theorem Buffer.le_of_reservation_eq {size capacity numZeros c : ℕ}
    (h : reservation size capacity numZeros = some c) (hpos : 0 < numZeros)
    (hfits : size + numZeros ≤ sizeMax) :
    size + (size + numZeros) ≤ c ∧ size + (size + numZeros) ≤ sizeMax ∧
      c ≤ max capacity (2 * (size + (size + numZeros))) := by
  have hdef : sizeMax = 2 ^ 64 - 1 := rfl
  have hsum : (size + numZeros) % 2 ^ 64 = size + numZeros := by omega
  rw [reservation, hsum, if_neg (by omega), sizeWith] at h
  split at h
  case isTrue => cases h
  case isFalse hover =>
    have hdouble : (size + (size + numZeros)) % 2 ^ 64 = size + (size + numZeros) := by omega
    rw [hdouble] at h
    exact ⟨le_of_growCapacity h, by omega, growCapacity_le h⟩

/-- What can be had from a memory, without what is in it. -/
def Memory.allocator (memory : Memory) : Allocator := fun c => (memory c).isSome

namespace RawBuffer

variable {memory : Memory} {b : RawBuffer}

/-- The block that a buffer asks for when it is extended is the one that is reserved. -/
theorem blockForSpace_eq (howned : b.owned = true) {numZeros : ℕ} (hpos : 0 < numZeros)
    (hfits : b.size + numZeros ≤ sizeMax) :
    b.blockForSpace ((b.size + numZeros) % 2 ^ 64) =
      (Buffer.reservation b.size b.capacity numZeros).bind fun c =>
        if b.capacity = c then none else some c := by
  have hdef : sizeMax = 2 ^ 64 - 1 := rfl
  have hsum : (b.size + numZeros) % 2 ^ 64 = b.size + numZeros := by omega
  rw [blockForSpace, Buffer.reservation, hsum, if_neg (show b.size + numZeros ≠ 0 by omega),
    Buffer.sizeWith]
  by_cases hover : (b.size + (b.size + numZeros)) % 2 ^ 64 < b.size
  · rw [if_pos (Or.inr hover), if_pos hover]
    rfl
  · have hgrow := growCapacity_eq 66 ((b.size + (b.size + numZeros)) % 2 ^ 64) b.capacity
    rw [if_neg (by omega), if_neg hover, Option.bind_some]
    cases hloop : growLoop 66 ((b.size + (b.size + numZeros)) % 2 ^ 64) b.capacity with
    | ok c =>
        rw [hloop] at hgrow
        have hle := Buffer.le_of_growCapacity hgrow
        have hmax : max c 1 = c := max_eq_left (by omega)
        dsimp only
        rw [hgrow, Option.bind_some, blockForCapacity, hmax]
        by_cases hsame : b.capacity = c
        · rw [if_neg fun h => h.2 hsame, if_pos hsame]
        · rw [if_pos ⟨howned, hsame⟩, if_neg hsame]
    | error e | fault | outOfFuel =>
        rw [hloop] at hgrow
        rw [hgrow]
        rfl

/-- Whether a reservation is served by a memory. -/
theorem refused_or_available (memory : Memory) (howned : b.owned = true) {numZeros c : ℕ}
    (hpos : 0 < numZeros) (hfits : b.size + numZeros ≤ sizeMax)
    (hres : Buffer.reservation b.size b.capacity numZeros = some c) :
    (b.blockForSpace ((b.size + numZeros) % 2 ^ 64) = some c ∧ memory c = none ∧
        ¬ Buffer.Available (memory.allocator) b.capacity c) ∨
      Buffer.Available (memory.allocator) b.capacity c ∧ ∃ fresh, ∀ d,
        b.blockForSpace ((b.size + numZeros) % 2 ^ 64) = some d → memory d = some fresh := by
  rw [blockForSpace_eq howned hpos hfits, hres, Option.bind_some]
  by_cases hsame : b.capacity = c
  · rw [if_pos hsame]
    exact .inr ⟨.inl hsame, fun _ => 0, nofun⟩
  · rw [if_neg hsame]
    cases hmemory : memory c with
    | none =>
        refine .inl ⟨rfl, rfl, ?_⟩
        rintro (h | h)
        · exact hsame h
        · rw [Memory.allocator, hmemory] at h
          cases h
    | some fresh =>
        refine .inr ⟨.inr ?_, fresh, ?_⟩
        · rw [Memory.allocator, hmemory]
          rfl
        · rintro d ⟨⟩
          exact hmemory

/-- **Extending a buffer** with limited memory: it is extended, or it is too large and left
alone, or it is lost; and so it is without the memory. -/
theorem extendWithZeros_cases (h : b.WellFormed) (howned : b.owned = true) {numZeros : ℕ}
    (hpos : 0 < numZeros) (hfits : b.size + numZeros ≤ sizeMax) :
    (∃ b', extendWithZeros memory numZeros b = ok b' ∧
        (Buffer.extendWithZeros (memory.allocator) numZeros).run b.toBuffer =
          .ok () b'.toBuffer ∧
        b'.WellFormed ∧ b'.owned = true ∧
        b'.contents = b.contents ++ List.replicate numZeros 0 ∧
        b.size + (b.size + numZeros) ≤ sizeMax ∧
        b'.capacity ≤ max b.capacity (2 * (b.size + (b.size + numZeros)))) ∨
      (∃ b', (b' = b ∨ b' = b.lost) ∧
        extendWithZeros memory numZeros b = error (.enomem, b') ∧
        (Buffer.extendWithZeros (memory.allocator) numZeros).run b.toBuffer =
          .error .enomem b'.toBuffer) := by
  have hsize : b.toBuffer.size = b.size := h.length_contents
  have hcapacity : b.toBuffer.capacity = b.capacity := rfl
  have hview : b.toBuffer.owned = true := howned
  -- what the extension does if memory can be had
  have hplenty := fun fresh =>
    @simulates_extendWithZeros fresh b (fun _ => true) h (fun _ => rfl) numZeros hfits
  have hperforms := fun fresh => @performs_extendWithZeros fresh b h numZeros hfits
  cases hres : Buffer.reservation b.size b.capacity numZeros with
  | none =>
      have hrefused := fun alloc => @Buffer.extendWithZeros_refused alloc b.toBuffer numZeros
        (by rw [hsize, hcapacity, hres])
      have hblock : b.blockForSpace ((b.size + numZeros) % 2 ^ 64) = none := by
        rw [blockForSpace_eq howned hpos hfits, hres]
        rfl
      have hserved : ∀ c, b.blockForSpace ((b.size + numZeros) % 2 ^ 64) = some c →
          memory c = some fun _ => 0 := by
        intro c hc
        cases hblock.symm.trans hc
      have hlimited : extendWithZeros memory numZeros b =
          RawBuffer.extendWithZeros (.plenty fun _ => 0) numZeros b := by
        rw [extendWithZeros, RawBuffer.extendWithZeros,
          ensureFreeSpace_eq_plenty hserved]
      have hplenty := hplenty fun _ => 0
      have hperforms := hperforms fun _ => 0
      refine .inr ⟨b, .inl rfl, ?_, hrefused _⟩
      rw [hlimited]
      generalize RawBuffer.extendWithZeros (.plenty fun _ => 0) numZeros b = outcome
        at hplenty hperforms
      cases hperforms with
      | done => cases (hrefused _).symm.trans hplenty
      | refused e =>
          cases (hrefused _).symm.trans hplenty
          rfl
  | some c =>
      have hres' : Buffer.reservation b.toBuffer.size b.toBuffer.capacity numZeros = some c := by
        rw [hsize, hcapacity, hres]
      obtain ⟨-, hdouble, hle⟩ := Buffer.le_of_reservation_eq hres hpos hfits
      obtain ⟨hblock, hmemory, hnot⟩ | ⟨havailable, fresh, hfresh⟩ :=
        refused_or_available memory howned hpos hfits hres
      · refine .inr ⟨b.lost, .inr rfl, ?_, Buffer.extendWithZeros_lost _ hview hres' hnot⟩
        rw [extendWithZeros, ensureFreeSpace_refused hblock hmemory]
        rfl
      · have hlimited : extendWithZeros memory numZeros b =
            RawBuffer.extendWithZeros (.plenty fresh) numZeros b := by
          rw [extendWithZeros, RawBuffer.extendWithZeros,
            ensureFreeSpace_eq_plenty hfresh]
        have hgranted := Buffer.extendWithZeros_granted _ hview hres' havailable
        have hgranted' := @Buffer.extendWithZeros_granted (fun _ => true) b.toBuffer numZeros c
          hview hres' (.inr rfl)
        have hplenty := hplenty fresh
        have hperforms := hperforms fresh
        rw [hlimited]
        generalize RawBuffer.extendWithZeros (.plenty fresh) numZeros b = outcome
          at hplenty hperforms
        cases hperforms with
        | @done b' wellFormed contents_eq owned_eq _ =>
            have hsame := hgranted'.symm.trans hplenty
            have hafter : b'.toBuffer = _ := (EStateM.Result.ok.inj hsame).2.symm
            have hcap : b'.capacity = c := congrArg Buffer.capacity hafter
            exact .inl ⟨b', rfl, hgranted.trans (by rw [hafter]), wellFormed,
              owned_eq.trans howned, contents_eq, hdouble, hcap ▸ hle⟩
        | refused e => cases hgranted'.symm.trans hplenty

end RawBuffer

/-! ### Builders -/

/-- The trajectory builder with its memory: `sb_trajectory_builder_t`. -/
structure RawBuilder where
  buffer : RawBuffer
  lastPosition : Vector3WithYaw
  scale : ℕ
  deriving DecidableEq, Repr

namespace RawBuilder

/-- An action on a builder. -/
abbrev Action := MemoryProgram SbError RawBuilder

/-- `sb_trajectory_builder_init`. -/
def init (scale flags : UInt8) : Except SbError RawBuilder :=
  if scale = 0 ∨ 127 < scale then
    .error .einval
  else
    let buffer := RawBuffer.init headerLength
    let header := if flags &&& trajectoryUseYaw != 0 then scale ||| 128 else scale
    .ok ⟨{ buffer with storage := buffer.storage.set 0 header }, .zero, scale.toNat⟩

/-- Work on the buffer of a builder. -/
def onBuffer (f : RawBuffer → RawBuffer.Outcome) : Action Unit := fun b =>
  match f b.buffer with
  | ok buffer => ok ((), { b with buffer := buffer })
  | error (e, buffer) => error (e, { b with buffer := buffer })
  | fault => fault
  | outOfFuel => outOfFuel

/-- Read a byte of the block. -/
def getByte (offset : ℕ) : Action UInt8 := fun b => do
  let byte ← read b.buffer.storage offset
  ok (byte, b)

/-- Write a byte of the block. -/
def setByte (offset : ℕ) (byte : UInt8) : Action Unit := onBuffer (RawBuffer.store offset [byte])

/-- `sb_write_uint16`. -/
def writeUint16 (value offset : ℕ) : Action ℕ := do
  setByte offset (UInt8.ofNat value)
  setByte (offset + 1) (UInt8.ofNat (value / 256))
  pure (offset + 2)

/-- Set a bit through the pointer to the flags of a segment. -/
def setFlag (flagsPtr : ℕ) (flag : UInt8) : Action Unit := do
  let flags ← getByte flagsPtr
  setByte flagsPtr (flags ||| flag)

/-- The bytes of a builder lie in a block of memory. -/
def store : BuilderStore Action where
  size := do
    let b ← get
    pure b.buffer.size
  scale := do
    let b ← get
    pure b.scale
  lastPosition := do
    let b ← get
    pure b.lastPosition
  setLastPosition position := modify fun b => { b with lastPosition := position }
  setByte := setByte
  setFlag := setFlag
  writeUint16 := writeUint16
  fail := MemoryProgram.fail

variable (F : Rounding) (memory : Memory)

/-- `sb_trajectory_builder_set_start_position`. -/
def setStartPosition (start : Vector3WithYaw) : Action Unit := store.setStartPosition F start

/-- Append a segment of at most 60 seconds. -/
def appendSegment (target : Vector3WithYaw) (durationMsec : ℕ) : Action Unit :=
  store.appendSegment F (fun n => onBuffer (RawBuffer.extendWithZeros memory n))
    (fun n => onBuffer (RawBuffer.resize memory n)) target durationMsec

/-- `sb_trajectory_builder_append_line`. -/
def appendLine (target : Vector3WithYaw) (durationMsec : ℕ) : Action Unit :=
  store.appendLine F (fun n => onBuffer (RawBuffer.extendWithZeros memory n))
    (fun n => onBuffer (RawBuffer.resize memory n)) target durationMsec

/-- `sb_trajectory_builder_hold_position_for`. -/
def holdPositionFor (durationMsec : ℕ) : Action Unit :=
  store.holdPositionFor F (fun n => onBuffer (RawBuffer.extendWithZeros memory n))
    (fun n => onBuffer (RawBuffer.resize memory n)) durationMsec

/-! ### What the functions read -/

section Reads

variable {β : Type} (b : RawBuilder)

@[simp] theorem run_size_bind (f : ℕ → Action β) :
    (store.size >>= f).run b = (f b.buffer.size).run b := rfl

@[simp] theorem run_scale_bind (f : ℕ → Action β) :
    (store.scale >>= f).run b = (f b.scale).run b := rfl

@[simp] theorem run_lastPosition_bind (f : Vector3WithYaw → Action β) :
    (store.lastPosition >>= f).run b = (f b.lastPosition).run b := rfl

end Reads

/-! ### Builders and their bytes -/

/-- The builder without the memory behind its bytes. -/
def toBuilder (b : RawBuilder) : TrajectoryBuilder := ⟨b.buffer.toBuffer, b.lastPosition, b.scale⟩

/-- A builder whose buffer is there, with complete segments up to `base` and with `size` bytes in
use. The block is not much larger than it has to be, and the number of bytes that are reserved
for a segment does not overflow. -/
structure Holds (base size : ℕ) (b : RawBuilder) : Prop where
  wellFormed : b.buffer.WellFormed
  owned : b.buffer.owned = true
  size_eq : b.buffer.size = size
  header_le : headerLength ≤ base
  base_le : base ≤ size
  size_le : size + 11 ≤ sizeMax
  capacity_le : b.buffer.capacity ≤ 4 * base + 22

/-- A builder between two calls. -/
def Sound (b : RawBuilder) : Prop := ∃ size, b.Holds size size

/-- A builder that was refused a block. -/
def Lost (b : RawBuilder) : Prop := ∃ buffer : RawBuffer, buffer.owned = true ∧
  b.buffer = buffer.lost

/-- The builder with another byte in its block. -/
def put (offset : ℕ) (byte : UInt8) (b : RawBuilder) : RawBuilder :=
  { b with buffer := { b.buffer with storage := b.buffer.storage.set offset byte } }

theorem toBuilder_put (offset : ℕ) (byte : UInt8) (b : RawBuilder) :
    (b.put offset byte).toBuilder =
      b.toBuilder.withBytes (b.toBuilder.bytes.set offset byte) := by
  have hcontents : (b.put offset byte).buffer.contents = b.buffer.contents.set offset byte :=
    List.take_set
  simp only [toBuilder, RawBuffer.toBuffer, hcontents]
  rfl

section Holds

variable {base size : ℕ} {b : RawBuilder}

theorem Holds.put (h : b.Holds base size) (offset : ℕ) (byte : UInt8) :
    (b.put offset byte).Holds base size where
  wellFormed :=
    { h.wellFormed with capacity_eq := h.wellFormed.capacity_eq.trans List.length_set.symm }
  owned := h.owned
  size_eq := h.size_eq
  header_le := h.header_le
  base_le := h.base_le
  size_le := h.size_le
  capacity_le := h.capacity_le

theorem Holds.size_toBuilder (h : b.Holds base size) : b.toBuilder.buffer.size = size :=
  h.wellFormed.length_contents.trans h.size_eq

theorem Holds.sound (h : b.Holds base size) : b.Sound :=
  ⟨size, h.wellFormed, h.owned, h.size_eq, h.header_le.trans h.base_le, le_rfl, h.size_le,
    h.capacity_le.trans (by have := h.base_le; omega)⟩

theorem run_onBuffer_of_ok {f : RawBuffer → RawBuffer.Outcome} {buffer : RawBuffer}
    (h : f b.buffer = ok buffer) : (onBuffer f).run b = ok ((), { b with buffer := buffer }) := by
  change onBuffer f b = _
  rw [onBuffer, h]

theorem run_onBuffer_of_error {f : RawBuffer → RawBuffer.Outcome} {e : SbError}
    {buffer : RawBuffer} (h : f b.buffer = error (e, buffer)) :
    (onBuffer f).run b = error (e, { b with buffer := buffer }) := by
  change onBuffer f b = _
  rw [onBuffer, h]

/-- A byte that is in use can be written. -/
theorem Holds.run_setByte (h : b.Holds base size) {offset : ℕ} (hlt : offset < size)
    (byte : UInt8) : (setByte offset byte).run b = ok ((), b.put offset byte) := by
  have hinside : offset < b.buffer.storage.length := by
    rw [← h.wellFormed.capacity_eq]
    exact hlt.trans_le (h.size_eq ▸ h.wellFormed.size_le)
  have hset : b.buffer.storage.take offset ++ ([byte] ++ b.buffer.storage.drop (offset + 1)) =
      b.buffer.storage.set offset byte := by
    rw [List.set_eq_take_append_cons_drop, if_pos hinside]
    rfl
  have hstore : RawBuffer.store offset [byte] b.buffer = ok (b.put offset byte).buffer := by
    rw [RawBuilder.put, ← hset]
    exact if_pos hinside
  exact run_onBuffer_of_ok hstore

/-- A byte that is in use can be read. -/
theorem Holds.run_getByte (h : b.Holds base size) {offset : ℕ} (hlt : offset < size) :
    ∃ byte, (getByte offset).run b = ok (byte, b) ∧
      b.toBuilder.bytes[offset]? = some byte := by
  have hsize : offset < b.buffer.size := h.size_eq ▸ hlt
  have hinside : offset < b.buffer.storage.length := by
    rw [← h.wellFormed.capacity_eq]
    exact hsize.trans_le h.wellFormed.size_le
  refine ⟨b.buffer.storage[offset], ?_, ?_⟩
  · change (read b.buffer.storage offset >>= fun byte => ok (byte, b)) = _
    rw [read_of_lt hinside, ok_bind]
  · change (b.buffer.storage.take b.buffer.size)[offset]? = _
    rw [List.getElem?_take_of_lt hsize, List.getElem?_eq_getElem hinside]

end Holds

/-! ### Writing -/

section Writing

variable {base size offset low high flagsPtr : ℕ} {flag : UInt8} {changed : Bool} {F : Rounding}
variable {E : RawBuilder → Prop}

/-- Writing 16 bits that are in use. -/
theorem refines_writeUint16 (value : ℕ) (h : offset + 2 ≤ size) :
    Refines toBuilder (Holds base size) (store.writeUint16 value offset)
      (TrajectoryBuilder.store.writeUint16 value offset)
      (fun r b => b.Holds base size ∧ r = offset + 2) E := by
  intro b hb
  change Represents _ _ _ ((writeUint16 value offset).run b) (EStateM.run (do
    modify fun b => b.withBytes (Skybrush.writeUint16 b.bytes offset value)
    pure (offset + 2) : TrajectoryBuilder.Action ℕ) _)
  have hfirst := hb.put offset (UInt8.ofNat value)
  have hsecond := hfirst.put (offset + 1) (UInt8.ofNat (value / 256))
  have hrun : (writeUint16 value offset).run b = ok (offset + 2,
      (b.put offset (UInt8.ofNat value)).put (offset + 1) (UInt8.ofNat (value / 256))) := by
    rw [writeUint16, StateT.run_bind, hb.run_setByte (by omega), ok_bind, StateT.run_bind,
      hfirst.run_setByte (by omega), ok_bind]
    rfl
  have habs : ((b.put offset (UInt8.ofNat value)).put (offset + 1)
      (UInt8.ofNat (value / 256))).toBuilder =
        b.toBuilder.withBytes (Skybrush.writeUint16 b.toBuilder.bytes offset value) := by
    rw [toBuilder_put, toBuilder_put]
    rfl
  rw [hrun, EStateM.run_bind, EStateM.run_modify, ← habs]
  exact .ok ⟨hsecond, rfl⟩

/-- A program that writes 16 bits, or reports an error. -/
def Writes16 (base size offset : ℕ) (x : Action ℕ) (y : TrajectoryBuilder.Action ℕ) : Prop :=
  Refines toBuilder (Holds base size) x y (fun r b => b.Holds base size ∧ r = offset + 2)
    (Holds base size)

theorem writes16_writeCoordinate (coordinate : ℚ) (h : offset + 2 ≤ size) :
    Writes16 base size offset (store.writeCoordinate F coordinate offset)
      (TrajectoryBuilder.store.writeCoordinate F coordinate offset) := by
  intro b hb
  have hscale : b.toBuilder.scale = b.scale := rfl
  rw [BuilderStore.writeCoordinate, BuilderStore.writeCoordinate, run_scale_bind,
    TrajectoryBuilder.run_scale_bind, hscale]
  cases TrajectoryBuilder.scaleCoordinate F b.scale coordinate with
  | error e => exact refines_fail (fun _ hs => hs) b hb
  | ok scaled => exact refines_writeUint16 (scaled % 65536).toNat h b hb

theorem writes16_writeAngle (angle : ℚ) (h : offset + 2 ≤ size) :
    Writes16 base size offset (store.writeAngle F angle offset)
      (TrajectoryBuilder.store.writeAngle F angle offset) :=
  refines_writeUint16 (TrajectoryBuilder.scaleAngle F angle % 65536).toNat h

/-- Writing a byte that is in use. -/
theorem refines_setByte (byte : UInt8) (h : offset < size) :
    Refines toBuilder (Holds base size) (store.setByte offset byte)
      (TrajectoryBuilder.store.setByte offset byte) (fun _ => Holds base size) E := by
  intro b hb
  change Represents _ _ _ ((setByte offset byte).run b)
    (.ok () (b.toBuilder.withBytes (b.toBuilder.bytes.set offset byte)))
  rw [hb.run_setByte h, ← toBuilder_put]
  exact .ok (hb.put offset byte)

/-- Setting a flag that is in use. -/
theorem refines_setFlag (h : flagsPtr < size) :
    Refines toBuilder (Holds base size) (store.setFlag flagsPtr flag)
      (TrajectoryBuilder.store.setFlag flagsPtr flag) (fun _ => Holds base size) E := by
  intro b hb
  change Represents _ _ _ ((setFlag flagsPtr flag).run b) (EStateM.run (modify fun b =>
    b.withBytes (b.bytes.modify flagsPtr (· ||| flag)) : TrajectoryBuilder.Action Unit) _)
  obtain ⟨flags, hget, hflags⟩ := hb.run_getByte h
  have hrun : (setFlag flagsPtr flag).run b = ok ((), b.put flagsPtr (flags ||| flag)) := by
    rw [setFlag, StateT.run_bind, hget, ok_bind, hb.run_setByte h]
  have habs : (b.put flagsPtr (flags ||| flag)).toBuilder =
      b.toBuilder.withBytes (b.toBuilder.bytes.modify flagsPtr (· ||| flag)) := by
    rw [toBuilder_put, List.modify_eq_set_getElem?, hflags]
    rfl
  rw [hrun, EStateM.run_modify, ← habs]
  exact .ok (hb.put flagsPtr _)

/-- Writing a value that may have changed. -/
theorem refines_writeChanged {write : ℕ → Action ℕ} {write' : ℕ → TrajectoryBuilder.Action ℕ}
    (hflags : flagsPtr < size) (hlow : low ≤ offset) (hhigh : offset ≤ high)
    (hw : Writes16 base size offset (write offset) (write' offset)) :
    Refines toBuilder (Holds base size) (store.writeChanged flagsPtr flag changed write offset)
      (TrajectoryBuilder.store.writeChanged flagsPtr flag changed write' offset)
      (fun r b => b.Holds base size ∧ low ≤ r ∧ r ≤ high + 2) (Holds base size) := by
  rw [BuilderStore.writeChanged, BuilderStore.writeChanged]
  cases changed with
  | false => exact refines_pure fun b hb => ⟨hb, hlow, by omega⟩
  | true =>
      refine (refines_setFlag hflags).bind fun _ =>
        hw.consequence (fun _ hb => hb) ?_ fun _ hb => hb
      rintro r b ⟨hb, rfl⟩
      exact ⟨hb, by omega, by omega⟩

/-- **Writing a target** with at least eight bytes left for it. -/
theorem refines_writeTarget (last target : Vector3WithYaw) (hflags : flagsPtr < size)
    (h : offset + 8 ≤ size) :
    Refines toBuilder (Holds base size) (store.writeTarget F flagsPtr last target offset)
      (TrajectoryBuilder.store.writeTarget F flagsPtr last target offset)
      (fun r b => b.Holds base size ∧ offset ≤ r ∧ r ≤ offset + 8) (Holds base size) := by
  rw [BuilderStore.writeTarget, BuilderStore.writeTarget]
  refine (refines_writeChanged hflags le_rfl le_rfl
    (writes16_writeCoordinate target.x (by omega))).bind fun x => refines_of_imp fun hx => ?_
  refine (refines_writeChanged hflags hx.1 hx.2
    (writes16_writeCoordinate target.y (by omega))).bind fun y => refines_of_imp fun hy => ?_
  refine (refines_writeChanged hflags hy.1 hy.2
    (writes16_writeCoordinate target.z (by omega))).bind fun z => refines_of_imp fun hz => ?_
  exact refines_writeChanged hflags hz.1 hz.2 (writes16_writeAngle target.yaw (by omega))

/-- **Setting the start position** writes inside of the header. -/
theorem refines_setStartPosition (start : Vector3WithYaw) :
    Refines toBuilder (Holds size size) (setStartPosition F start)
      (TrajectoryBuilder.setStartPosition F start) (fun _ => Holds size size)
      (Holds size size) := by
  intro b hb
  have hsize : b.toBuilder.buffer.size = b.buffer.size := hb.size_toBuilder.trans hb.size_eq.symm
  rw [setStartPosition, TrajectoryBuilder.setStartPosition, BuilderStore.setStartPosition,
    BuilderStore.setStartPosition, run_size_bind, TrajectoryBuilder.run_size_bind, hsize]
  by_cases hheader : b.buffer.size = headerLength
  · have hnine : size = 9 := hb.size_eq.symm.trans hheader
    rw [if_neg (not_not.mpr hheader), if_neg (not_not.mpr hheader)]
    have hlast : Refines toBuilder (Holds size size) (store.setLastPosition start)
        (TrajectoryBuilder.store.setLastPosition start) (fun _ => Holds size size)
        (Holds size size) := refines_modify fun b hb => ⟨rfl, { hb with }⟩
    exact ((writes16_writeCoordinate start.x (by omega)).bind fun x =>
      refines_of_imp fun hx => (writes16_writeCoordinate start.y (by omega)).bind fun y =>
      refines_of_imp fun hy => (writes16_writeCoordinate start.z (by omega)).bind fun z =>
      refines_of_imp fun hz => (writes16_writeAngle start.yaw (by omega)).bind fun _ =>
      refines_of_imp fun _ => hlast) b hb
  · rw [if_pos hheader, if_pos hheader]
    exact refines_fail (fun _ hs => hs) b hb

end Writing

/-! ### Appending -/

section Appending

variable {base size offset : ℕ} {F : Rounding} {memory : Memory} {E : RawBuilder → Prop}

/-- Reserving the bytes of a segment, or losing the buffer. -/
theorem refines_extend :
    Refines toBuilder (Holds size size) (onBuffer (RawBuffer.extendWithZeros memory 11))
      (TrajectoryBuilder.onBuffer (Buffer.extendWithZeros memory.allocator 11))
      (fun _ => Holds size (size + 11))
      (fun b => b.Sound ∨ b.Lost) := by
  intro b hb
  have hdef : sizeMax = 2 ^ 64 - 1 := rfl
  have hsize := hb.size_eq
  have hcapacity := hb.capacity_le
  have hheader := hb.header_le
  have hpure := TrajectoryBuilder.run_onBuffer
    (Buffer.extendWithZeros memory.allocator 11) b.toBuilder
  have hbuffer : b.toBuilder.buffer = b.buffer.toBuffer := rfl
  obtain ⟨buffer, hrun, hrun', hwf, howned, hcontents, hdouble, hle⟩ |
      ⟨buffer, hleft, hrun, hrun'⟩ :=
    @RawBuffer.extendWithZeros_cases memory b.buffer hb.wellFormed hb.owned 11 (by decide)
      (hb.size_eq.symm ▸ hb.size_le)
  · have hlength := congrArg List.length hcontents
    rw [hwf.length_contents, List.length_append, hb.wellFormed.length_contents, hsize,
      List.length_replicate] at hlength
    have hbound : buffer.capacity ≤ 4 * size + 22 := by omega
    rw [run_onBuffer_of_ok hrun, hpure, hbuffer, hrun']
    exact .ok ⟨hwf, howned, hlength, hheader, by omega, by omega, hbound⟩
  · rw [run_onBuffer_of_error hrun, hpure, hbuffer, hrun']
    refine .error ?_
    rcases hleft with rfl | rfl
    · exact .inl hb.sound
    · exact .inr ⟨b.buffer, hb.owned, rfl⟩

/-- Giving back the bytes that are not needed. -/
theorem refines_trim (hlow : base ≤ offset) (hhigh : offset ≤ size) :
    Refines toBuilder (Holds base size) (onBuffer (RawBuffer.resize memory offset))
      (TrajectoryBuilder.onBuffer (Buffer.resize memory.allocator offset))
      (fun _ => Holds base offset) E := by
  intro b hb
  have hsize := hb.size_eq
  have hfits := hb.size_le
  have hview : b.toBuilder.buffer.owned = true := hb.owned
  have hle : offset ≤ b.toBuilder.buffer.size := hhigh.trans_eq hb.size_toBuilder.symm
  have hcut : (b.buffer.contents).take offset = b.buffer.storage.take offset := by
    rw [RawBuffer.contents, List.take_take, min_eq_left (hhigh.trans_eq hsize.symm)]
  have hresize : RawBuffer.resize memory offset b.buffer =
      ok { b.buffer with bufEnd := offset } := by
    rw [RawBuffer.resize, if_neg (by rw [hb.owned]; exact Bool.false_ne_true),
      if_neg (by omega)]
  have habs : ({ b with buffer := { b.buffer with bufEnd := offset } } : RawBuilder).toBuilder =
      { b.toBuilder with
        buffer := { b.toBuilder.buffer with bytes := b.toBuilder.buffer.bytes.take offset } } := by
    change _ = (⟨⟨b.buffer.contents.take offset, _, _⟩, _, _⟩ : TrajectoryBuilder)
    rw [hcut]
    rfl
  rw [run_onBuffer_of_ok hresize, TrajectoryBuilder.run_onBuffer,
    Buffer.resize_of_le _ hview hle]
  dsimp only
  rw [← habs]
  have hwf := hb.wellFormed
  have hend : offset ≤ b.buffer.capacity := (hhigh.trans_eq hsize.symm).trans hwf.size_le
  refine .ok ⟨⟨hwf.capacity_eq, hend, hwf.pos, hwf.le_max, ?_⟩, hb.owned, rfl, hb.header_le,
    hlow, by omega, hb.capacity_le⟩
  exact fun hview => absurd (hb.owned.symm.trans hview) Bool.true_eq_false.mp

/-- **Appending a segment** writes inside of the block that is reserved for it. -/
theorem refines_appendSegment (target : Vector3WithYaw) (durationMsec : ℕ) :
    Refines toBuilder Sound (appendSegment F memory target durationMsec)
      (TrajectoryBuilder.appendSegment F memory.allocator target durationMsec) (fun _ => Sound)
      (fun b => b.Sound ∨ b.Lost) := by
  intro b hsound
  obtain ⟨size, hb⟩ := hsound
  have hsize : b.toBuilder.buffer.size = size := hb.size_toBuilder
  have hlast : ∀ n, Refines toBuilder (Holds size n) (store.setLastPosition target)
      (TrajectoryBuilder.store.setLastPosition target) (fun _ => Sound)
      (fun b => b.Sound ∨ b.Lost) :=
    fun _ => refines_modify fun s hs => ⟨rfl, Holds.sound { hs with }⟩
  rw [appendSegment, TrajectoryBuilder.appendSegment, BuilderStore.appendSegment,
    BuilderStore.appendSegment, run_size_bind, TrajectoryBuilder.run_size_bind, hsize, hb.size_eq]
  refine (refines_extend.bind fun _ => (refines_setByte 0 (by omega)).bind fun _ =>
    (refines_writeUint16 durationMsec (by omega)).bind fun offset =>
    refines_of_imp fun hoffset => ?_) b hb
  intro s hs
  rw [run_lastPosition_bind, TrajectoryBuilder.run_lastPosition_bind]
  refine (((refines_writeTarget s.lastPosition target (by omega) (by omega)).consequence
    (fun _ hs => hs) (fun _ _ hs => hs) fun s hs => .inl hs.sound).bind fun offset' =>
      refines_of_imp fun hoffset' => ?_) s hs
  exact (refines_trim (by omega) (by omega)).bind fun _ => hlast _

/-- **Appending a line**, segment by segment. -/
theorem refines_appendLine (target : Vector3WithYaw) (durationMsec : ℕ) :
    Refines toBuilder Sound (appendLine F memory target durationMsec)
      (TrajectoryBuilder.appendLine F memory.allocator target durationMsec) (fun _ => Sound)
      (fun b => b.Sound ∨ b.Lost) := by
  induction durationMsec using Nat.strongRecOn generalizing target with
  | ind durationMsec ih =>
      rw [appendLine, TrajectoryBuilder.appendLine]
      by_cases hlong : maxDurationMsec < durationMsec
      · have hmax : maxDurationMsec = 60000 := rfl
        intro b hb
        rw [BuilderStore.appendLine_of_lt _ _ _ _ hlong,
          BuilderStore.appendLine_of_lt _ _ _ _ hlong, run_lastPosition_bind,
          TrajectoryBuilder.run_lastPosition_bind]
        exact ((ih _ (by omega) _).bind fun _ => ih _ (by omega) target) b hb
      · rw [BuilderStore.appendLine_of_not_lt _ _ _ _ hlong,
          BuilderStore.appendLine_of_not_lt _ _ _ _ hlong]
        exact refines_appendSegment target durationMsec

/-- **Holding a position**, segment by segment. -/
theorem refines_holdPositionFor (durationMsec : ℕ) :
    Refines toBuilder Sound (holdPositionFor F memory durationMsec)
      (TrajectoryBuilder.holdPositionFor F memory.allocator durationMsec) (fun _ => Sound)
      (fun b => b.Sound ∨ b.Lost) := by
  induction durationMsec using Nat.strongRecOn with
  | ind durationMsec ih =>
      rw [holdPositionFor, TrajectoryBuilder.holdPositionFor]
      by_cases hpos : 0 < durationMsec
      · have hmax : maxDurationMsec = 60000 := rfl
        intro b hb
        rw [BuilderStore.holdPositionFor_of_pos _ _ _ _ hpos,
          BuilderStore.holdPositionFor_of_pos _ _ _ _ hpos, run_lastPosition_bind,
          TrajectoryBuilder.run_lastPosition_bind]
        exact ((refines_appendLine b.lastPosition _).bind fun _ => ih _ (by omega)) b hb
      · rw [BuilderStore.holdPositionFor_of_not_pos _ _ _ _ hpos,
          BuilderStore.holdPositionFor_of_not_pos _ _ _ _ hpos]
        exact refines_pure fun _ hb => hb

end Appending

/-! ### A lost buffer -/

/-- The capacity of a lost buffer is doubled for ever. -/
theorem growLoop_of_zero {newSize : ℕ} (hpos : 0 < newSize) (fuel : ℕ) :
    RawBuffer.growLoop fuel newSize 0 = outOfFuel := by
  induction fuel with
  | zero => rfl
  | succ fuel ih =>
      rw [RawBuffer.growLoop, if_pos hpos, if_neg (by decide), if_pos (by decide), zero_mul]
      exact ih

section Lost

variable {F : Rounding} {memory : Memory} {b : RawBuilder}

theorem Lost.toBuilder_bytes (h : b.Lost) : b.toBuilder.bytes = [] := by
  obtain ⟨buffer, -, hbuffer⟩ := h
  change b.buffer.contents = []
  rw [hbuffer]
  rfl

/-- **A segment that is appended to a lost buffer** is never done. -/
theorem Lost.run_appendSegment (h : b.Lost) (target : Vector3WithYaw) (durationMsec : ℕ) :
    (appendSegment F memory target durationMsec).run b = outOfFuel := by
  obtain ⟨buffer, -, hbuffer⟩ := h
  have hroom : RawBuffer.ensureFreeSpace memory 11 buffer.lost = outOfFuel := by
    have hloop : RawBuffer.growLoop 66 ((buffer.lost.size + 11) % 2 ^ 64) buffer.lost.capacity =
        outOfFuel := growLoop_of_zero (show 0 < (0 + 11) % 2 ^ 64 by decide) 66
    have hfits : ¬ (buffer.lost.size + 11) % 2 ^ 64 < buffer.lost.size := Nat.not_lt_zero _
    rw [RawBuffer.ensureFreeSpace, if_neg (by decide)]
    simp only [hfits, if_false, hloop]
  have hextend : RawBuffer.extendWithZeros memory 11 b.buffer = outOfFuel := by
    have hspace : (buffer.lost.size + 11) % 2 ^ 64 = 11 := rfl
    rw [hbuffer, RawBuffer.extendWithZeros, hspace, hroom]
    rfl
  rw [appendSegment, BuilderStore.appendSegment, run_size_bind, StateT.run_bind]
  change (onBuffer _ b >>= _) = _
  rw [onBuffer, hextend]
  rfl

theorem Lost.run_appendLine (h : b.Lost) (target : Vector3WithYaw) (durationMsec : ℕ) :
    (appendLine F memory target durationMsec).run b = outOfFuel := by
  induction durationMsec using Nat.strongRecOn generalizing target with
  | ind durationMsec ih =>
      rw [appendLine]
      by_cases hlong : maxDurationMsec < durationMsec
      · have hmax : maxDurationMsec = 60000 := rfl
        rw [BuilderStore.appendLine_of_lt _ _ _ _ hlong, run_lastPosition_bind, StateT.run_bind,
          ← appendLine, ih _ (by omega)]
        rfl
      · rw [BuilderStore.appendLine_of_not_lt _ _ _ _ hlong]
        exact h.run_appendSegment target durationMsec

theorem Lost.run_holdPositionFor (h : b.Lost) {durationMsec : ℕ} (hpos : 0 < durationMsec) :
    (holdPositionFor F memory durationMsec).run b = outOfFuel := by
  rw [holdPositionFor, BuilderStore.holdPositionFor_of_pos _ _ _ _ hpos, run_lastPosition_bind,
    StateT.run_bind, ← appendLine, h.run_appendLine]
  rfl

/-- A lost buffer has no header, so its start position is not set. -/
theorem Lost.run_setStartPosition (h : b.Lost) (start : Vector3WithYaw) :
    (setStartPosition F start).run b = error (.failure, b) ∧
      (TrajectoryBuilder.setStartPosition F start).run b.toBuilder =
        .error .failure b.toBuilder := by
  obtain ⟨buffer, -, hbuffer⟩ := h
  have hsize : b.buffer.size ≠ headerLength := by
    rw [hbuffer]
    exact Nat.zero_ne_add_one 8
  have hsize' : b.toBuilder.buffer.size ≠ headerLength := by
    change b.buffer.contents.length ≠ headerLength
    rw [hbuffer]
    exact Nat.zero_ne_add_one 8
  constructor
  · rw [setStartPosition, BuilderStore.setStartPosition, run_size_bind, if_pos hsize]
    rfl
  · exact TrajectoryBuilder.run_setStartPosition_of_ne F start hsize'

end Lost

/-! ### Runs -/

/-- A call on a builder, with the memory that can be had during it. -/
inductive Call where
  | setStartPosition (start : Vector3WithYaw)
  | appendLine (memory : Memory) (target : Vector3WithYaw) (durationMsec : ℕ)
  | holdPositionFor (memory : Memory) (durationMsec : ℕ)

/-- What a call does. -/
def Call.action (F : Rounding) : Call → Action Unit
  | .setStartPosition start => RawBuilder.setStartPosition F start
  | .appendLine memory target durationMsec => RawBuilder.appendLine F memory target durationMsec
  | .holdPositionFor memory durationMsec => RawBuilder.holdPositionFor F memory durationMsec

/-- The call on a builder without memory. -/
def Call.abstract : Call → TrajectoryBuilder.Call
  | .setStartPosition start => .setStartPosition start
  | .appendLine memory target durationMsec => .appendLine memory.allocator target durationMsec
  | .holdPositionFor memory durationMsec => .holdPositionFor memory.allocator durationMsec

/-- A call returns an answer, and leaves a builder. -/
def Call.exec (F : Rounding) (call : Call) (b : RawBuilder) :
    Checked SbError (Except SbError Unit × RawBuilder) :=
  match (call.action F).run b with
  | ok ((), b') => ok (.ok (), b')
  | error (e, b') => ok (.error e, b')
  | fault => fault
  | outOfFuel => outOfFuel

/-- The answers to calls that are made one after the other, whatever the answers are. -/
def run (F : Rounding) :
    List Call → RawBuilder → Checked SbError (List (Except SbError Unit) × RawBuilder)
  | [], b => ok ([], b)
  | call :: calls, b => do
      let (answer, b) ← call.exec F b
      let (answers, b) ← run F calls b
      ok (answer :: answers, b)

end RawBuilder

namespace TrajectoryBuilder

/-- The answer to a call. -/
def Call.answer (F : Rounding) (call : Call) (b : TrajectoryBuilder) : Except SbError Unit :=
  match (call.action F).run b with
  | .ok _ _ => .ok ()
  | .error e _ => .error e

/-- The answers to calls that are made one after the other, and the builder behind them. -/
def answers (F : Rounding) :
    List Call → TrajectoryBuilder → List (Except SbError Unit) × TrajectoryBuilder
  | [], b => ([], b)
  | call :: calls, b =>
      let rest := answers F calls (call.after F b)
      (call.answer F b :: rest.1, rest.2)

/-- The call reserves bytes. -/
def Call.Appends : Call → Prop
  | .setStartPosition _ => False
  | .appendLine _ _ _ => True
  | .holdPositionFor _ durationMsec => 0 < durationMsec

/-- In a run, something is to be appended after the buffer was lost. -/
def AppendsToNothing (F : Rounding) : TrajectoryBuilder → List Call → Prop
  | _, [] => False
  | b, call :: calls => b.bytes = [] ∧ call.Appends ∨ AppendsToNothing F (call.after F b) calls

end TrajectoryBuilder

namespace RawBuilder

variable {F : Rounding} {b : RawBuilder}

theorem Sound.toBuilder_bytes_ne (h : b.Sound) : b.toBuilder.bytes ≠ [] := by
  obtain ⟨size, hb⟩ := h
  have hlength : b.toBuilder.bytes.length = size := hb.size_toBuilder
  have hheader : 9 ≤ size := hb.header_le
  rw [← List.length_pos_iff]
  omega

/-- Every call refines the call without memory. -/
theorem Call.refines (call : Call) :
    Refines toBuilder Sound (call.action F) (call.abstract.action F) (fun _ => Sound)
      (fun b => b.Sound ∨ b.Lost) := by
  cases call with
  | setStartPosition start =>
      rintro b ⟨size, hb⟩
      refine Refines.consequence (refines_setStartPosition start) (fun _ hs => hs)
        (fun _ s hs => ?_) (fun s hs => ?_) b hb
      · exact ⟨size, hs⟩
      · exact .inl ⟨size, hs⟩
  | appendLine memory target durationMsec => exact refines_appendLine target durationMsec
  | holdPositionFor memory durationMsec => exact refines_holdPositionFor durationMsec

/-- A call that does what it does without memory returns the same answer. -/
theorem Call.exec_of_represents {call : Call} {Q : Unit → RawBuilder → Prop}
    {E : RawBuilder → Prop} (h : Represents toBuilder Q E ((call.action F).run b)
      ((call.abstract.action F).run b.toBuilder)) :
    ∃ b', call.exec F b = ok (call.abstract.answer F b.toBuilder, b') ∧
      call.abstract.after F b.toBuilder = b'.toBuilder ∧ (Q () b' ∨ E b') := by
  rw [Call.exec, TrajectoryBuilder.Call.answer, TrajectoryBuilder.Call.after]
  generalize (call.action F).run b = r at h ⊢
  generalize (call.abstract.action F).run b.toBuilder = r' at h ⊢
  cases h with
  | @ok a b' hQ => exact ⟨b', rfl, rfl, .inl hQ⟩
  | @error e b' hE => exact ⟨b', rfl, rfl, .inr hE⟩

/-- **One call** on a builder whose buffer is there. -/
theorem Sound.exec (h : b.Sound) (call : Call) :
    ∃ b', call.exec F b = ok (call.abstract.answer F b.toBuilder, b') ∧
      call.abstract.after F b.toBuilder = b'.toBuilder ∧ (b'.Sound ∨ b'.Lost) := by
  obtain ⟨b', hexec, hafter, hsound | hleft⟩ := Call.exec_of_represents (@Call.refines F call b h)
  · exact ⟨b', hexec, hafter, .inl hsound⟩
  · exact ⟨b', hexec, hafter, hleft⟩

/-- On a lost buffer, a call that appends nothing has no effect. -/
theorem Lost.represents (h : b.Lost) {call : Call} (hnot : ¬ call.abstract.Appends) :
    Represents toBuilder (fun _ b' => b' = b) (fun b' => b' = b) ((call.action F).run b)
      ((call.abstract.action F).run b.toBuilder) := by
  cases call with
  | setStartPosition start =>
      obtain ⟨hrun, hrun'⟩ := @run_setStartPosition F b h start
      rw [Call.action, hrun, Call.abstract, TrajectoryBuilder.Call.action, hrun']
      exact .error rfl
  | appendLine memory target durationMsec => exact absurd trivial hnot
  | holdPositionFor memory durationMsec =>
      obtain rfl : durationMsec = 0 := Nat.eq_zero_of_not_pos hnot
      have hzero := Nat.lt_irrefl 0
      rw [Call.action, RawBuilder.holdPositionFor, Call.abstract, TrajectoryBuilder.Call.action,
        TrajectoryBuilder.holdPositionFor, BuilderStore.holdPositionFor_of_not_pos _ _ _ _ hzero,
        BuilderStore.holdPositionFor_of_not_pos _ _ _ _ hzero]
      exact .ok rfl

/-- On a lost buffer, a call that appends something does not return. -/
theorem Lost.exec_of_appends (h : b.Lost) {call : Call} (happends : call.abstract.Appends) :
    call.exec F b = outOfFuel := by
  cases call with
  | setStartPosition start => exact happends.elim
  | appendLine memory target durationMsec => rw [Call.exec, Call.action, h.run_appendLine]
  | holdPositionFor memory durationMsec =>
      rw [Call.exec, Call.action, h.run_holdPositionFor happends]

/-- A builder that was initialised is the one on a list of bytes. -/
theorem sound_init {scale flags : UInt8} (h : init scale flags = .ok b) :
    b.Sound ∧ TrajectoryBuilder.init scale flags = .ok b.toBuilder := by
  rw [init] at h
  rw [TrajectoryBuilder.init]
  split at h
  case isTrue => cases h
  case isFalse hvalid =>
    cases h
    rw [if_neg hvalid]
    refine ⟨⟨headerLength, ?_⟩, ?_⟩
    · have hbuffer := RawBuffer.wellFormed_init (show headerLength ≤ sizeMax by decide)
      exact ⟨{ hbuffer with capacity_eq := hbuffer.capacity_eq.trans List.length_set.symm }, rfl,
        rfl, le_rfl, le_rfl, by decide, show max headerLength 1 ≤ 4 * headerLength + 22 by decide⟩
    · rfl

/-- A run of calls does what it does without memory, until something is appended to a buffer that
was lost. -/
structure RunsLike (F : Rounding) (calls : List Call) (b : RawBuilder) : Prop where
  stuck : TrajectoryBuilder.AppendsToNothing F b.toBuilder (calls.map Call.abstract) →
    run F calls b = outOfFuel
  returns : ¬ TrajectoryBuilder.AppendsToNothing F b.toBuilder (calls.map Call.abstract) →
    ∃ b', run F calls b =
        ok ((TrajectoryBuilder.answers F (calls.map Call.abstract) b.toBuilder).1, b') ∧
      (TrajectoryBuilder.answers F (calls.map Call.abstract) b.toBuilder).2 = b'.toBuilder ∧
      (b'.Sound ∨ b'.Lost)

/-- A call that returns hands over to the rest of the run. -/
theorem RunsLike.cons {calls : List Call} {call : Call} {b₁ : RawBuilder}
    (h : RunsLike F calls b₁)
    (hexec : call.exec F b = ok (call.abstract.answer F b.toBuilder, b₁))
    (hafter : call.abstract.after F b.toBuilder = b₁.toBuilder)
    (hnot : ¬ (b.toBuilder.bytes = [] ∧ call.abstract.Appends)) :
    RunsLike F (call :: calls) b := by
  have hrun : run F (call :: calls) b = (run F calls b₁ >>= fun rest =>
      ok (call.abstract.answer F b.toBuilder :: rest.1, rest.2)) := by
    rw [run, hexec]
    rfl
  constructor
  · rw [List.map_cons, TrajectoryBuilder.AppendsToNothing, or_iff_right hnot, hafter]
    intro hlater
    rw [hrun, h.stuck hlater]
    rfl
  · rw [List.map_cons, TrajectoryBuilder.AppendsToNothing, or_iff_right hnot,
      TrajectoryBuilder.answers, hafter]
    intro hlater
    obtain ⟨b', hrest, hpure, hb'⟩ := h.returns hlater
    refine ⟨b', ?_, hpure, hb'⟩
    rw [hrun, hrest]
    rfl

/-- **A run of calls**, by induction. -/
theorem runsLike (F : Rounding) (calls : List Call) (h : b.Sound ∨ b.Lost) :
    RunsLike F calls b := by
  induction calls generalizing b with
  | nil => exact ⟨nofun, fun _ => ⟨b, rfl, rfl, h⟩⟩
  | cons call calls ih =>
      rcases h with hsound | hlost
      · obtain ⟨b₁, hexec, hafter, hb₁⟩ := @Sound.exec F b hsound call
        exact (ih hb₁).cons hexec hafter fun hnot => hsound.toBuilder_bytes_ne hnot.1
      · by_cases happends : call.abstract.Appends
        · refine ⟨fun _ => ?_, fun hnone => ?_⟩
          · rw [run, hlost.exec_of_appends happends]
            rfl
          · exact absurd (Or.inl ⟨hlost.toBuilder_bytes, happends⟩) hnone
        · obtain ⟨b₁, hexec, hafter, hsame⟩ :=
            Call.exec_of_represents (@Lost.represents F b hlost call happends)
          obtain rfl : b₁ = b := or_self_iff.1 hsame
          exact (ih (.inr hlost)).cons hexec hafter fun hboth => happends hboth.2

/-- The block of a builder is as long as it should be, and has room for at most about four times
as many bytes as are in use. -/
theorem capacity_le (h : b.Sound ∨ b.Lost) :
    b.buffer.capacity = b.buffer.storage.length ∧
      b.buffer.capacity ≤ 4 * b.buffer.size + 22 := by
  rcases h with ⟨size, hb⟩ | ⟨buffer, -, hbuffer⟩
  · refine ⟨hb.wellFormed.capacity_eq, ?_⟩
    rw [hb.size_eq]
    exact hb.capacity_le
  · rw [hbuffer]
    exact ⟨rfl, Nat.zero_le _⟩

end RawBuilder

open RawBuilder in
/-- **The builder on memory**: over every run of calls on a builder that was initialised, whatever
memory is refused, nothing is written outside of the block. If something is appended after the
buffer was lost, that call does not return, as the loop that looks for a capacity never stops.
Otherwise all calls return, with the answers and the bytes of the builder on a list of bytes, and
the block is not larger than about four times the bytes in use. -/
theorem builder_on_memory (F : Rounding) {scale flags : UInt8} {b : RawBuilder}
    (h : RawBuilder.init scale flags = .ok b) (calls : List RawBuilder.Call) :
    TrajectoryBuilder.init scale flags = .ok b.toBuilder ∧
      (TrajectoryBuilder.AppendsToNothing F b.toBuilder (calls.map Call.abstract) →
        RawBuilder.run F calls b = outOfFuel ∧
          ∀ fuel, RawBuffer.growLoop fuel 11 0 = outOfFuel) ∧
      (¬ TrajectoryBuilder.AppendsToNothing F b.toBuilder (calls.map Call.abstract) →
        ∃ b', RawBuilder.run F calls b =
            ok ((TrajectoryBuilder.answers F (calls.map Call.abstract) b.toBuilder).1, b') ∧
          (TrajectoryBuilder.answers F (calls.map Call.abstract) b.toBuilder).2 = b'.toBuilder ∧
          b'.buffer.capacity = b'.buffer.storage.length ∧
          b'.buffer.capacity ≤ 4 * b'.buffer.size + 22) := by
  obtain ⟨hsound, hinit⟩ := sound_init h
  have hruns := runsLike F calls (.inl hsound)
  refine ⟨hinit, fun hstops => ⟨hruns.stuck hstops, growLoop_of_zero (by decide)⟩,
    fun hstops => ?_⟩
  obtain ⟨b', hrun, hpure, hb'⟩ := hruns.returns hstops
  exact ⟨b', hrun, hpure, capacity_le hb'⟩

open RawBuilder in
/-- A line that there is no memory for: the start position cannot be set any more, and a hold of a
millisecond does not return. -/
theorem builder_on_memory_refused :
    ∃ b b', RawBuilder.init 10 0 = .ok b ∧
      RawBuilder.run .exact [.appendLine (fun _ => none) ⟨0, 0, 1000, 0⟩ 2000,
          .setStartPosition .zero] b = ok ([.error .enomem, .error .failure], b') ∧
      RawBuilder.run .exact [.appendLine (fun _ => none) ⟨0, 0, 1000, 0⟩ 2000,
          .holdPositionFor (fun _ => none) 1] b = outOfFuel := by
  let b : RawBuilder := ⟨⟨[10, 0, 0, 0, 0, 0, 0, 0, 0], 9, 9, true⟩, .zero, 10⟩
  let none : Memory := fun _ => none
  let line : TrajectoryBuilder.Call := .appendLine none.allocator ⟨0, 0, 1000, 0⟩ 2000
  have hline : (line.action .exact).run b.toBuilder =
      .error .enomem { b.toBuilder with buffer := b.toBuilder.buffer.lost } := by
    have hres : Buffer.reservation b.toBuilder.buffer.size b.toBuilder.buffer.capacity 11 =
        some 36 := by
      decide +kernel
    have hnot : ¬ Buffer.Available none.allocator b.toBuilder.buffer.capacity 36 := by
      rintro (h | h)
      · exact absurd h (by decide)
      · exact Bool.false_ne_true h
    exact (TrajectoryBuilder.run_appendLine_of_le rfl _ (by decide)).trans
      (TrajectoryBuilder.appendSegment_lost rfl hres hnot)
  have hanswer : line.answer .exact b.toBuilder = .error .enomem := by
    rw [TrajectoryBuilder.Call.answer, hline]
  have hafter : line.after .exact b.toBuilder =
      { b.toBuilder with buffer := b.toBuilder.buffer.lost } := by
    rw [TrajectoryBuilder.Call.after, hline]
  obtain ⟨-, -, hreturns⟩ := @builder_on_memory .exact 10 0 b rfl
    [.appendLine none ⟨0, 0, 1000, 0⟩ 2000, .setStartPosition .zero]
  obtain ⟨-, hstuck, -⟩ := @builder_on_memory .exact 10 0 b rfl
    [.appendLine none ⟨0, 0, 1000, 0⟩ 2000, .holdPositionFor none 1]
  obtain ⟨b', hrun, -, -⟩ := hreturns (by
    rintro (⟨h, -⟩ | ⟨-, h⟩ | h)
    · exact absurd h (by decide)
    · exact h
    · exact h)
  refine ⟨b, b', rfl, ?_, (hstuck (.inr (.inl ⟨?_, Nat.one_pos⟩))).1⟩
  · rw [hrun]
    change ok ([line.answer .exact b.toBuilder,
      TrajectoryBuilder.Call.answer .exact (.setStartPosition .zero)
        (line.after .exact b.toBuilder)], b') = _
    rw [hanswer, hafter]
    rfl
  · change (line.after .exact b.toBuilder).bytes = []
    rw [hafter]
    rfl

end Skybrush
