import Skybrush.Buffer
import Skybrush.BuilderProgram
import Skybrush.Parsing

/-!
# The Trajectory Builder

The builder of encoded trajectories (`trajectory/builder.c`) with its bytes in a list. Every
function is an action on the builder, so what it has written before it fails stays written.

A long line and a long hold both come down to a list of short segments
(`TrajectoryBuilder.lineSegments`, `TrajectoryBuilder.holdSegments`), appended one after
the other.

## Main results

* `TrajectoryBuilder.appendSegment_refused`, `TrajectoryBuilder.appendSegment_lost`,
  `TrajectoryBuilder.appendSegment_unfit`, `TrajectoryBuilder.appendSegment_done`: the four
  things that appending a short segment can do.
* `TrajectoryBuilder.run_appendLine`, `TrajectoryBuilder.run_holdPositionFor`: the other
  calls append their segments.
-/

namespace Skybrush

open Rounding

/-- The trajectory builder: `sb_trajectory_builder_t`. -/
structure TrajectoryBuilder where
  buffer : Buffer
  lastPosition : Vector3WithYaw
  scale : ℕ
  deriving DecidableEq, Repr

namespace TrajectoryBuilder

/-- An action on a builder. -/
abbrev Action := EStateM SbError TrajectoryBuilder

/-- The encoded bytes. -/
def bytes (b : TrajectoryBuilder) : List UInt8 := b.buffer.bytes

/-- The builder with other bytes. -/
def withBytes (b : TrajectoryBuilder) (bytes : List UInt8) : TrajectoryBuilder :=
  { b with buffer := { b.buffer with bytes := bytes } }

/-- Initialise a builder: `sb_trajectory_builder_init`. -/
def init (scale flags : UInt8) : Except SbError TrajectoryBuilder :=
  if scale = 0 ∨ 127 < scale then
    .error .einval
  else
    let buffer := Buffer.init headerLength
    let header := if flags &&& trajectoryUseYaw != 0 then scale ||| 128 else scale
    .ok
      { buffer := { buffer with bytes := buffer.bytes.set 0 header }
        lastPosition := .zero
        scale := scale.toNat }

@[simp] theorem bytes_withBytes (b : TrajectoryBuilder) (bytes : List UInt8) :
    (b.withBytes bytes).bytes = bytes := rfl

@[simp] theorem scale_withBytes (b : TrajectoryBuilder) (bytes : List UInt8) :
    (b.withBytes bytes).scale = b.scale := rfl

/-- The builder with another capacity. -/
def withCapacity (b : TrajectoryBuilder) (capacity : ℕ) : TrajectoryBuilder :=
  { b with buffer := { b.buffer with capacity := capacity } }

/-- Work on the buffer of a builder. -/
def onBuffer {α : Type} (x : EStateM SbError Buffer α) : Action α :=
  onPart buffer (fun buffer b => { b with buffer := buffer }) x

/-- The bytes of a builder are a list. -/
def store : BuilderStore Action where
  size := do
    let b ← get
    pure b.buffer.size
  scale := do
    let b ← get
    pure b.scale
  lastPosition := do
    let b ← get
    pure b.lastPosition
  setLastPosition position := modify fun b => { b with lastPosition := position }
  setByte offset byte := modify fun b => b.withBytes (b.bytes.set offset byte)
  setFlag offset flag := modify fun b => b.withBytes (b.bytes.modify offset (· ||| flag))
  writeUint16 value offset := do
    modify fun b => b.withBytes (writeUint16 b.bytes offset value)
    pure (offset + 2)
  fail e := throw e

variable (F : Rounding) (alloc : Allocator)

/-- `sb_trajectory_builder_set_start_position`. -/
def setStartPosition (start : Vector3WithYaw) : Action Unit := store.setStartPosition F start

/-- Append a segment of at most 60 seconds. -/
def appendSegment (target : Vector3WithYaw) (durationMsec : ℕ) : Action Unit :=
  store.appendSegment F (fun n => onBuffer (Buffer.extendWithZeros alloc n))
    (fun n => onBuffer (Buffer.resize alloc n)) target durationMsec

/-- `sb_trajectory_builder_append_line`. -/
def appendLine (target : Vector3WithYaw) (durationMsec : ℕ) : Action Unit :=
  store.appendLine F (fun n => onBuffer (Buffer.extendWithZeros alloc n))
    (fun n => onBuffer (Buffer.resize alloc n)) target durationMsec

/-- `sb_trajectory_builder_hold_position_for`. -/
def holdPositionFor (durationMsec : ℕ) : Action Unit :=
  store.holdPositionFor F (fun n => onBuffer (Buffer.extendWithZeros alloc n))
    (fun n => onBuffer (Buffer.resize alloc n)) durationMsec

/-! ### What the functions read -/

section Reads

variable {β : Type} (b : TrajectoryBuilder)

@[simp] theorem run_size_bind (f : ℕ → Action β) :
    (store.size >>= f).run b = (f b.buffer.size).run b := rfl

@[simp] theorem run_lastPosition_bind (f : Vector3WithYaw → Action β) :
    (store.lastPosition >>= f).run b = (f b.lastPosition).run b := rfl

@[simp] theorem run_scale_bind (f : ℕ → Action β) :
    (store.scale >>= f).run b = (f b.scale).run b := rfl

end Reads

/-- The start position of a builder with segments is not set. -/
theorem run_setStartPosition_of_ne {b : TrajectoryBuilder} (start : Vector3WithYaw)
    (hsize : b.buffer.size ≠ headerLength) :
    (setStartPosition F start).run b = .error .failure b := by
  rw [setStartPosition, BuilderStore.setStartPosition, run_size_bind, if_pos hsize]
  rfl

/-! ### Appending a short segment -/

/-- A coordinate can be encoded. -/
def CoordinateFits (scale : ℕ) (coordinate : ℚ) : Prop :=
  -32768 ≤ ⌊F (coordinate / scale)⌋ ∧ ⌊F (coordinate / scale)⌋ ≤ 32767

/-- The coordinates of a segment that have to be written can be encoded. -/
structure SegmentFits (scale : ℕ) (last target : Vector3WithYaw) : Prop where
  x : last.x ≠ target.x → CoordinateFits F scale target.x
  y : last.y ≠ target.y → CoordinateFits F scale target.y
  z : last.z ≠ target.z → CoordinateFits F scale target.z

/-- The bytes of a value that is written if it has changed. -/
def changedBytes (changed : Bool) (value : ℤ) : List UInt8 :=
  if changed then encodeInt16 value else []

/-- A flag that is set if a value has changed. -/
def changedFlag (changed : Bool) (flag : UInt8) : UInt8 := if changed then flag else 0

/-- The flag byte of a segment. -/
def segmentFlags (last target : Vector3WithYaw) : UInt8 :=
  changedFlag (last.x ≠ target.x) 0x01 ||| changedFlag (last.y ≠ target.y) 0x04 |||
    changedFlag (last.z ≠ target.z) 0x10 ||| changedFlag (last.yaw ≠ target.yaw) 0x40

/-- The bytes of the coordinates of a segment that have changed. -/
def targetBytes (scale : ℕ) (last target : Vector3WithYaw) : List UInt8 :=
  changedBytes (last.x ≠ target.x) ⌊F (target.x / scale)⌋ ++
    (changedBytes (last.y ≠ target.y) ⌊F (target.y / scale)⌋ ++
      (changedBytes (last.z ≠ target.z) ⌊F (target.z / scale)⌋ ++
        changedBytes (last.yaw ≠ target.yaw) (scaleAngle F target.yaw)))

/-- The bytes of a segment. -/
def segmentBytes (scale : ℕ) (last target : Vector3WithYaw) (durationMsec : ℕ) : List UInt8 :=
  segmentFlags last target :: (encodeUint16 durationMsec ++ targetBytes F scale last target)

theorem length_changedBytes_le (changed : Bool) (value : ℤ) :
    (changedBytes changed value).length ≤ 2 := by
  rw [changedBytes]
  split
  · exact le_rfl
  · exact Nat.zero_le _

/-- At most four values are written. -/
theorem length_targetBytes_le (scale : ℕ) (last target : Vector3WithYaw) :
    (targetBytes F scale last target).length ≤ 8 := by
  have hle := length_changedBytes_le
  have := hle (last.x ≠ target.x) ⌊F (target.x / scale)⌋
  have := hle (last.y ≠ target.y) ⌊F (target.y / scale)⌋
  have := hle (last.z ≠ target.z) ⌊F (target.z / scale)⌋
  have := hle (last.yaw ≠ target.yaw) (scaleAngle F target.yaw)
  simp only [targetBytes, List.length_append]
  omega

/-- A builder while a segment is written behind the old bytes: the flag byte, what has been
written behind it, and zeros up to the 11 bytes that were reserved. -/
def draft (b : TrajectoryBuilder) (old : List UInt8) (flags : UInt8) (body : List UInt8) :
    TrajectoryBuilder :=
  b.withBytes (old ++ flags :: (body ++ List.replicate (10 - body.length) 0))

theorem length_draft {b : TrajectoryBuilder} {old body : List UInt8} {flags : UInt8}
    (h : body.length ≤ 10) : (b.draft old flags body).bytes.length = old.length + 11 := by
  simp only [draft, withBytes, bytes, List.length_append, List.length_cons, List.length_replicate]
  omega

/-- Writing at the end of a draft. -/
theorem draft_write {b : TrajectoryBuilder} {old body : List UInt8} {flags : UInt8} {value : ℤ}
    (h : body.length ≤ 8) :
    (b.draft old flags body).withBytes
        (writeInt16 (b.draft old flags body).bytes (old.length + 1 + body.length) value) =
      b.draft old flags (body ++ encodeInt16 value) := by
  have hbytes : (b.draft old flags body).bytes =
      (old ++ flags :: body) ++ ([0, 0] ++ List.replicate (8 - body.length) 0) := by
    have hzeros : List.replicate (10 - body.length) (0 : UInt8) =
        [0, 0] ++ List.replicate (8 - body.length) 0 := by
      rw [show 10 - body.length = 2 + (8 - body.length) by omega, List.replicate_add]
      rfl
    simp only [draft, withBytes, bytes, hzeros, List.append_assoc, List.cons_append]
  have hlen : old.length + 1 + body.length = (old ++ flags :: body).length := by
    simp only [List.length_append, List.length_cons]
    omega
  have hrest : 10 - (body ++ encodeInt16 value).length = 8 - body.length := by
    rw [List.length_append, length_encodeInt16]
    omega
  rw [hbytes, hlen, writeInt16, writeBytes_append (by rfl)]
  simp only [draft, withBytes, hrest, List.append_assoc, List.cons_append]

/-- An action that writes a 16-bit value, or fails and writes nothing. -/
def Writes (scale : ℕ) (write : ℕ → Action ℕ) (value : Except SbError ℤ) : Prop :=
  ∀ b : TrajectoryBuilder, b.scale = scale → ∀ offset,
    (write offset).run b =
      match value with
      | .error e => .error e b
      | .ok v => .ok (offset + 2) (b.withBytes (writeInt16 b.bytes offset v))

theorem writes_writeCoordinate (scale : ℕ) (coordinate : ℚ) :
    Writes scale (store.writeCoordinate F coordinate) (scaleCoordinate F scale coordinate) := by
  rintro b rfl offset
  rw [BuilderStore.writeCoordinate, run_scale_bind]
  cases scaleCoordinate F b.scale coordinate <;> rfl

theorem writes_writeAngle (scale : ℕ) (angle : ℚ) :
    Writes scale (store.writeAngle F angle) (.ok (scaleAngle F angle)) := by
  rintro b - offset
  rfl

theorem scaleCoordinate_of_fits {scale : ℕ} {coordinate : ℚ}
    (h : CoordinateFits F scale coordinate) :
    scaleCoordinate F scale coordinate = .ok ⌊F (coordinate / scale)⌋ := by
  obtain ⟨hlow, hhigh⟩ := h
  simp only [scaleCoordinate]
  rw [if_neg (by omega)]

theorem scaleCoordinate_of_not_fits {scale : ℕ} {coordinate : ℚ}
    (h : ¬ CoordinateFits F scale coordinate) :
    scaleCoordinate F scale coordinate = .error .einval := by
  rw [CoordinateFits] at h
  simp only [scaleCoordinate]
  rw [if_pos (by omega)]

section Draft

variable {F alloc} {scale : ℕ} {write : ℕ → Action ℕ} {b : TrajectoryBuilder}
variable {old body : List UInt8} {flags flag : UInt8} {changed : Bool}

theorem modify_flags (b : TrajectoryBuilder) (old : List UInt8) (flags flag : UInt8)
    (body : List UInt8) :
    (b.draft old flags body).withBytes
        ((b.draft old flags body).bytes.modify old.length (· ||| flag)) =
      b.draft old (flags ||| flag) body := by
  have hset : (old ++ flags :: (body ++ List.replicate (10 - body.length) 0)).modify old.length
      (· ||| flag) = old ++ (flags ||| flag) :: (body ++ List.replicate (10 - body.length) 0) := by
    rw [List.modify_eq_set_getElem?]
    simp
  simp only [draft, withBytes, bytes, hset]

theorem run_writeChanged_false (flagsPtr : ℕ) (flag : UInt8) (write : ℕ → Action ℕ) (offset : ℕ)
    (b : TrajectoryBuilder) :
    (store.writeChanged flagsPtr flag false write offset).run b = .ok offset b := rfl

theorem run_writeChanged_true (flagsPtr : ℕ) (flag : UInt8) (write : ℕ → Action ℕ) (offset : ℕ)
    (b : TrajectoryBuilder) :
    (store.writeChanged flagsPtr flag true write offset).run b =
      (write offset).run (b.withBytes (b.bytes.modify flagsPtr (· ||| flag))) := rfl

/-- Writing a value that can be written, if it has changed. -/
theorem run_writeChanged_ok {value : ℤ} {v : Except SbError ℤ} (hw : Writes scale write v)
    (hscale : b.scale = scale) (hbody : body.length ≤ 8)
    (hv : changed = true → v = .ok value) :
    (store.writeChanged old.length flag changed write (old.length + 1 + body.length)).run
        (b.draft old flags body) =
      .ok (old.length + 1 + (body ++ changedBytes changed value).length)
        (b.draft old (flags ||| changedFlag changed flag)
          (body ++ changedBytes changed value)) := by
  cases changed with
  | false =>
      simp only [run_writeChanged_false, changedBytes, changedFlag, Bool.false_eq_true, if_false,
        List.append_nil, UInt8.or_zero]
  | true =>
      have hwrite := hw (b.draft old (flags ||| flag) body) hscale
        (old.length + 1 + body.length)
      rw [hv rfl] at hwrite
      simp only [draft_write hbody] at hwrite
      simp only [run_writeChanged_true, changedBytes, changedFlag, if_true, modify_flags, hwrite,
        List.length_append, length_encodeInt16, ← Nat.add_assoc]

/-- Writing a changed value that cannot be written. -/
theorem run_writeChanged_error {e : SbError} (hw : Writes scale write (.error e))
    (hscale : b.scale = scale) (hchanged : changed = true) :
    (store.writeChanged old.length flag changed write (old.length + 1 + body.length)).run
        (b.draft old flags body) =
      .error e (b.draft old (flags ||| flag) body) := by
  have hwrite := hw (b.draft old (flags ||| flag) body) hscale (old.length + 1 + body.length)
  rw [hchanged, run_writeChanged_true, modify_flags, hwrite]

/-- Writing a target whose coordinates fit. -/
theorem run_writeTarget_ok {last target : Vector3WithYaw} (hscale : b.scale = scale)
    (hbody : body.length = 2) (hfits : SegmentFits F scale last target) :
    (store.writeTarget F old.length last target (old.length + 1 + body.length)).run
        (b.draft old 0 body) =
      .ok (old.length + 1 + (body ++ targetBytes F scale last target).length)
        (b.draft old (segmentFlags last target) (body ++ targetBytes F scale last target)) := by
  have hx := writes_writeCoordinate F scale target.x
  have hy := writes_writeCoordinate F scale target.y
  have hz := writes_writeCoordinate F scale target.z
  have hyaw := writes_writeAngle F scale target.yaw
  have hlen := length_changedBytes_le
  have hlenx := hlen (last.x ≠ target.x) ⌊F (target.x / scale)⌋
  have hleny := hlen (last.y ≠ target.y) ⌊F (target.y / scale)⌋
  have hlenz := hlen (last.z ≠ target.z) ⌊F (target.z / scale)⌋
  have hfitx := fun hc => scaleCoordinate_of_fits F (hfits.x (of_decide_eq_true hc))
  have hfity := fun hc => scaleCoordinate_of_fits F (hfits.y (of_decide_eq_true hc))
  have hfitz := fun hc => scaleCoordinate_of_fits F (hfits.z (of_decide_eq_true hc))
  rw [BuilderStore.writeTarget, EStateM.run_bind, run_writeChanged_ok hx hscale (by omega) hfitx]
  dsimp only
  rw [EStateM.run_bind, run_writeChanged_ok hy hscale ?_ hfity]
  · dsimp only
    rw [EStateM.run_bind, run_writeChanged_ok hz hscale ?_ hfitz]
    · dsimp only
      rw [run_writeChanged_ok hyaw hscale ?_ fun _ => rfl]
      · simp only [targetBytes, segmentFlags, List.append_assoc, UInt8.zero_or]
      · simp only [List.length_append]
        omega
    · simp only [List.length_append]
      omega
  · rw [List.length_append]
    omega

/-- Writing a target with a coordinate that does not fit. -/
theorem run_writeTarget_error {last target : Vector3WithYaw} (hscale : b.scale = scale)
    (hbody : body.length = 2) (hfits : ¬ SegmentFits F scale last target) :
    ∃ flags body', body'.length ≤ 10 ∧
      (store.writeTarget F old.length last target (old.length + 1 + body.length)).run
        (b.draft old 0 body) = .error .einval (b.draft old flags body') := by
  have hx := writes_writeCoordinate F scale target.x
  have hy := writes_writeCoordinate F scale target.y
  have hz := writes_writeCoordinate F scale target.z
  have hlen := length_changedBytes_le
  have hlenx := hlen (last.x ≠ target.x) ⌊F (target.x / scale)⌋
  have hleny := hlen (last.y ≠ target.y) ⌊F (target.y / scale)⌋
  have hroom : ∀ {added : List UInt8}, added.length ≤ 2 → (body ++ added).length ≤ 8 := by
    intro added hadded
    rw [List.length_append]
    omega
  have hunfit : ∀ {a c : ℚ}, ¬ (a ≠ c → CoordinateFits F scale c) →
      decide (a ≠ c) = true ∧ scaleCoordinate F scale c = .error .einval := by
    intro a c hnot
    rw [Classical.not_imp] at hnot
    exact ⟨decide_eq_true hnot.1, scaleCoordinate_of_not_fits F hnot.2⟩
  have hfit : ∀ {a c : ℚ}, (a ≠ c → CoordinateFits F scale c) →
      decide (a ≠ c) = true → scaleCoordinate F scale c = .ok ⌊F (c / scale)⌋ :=
    fun himp hc => scaleCoordinate_of_fits F (himp (of_decide_eq_true hc))
  by_cases hfitx : last.x ≠ target.x → CoordinateFits F scale target.x
  · by_cases hfity : last.y ≠ target.y → CoordinateFits F scale target.y
    · by_cases hfitz : last.z ≠ target.z → CoordinateFits F scale target.z
      · exact absurd ⟨hfitx, hfity, hfitz⟩ hfits
      · obtain ⟨hchanged, herror⟩ := hunfit hfitz
        rw [herror] at hz
        rw [BuilderStore.writeTarget, EStateM.run_bind,
          run_writeChanged_ok hx hscale (by omega) (hfit hfitx)]
        dsimp only
        rw [EStateM.run_bind, run_writeChanged_ok hy hscale (hroom hlenx) (hfit hfity)]
        dsimp only
        rw [EStateM.run_bind, run_writeChanged_error hz hscale hchanged]
        refine ⟨_, _, ?_, rfl⟩
        simp only [List.length_append]
        omega
    · obtain ⟨hchanged, herror⟩ := hunfit hfity
      rw [herror] at hy
      rw [BuilderStore.writeTarget, EStateM.run_bind,
        run_writeChanged_ok hx hscale (by omega) (hfit hfitx)]
      dsimp only
      rw [EStateM.run_bind, run_writeChanged_error hy hscale hchanged]
      refine ⟨_, _, ?_, rfl⟩
      rw [List.length_append]
      omega
  · obtain ⟨hchanged, herror⟩ := hunfit hfitx
    rw [herror] at hx
    rw [BuilderStore.writeTarget, EStateM.run_bind, run_writeChanged_error hx hscale hchanged]
    exact ⟨_, body, by omega, rfl⟩

end Draft

/-- The builder after a segment has been appended, with its new capacity. -/
def appended (b : TrajectoryBuilder) (target : Vector3WithYaw) (durationMsec capacity : ℕ) :
    TrajectoryBuilder :=
  { (b.withCapacity capacity).withBytes
      (b.bytes ++ segmentBytes F b.scale b.lastPosition target durationMsec) with
    lastPosition := target }

section Outcomes

variable {F alloc} {b : TrajectoryBuilder} {target : Vector3WithYaw} {durationMsec : ℕ}

/-- Working on the buffer of a builder. -/
theorem run_onBuffer {α : Type} (x : EStateM SbError Buffer α) (b : TrajectoryBuilder) :
    (onBuffer x).run b =
      match x.run b.buffer with
      | .ok a buffer => .ok a { b with buffer := buffer }
      | .error e buffer => .error e { b with buffer := buffer } := by
  dsimp only [onBuffer, onPart, EStateM.run]
  cases x b.buffer <;> rfl

/-- The space for a segment is refused: nothing happens. -/
theorem appendSegment_refused
    (h : Buffer.reservation b.buffer.size b.buffer.capacity 11 = none) :
    (appendSegment F alloc target durationMsec).run b = .error .enomem b := by
  rw [appendSegment, BuilderStore.appendSegment, run_size_bind, EStateM.run_bind, run_onBuffer,
    Buffer.extendWithZeros_refused alloc h]

/-- The space for a segment cannot be had: the buffer is lost. -/
theorem appendSegment_lost {c : ℕ} (howned : b.buffer.owned = true)
    (h : Buffer.reservation b.buffer.size b.buffer.capacity 11 = some c)
    (halloc : ¬ Buffer.Available alloc b.buffer.capacity c) :
    (appendSegment F alloc target durationMsec).run b =
      .error .enomem { b with buffer := b.buffer.lost } := by
  rw [appendSegment, BuilderStore.appendSegment, run_size_bind, EStateM.run_bind, run_onBuffer,
    Buffer.extendWithZeros_lost alloc howned h halloc]

/-- The builder with the space for a segment. -/
theorem draft_reserved (b : TrajectoryBuilder) (c : ℕ) :
    ({ b with
        buffer := { b.buffer with
          bytes := b.buffer.bytes ++ List.replicate 11 0
          capacity := c } } : TrajectoryBuilder) = (b.withCapacity c).draft b.bytes 0 [] := by
  rw [draft, List.nil_append, List.length_nil, Nat.sub_zero, ← List.replicate_succ]
  rfl

/-- The flag byte of a new draft is cleared already. -/
theorem clear_draft (b : TrajectoryBuilder) (old : List UInt8) :
    (b.draft old 0 []).withBytes ((b.draft old 0 []).bytes.set old.length 0) =
      b.draft old 0 [] := by
  have hset : (old ++ (0 : UInt8) :: ([] ++ List.replicate (10 - 0) 0)).set old.length 0 =
      old ++ 0 :: ([] ++ List.replicate (10 - 0) 0) := by
    rw [List.set_append_right _ _ le_rfl, Nat.sub_self, List.set_cons_zero]
  simp only [draft, withBytes, bytes, List.length_nil, hset]

/-- With the space for a segment, the segment is drafted and then trimmed. -/
theorem run_appendSegment {c : ℕ} (howned : b.buffer.owned = true)
    (h : Buffer.reservation b.buffer.size b.buffer.capacity 11 = some c)
    (halloc : Buffer.Available alloc b.buffer.capacity c) :
    (appendSegment F alloc target durationMsec).run b =
      (store.writeTarget F b.bytes.length b.lastPosition target
          (b.bytes.length + 1 + (encodeUint16 durationMsec).length) >>= fun offset => do
        onBuffer (Buffer.resize alloc offset)
        modify fun b => { b with lastPosition := target } : Action Unit).run
          ((b.withCapacity c).draft b.bytes 0 (encodeUint16 durationMsec)) := by
  have hbytes : ((b.withCapacity c).draft b.bytes 0 []).bytes =
      (b.bytes ++ [0]) ++ ([0, 0] ++ List.replicate 8 0) := by
    rw [List.append_assoc]
    rfl
  have hduration : ((b.withCapacity c).draft b.bytes 0 []).withBytes
      (writeUint16 ((b.withCapacity c).draft b.bytes 0 []).bytes (b.bytes.length + 1)
        durationMsec) = (b.withCapacity c).draft b.bytes 0 (encodeUint16 durationMsec) := by
    have hlen : b.bytes.length + 1 = (b.bytes ++ [(0 : UInt8)]).length := by
      rw [List.length_append]
      rfl
    rw [hbytes, hlen, writeUint16, writeBytes_append (by rfl), List.append_assoc]
    rfl
  rw [appendSegment, BuilderStore.appendSegment, run_size_bind, EStateM.run_bind, run_onBuffer,
    Buffer.extendWithZeros_granted alloc howned h halloc]
  dsimp only
  rw [draft_reserved, EStateM.run_bind]
  change EStateM.run _ ((((b.withCapacity c).draft b.bytes 0 []).withBytes
    (((b.withCapacity c).draft b.bytes 0 []).bytes.set b.bytes.length 0))) = _
  rw [clear_draft, EStateM.run_bind]
  change EStateM.run _ (((b.withCapacity c).draft b.bytes 0 []).withBytes
    (writeUint16 ((b.withCapacity c).draft b.bytes 0 []).bytes (b.bytes.length + 1)
      durationMsec)) = _
  rw [hduration, run_lastPosition_bind]
  rfl

/-- Trimming a draft. -/
theorem run_trim {old body : List UInt8} {flags : UInt8} (howned : b.buffer.owned = true)
    (hbody : body.length ≤ 10) :
    (do onBuffer (Buffer.resize alloc (old.length + 1 + body.length))
        modify fun b => { b with lastPosition := target } : Action Unit).run
        (b.draft old flags body) =
      .ok () { b.withBytes (old ++ flags :: body) with lastPosition := target } := by
  have hsize : (b.draft old flags body).buffer.size = old.length + 11 := length_draft hbody
  have howned' : (b.draft old flags body).buffer.owned = true := howned
  have htake : (b.draft old flags body).buffer.bytes.take (old.length + 1 + body.length) =
      old ++ flags :: body := by
    have hlen : old.length + 1 + body.length = (old ++ flags :: body).length := by
      simp only [List.length_append, List.length_cons]
      omega
    have hbytes : (b.draft old flags body).buffer.bytes =
        (old ++ flags :: body) ++ List.replicate (10 - body.length) 0 := by
      simp only [draft, withBytes, List.append_assoc, List.cons_append]
    rw [hbytes, hlen, List.take_left]
  have hle : old.length + 1 + body.length ≤ (b.draft old flags body).buffer.size := by omega
  rw [EStateM.run_bind, run_onBuffer, Buffer.resize_of_le alloc howned' hle, htake]
  rfl

/-- **The segment is appended.** -/
theorem appendSegment_done {c : ℕ} (howned : b.buffer.owned = true)
    (h : Buffer.reservation b.buffer.size b.buffer.capacity 11 = some c)
    (halloc : Buffer.Available alloc b.buffer.capacity c)
    (hfits : SegmentFits F b.scale b.lastPosition target) :
    (appendSegment F alloc target durationMsec).run b =
      .ok () (appended F b target durationMsec c) := by
  have hlen := length_targetBytes_le F (b.withCapacity c).scale b.lastPosition target
  have htarget := @run_writeTarget_ok F _ (b.withCapacity c) b.bytes _ b.lastPosition target rfl
    (length_encodeUint16 durationMsec) hfits
  rw [run_appendSegment howned h halloc, EStateM.run_bind, htarget]
  refine run_trim howned ?_
  rw [List.length_append, length_encodeUint16]
  omega

/-- A coordinate of the segment cannot be encoded: the space for it stays behind. -/
theorem appendSegment_unfit {c : ℕ} (howned : b.buffer.owned = true)
    (h : Buffer.reservation b.buffer.size b.buffer.capacity 11 = some c)
    (halloc : Buffer.Available alloc b.buffer.capacity c)
    (hfits : ¬ SegmentFits F b.scale b.lastPosition target) :
    ∃ flags body, body.length ≤ 10 ∧ (appendSegment F alloc target durationMsec).run b =
      .error .einval ((b.withCapacity c).draft b.bytes flags body) := by
  obtain ⟨flags, body, hbody, herror⟩ := @run_writeTarget_error F _ (b.withCapacity c) b.bytes _
    b.lastPosition target rfl (length_encodeUint16 durationMsec) hfits
  refine ⟨flags, body, hbody, ?_⟩
  rw [run_appendSegment howned h halloc, EStateM.run_bind, herror]

/-- **What appending a segment does**: the space for it is refused or cannot be had, a coordinate
cannot be encoded, or it is appended. -/
theorem appendSegment_cases (howned : b.buffer.owned = true) :
    (Buffer.reservation b.buffer.size b.buffer.capacity 11 = none ∧
        (appendSegment F alloc target durationMsec).run b = .error .enomem b) ∨
      ∃ c, Buffer.reservation b.buffer.size b.buffer.capacity 11 = some c ∧
        ((appendSegment F alloc target durationMsec).run b =
            .error .enomem { b with buffer := b.buffer.lost } ∨
          (∃ flags body, body.length ≤ 10 ∧ (appendSegment F alloc target durationMsec).run b =
            .error .einval ((b.withCapacity c).draft b.bytes flags body)) ∨
          Buffer.Available alloc b.buffer.capacity c ∧ SegmentFits F b.scale b.lastPosition target ∧
            (appendSegment F alloc target durationMsec).run b =
              .ok () (appended F b target durationMsec c)) := by
  cases hres : Buffer.reservation b.buffer.size b.buffer.capacity 11 with
  | none => exact .inl ⟨rfl, appendSegment_refused hres⟩
  | some c =>
      refine .inr ⟨c, rfl, ?_⟩
      by_cases halloc : Buffer.Available alloc b.buffer.capacity c
      · by_cases hfits : SegmentFits F b.scale b.lastPosition target
        · exact .inr (.inr ⟨halloc, hfits, appendSegment_done howned hres halloc hfits⟩)
        · exact .inr (.inl (appendSegment_unfit howned hres halloc hfits))
      · exact .inl (appendSegment_lost howned hres halloc)

/-- Appending a segment succeeds exactly when there is space for it and its coordinates
fit. -/
theorem appendSegment_eq_ok (howned : b.buffer.owned = true) {b' : TrajectoryBuilder} :
    (appendSegment F alloc target durationMsec).run b = .ok () b' ↔
      ∃ c, Buffer.reservation b.buffer.size b.buffer.capacity 11 = some c ∧
        Buffer.Available alloc b.buffer.capacity c ∧
        SegmentFits F b.scale b.lastPosition target ∧ b' = appended F b target durationMsec c := by
  constructor
  · intro h
    obtain ⟨-, hrefused⟩ | ⟨c, hres, hlost | ⟨flags, body, -, hunfit⟩ | ⟨halloc, hfits, hdone⟩⟩ :=
      @appendSegment_cases F alloc b target durationMsec howned
    · cases hrefused.symm.trans h
    · cases hlost.symm.trans h
    · cases hunfit.symm.trans h
    · cases hdone.symm.trans h
      exact ⟨c, hres, halloc, hfits, rfl⟩
  · rintro ⟨c, hres, halloc, hfits, rfl⟩
    exact appendSegment_done howned hres halloc hfits

end Outcomes

/-! ### Lists of segments -/

/-- A short segment: its target and its duration. -/
abbrev Segment := Vector3WithYaw × ℕ

/-- The segments of a line. -/
def lineSegments (last target : Vector3WithYaw) (durationMsec : ℕ) : List Segment :=
  if maxDurationMsec < durationMsec then
    lineSegments last (midpoint F last target) (durationMsec / 2) ++
      lineSegments (midpoint F last target) target (durationMsec - durationMsec / 2)
  else
    [(target, durationMsec)]
termination_by durationMsec
decreasing_by
  all_goals simp only [maxDurationMsec] at *; omega

/-- The segments of a hold. -/
def holdSegments (position : Vector3WithYaw) (durationMsec : ℕ) : List Segment :=
  if 0 < durationMsec then
    (position, min durationMsec maxDurationMsec) ::
      holdSegments position (durationMsec - min durationMsec maxDurationMsec)
  else
    []
termination_by durationMsec
decreasing_by
  simp only [maxDurationMsec]; omega

/-- Append segments one after the other. -/
def appendSegments : List Segment → Action Unit
  | [] => pure ()
  | (target, durationMsec) :: segments => do
      appendSegment F alloc target durationMsec
      appendSegments segments

theorem appendSegments_append (segments segments' : List Segment) :
    appendSegments F alloc (segments ++ segments') =
      (appendSegments F alloc segments >>= fun _ => appendSegments F alloc segments') := by
  induction segments with
  | nil => rfl
  | cons segment segments ih =>
      simp only [List.cons_append, appendSegments, ih, bind_assoc]

theorem appendSegments_singleton (target : Vector3WithYaw) (durationMsec : ℕ) :
    appendSegments F alloc [(target, durationMsec)] =
      appendSegment F alloc target durationMsec := by
  simp only [appendSegments]
  exact bind_pure_unit

/-- A line of at most 60 seconds is one segment. -/
theorem lineSegments_of_le {last target : Vector3WithYaw} {durationMsec : ℕ}
    (h : durationMsec ≤ maxDurationMsec) :
    lineSegments F last target durationMsec = [(target, durationMsec)] := by
  rw [lineSegments, if_neg (by omega)]

variable {F alloc}

/-- After a line, the builder stands at its target. -/
theorem lastPosition_of_lineSegments {last target : Vector3WithYaw} {durationMsec : ℕ}
    {b b' : TrajectoryBuilder} (howned : b.buffer.owned = true)
    (h : (appendSegments F alloc (lineSegments F last target durationMsec)).run b = .ok () b') :
    b'.lastPosition = target ∧ b'.buffer.owned = true := by
  induction last, target, durationMsec using lineSegments.induct F generalizing b b' with
  | case1 last target durationMsec hlong ihFirst ihSecond =>
      rw [lineSegments, if_pos hlong, appendSegments_append, EStateM.run_bind] at h
      split at h
      case h_1 b₁ h₁ =>
        obtain ⟨-, howned₁⟩ := ihFirst howned h₁
        exact ihSecond howned₁ h
      case h_2 => cases h
  | case2 last target durationMsec hshort =>
      rw [lineSegments, if_neg hshort, appendSegments_singleton, appendSegment_eq_ok howned] at h
      obtain ⟨c, -, -, -, rfl⟩ := h
      exact ⟨rfl, howned⟩

/-- **A line** is appended segment by segment. -/
theorem run_appendLine {b : TrajectoryBuilder} (howned : b.buffer.owned = true)
    (target : Vector3WithYaw) (durationMsec : ℕ) :
    (appendLine F alloc target durationMsec).run b =
      (appendSegments F alloc (lineSegments F b.lastPosition target durationMsec)).run b := by
  induction durationMsec using Nat.strongRecOn generalizing target b with
  | ind durationMsec ih =>
      rw [lineSegments]
      by_cases hlong : maxDurationMsec < durationMsec
      · rw [appendLine, BuilderStore.appendLine_of_lt _ _ _ _ hlong, if_pos hlong,
          appendSegments_append, run_lastPosition_bind]
        rw [maxDurationMsec] at hlong
        rw [EStateM.run_bind, EStateM.run_bind, ← appendLine, ih _ (by omega) howned]
        split
        case h_1 b₁ h₁ =>
          obtain ⟨hlast, howned₁⟩ := lastPosition_of_lineSegments howned h₁
          rw [← appendLine, ih _ (by omega) howned₁, hlast]
        case h_2 => rfl
      · rw [appendLine, BuilderStore.appendLine_of_not_lt _ _ _ _ hlong, if_neg hlong,
          appendSegments_singleton]
        rfl

/-- A line of at most 60 seconds is appended as it is. -/
theorem run_appendLine_of_le {b : TrajectoryBuilder} (howned : b.buffer.owned = true)
    (target : Vector3WithYaw) {durationMsec : ℕ} (h : durationMsec ≤ maxDurationMsec) :
    (appendLine F alloc target durationMsec).run b =
      (appendSegment F alloc target durationMsec).run b := by
  rw [run_appendLine howned, lineSegments_of_le F h, appendSegments_singleton]

/-- **A hold** is appended segment by segment. -/
theorem run_holdPositionFor {b : TrajectoryBuilder} (howned : b.buffer.owned = true)
    (durationMsec : ℕ) :
    (holdPositionFor F alloc durationMsec).run b =
      (appendSegments F alloc (holdSegments b.lastPosition durationMsec)).run b := by
  induction durationMsec using holdSegments.induct generalizing b with
  | case1 durationMsec hpos ih =>
      have hshort : min durationMsec maxDurationMsec ≤ maxDurationMsec := Nat.min_le_right _ _
      rw [holdPositionFor, BuilderStore.holdPositionFor_of_pos _ _ _ _ hpos, holdSegments,
        if_pos hpos, appendSegments, run_lastPosition_bind, EStateM.run_bind, EStateM.run_bind,
        ← appendLine, run_appendLine_of_le howned _ hshort]
      split
      case h_1 b₁ h₁ =>
        rw [appendSegment_eq_ok howned] at h₁
        obtain ⟨c, -, -, -, rfl⟩ := h₁
        exact ih howned
      case h_2 => rfl
  | case2 durationMsec hzero =>
      rw [holdPositionFor, BuilderStore.holdPositionFor_of_not_pos _ _ _ _ hzero, holdSegments,
        if_neg hzero]
      rfl

end TrajectoryBuilder

end Skybrush
