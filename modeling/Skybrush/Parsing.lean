import Skybrush.Error
import Skybrush.Library.Parser
import Skybrush.Library.Base128

/-!
# Parsing and Writing Integers

The little-endian integers of the binary formats, as in `parsing.c`. The parsers get a buffer
and an offset that they advance. They do not know how long the buffer is, so reading past
its end is a fault.

## Main results

* `writeBytes_append`: writing replaces as many bytes as are written.
* `reads_parseUint16`, `reads_parseInt16`: reading what was written.
* `needs_parseUint16`: a 16-bit read needs two bytes.
-/

namespace Skybrush

open Checked

/-! ### Writing -/

/-- The two bytes of an unsigned 16-bit integer. -/
def encodeUint16 (value : ℕ) : List UInt8 := [UInt8.ofNat value, UInt8.ofNat (value / 256)]

/-- The two bytes of a signed 16-bit integer. -/
def encodeInt16 (value : ℤ) : List UInt8 := encodeUint16 (value % 65536).toNat

/-- Write bytes into a buffer, at an offset. -/
def writeBytes (buf : List UInt8) (offset : ℕ) (bytes : List UInt8) : List UInt8 :=
  match bytes with
  | [] => buf
  | b :: bytes => writeBytes (buf.set offset b) (offset + 1) bytes

/-- Write an unsigned 16-bit integer: `sb_write_uint16`. -/
def writeUint16 (buf : List UInt8) (offset value : ℕ) : List UInt8 :=
  writeBytes buf offset (encodeUint16 value)

/-- Write a signed 16-bit integer: `sb_write_int16`. -/
def writeInt16 (buf : List UInt8) (offset : ℕ) (value : ℤ) : List UInt8 :=
  writeBytes buf offset (encodeInt16 value)

@[simp] theorem length_encodeUint16 (value : ℕ) : (encodeUint16 value).length = 2 := rfl

@[simp] theorem length_encodeInt16 (value : ℤ) : (encodeInt16 value).length = 2 := rfl

/-- A number of two bytes is written as it was read. -/
theorem encodeUint16_of_bytes (low high : UInt8) :
    encodeUint16 (low.toNat + high.toNat * 256) = [low, high] := by
  have hlow := low.toNat_lt
  have hhigh := high.toNat_lt
  have hfirst : UInt8.ofNat (low.toNat + high.toNat * 256) = low := by
    apply UInt8.toNat_inj.1
    rw [UInt8.toNat_ofNat']
    omega
  have hsecond : UInt8.ofNat ((low.toNat + high.toNat * 256) / 256) = high := by
    apply UInt8.toNat_inj.1
    rw [UInt8.toNat_ofNat']
    omega
  rw [encodeUint16, hfirst, hsecond]

@[simp] theorem length_writeBytes (buf : List UInt8) (offset : ℕ) (bytes : List UInt8) :
    (writeBytes buf offset bytes).length = buf.length := by
  induction bytes generalizing buf offset with
  | nil => rfl
  | cons b bytes ih => rw [writeBytes, ih, List.length_set]

/-- Writing replaces as many bytes as are written. -/
theorem writeBytes_append {before old after bytes : List UInt8}
    (h : old.length = bytes.length) :
    writeBytes (before ++ (old ++ after)) before.length bytes = before ++ (bytes ++ after) := by
  induction bytes generalizing before old with
  | nil =>
      obtain rfl := List.length_eq_zero_iff.mp h
      rfl
  | cons b bytes ih =>
      cases old with
      | nil => simp at h
      | cons a old =>
          have hset : (before ++ (a :: old ++ after)).set before.length b =
              (before ++ [b]) ++ (old ++ after) := by simp
          have hlen : before.length + 1 = (before ++ [b]).length := by simp
          rw [writeBytes, hset, hlen, ih (by simpa using h)]
          simp

/-! ### Reading -/

/-- Read an unsigned 16-bit integer: `sb_parse_uint16`. -/
def parseUint16 : Parser SbError UInt8 ℕ := fun buf offset => do
  let high ← read buf (offset + 1)
  let low ← read buf offset
  pure (high.toNat * 256 + low.toNat, offset + 2)

/-- Read a signed 16-bit integer: `sb_parse_int16`. -/
def parseInt16 : Parser SbError UInt8 ℤ := do
  let value ← parseUint16
  pure (Int.bmod value (2 ^ 16))

theorem needs_parseUint16 : parseUint16.Needs 2 := by
  intro buf offset _
  refine ⟨fun h => ⟨buf[offset + 1].toNat * 256 + buf[offset].toNat, ?_⟩, fun h => ?_⟩
  · rw [parseUint16, read_of_lt (by omega), ok_bind, read_of_lt (by omega), ok_bind]
    rfl
  · rw [parseUint16, read_of_ge (by omega), fault_bind]

/-- Reading past the end, wherever it begins. -/
theorem parseInt16_of_gt {buf : List UInt8} {offset : ℕ} (h : buf.length < offset + 2) :
    parseInt16 buf offset = fault := by
  change (parseUint16 buf offset >>= fun r => ok (Int.bmod r.1 (2 ^ 16), r.2)) = fault
  rw [parseUint16, read_of_ge (by omega), fault_bind, fault_bind]

theorem needs_parseInt16 : parseInt16.Needs 2 := needs_parseUint16.bind_pure

/-- What is read does not change when bytes are added at the end. -/
theorem extends_parseUint16 : parseUint16.Extends := by
  intro buf more offset r h
  have hread : ∀ {i : ℕ} {b : UInt8}, (read buf i : Checked SbError UInt8) = ok b →
      (read (buf ++ more) i : Checked SbError UInt8) = ok b := by
    intro i b hb
    have hget := read_eq_ok.mp hb
    rw [read_eq_ok, List.getElem?_append_left (List.getElem?_eq_some_iff.mp hget).1, hget]
  obtain ⟨high, hhigh, hrest⟩ := bind_eq_ok.mp h
  obtain ⟨low, hlow, hpure⟩ := bind_eq_ok.mp hrest
  rw [parseUint16, hread hhigh, ok_bind, hread hlow]
  exact hpure

theorem extends_parseInt16 : parseInt16.Extends := extends_parseUint16.bind_pure

/-- Reading what was written. -/
theorem reads_parseUint16 {value : ℕ} (h : value < 65536) :
    parseUint16.Reads (encodeUint16 value) value := by
  intro before after
  have hhigh : (before ++ (encodeUint16 value ++ after))[before.length + 1]? =
      some (UInt8.ofNat (value / 256)) := by simp [encodeUint16]
  have hlow : (before ++ (encodeUint16 value ++ after))[before.length]? =
      some (UInt8.ofNat value) := by simp [encodeUint16]
  have hvalue : (UInt8.ofNat (value / 256)).toNat * 256 + (UInt8.ofNat value).toNat = value := by
    rw [UInt8.toNat_ofNat', UInt8.toNat_ofNat']
    omega
  rw [parseUint16, read_eq_ok.mpr hhigh, ok_bind, read_eq_ok.mpr hlow, ok_bind, hvalue]
  rfl

/-- Two bytes are read as the number that they stand for. -/
theorem reads_parseUint16_bytes (low high : UInt8) :
    parseUint16.Reads [low, high] (low.toNat + high.toNat * 256) := by
  have hlow := low.toNat_lt
  have hhigh := high.toNat_lt
  have hreads := reads_parseUint16 (show low.toNat + high.toNat * 256 < 65536 by omega)
  rwa [encodeUint16_of_bytes] at hreads

/-- Reading a signed integer that was written. -/
theorem reads_parseInt16 {value : ℤ} (hlow : -32768 ≤ value) (hhigh : value ≤ 32767) :
    parseInt16.Reads (encodeInt16 value) value := by
  have hmod : ((value % 65536).toNat : ℤ) = value % 65536 := by omega
  have hvalue : Int.bmod ((value % 65536).toNat : ℤ) (2 ^ 16) = value := by
    rw [hmod, Int.bmod_def]
    norm_num
    omega
  have hread := reads_parseUint16 (show (value % 65536).toNat < 65536 by omega)
  have hsigned := hread.bind_pure (f := fun v : ℕ => Int.bmod v (2 ^ 16))
  rwa [hvalue] at hsigned

end Skybrush
