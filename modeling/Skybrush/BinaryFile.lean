import Mathlib.Tactic.Ring
import Skybrush.Crc32
import Skybrush.Error

/-!
# The Parser of Binary Files

The parser of the Skybrush binary file format (`formats/binary.c`), a header and a chain of
blocks. A block is a type byte, the length of its body, and the body; the header may have a
checksum of the whole file. The parser reads either from a buffer in memory or from a
file descriptor. A file descriptor stands for a regular file: `read` returns what is left, at
most as much as was asked for, and `lseek` accepts every offset.

What a failed call has done to the parser stays, so the calls are actions on it.

## Main results

* `BinaryFileParser.run_read`, `BinaryFileParser.run_seek`: inside the data, both ways of
  reading do the same.
* `BinaryFileParser.run_getCrc32`: the checksum depends only on the data.
* `BinaryFileParser.run_readNextBlockHeader`: the header of a block is read off the data.
-/

namespace Skybrush

/-- Where a parser reads from. -/
inductive BinarySource where
  | memory
  | file
  deriving DecidableEq, Repr

/-- A block: `sb_binary_block_t`. -/
structure BinaryBlock where
  type : UInt8
  length : ℕ
  startOfBody : ℕ
  deriving DecidableEq, Repr

/-- A parser: `sb_binary_file_parser_t`, with the bytes that it reads and its place in them. -/
structure BinaryFileParser where
  source : BinarySource
  data : List UInt8
  offset : ℕ
  version : UInt8
  features : UInt8
  startOfFirstBlock : ℕ
  currentBlock : BinaryBlock
  deriving DecidableEq, Repr

/-- `SB_BINARY_BLOCK_NONE`. -/
def binaryBlockNone : UInt8 := 0

/-- `SB_BINARY_FEATURE_CRC32`. -/
def binaryFeatureCrc32 : UInt8 := 1

namespace BinaryFileParser

/-- An action on a parser. -/
abbrev Action := EStateM SbError BinaryFileParser

/-- Fail with an error on a condition. -/
def failIf (condition : Prop) [Decidable condition] (e : SbError) : Action Unit :=
  if condition then throw e else pure ()

theorem run_failIf {condition : Prop} [Decidable condition] (h : ¬ condition) (e : SbError)
    (p : BinaryFileParser) : (failIf condition e).run p = .ok () p := by
  rw [failIf, if_neg h]
  rfl

theorem run_failIf_of {condition : Prop} [Decidable condition] (h : condition) (e : SbError)
    (p : BinaryFileParser) : (failIf condition e).run p = .error e p := by
  rw [failIf, if_pos h]
  rfl

section Sequencing

variable {α β : Type} {x : Action α} {p q : BinaryFileParser}

theorem run_get_bind (f : BinaryFileParser → Action β) (p : BinaryFileParser) :
    (get >>= f).run p = (f p).run p := rfl

theorem run_bind_of_ok {a : α} (h : x.run p = .ok a q) (f : α → Action β) :
    (x >>= f).run p = (f a).run q := by
  rw [EStateM.run_bind, h]

theorem run_bind_of_error {e : SbError} (h : x.run p = .error e q) (f : α → Action β) :
    (x >>= f).run p = .error e q := by
  rw [EStateM.run_bind, h]

end Sequencing

/-! ### Reading and seeking -/

/-- The bytes that `sb_i_binary_file_read` returns. -/
def bytesAhead (p : BinaryFileParser) (nbytes : ℕ) : List UInt8 :=
  (p.data.drop p.offset).take nbytes

/-- The parser after `sb_i_binary_file_read`. In memory, the read pointer stops at the end of
the buffer; in a file, it moves over what was read. -/
def afterRead (p : BinaryFileParser) (nbytes : ℕ) : BinaryFileParser :=
  match p.source with
  | .memory =>
      if p.data.length < p.offset + nbytes then
        { p with offset := p.data.length }
      else
        { p with offset := p.offset + nbytes }
  | .file => { p with offset := p.offset + (p.bytesAhead nbytes).length }

/-- `sb_i_binary_file_read`. -/
def read (nbytes : ℕ) : Action (List UInt8) := fun p =>
  .ok (p.bytesAhead nbytes) (p.afterRead nbytes)

/-- `sb_i_binary_file_seek`, to an offset that is not negative. -/
def seek (offset : ℕ) : Action Unit := do
  let p ← get
  match p.source with
  | .memory =>
      if p.data.length < offset then throw .eread else set { p with offset := offset }
  | .file => set { p with offset := offset }

/-- `sb_i_binary_file_get_current_offset`. -/
def getCurrentOffset : Action ℕ := do
  let p ← get
  pure p.offset

theorem length_bytesAhead (p : BinaryFileParser) (nbytes : ℕ) :
    (p.bytesAhead nbytes).length = min nbytes (p.data.length - p.offset) := by
  rw [bytesAhead, List.length_take, List.length_drop]

/-- A place that a parser can be at: for a parser that reads from memory, inside the data. -/
def CanBeAt (p : BinaryFileParser) (offset : ℕ) : Prop :=
  p.source = .memory → offset ≤ p.data.length

/-- Both ways of reading move over what was read. -/
theorem afterRead_eq {p : BinaryFileParser} (h : p.CanBeAt p.offset) (nbytes : ℕ) :
    p.afterRead nbytes = { p with offset := p.offset + (p.bytesAhead nbytes).length } := by
  have hlength := p.length_bytesAhead nbytes
  rw [afterRead]
  split
  case h_1 hmemory =>
    have hinside := h hmemory
    split
    case isTrue hlt =>
      have hend : p.offset + (p.bytesAhead nbytes).length = p.data.length := by omega
      rw [hend]
    case isFalse hle =>
      have hend : p.offset + (p.bytesAhead nbytes).length = p.offset + nbytes := by omega
      rw [hend]
  case h_2 => rfl

theorem run_read {p : BinaryFileParser} (h : p.CanBeAt p.offset) (nbytes : ℕ) :
    (read nbytes).run p = .ok (p.bytesAhead nbytes)
      { p with offset := p.offset + (p.bytesAhead nbytes).length } :=
  congrArg _ (afterRead_eq h nbytes)

theorem run_seek {p : BinaryFileParser} {offset : ℕ} (h : p.CanBeAt offset) :
    (seek offset).run p = .ok () { p with offset := offset } := by
  rw [seek, run_get_bind]
  split
  case h_1 hmemory =>
    rw [if_neg (Nat.not_lt.2 (h hmemory))]
    rfl
  case h_2 => rfl

theorem run_seek_outside {p : BinaryFileParser} {offset : ℕ} (h : ¬ p.CanBeAt offset) :
    (seek offset).run p = .error .eread p := by
  obtain ⟨hmemory, houtside⟩ := Classical.not_imp.1 h
  rw [seek, run_get_bind, hmemory]
  dsimp only
  rw [if_pos (Nat.lt_of_not_le houtside)]
  rfl

/-! ### The checksum -/

/-- The bytes of the checksum, replaced with zeros. -/
def clearChecksum (buf : List UInt8) : List UInt8 :=
  (((buf.set 6 0).set 7 0).set 8 0).set 9 0

/-- The checksum with another piece of the file, which was read at an offset. -/
def crc32Piece (checksum : BitVec 32) (offset : ℕ) (buf : List UInt8) : BitVec 32 :=
  let buf := if offset = 0 ∧ 10 ≤ buf.length then clearChecksum buf else buf
  if 0 < buf.length then apCrc32Update checksum buf else checksum

/-- A piece that is complete is followed by less. -/
theorem remaining_afterRead_lt {p : BinaryFileParser} {nbytes : ℕ} (hpos : 0 < nbytes)
    (h : ¬ (p.bytesAhead nbytes).length < nbytes) :
    (p.afterRead nbytes).data.length - (p.afterRead nbytes).offset <
      p.data.length - p.offset := by
  have hlength := p.length_bytesAhead nbytes
  have hinside : p.CanBeAt p.offset := fun _ => by omega
  rw [afterRead_eq hinside]
  dsimp only
  omega

/-- The loop of `sb_i_binary_file_get_crc32`, which reads 256 bytes at a time. -/
def crc32Loop (p : BinaryFileParser) (checksum : BitVec 32) (offset : ℕ) :
    BitVec 32 × BinaryFileParser :=
  if (p.bytesAhead 256).length < 256 then
    (crc32Piece checksum offset (p.bytesAhead 256), p.afterRead 256)
  else
    crc32Loop (p.afterRead 256) (crc32Piece checksum offset (p.bytesAhead 256))
      ((offset + (p.bytesAhead 256).length) % 2 ^ 32)
termination_by p.data.length - p.offset
decreasing_by
  exact remaining_afterRead_lt (by decide) ‹_›

/-- `sb_i_binary_file_get_crc32`. -/
def getCrc32 : Action (BitVec 32) := do
  let originalOffset ← getCurrentOffset
  seek 0
  let p ← get
  set (p.crc32Loop 0 0).2
  seek originalOffset
  pure (p.crc32Loop 0 0).1

/-- The checksum of some data from an offset on, which counts in 32 bits. -/
def checksumFrom (data : List UInt8) (checksum : BitVec 32) (offset : ℕ) : BitVec 32 :=
  if (data.take 256).length < 256 then
    crc32Piece checksum offset (data.take 256)
  else
    checksumFrom (data.drop 256) (crc32Piece checksum offset (data.take 256))
      ((offset + 256) % 2 ^ 32)
termination_by data.length
decreasing_by
  rename_i h
  rw [List.length_take] at h
  rw [List.length_drop]
  omega

/-- The loop computes the checksum of the data ahead, whatever the data is read from: by
induction on the pieces. -/
theorem crc32Loop_eq (p : BinaryFileParser) (checksum : BitVec 32) (offset : ℕ)
    (h : p.CanBeAt p.offset) :
    ∃ after, p.crc32Loop checksum offset =
      (checksumFrom (p.data.drop p.offset) checksum offset, { p with offset := after }) := by
  induction p, checksum, offset using crc32Loop.induct with
  | case1 p checksum offset hlast =>
      have hspec : checksumFrom (p.data.drop p.offset) checksum offset =
          crc32Piece checksum offset (p.bytesAhead 256) := by
        rw [checksumFrom]
        exact if_pos hlast
      rw [crc32Loop, if_pos hlast, hspec, afterRead_eq h]
      exact ⟨_, rfl⟩
  | case2 p checksum offset hfull ih =>
      have hlength := p.length_bytesAhead 256
      have hread : (p.bytesAhead 256).length = 256 := by omega
      have hspec : checksumFrom (p.data.drop p.offset) checksum offset =
          checksumFrom (p.data.drop (p.offset + 256))
            (crc32Piece checksum offset (p.bytesAhead 256)) ((offset + 256) % 2 ^ 32) := by
        rw [checksumFrom, ← List.drop_drop]
        exact if_neg hfull
      rw [afterRead_eq h, hread] at ih
      obtain ⟨after, hafter⟩ := ih fun _ => by dsimp only; omega
      rw [crc32Loop, if_neg hfull, hread, afterRead_eq h, hread, hafter, hspec]
      exact ⟨after, rfl⟩

/-- **The checksum depends only on the data**, and the parser stays where it is. -/
theorem run_getCrc32 {p : BinaryFileParser} (h : p.CanBeAt p.offset) :
    getCrc32.run p = .ok (checksumFrom p.data 0 0) p := by
  obtain ⟨after, hloop⟩ := crc32Loop_eq { p with offset := 0 } 0 0 fun _ => Nat.zero_le _
  have hstart : p.CanBeAt 0 := fun _ => Nat.zero_le _
  have hback : CanBeAt { p with offset := after } p.offset := h
  rw [getCrc32, EStateM.run_bind, getCurrentOffset]
  simp only [EStateM.run_bind, EStateM.run_get, EStateM.run_pure, EStateM.run_set,
    run_seek hstart, hloop, run_seek hback, List.drop_zero]

/-! ### Blocks -/

/-- `sb_binary_file_get_current_block`. -/
def getCurrentBlock (p : BinaryFileParser) : BinaryBlock := p.currentBlock

/-- `sb_binary_file_is_current_block_valid`. -/
def isCurrentBlockValid (p : BinaryFileParser) : Prop := p.currentBlock.type ≠ binaryBlockNone

instance (p : BinaryFileParser) : Decidable p.isCurrentBlockValid :=
  inferInstanceAs (Decidable (p.currentBlock.type ≠ binaryBlockNone))

/-- The parser with another current block. -/
def withBlock (p : BinaryFileParser) (block : BinaryBlock) : BinaryFileParser :=
  { p with currentBlock := block }

/-- The part of `sb_i_binary_file_read_next_block_header` that is behind the type. -/
def readBlockLength : Action Unit := do
  match ← read 2 with
  | [low, high] =>
      let offset ← getCurrentOffset
      modify fun p =>
        p.withBlock { p.currentBlock with
          length := low.toNat + high.toNat * 256
          startOfBody := offset }
  | _ => throw .eread

/-- `sb_i_binary_file_read_next_block_header`. -/
def readNextBlockHeader : Action Unit := do
  match ← read 1 with
  | [] => modify fun p => p.withBlock ⟨binaryBlockNone, 0, 0⟩
  | type :: _ =>
      modify fun p => p.withBlock { p.currentBlock with type := type }
      readBlockLength

/-- `sb_binary_file_rewind`. -/
def rewind : Action Unit := do
  let p ← get
  seek p.startOfFirstBlock
  readNextBlockHeader

/-- `sb_binary_file_seek_to_next_block`. -/
def seekToNextBlock : Action Unit := do
  let p ← get
  failIf (¬ p.isCurrentBlockValid) .eread
  seek (p.currentBlock.startOfBody + p.currentBlock.length)
  readNextBlockHeader

/-- `sb_binary_file_read_current_block`, with the bytes of the body. -/
def readCurrentBlock : Action (List UInt8) := do
  let p ← get
  failIf (¬ p.isCurrentBlockValid) .eread
  seek p.currentBlock.startOfBody
  let buf ← read p.currentBlock.length
  failIf (buf.length ≠ p.currentBlock.length) .eread
  pure buf

/-- What stands at a place where the header of a block is expected. -/
inductive BlockHeader where
  | missing
  | cut (type : UInt8)
  | complete (type : UInt8) (length : ℕ)
  deriving DecidableEq, Repr

/-- The header of a block at an offset. -/
def headerAt (data : List UInt8) (offset : ℕ) : BlockHeader :=
  match data.drop offset with
  | [] => .missing
  | type :: low :: high :: _ => .complete type (low.toNat + high.toNat * 256)
  | type :: _ => .cut type

/-- **The header of a block is read off the data.** -/
theorem run_readNextBlockHeader {p : BinaryFileParser} (h : p.CanBeAt p.offset) :
    readNextBlockHeader.run p =
      match headerAt p.data p.offset with
      | .missing => .ok () (p.withBlock ⟨binaryBlockNone, 0, 0⟩)
      | .cut type => .error .eread
          ({ p with offset := p.data.length }.withBlock { p.currentBlock with type := type })
      | .complete type length => .ok ()
          ({ p with offset := p.offset + 3 }.withBlock ⟨type, length, p.offset + 3⟩) := by
  rcases hahead : p.data.drop p.offset with _ | ⟨type, tail⟩
  · have hbytes : p.bytesAhead 1 = [] := by rw [bytesAhead, hahead, List.take_nil]
    rw [headerAt, hahead, readNextBlockHeader, EStateM.run_bind, run_read h, hbytes]
    rfl
  · have hlength : p.data.length = p.offset + 1 + tail.length := by
      have hdrop := congrArg List.length hahead
      rw [List.length_drop, List.length_cons] at hdrop
      omega
    have hbytes : p.bytesAhead 1 = [type] := by rw [bytesAhead, hahead]; rfl
    -- The parser behind the type.
    let p' : BinaryFileParser :=
      { p with offset := p.offset + 1, currentBlock := { p.currentBlock with type := type } }
    have hinside : p'.CanBeAt p'.offset := fun _ => by
      change p.offset + 1 ≤ p.data.length
      omega
    have hrest : p'.bytesAhead 2 = tail.take 2 := by
      change (p.data.drop (p.offset + 1)).take 2 = _
      rw [← List.drop_drop, hahead]
      rfl
    rw [headerAt, hahead, readNextBlockHeader, EStateM.run_bind, run_read h, hbytes]
    change readBlockLength.run p' = _
    rw [readBlockLength, EStateM.run_bind, run_read hinside, hrest]
    rcases tail with _ | ⟨low, _ | ⟨high, rest⟩⟩
    · rw [hlength]
      rfl
    · rw [hlength]
      rfl
    · rfl

theorem headerAt_complete {data : List UInt8} {offset length : ℕ} {type : UInt8}
    (h : headerAt data offset = .complete type length) : offset + 3 ≤ data.length := by
  rw [headerAt] at h
  split at h
  case h_1 => cases h
  case h_2 hahead =>
    have hlength := congrArg List.length hahead
    simp only [List.length_drop, List.length_cons] at hlength
    omega
  case h_3 => cases h

/-- Going to a place and reading the header of a block there. -/
theorem run_seek_readNextBlockHeader {p : BinaryFileParser} {offset : ℕ} (h : p.CanBeAt offset) :
    (do seek offset; readNextBlockHeader : Action Unit).run p =
      readNextBlockHeader.run { p with offset := offset } := by
  rw [EStateM.run_bind, run_seek h]

theorem run_rewind {p : BinaryFileParser} (h : p.CanBeAt p.startOfFirstBlock) :
    rewind.run p = readNextBlockHeader.run { p with offset := p.startOfFirstBlock } :=
  run_seek_readNextBlockHeader h

theorem run_seekToNextBlock {p : BinaryFileParser} (hvalid : p.isCurrentBlockValid)
    (h : p.CanBeAt (p.currentBlock.startOfBody + p.currentBlock.length)) :
    seekToNextBlock.run p = readNextBlockHeader.run
      { p with offset := p.currentBlock.startOfBody + p.currentBlock.length } := by
  rw [seekToNextBlock, run_get_bind, run_bind_of_ok (run_failIf (not_not_intro hvalid) _ p)]
  exact run_seek_readNextBlockHeader h

theorem run_seekToNextBlock_invalid {p : BinaryFileParser} (h : ¬ p.isCurrentBlockValid) :
    seekToNextBlock.run p = .error .eread p := by
  rw [seekToNextBlock, run_get_bind, run_bind_of_error (run_failIf_of h _ p)]

/-- A parser that reads from memory does not go to a place outside the data. -/
theorem run_seekToNextBlock_outside {p : BinaryFileParser}
    (h : ¬ p.CanBeAt (p.currentBlock.startOfBody + p.currentBlock.length)) :
    seekToNextBlock.run p = .error .eread p := by
  by_cases hvalid : p.isCurrentBlockValid
  · rw [seekToNextBlock, run_get_bind, run_bind_of_ok (run_failIf (not_not_intro hvalid) _ p)]
    exact run_bind_of_error (run_seek_outside h) _
  · exact run_seekToNextBlock_invalid hvalid

/-- A bound on the number of blocks that are still to be visited. -/
def blocksAhead (p : BinaryFileParser) : ℕ :=
  if p.isCurrentBlockValid then p.data.length - p.currentBlock.startOfBody + 1 else 0

theorem blocksAhead_le (p : BinaryFileParser) :
    p.blocksAhead ≤ p.data.length - p.currentBlock.startOfBody + 1 := by
  rw [blocksAhead]
  split <;> omega

/-- The next block stands behind the current one, or there is none. -/
theorem blocksAhead_lt {p q : BinaryFileParser} {u : Unit}
    (h : seekToNextBlock.run p = .ok u q) : q.blocksAhead < p.blocksAhead := by
  have hvalid : p.isCurrentBlockValid := by
    by_contra hinvalid
    rw [run_seekToNextBlock_invalid hinvalid] at h
    cases h
  have hcan : p.CanBeAt (p.currentBlock.startOfBody + p.currentBlock.length) := by
    by_contra houtside
    rw [run_seekToNextBlock_outside houtside] at h
    cases h
  rw [run_seekToNextBlock hvalid hcan, run_readNextBlockHeader hcan] at h
  have hbound : p.blocksAhead = p.data.length - p.currentBlock.startOfBody + 1 := if_pos hvalid
  rw [hbound]
  split at h
  case h_1 hmissing =>
    cases h
    exact Nat.succ_pos _
  case h_2 => cases h
  case h_3 hcomplete =>
    cases h
    have hinside := headerAt_complete hcomplete
    refine Nat.lt_of_le_of_lt (blocksAhead_le _) ?_
    dsimp only [withBlock] at hinside ⊢
    omega

/-- The loop of `sb_binary_file_find_first_block_by_type`. -/
def findLoop (blockType : ℕ) : Action Unit := fun p =>
  if ¬ p.isCurrentBlockValid then
    .error .enoent p
  else if p.getCurrentBlock.type.toNat = blockType then
    .ok () p
  else
    match _ : seekToNextBlock.run p with
    | .ok _ q => findLoop blockType q
    | .error e q => .error e q
termination_by p => p.blocksAhead
decreasing_by
  exact blocksAhead_lt ‹_›

theorem run_findLoop (blockType : ℕ) (p : BinaryFileParser) :
    (findLoop blockType).run p =
      if ¬ p.isCurrentBlockValid then .error .enoent p
      else if p.getCurrentBlock.type.toNat = blockType then .ok () p
      else (do seekToNextBlock; findLoop blockType : Action Unit).run p := by
  rw [EStateM.run_bind]
  change findLoop blockType p = _
  rw [findLoop]
  congr 2
  generalize seekToNextBlock.run p = r
  cases r with
  | ok u q => rfl
  | error e q => rfl

theorem run_findLoop_invalid {blockType : ℕ} {p : BinaryFileParser}
    (h : ¬ p.isCurrentBlockValid) : (findLoop blockType).run p = .error .enoent p := by
  rw [run_findLoop, if_pos h]

theorem run_findLoop_found {blockType : ℕ} {p : BinaryFileParser} (hvalid : p.isCurrentBlockValid)
    (h : p.currentBlock.type.toNat = blockType) : (findLoop blockType).run p = .ok () p := by
  rw [run_findLoop, if_neg (not_not_intro hvalid), getCurrentBlock, if_pos h]

theorem run_findLoop_other {blockType : ℕ} {p : BinaryFileParser} (hvalid : p.isCurrentBlockValid)
    (h : p.currentBlock.type.toNat ≠ blockType) :
    (findLoop blockType).run p = (do seekToNextBlock; findLoop blockType : Action Unit).run p := by
  rw [run_findLoop, if_neg (not_not_intro hvalid), getCurrentBlock, if_neg h]

/-- `sb_binary_file_find_first_block_by_type`, for any number as the type. -/
def findFirstBlockByType (blockType : ℕ) : Action Unit := do
  rewind
  findLoop blockType

/-! ### Initialisation -/

/-- The first bytes of a file: `skyb`. -/
def magic : List UInt8 := [115, 107, 121, 98]

/-- A number from its four bytes, the lowest one first. -/
def littleEndian32 (b₀ b₁ b₂ b₃ : UInt8) : BitVec 32 :=
  BitVec.ofNat 32 (b₀.toNat + 2 ^ 8 * b₁.toNat + 2 ^ 16 * b₂.toNat + 2 ^ 24 * b₃.toNat)

/-- The part of `sb_i_binary_file_parser_init_common` that checks the first bytes. -/
def readMagic : Action Unit := do
  let buf ← read 4
  failIf (buf.length ≠ 4) .eparse
  failIf (buf ≠ magic) .eparse

/-- The part of `sb_i_binary_file_parser_init_common` that reads the version. -/
def readVersion : Action UInt8 := do
  match ← read 1 with
  | [version] =>
      modify fun p => { p with version := version }
      failIf (version ≠ 1 ∧ version ≠ 2) .eparse
      pure version
  | _ => throw .eparse

/-- The part of `sb_i_binary_file_parser_init_common` that reads the feature bits. -/
def readFeatures (version : UInt8) : Action UInt8 :=
  if version = 2 then do
    match ← read 1 with
    | [features] =>
        modify fun p => { p with features := features }
        pure features
    | _ => throw .eparse
  else do
    modify fun p => { p with features := 0 }
    pure 0

/-- The part of `sb_i_binary_file_parser_init_common` that reads the checksum. -/
def readExpectedCrc32 (features : UInt8) : Action (BitVec 32) :=
  if features &&& binaryFeatureCrc32 ≠ 0 then do
    match ← read 4 with
    | [b₀, b₁, b₂, b₃] => pure (littleEndian32 b₀ b₁ b₂ b₃)
    | _ => throw .eparse
  else
    pure 0

/-- The part of `sb_i_binary_file_parser_init_common` that validates the checksum. -/
def validateCrc32 (features : UInt8) (expectedCrc32 : BitVec 32) : Action Unit :=
  if features &&& binaryFeatureCrc32 ≠ 0 then do
    let observedCrc32 ← getCrc32
    failIf (expectedCrc32 ≠ observedCrc32) .ecorrupted
  else
    pure ()

/-- The part of `sb_i_binary_file_parser_init_common` that is behind the feature bits. -/
def openFirstBlock (features : UInt8) : Action Unit := do
  let expectedCrc32 ← readExpectedCrc32 features
  let offset ← getCurrentOffset
  modify fun p => { p with startOfFirstBlock := offset }
  validateCrc32 features expectedCrc32
  rewind

/-- `sb_i_binary_file_parser_init_common`. -/
def initCommon : Action Unit := do
  readMagic
  let version ← readVersion
  let features ← readFeatures version
  openFirstBlock features

/-- `sb_binary_file_parser_init_from_buffer`, for a buffer that is not null, and
`sb_binary_file_parser_init_from_file`, for a descriptor that is not negative. What is not
set remains as it was. -/
def init (source : BinarySource) (data : List UInt8) (p : BinaryFileParser) :
    EStateM.Result SbError BinaryFileParser Unit :=
  initCommon.run { p with source := source, data := data, offset := 0 }

end BinaryFileParser

end Skybrush
