import Skybrush.BinaryChecksum
import Skybrush.Loading

/-!
# Show Files

The binary format (`formats/binary.h`) from the side of who writes it: a header of version 1, or
of version 2 with its feature bits and a checksum if they tell of one, and blocks of any types. The
library only reads the format; `ShowFile.bytes` is the writer that it is made for.

## Main results

* `ShowFile.hasHeader_bytes`, `ShowFile.wholeBlocks_bytes`: what is written is well formed.
* `ShowFile.firstBody_bytes_iff`: the first body of a type is that of the first block of the
  type.
* `readsAll_iff`: a file can be read to its end exactly if it is a show file.
* `load_showFile`: what is loaded from a show file is set up from this block, whatever else is in
  the file, and if there is none, loading fails with `SB_ENOENT`.
-/

namespace Skybrush

open Checked BinaryFileParser

/-- A block of a show file: it has a type, and its length fits into two bytes. -/
structure ShowBlock where
  type : UInt8
  body : List UInt8
  type_ne : type ≠ binaryBlockNone
  length_lt : body.length < 2 ^ 16

/-- The header of a show file. -/
inductive ShowHeader where
  | versionOne
  | versionTwo (features : UInt8)
  deriving DecidableEq, Repr

/-- A show file. -/
structure ShowFile where
  header : ShowHeader
  blocks : List ShowBlock

/-- The bytes of a block. -/
def ShowBlock.bytes (block : ShowBlock) : List UInt8 :=
  block.type :: (encodeUint16 block.body.length ++ block.body)

/-- The four bytes of a checksum, the lowest one first. -/
def checksumBytes (checksum : BitVec 32) : List UInt8 :=
  encodeUint16 checksum.toNat ++ encodeUint16 (checksum.toNat / 2 ^ 16)

namespace ShowFile

/-- The bytes of the blocks. -/
def blockBytes (file : ShowFile) : List UInt8 := file.blocks.flatMap ShowBlock.bytes

/-- The bytes of a header, before the blocks that are given. The checksum is that of the file
where the checksum itself is zero. -/
def headerBytes (header : ShowHeader) (blocks : List UInt8) : List UInt8 :=
  match header with
  | .versionOne => magic ++ [1]
  | .versionTwo features =>
      if features &&& binaryFeatureCrc32 = 0 then
        magic ++ [2, features]
      else
        magic ++ 2 :: features ::
          checksumBytes (apCrc32Update 0 (magic ++ 2 :: features :: 0 :: 0 :: 0 :: 0 :: blocks))

/-- The bytes of a show file. -/
def bytes (file : ShowFile) : List UInt8 :=
  headerBytes file.header file.blockBytes ++ file.blockBytes

/-- The first block of a type. -/
def firstBlock (file : ShowFile) (blockType : ℕ) : Option ShowBlock :=
  file.blocks.find? fun block => block.type.toNat = blockType

end ShowFile

/-! ### Blocks -/

theorem encodeUint16_sum {value : ℕ} (h : value < 2 ^ 16) :
    (UInt8.ofNat value).toNat + (UInt8.ofNat (value / 256)).toNat * 256 = value := by
  rw [UInt8.toNat_ofNat', UInt8.toNat_ofNat']
  omega

/-- The header of a block, wherever the block stands. -/
theorem headerAt_bytes (before after : List UInt8) (block : ShowBlock) :
    headerAt (before ++ (block.bytes ++ after)) before.length =
      .complete block.type block.body.length := by
  rw [headerAt, List.drop_left]
  change BlockHeader.complete block.type _ = _
  rw [encodeUint16_sum block.length_lt]

/-- The body of a block, wherever the block stands. -/
theorem take_drop_bytes (before after : List UInt8) (block : ShowBlock) :
    ((before ++ (block.bytes ++ after)).drop (before.length + 3)).take block.body.length =
      block.body := by
  rw [← List.drop_drop, List.drop_left]
  change (block.body ++ after).take block.body.length = block.body
  exact List.take_left

theorem length_bytes (block : ShowBlock) : block.bytes.length = 3 + block.body.length := by
  rw [ShowBlock.bytes, List.length_cons, List.length_append, length_encodeUint16]
  omega

/-- The file in another arrangement, with the first block put to what is before it. -/
theorem append_flatMap_cons (before : List UInt8) (block : ShowBlock) (blocks : List ShowBlock) :
    before ++ (block :: blocks).flatMap ShowBlock.bytes =
      (before ++ block.bytes) ++ blocks.flatMap ShowBlock.bytes := by
  rw [List.flatMap_cons, List.append_assoc]

theorem length_append_bytes (before : List UInt8) (block : ShowBlock) :
    (before ++ block.bytes).length = before.length + 3 + block.body.length := by
  rw [List.length_append, length_bytes, Nat.add_assoc]

/-- **The first body of a type** is that of the first block of the type: by induction on the
blocks. -/
theorem firstBody_flatMap_iff {blockType : ℕ} (before : List UInt8) (blocks : List ShowBlock)
    (body : List UInt8) :
    FirstBody (before ++ blocks.flatMap ShowBlock.bytes) blockType before.length body ↔
      ∃ block, blocks.find? (fun block => block.type.toNat = blockType) = some block ∧
        block.body = body := by
  induction blocks generalizing before with
  | nil =>
      constructor
      · intro hfirst
        obtain ⟨type, length, h⟩ := hfirst.header
        have hmissing : headerAt (before ++ [].flatMap ShowBlock.bytes) before.length =
            .missing := by
          rw [headerAt_eq_missing_iff, List.flatMap_nil, List.append_nil]
        rw [hmissing] at h
        cases h
      · rintro ⟨block, hfind, -⟩
        cases hfind
  | cons block blocks ih =>
      have hheader := headerAt_bytes before (blocks.flatMap ShowBlock.bytes) block
      have hbody := take_drop_bytes before (blocks.flatMap ShowBlock.bytes) block
      rw [← List.flatMap_cons] at hheader hbody
      by_cases hfound : block.type.toNat = blockType
      · have hinside : before.length + 3 + block.body.length ≤
            (before ++ (block :: blocks).flatMap ShowBlock.bytes).length := by
          rw [append_flatMap_cons, List.length_append, length_append_bytes]
          exact Nat.le_add_right _ _
        rw [FirstBody.iff_found hheader hfound, hbody,
          List.find?_cons_of_pos (by rw [decide_eq_true_eq]; exact hfound)]
        constructor
        · rintro ⟨-, rfl⟩
          exact ⟨block, rfl, rfl⟩
        · rintro ⟨_, hsome, rfl⟩
          cases hsome
          exact ⟨hinside, rfl⟩
      · rw [FirstBody.iff_next hheader block.type_ne hfound,
          List.find?_cons_of_neg (by rw [decide_eq_true_eq]; exact hfound), append_flatMap_cons,
          ← length_append_bytes]
        exact ih _

/-- All blocks are complete: by induction on the blocks. -/
theorem wholeBlocks_flatMap (before : List UInt8) (blocks : List ShowBlock) :
    WholeBlocks (before ++ blocks.flatMap ShowBlock.bytes) before.length := by
  induction blocks generalizing before with
  | nil =>
      refine .atEnd ?_
      rw [headerAt_eq_missing_iff, List.flatMap_nil, List.append_nil]
  | cons block blocks ih =>
      have hheader := headerAt_bytes before (blocks.flatMap ShowBlock.bytes) block
      rw [← List.flatMap_cons] at hheader
      refine .next hheader ?_ ?_
      · rw [append_flatMap_cons, List.length_append, length_append_bytes]
        exact Nat.le_add_right _ _
      · rw [append_flatMap_cons, ← length_append_bytes]
        exact ih _

/-! ### The header -/

/-- A checksum is read back. -/
theorem littleEndian32_checksumBytes (checksum : BitVec 32) :
    ∃ b₀ b₁ b₂ b₃, checksumBytes checksum = [b₀, b₁, b₂, b₃] ∧
      littleEndian32 b₀ b₁ b₂ b₃ = checksum := by
  refine ⟨_, _, _, _, rfl, ?_⟩
  apply BitVec.eq_of_toNat_eq
  have hlt := checksum.isLt
  rw [littleEndian32, BitVec.toNat_ofNat, UInt8.toNat_ofNat', UInt8.toNat_ofNat',
    UInt8.toNat_ofNat', UInt8.toNat_ofNat']
  omega

namespace ShowFile

/-- A header has at most ten bytes. -/
theorem length_headerBytes_le (header : ShowHeader) (blocks : List UInt8) :
    (headerBytes header blocks).length ≤ 10 := by
  cases header with
  | versionOne => exact Nat.le_of_ble_eq_true rfl
  | versionTwo features =>
      rw [headerBytes]
      split
      · exact Nat.le_of_ble_eq_true rfl
      · exact Nat.le_refl 10

variable (file : ShowFile)

/-- **What is written has a header.** The checksum counts in 32 bits. -/
theorem hasHeader_bytes (hsize : file.bytes.length < 2 ^ 32) :
    HasHeader file.bytes (headerBytes file.header file.blockBytes).length := by
  rw [bytes] at hsize ⊢
  cases hheader : file.header with
  | versionOne => exact @HasHeader.versionOne _ file.blockBytes rfl
  | versionTwo features =>
      rw [hheader] at hsize
      by_cases hfeatures : features &&& binaryFeatureCrc32 = 0
      · rw [headerBytes, if_pos hfeatures]
        exact @HasHeader.noChecksum _ features file.blockBytes rfl hfeatures
      · rw [headerBytes, if_neg hfeatures] at hsize ⊢
        obtain ⟨b₀, b₁, b₂, b₃, hbytes, hvalue⟩ := littleEndian32_checksumBytes
          (apCrc32Update 0 (magic ++ 2 :: features :: 0 :: 0 :: 0 :: 0 :: file.blockBytes))
        rw [hbytes] at hsize ⊢
        refine @HasHeader.checksum _ features b₀ b₁ b₂ b₃ file.blockBytes rfl hfeatures ?_
        rw [hvalue]
        exact (checksumFrom_header rfl hsize).symm

theorem wholeBlocks_bytes :
    WholeBlocks file.bytes (headerBytes file.header file.blockBytes).length :=
  wholeBlocks_flatMap _ file.blocks

theorem firstBody_bytes_iff {blockType : ℕ} {body : List UInt8} :
    FirstBody file.bytes blockType (headerBytes file.header file.blockBytes).length body ↔
      ∃ block, file.firstBlock blockType = some block ∧ block.body = body :=
  firstBody_flatMap_iff _ file.blocks body

end ShowFile

/-! ### Reading a file to its end -/

namespace BinaryFileParser

/-- A parser goes from block to block and reads the bodies, up to the end of the file, and nothing
fails: the types and the bodies that it reads. -/
inductive ReadsAll : BinaryFileParser → List (UInt8 × List UInt8) → Prop
  | atEnd {p : BinaryFileParser} (h : p.getCurrentBlock = ⟨binaryBlockNone, 0, 0⟩) : ReadsAll p []
  | block {p q r : BinaryFileParser} {body : List UInt8} {blocks : List (UInt8 × List UInt8)}
      (hread : readCurrentBlock.run p = .ok body q) (hseek : seekToNextBlock.run q = .ok () r)
      (hrest : ReadsAll r blocks) : ReadsAll p ((p.getCurrentBlock.type, body) :: blocks)

/-- A parser has read the header of a block at a place, or has reached the end there. -/
structure AtHeader (data : List UInt8) (offset : ℕ) (p : BinaryFileParser) : Prop where
  data_eq : p.data = data
  inside : offset ≤ data.length
  block : (headerAt data offset = .missing ∧ p.currentBlock = ⟨binaryBlockNone, 0, 0⟩) ∨
    ∃ type length, headerAt data offset = .complete type length ∧
      p.currentBlock = ⟨type, length, offset + 3⟩

/-- The header of a block has been read without an error. -/
theorem atHeader_of_readNextBlockHeader {p r : BinaryFileParser} (hp : p.offset ≤ p.data.length)
    (h : readNextBlockHeader.run p = .ok () r) : r.AtHeader p.data p.offset := by
  rw [run_readNextBlockHeader fun _ => hp] at h
  split at h
  case h_1 hmissing =>
    cases h
    exact ⟨rfl, hp, .inl ⟨hmissing, rfl⟩⟩
  case h_2 => cases h
  case h_3 type length hcomplete =>
    cases h
    exact ⟨rfl, hp, .inr ⟨type, length, hcomplete, rfl⟩⟩

/-- A parser that has been opened is at the first block. -/
theorem atHeader_of_init {source : BinarySource} {data : List UInt8} {junk p : BinaryFileParser}
    {n : ℕ} (hheader : HasHeader data n) (h : init source data junk = .ok () p) :
    p.AtHeader data n := by
  have hinside := (init_of_hasHeader hheader).1
  obtain ⟨version, features, hinit⟩ := init_firstBlock hheader
  rw [hinit] at h
  split at h
  case h_1 hmissing =>
    cases h
    exact ⟨rfl, hinside, .inl ⟨hmissing, rfl⟩⟩
  case h_2 => cases h
  case h_3 type length hcomplete =>
    cases h
    exact ⟨rfl, hinside, .inr ⟨type, length, hcomplete, rfl⟩⟩

/-- The body of the current block is read, and the parser goes on behind it. -/
theorem AtHeader.next {data body : List UInt8} {offset : ℕ} {p q r : BinaryFileParser}
    (hp : p.AtHeader data offset) (hread : readCurrentBlock.run p = .ok body q)
    (hseek : seekToNextBlock.run q = .ok () r) :
    ∃ type length, headerAt data offset = .complete type length ∧ type ≠ binaryBlockNone ∧
      p.getCurrentBlock.type = type ∧ body = (data.drop (offset + 3)).take length ∧
      offset + 3 + length ≤ data.length ∧ r.AtHeader data (offset + 3 + length) := by
  have hvalid : p.isCurrentBlockValid := by
    by_contra hinvalid
    rw [run_readCurrentBlock_invalid hinvalid] at hread
    cases hread
  obtain ⟨hmissing, hblock⟩ | ⟨type, length, hcomplete, hblock⟩ := hp.block
  · rw [isCurrentBlockValid, hblock] at hvalid
    exact absurd rfl hvalid
  · have hend : p.nextOffset = offset + 3 + length := by rw [nextOffset, hblock]
    have hbody : offset + 3 + length ≤ data.length := by
      by_contra hcut
      have hstart : p.currentBlock.startOfBody ≤ p.data.length := by
        rw [hblock, hp.data_eq]
        exact headerAt_complete hcomplete
      obtain ⟨q', hq'⟩ := exists_readCurrentBlock_error hstart (by
        rw [hend, hp.data_eq]
        exact Nat.lt_of_not_le hcut)
      rw [hread] at hq'
      cases hq'
    rw [run_readCurrentBlock hvalid (by rw [hend, hp.data_eq]; exact hbody)] at hread
    cases hread
    have hvalid' : isCurrentBlockValid { p with offset := p.nextOffset } := hvalid
    have hinside : p.nextOffset ≤ p.data.length := by
      rw [hend, hp.data_eq]
      exact hbody
    rw [run_seekToNextBlock hvalid' fun _ => hinside] at hseek
    have hr := atHeader_of_readNextBlockHeader hinside hseek
    change r.AtHeader p.data p.nextOffset at hr
    rw [hend, hp.data_eq] at hr
    rw [isCurrentBlockValid, hblock] at hvalid
    refine ⟨type, length, hcomplete, hvalid, ?_, ?_, hbody, hr⟩
    · rw [getCurrentBlock, hblock]
    · rw [hblock, hp.data_eq]

end BinaryFileParser

/-- A complete block is the bytes of a block. -/
theorem exists_showBlock {data : List UInt8} {offset length : ℕ} {type : UInt8}
    (h : headerAt data offset = .complete type length) (hnone : type ≠ binaryBlockNone)
    (hbody : offset + 3 + length ≤ data.length) :
    ∃ block : ShowBlock, block.type = type ∧ block.body = (data.drop (offset + 3)).take length ∧
      data.drop offset = block.bytes ++ data.drop (offset + 3 + length) := by
  rw [headerAt] at h
  split at h
  case h_1 => cases h
  case h_3 => cases h
  case h_2 type' low high rest hdrop =>
    cases h
    have hrest : data.drop (offset + 3) = rest := by
      rw [← List.drop_drop, hdrop]
      rfl
    have hlength : ((data.drop (offset + 3)).take (low.toNat + high.toNat * 256)).length =
        low.toNat + high.toNat * 256 := by
      rw [List.length_take, List.length_drop]
      omega
    have hlt : low.toNat + high.toNat * 256 < 2 ^ 16 := by
      have hlow := low.toNat_lt
      have hhigh := high.toNat_lt
      omega
    refine ⟨⟨type, _, hnone, hlength.trans_lt hlt⟩, rfl, rfl, ?_⟩
    rw [ShowBlock.bytes]
    dsimp only
    have hbehind : data.drop (offset + 3 + (low.toNat + high.toNat * 256)) =
        rest.drop (low.toNat + high.toNat * 256) := by rw [← List.drop_drop, hrest]
    rw [hlength, encodeUint16_of_bytes, hdrop, hrest, hbehind, List.cons_append,
      List.append_assoc, List.take_append_drop]
    rfl

namespace BinaryFileParser

/-- A file that is read to its end is a sequence of blocks: by induction on what is read. -/
theorem ReadsAll.exists_blocks {p : BinaryFileParser} {blocks : List (UInt8 × List UInt8)}
    (h : p.ReadsAll blocks) {data : List UInt8} {offset : ℕ} (hp : p.AtHeader data offset) :
    ∃ shown : List ShowBlock, data.drop offset = shown.flatMap ShowBlock.bytes ∧
      shown.map (fun block => (block.type, block.body)) = blocks := by
  induction h generalizing offset with
  | @atEnd p hend =>
      obtain ⟨hmissing, -⟩ | ⟨type, length, -, hblock⟩ := hp.block
      · refine ⟨[], ?_, rfl⟩
        rw [List.flatMap_nil, List.drop_eq_nil_iff]
        exact headerAt_eq_missing_iff.1 hmissing
      · rw [getCurrentBlock, hblock] at hend
        cases hend
  | @block p q r body blocks hread hseek _ ih =>
      obtain ⟨type, length, hcomplete, hnone, htype, rfl, hinside, hr⟩ := hp.next hread hseek
      obtain ⟨shown, hdrop, hshown⟩ := ih hr
      obtain ⟨block, hblockType, hblockBody, hbytes⟩ := exists_showBlock hcomplete hnone hinside
      refine ⟨block :: shown, ?_, ?_⟩
      · rw [hbytes, hdrop, List.flatMap_cons]
      · rw [List.map_cons, hshown, hblockType, hblockBody, htype]

/-- And a sequence of blocks is read to its end: by induction on the blocks. -/
theorem readsAll_of_blocks {before : List UInt8} (shown : List ShowBlock) {p : BinaryFileParser}
    (hp : p.AtHeader (before ++ shown.flatMap ShowBlock.bytes) before.length) :
    p.ReadsAll (shown.map fun block => (block.type, block.body)) := by
  induction shown generalizing before p with
  | nil =>
      refine .atEnd ?_
      obtain ⟨-, hblock⟩ | ⟨type, length, hcomplete, -⟩ := hp.block
      · exact hblock
      · have hinside := headerAt_complete hcomplete
        rw [List.flatMap_nil, List.append_nil] at hinside
        omega
  | cons block shown ih =>
      have hheader := headerAt_bytes before (shown.flatMap ShowBlock.bytes) block
      have hbody := take_drop_bytes before (shown.flatMap ShowBlock.bytes) block
      rw [← List.flatMap_cons] at hheader hbody
      have hdata := hp.data_eq
      have hblock : p.currentBlock = ⟨block.type, block.body.length, before.length + 3⟩ := by
        obtain ⟨hmissing, -⟩ | ⟨type, length, hcomplete, hblock⟩ := hp.block
        · rw [hheader] at hmissing
          cases hmissing
        · rw [hheader] at hcomplete
          cases hcomplete
          exact hblock
      have hvalid : p.isCurrentBlockValid := by
        rw [isCurrentBlockValid, hblock]
        exact block.type_ne
      have hend : p.nextOffset = (before ++ block.bytes).length := by
        rw [nextOffset, hblock, length_append_bytes]
      have hinside : p.nextOffset ≤ p.data.length := by
        rw [hend, hdata, append_flatMap_cons]
        exact (List.prefix_append _ _).length_le
      have hbytes : (p.data.drop p.currentBlock.startOfBody).take p.currentBlock.length =
          block.body := by
        rw [hblock, hdata, hbody]
      have hread := run_readCurrentBlock hvalid hinside
      rw [hbytes] at hread
      -- the parser behind the block
      let q : BinaryFileParser := { p with offset := p.nextOffset }
      have hseek : seekToNextBlock.run q = readNextBlockHeader.run q :=
        run_seekToNextBlock (p := q) hvalid fun _ => hinside
      have hcut : ∀ type, headerAt q.data q.offset ≠ .cut type := by
        have hwhole := wholeBlocks_flatMap (before ++ block.bytes) shown
        rw [← append_flatMap_cons, ← hdata, ← hend] at hwhole
        exact hwhole.not_cut
      obtain ⟨r, hr⟩ : ∃ r, readNextBlockHeader.run q = .ok () r := by
        rw [run_readNextBlockHeader fun _ => hinside]
        cases hnext : headerAt q.data q.offset with
        | missing => exact ⟨_, rfl⟩
        | cut type => exact absurd hnext (hcut type)
        | complete type length => exact ⟨_, rfl⟩
      have hnext := atHeader_of_readNextBlockHeader (p := q) hinside hr
      change r.AtHeader p.data p.nextOffset at hnext
      rw [hdata, hend, append_flatMap_cons] at hnext
      have htype : p.getCurrentBlock.type = block.type := by rw [getCurrentBlock, hblock]
      have hall := ReadsAll.block hread (hseek.trans hr) (ih hnext)
      rw [htype] at hall
      exact hall

end BinaryFileParser

/-- The four bytes of a checksum are written as they were read. -/
theorem checksumBytes_littleEndian32 (b₀ b₁ b₂ b₃ : UInt8) :
    checksumBytes (littleEndian32 b₀ b₁ b₂ b₃) = [b₀, b₁, b₂, b₃] := by
  have h₀ := b₀.toNat_lt
  have h₁ := b₁.toNat_lt
  have h₂ := b₂.toNat_lt
  have h₃ := b₃.toNat_lt
  have hvalue : (littleEndian32 b₀ b₁ b₂ b₃).toNat =
      b₀.toNat + 2 ^ 8 * b₁.toNat + 2 ^ 16 * b₂.toNat + 2 ^ 24 * b₃.toNat := by
    rw [littleEndian32, BitVec.toNat_ofNat]
    omega
  have hlow : ∀ b b' : UInt8, ∀ rest : ℕ, encodeUint16 (b.toNat + b'.toNat * 256 + 2 ^ 16 * rest) =
      [b, b'] := by
    intro b b' rest
    rw [← encodeUint16_of_bytes b b', encodeUint16, encodeUint16]
    congr 1
    · apply UInt8.toNat_inj.1
      rw [UInt8.toNat_ofNat', UInt8.toNat_ofNat']
      omega
    · congr 1
      apply UInt8.toNat_inj.1
      rw [UInt8.toNat_ofNat', UInt8.toNat_ofNat']
      omega
  have hfirst := hlow b₀ b₁ (b₂.toNat + b₃.toNat * 256)
  have hsecond := hlow b₂ b₃ 0
  rw [checksumBytes, hvalue]
  have heq : b₀.toNat + 2 ^ 8 * b₁.toNat + 2 ^ 16 * b₂.toNat + 2 ^ 24 * b₃.toNat =
      b₀.toNat + b₁.toNat * 256 + 2 ^ 16 * (b₂.toNat + b₃.toNat * 256) := by omega
  have heq' : (b₀.toNat + 2 ^ 8 * b₁.toNat + 2 ^ 16 * b₂.toNat + 2 ^ 24 * b₃.toNat) / 2 ^ 16 =
      b₂.toNat + b₃.toNat * 256 + 2 ^ 16 * 0 := by omega
  rw [heq', hsecond, heq, hfirst]
  rfl

/-- The header of a file is the bytes of a header. -/
theorem HasHeader.exists_header {data : List UInt8} {n : ℕ} (h : HasHeader data n)
    (hsize : data.length < 2 ^ 32) :
    ∃ header, data = ShowFile.headerBytes header (data.drop n) ++ data.drop n ∧
      (ShowFile.headerBytes header (data.drop n)).length = n := by
  cases h with
  | @versionOne rest hdata =>
      subst hdata
      exact ⟨.versionOne, rfl, rfl⟩
  | @noChecksum features rest hdata hfeatures =>
      subst hdata
      refine ⟨.versionTwo features, ?_⟩
      rw [ShowFile.headerBytes, if_pos hfeatures]
      exact ⟨rfl, rfl⟩
  | @checksum features b₀ b₁ b₂ b₃ rest hdata hfeatures hchecksum =>
      have hdrop : data.drop 10 = rest := by
        rw [hdata]
        rfl
      refine ⟨.versionTwo features, ?_⟩
      rw [ShowFile.headerBytes, if_neg hfeatures, hdrop, ← checksumFrom_header hdata hsize,
        ← hchecksum, checksumBytes_littleEndian32]
      exact ⟨hdata, rfl⟩

/-- **Which files can be read to their end**: a parser goes from block to block without an error
exactly on the show files, from memory and by a descriptor alike, and reads the blocks that
were written. -/
theorem readsAll_iff {data : List UInt8} (hsize : data.length < 2 ^ 32) (source : BinarySource)
    (junk : BinaryFileParser) (blocks : List (UInt8 × List UInt8)) :
    (∃ p, init source data junk = .ok () p ∧ p.ReadsAll blocks) ↔
      ∃ file : ShowFile, file.bytes = data ∧
        file.blocks.map (fun block => (block.type, block.body)) = blocks := by
  constructor
  · rintro ⟨p, hinit, hreads⟩
    have hheader : ∃ n, HasHeader data n := by
      by_contra hno
      obtain ⟨e, herror⟩ := init_of_noHeader (not_exists.1 hno)
      obtain ⟨q, hq⟩ := herror source junk
      rw [hinit] at hq
      cases hq
    obtain ⟨n, hheader⟩ := hheader
    obtain ⟨shown, hdrop, hshown⟩ := hreads.exists_blocks (atHeader_of_init hheader hinit)
    obtain ⟨header, hdata, -⟩ := hheader.exists_header hsize
    refine ⟨⟨header, shown⟩, ?_, hshown⟩
    rw [ShowFile.bytes, ShowFile.blockBytes, ← hdrop]
    exact hdata.symm
  · rintro ⟨file, rfl, rfl⟩
    have hheader := file.hasHeader_bytes hsize
    obtain ⟨version, features, hinit⟩ := init_firstBlock hheader
    have hopened : ∃ p, init source file.bytes junk = .ok () p := by
      rw [hinit]
      cases hfirst : headerAt file.bytes (ShowFile.headerBytes file.header file.blockBytes).length
        with
      | missing => exact ⟨_, rfl⟩
      | cut type => exact absurd hfirst (file.wholeBlocks_bytes.not_cut type)
      | complete type length => exact ⟨_, rfl⟩
    obtain ⟨p, hp⟩ := hopened
    exact ⟨p, hp, readsAll_of_blocks file.blocks (atHeader_of_init hheader hp)⟩

/-- A file with a checksum and two blocks, a comment and a return-to-home plan. -/
theorem readsAll_iff_twoBlocks :
    ∃ p, init .file [115, 107, 121, 98, 2, 1, 231, 238, 88, 161, 3, 2, 0, 104, 105,
        4, 5, 0, 10, 0, 0, 0, 0] ⟨.memory, [], 0, 0, 0, 0, ⟨0, 0, 0⟩⟩ = .ok () p ∧
      p.ReadsAll [(3, [104, 105]), (4, [10, 0, 0, 0, 0])] :=
  (readsAll_iff (by decide) .file ⟨.memory, [], 0, 0, 0, 0, ⟨0, 0, 0⟩⟩ _).2
    ⟨⟨.versionTwo 1, [⟨3, [104, 105], by decide, by decide⟩,
      ⟨4, [10, 0, 0, 0, 0], by decide, by decide⟩]⟩, by decide +kernel, rfl⟩

/-- **The first block of a type** is the one that is loaded. -/
theorem ShowFile.allocates_of_firstBlock (file : ShowFile) (hsize : file.bytes.length < 2 ^ 32)
    (F : Rounding) {kind : Kind} (source : BinarySource) (junk : BinaryFileParser)
    (h : Heap UInt8) {block : ShowBlock}
    (hblock : file.firstBlock (kind.spec F).blockType = some block) :
    ObjectKind.Allocates h ((kind.spec F).fieldsAndBytes block.body)
      (kind.initFromBinaryFile F source file.bytes junk true h) := by
  have hheader := file.hasHeader_bytes hsize
  rw [Kind.initFromBinaryFile]
  rcases ObjectKind.initFromBinaryFile_cases (kind.blockType_ne F) source file.bytes junk true h
    with ⟨hnone, -⟩ | ⟨-, n, body, hheader', hfirst, hallocates⟩
  · exact absurd (file.firstBody_bytes_iff.2 ⟨block, hblock, rfl⟩) (hnone rfl _ _ hheader)
  · obtain rfl := hheader.unique hheader'
    obtain ⟨block', hblock', rfl⟩ := file.firstBody_bytes_iff.1 hfirst
    obtain rfl : block = block' := Option.some.inj (hblock.symm.trans hblock')
    exact hallocates

/-- What can be set up from the first block of a type is loaded. -/
theorem ShowFile.exists_loaded (file : ShowFile) (hsize : file.bytes.length < 2 ^ 32)
    (F : Rounding) {kind : Kind} (source : BinarySource) (junk : BinaryFileParser)
    (h : Heap UInt8) {block : ShowBlock}
    (hblock : file.firstBlock (kind.spec F).blockType = some block) {value : kind.Value}
    (hvalue : (kind.spec F).initFromBytes block.body = ok value) :
    ∃ object, kind.initFromBinaryFile F source file.bytes junk true h =
        ok (object, h.push block.body) ∧
      object.buffer = some h.next ∧ object.owner = true ∧
      (kind.spec F).value (h.push block.body) object = value := by
  have hallocates := file.allocates_of_firstBlock hsize F source junk h hblock
  obtain ⟨fields, hfields, hok⟩ := bind_eq_ok.mp hvalue
  cases hok
  rw [ObjectKind.fieldsAndBytes, hfields] at hallocates
  exact ⟨_, hallocates, rfl, rfl, ObjectKind.value_of_block (h.block_push_self block.body)⟩

/-- **Loading from a show file**, from memory or by a descriptor, depends on the first block of the
type only. If there is none, loading fails with `SB_ENOENT`. Otherwise it gives what is set up
from the body, in one more block of memory, or the error of setting it up. -/
theorem load_showFile (file : ShowFile) (hsize : file.bytes.length < 2 ^ 32) (F : Rounding)
    (kind : Kind) (source : BinarySource) (junk : BinaryFileParser) (h : Heap UInt8) :
    match file.firstBlock (kind.spec F).blockType with
    | none => ∃ h', h.Same h' ∧
        kind.initFromBinaryFile F source file.bytes junk true h = error (.enoent, h')
    | some block =>
        match (kind.spec F).initFromBytes block.body with
        | ok value => ∃ object,
            kind.initFromBinaryFile F source file.bytes junk true h =
              ok (object, h.push block.body) ∧
            object.buffer = some h.next ∧ object.owner = true ∧
            (kind.spec F).value (h.push block.body) object = value
        | error e => ∃ h', h.Same h' ∧
            kind.initFromBinaryFile F source file.bytes junk true h = error (e, h')
        | fault => kind.initFromBinaryFile F source file.bytes junk true h = fault
        | outOfFuel => kind.initFromBinaryFile F source file.bytes junk true h = outOfFuel := by
  cases hblock : file.firstBlock (kind.spec F).blockType with
  | none =>
      rw [Kind.initFromBinaryFile]
      rcases ObjectKind.initFromBinaryFile_cases (kind.blockType_ne F) source file.bytes junk true h
        with ⟨-, e, h', hsame, herror, hwhole⟩ | ⟨-, n, body, hheader, hfirst, -⟩
      · obtain rfl := hwhole rfl _ (file.hasHeader_bytes hsize) file.wholeBlocks_bytes
        exact ⟨h', hsame, herror⟩
      · obtain rfl := (file.hasHeader_bytes hsize).unique hheader
        obtain ⟨block, hsome, -⟩ := file.firstBody_bytes_iff.1 hfirst
        rw [hblock] at hsome
        cases hsome
  | some block =>
      have hallocates := file.allocates_of_firstBlock hsize F source junk h hblock
      dsimp only
      rw [ObjectKind.fieldsAndBytes] at hallocates
      rw [ObjectKind.initFromBytes]
      cases hfields : (kind.spec F).fieldsFrom block.body with
      | ok fields =>
          rw [hfields] at hallocates
          exact ⟨_, hallocates, rfl, rfl, ObjectKind.value_of_block (h.block_push_self block.body)⟩
      | error e =>
          rw [hfields] at hallocates
          exact hallocates
      | fault =>
          rw [hfields] at hallocates
          exact hallocates
      | outOfFuel =>
          rw [hfields] at hallocates
          exact hallocates

/-- A return-to-home plan is loaded from a file with a checksum and a comment before it. -/
theorem load_showFile_rthPlan :
    ∃ object, Kind.rthPlan.initFromBinaryFile .exact .file
        (ShowFile.bytes ⟨.versionTwo 1, [⟨3, [104, 105], by decide, by decide⟩,
          ⟨4, [10, 0, 0, 0, 0], by decide, by decide⟩]⟩) ⟨.memory, [], 0, 0, 0, 0, ⟨0, 0, 0⟩⟩
        true .empty = ok (object, Heap.empty.push [10, 0, 0, 0, 0]) ∧
      object.buffer = some 0 ∧ object.owner = true ∧
      RthPlan.kind.value (Heap.empty.push [10, 0, 0, 0, 0]) object =
        ⟨[10, 0, 0, 0, 0], 10, 3, 0⟩ := by
  let file : ShowFile := ⟨.versionTwo 1, [⟨3, [104, 105], by decide, by decide⟩,
    ⟨4, [10, 0, 0, 0, 0], by decide, by decide⟩]⟩
  have hfirst : file.firstBlock (Kind.rthPlan.spec .exact).blockType =
      some ⟨4, [10, 0, 0, 0, 0], by decide, by decide⟩ := rfl
  have hinit : (Kind.rthPlan.spec .exact).initFromBytes [10, 0, 0, 0, 0] =
      ok ⟨[10, 0, 0, 0, 0], 10, 3, 0⟩ := by
    rw [Kind.initFromBytes_rthPlan]
    rfl
  have hsize : file.bytes.length < 2 ^ 32 := by
    have hheader := ShowFile.length_headerBytes_le file.header file.blockBytes
    have hblocks : file.blockBytes.length = 13 := rfl
    rw [ShowFile.bytes, List.length_append]
    omega
  have hload := load_showFile file hsize .exact .rthPlan .file
    ⟨.memory, [], 0, 0, 0, 0, ⟨0, 0, 0⟩⟩ .empty
  rw [hfirst] at hload
  dsimp only at hload
  rw [hinit] at hload
  exact hload

end Skybrush
