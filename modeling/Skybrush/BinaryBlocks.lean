import Skybrush.BinarySession

/-!
# The Blocks of Binary Files

What a parser on memory finds in a file, told by the bytes alone. From the first block on, each
block follows the one before it, until the search meets the type that it looks for
(`FirstBlock`), or the chain of blocks ends (`BlockAt`).

The header of a block is read in two parts. When the second part is missing, the type of the
current block has been replaced already, so that it may no longer be the type of the block
that its length and its place belong to.

## Main results

* `findFirstBlockByType_finds`: the search for a type finds what stands in the file.
* `blocks_described_iff`: the current block is always one of the file exactly if a cut header
  agrees with the block before it.
-/

namespace Skybrush

open BinaryFileParser

/-! ### The chain of blocks -/

/-- The bytes of a complete header. -/
theorem headerAt_eq_complete_iff {data : List UInt8} {offset length : ℕ} {type : UInt8} :
    headerAt data offset = .complete type length ↔
      ∃ low high, data[offset]? = some type ∧ data[offset + 1]? = some low ∧
        data[offset + 2]? = some high ∧ length = low.toNat + high.toNat * 256 := by
  have hget : ∀ i, data[offset + i]? = (data.drop offset)[i]? := fun i =>
    List.getElem?_drop.symm
  have hzero := hget 0
  rw [Nat.add_zero] at hzero
  rw [headerAt, hzero, hget 1, hget 2]
  rcases data.drop offset with _ | ⟨b, _ | ⟨b', _ | ⟨b'', rest⟩⟩⟩
  · constructor
    · rintro ⟨⟩
    · rintro ⟨_, _, ⟨⟩, _⟩
  · constructor
    · rintro ⟨⟩
    · rintro ⟨_, _, _, ⟨⟩, _⟩
  · constructor
    · rintro ⟨⟩
    · rintro ⟨_, _, _, _, ⟨⟩, _⟩
  · constructor
    · rintro ⟨⟩
      exact ⟨b', b'', rfl, rfl, rfl, rfl⟩
    · rintro ⟨_, _, ⟨⟩, ⟨⟩, ⟨⟩, rfl⟩
      rfl

/-- At the end of the data there is no header, and only there. -/
theorem headerAt_eq_missing_iff {data : List UInt8} {offset : ℕ} :
    headerAt data offset = .missing ↔ data.length ≤ offset := by
  rw [headerAt, ← List.drop_eq_nil_iff]
  rcases data.drop offset with _ | ⟨b, _ | ⟨b', _ | ⟨b'', rest⟩⟩⟩ <;> simp

/-- The blocks of a file, from the first one on: where the header of each stands, its type and
its length. -/
inductive BlockAt (data : List UInt8) (first : ℕ) : ℕ → UInt8 → ℕ → Prop
  | first {type : UInt8} {length : ℕ} (h : headerAt data first = .complete type length)
      (htype : type ≠ binaryBlockNone) : BlockAt data first first type length
  | next {offset length length' : ℕ} {type type' : UInt8}
      (h : BlockAt data first offset type length)
      (hnext : headerAt data (offset + 3 + length) = .complete type' length')
      (htype : type' ≠ binaryBlockNone) :
      BlockAt data first (offset + 3 + length) type' length'

theorem BlockAt.header {data : List UInt8} {first offset length : ℕ} {type : UInt8}
    (h : BlockAt data first offset type length) :
    headerAt data offset = .complete type length ∧ type ≠ binaryBlockNone := by
  cases h with
  | first h htype => exact ⟨h, htype⟩
  | next h hnext htype => exact ⟨hnext, htype⟩

theorem BlockAt.exists_first {data : List UInt8} {first offset length : ℕ} {type : UInt8}
    (h : BlockAt data first offset type length) :
    ∃ type' length', headerAt data first = .complete type' length' := by
  induction h with
  | first h htype => exact ⟨_, _, h⟩
  | next h hnext htype ih => exact ih

/-- The search for the first block of a type, from an offset on. It ends with the block, with
`SB_ENOENT` where the chain of blocks ends, or with `SB_EREAD` where the data ends too early. -/
inductive FirstBlock (data : List UInt8) (blockType : ℕ) : ℕ → Except SbError BinaryBlock → Prop
  | found {offset length : ℕ} {type : UInt8} (h : headerAt data offset = .complete type length)
      (htype : type.toNat = blockType) :
      FirstBlock data blockType offset (.ok ⟨type, length, offset + 3⟩)
  | atEnd {offset : ℕ} (h : offset = data.length) :
      FirstBlock data blockType offset (.error .enoent)
  | none {offset length : ℕ} (h : headerAt data offset = .complete binaryBlockNone length) :
      FirstBlock data blockType offset (.error .enoent)
  | cutHeader {offset : ℕ} {type : UInt8} (h : headerAt data offset = .cut type) :
      FirstBlock data blockType offset (.error .eread)
  | cutBody {offset length : ℕ} {type : UInt8} (h : headerAt data offset = .complete type length)
      (hnone : type ≠ binaryBlockNone) (hother : type.toNat ≠ blockType)
      (hbody : data.length < offset + 3 + length) :
      FirstBlock data blockType offset (.error .eread)
  | next {offset length : ℕ} {type : UInt8} {outcome : Except SbError BinaryBlock}
      (h : headerAt data offset = .complete type length) (hnone : type ≠ binaryBlockNone)
      (hother : type.toNat ≠ blockType) (hbody : offset + 3 + length ≤ data.length)
      (hrest : FirstBlock data blockType (offset + 3 + length) outcome) :
      FirstBlock data blockType offset outcome

/-- The search ends: by induction on the data that is left. -/
theorem exists_firstBlock (data : List UInt8) (blockType : ℕ) {offset : ℕ}
    (h : offset ≤ data.length) : ∃ outcome, FirstBlock data blockType offset outcome := by
  induction hn : data.length - offset using Nat.strongRecOn generalizing offset with
  | _ n ih =>
      cases hheader : headerAt data offset with
      | missing =>
          exact ⟨_, .atEnd (Nat.le_antisymm h (headerAt_eq_missing_iff.1 hheader))⟩
      | cut type => exact ⟨_, .cutHeader hheader⟩
      | complete type length =>
          by_cases hfound : type.toNat = blockType
          · exact ⟨_, .found hheader hfound⟩
          · by_cases hnone : type = binaryBlockNone
            · subst hnone
              exact ⟨_, .none hheader⟩
            · by_cases hbody : offset + 3 + length ≤ data.length
              · obtain ⟨outcome, hrest⟩ := ih _ (by omega) hbody rfl
                exact ⟨outcome, .next hheader hnone hfound hbody hrest⟩
              · exact ⟨_, .cutBody hheader hnone hfound (Nat.lt_of_not_le hbody)⟩

namespace BinaryFileParser

/-! ### Parsers on memory -/

/-- A parser on memory that has been opened on some data, with its first block at an offset. -/
structure OpenedAt (data : List UInt8) (first : ℕ) (p : BinaryFileParser) : Prop where
  memory : p.source = .memory
  data_eq : p.data = data
  start : p.startOfFirstBlock = first
  inside : first ≤ data.length
  startComplete : ∀ type, headerAt data first ≠ .cut type

/-- Reading the header of a block concerns the place of the parser and the current block. -/
theorem exists_stateOf_readNextBlockHeader {p : BinaryFileParser} (h : p.CanBeAt p.offset) :
    ∃ offset block, stateOf (readNextBlockHeader.run p) =
      { p with offset := offset, currentBlock := block } := by
  rw [run_readNextBlockHeader h]
  split
  · exact ⟨_, _, rfl⟩
  · exact ⟨_, _, rfl⟩
  · exact ⟨_, _, rfl⟩

/-- No move changes what a parser has been opened on. -/
theorem OpenedAt.move {data : List UInt8} {first : ℕ} {p q : BinaryFileParser} (h : Move p q)
    (hp : p.OpenedAt data first) : q.OpenedAt data first := by
  cases h with
  | goTo offset => exact ⟨hp.memory, hp.data_eq, hp.start, hp.inside, hp.startComplete⟩
  | @header offset hplace hinside =>
      let p' : BinaryFileParser := { p with offset := offset }
      have hinside' : p'.CanBeAt p'.offset := hinside
      obtain ⟨offset', block, hstate⟩ := exists_stateOf_readNextBlockHeader hinside'
      rw [hstate]
      exact ⟨hp.memory, hp.data_eq, hp.start, hp.inside, hp.startComplete⟩

/-- A parser on memory that has been opened is at its first block. -/
theorem openedAt_init {data : List UInt8} {junk p : BinaryFileParser}
    (h : init .memory data junk = .ok () p) :
    HasHeader data p.startOfFirstBlock ∧ p.OpenedAt data p.startOfFirstBlock ∧
      match headerAt data p.startOfFirstBlock with
      | .complete type length => p.currentBlock = ⟨type, length, p.startOfFirstBlock + 3⟩
      | _ => p.currentBlock = ⟨binaryBlockNone, 0, 0⟩ := by
  by_cases hheader : ∃ n, HasHeader data n
  · obtain ⟨n, hheader⟩ := hheader
    have hinside := (init_of_hasHeader hheader).1
    obtain ⟨version, features, hinit⟩ := init_firstBlock hheader
    rw [hinit] at h
    cases hfirst : headerAt data n with
    | missing =>
        rw [hfirst] at h
        cases h
        refine ⟨hheader, ⟨rfl, rfl, rfl, hinside, ?_⟩, ?_⟩
        · dsimp only
          rw [hfirst]
          exact fun _ => nofun
        · dsimp only
          rw [hfirst]
    | cut type =>
        rw [hfirst] at h
        cases h
    | complete type length =>
        rw [hfirst] at h
        cases h
        refine ⟨hheader, ⟨rfl, rfl, rfl, hinside, ?_⟩, ?_⟩
        · dsimp only
          rw [hfirst]
          exact fun _ => nofun
        · dsimp only
          rw [hfirst]
  · obtain ⟨e, hinit⟩ := init_of_noHeader (not_exists.1 hheader)
    obtain ⟨q, hq⟩ := hinit .memory junk
    rw [hq] at h
    cases h

/-! ### The search for a type -/

/-- An outcome is the one that is expected, and the current block as well. -/
def Finds (data : List UInt8) (first : ℕ) (outcome : Except SbError BinaryBlock)
    (r : EStateM.Result SbError BinaryFileParser Unit) : Prop :=
  match outcome with
  | .ok block =>
      ∃ q, r = .ok () q ∧ q.OpenedAt data first ∧ q.isCurrentBlockValid ∧ q.currentBlock = block
  | .error e => ∃ q, r = .error e q

theorem OpenedAt.run_readNextBlockHeader {data : List UInt8} {first : ℕ} {p : BinaryFileParser}
    (hp : p.OpenedAt data first) (h : p.offset ≤ data.length) :
    readNextBlockHeader.run p =
      match headerAt data p.offset with
      | .missing => .ok () (p.withBlock ⟨binaryBlockNone, 0, 0⟩)
      | .cut type => .error .eread
          ({ p with offset := p.data.length }.withBlock { p.currentBlock with type := type })
      | .complete type length => .ok ()
          ({ p with offset := p.offset + 3 }.withBlock ⟨type, length, p.offset + 3⟩) := by
  obtain rfl := hp.data_eq
  exact BinaryFileParser.run_readNextBlockHeader fun _ => h

/-- A complete header is read, and its block is the current one. -/
theorem exists_readNextBlockHeader_complete {data : List UInt8} {first length : ℕ} {type : UInt8}
    {p : BinaryFileParser} (hp : p.OpenedAt data first)
    (h : headerAt data p.offset = .complete type length) :
    ∃ q, readNextBlockHeader.run p = .ok () q ∧ q.OpenedAt data first ∧
      q.currentBlock = ⟨type, length, p.offset + 3⟩ := by
  have hinside := headerAt_complete h
  have hread := hp.run_readNextBlockHeader (Nat.le_of_add_right_le hinside)
  rw [h] at hread
  exact ⟨_, hread, ⟨hp.memory, hp.data_eq, hp.start, hp.inside, hp.startComplete⟩, rfl⟩

/-- The search finds the first block from an offset on: by induction on the blocks that it
passes. -/
theorem finds_from {data : List UInt8} {first blockType offset : ℕ}
    {outcome : Except SbError BinaryBlock} (htype : blockType ≠ 0)
    (h : FirstBlock data blockType offset outcome) {p : BinaryFileParser}
    (hp : p.OpenedAt data first) (hoffset : p.offset = offset) (hinside : offset ≤ data.length) :
    Finds data first outcome
      ((do readNextBlockHeader; findLoop blockType : Action Unit).run p) := by
  induction h generalizing p with
  | found h hfound =>
      obtain ⟨q, hq, hopened, hblock⟩ := exists_readNextBlockHeader_complete hp (hoffset ▸ h)
      have hvalid : q.isCurrentBlockValid := by
        rw [isCurrentBlockValid, hblock]
        rintro rfl
        exact htype hfound.symm
      rw [run_bind_of_ok hq, run_findLoop_found hvalid (by rw [hblock]; exact hfound)]
      exact ⟨q, rfl, hopened, hvalid, hoffset ▸ hblock⟩
  | atEnd h =>
      have hread := hp.run_readNextBlockHeader (hoffset ▸ hinside)
      rw [hoffset, headerAt_eq_missing_iff.2 h.ge] at hread
      rw [run_bind_of_ok hread, run_findLoop_invalid fun hvalid => hvalid rfl]
      exact ⟨_, rfl⟩
  | none h =>
      have hread := hp.run_readNextBlockHeader (hoffset ▸ hinside)
      rw [hoffset, h] at hread
      rw [run_bind_of_ok hread, run_findLoop_invalid fun hvalid => hvalid rfl]
      exact ⟨_, rfl⟩
  | cutHeader h =>
      have hread := hp.run_readNextBlockHeader (hoffset ▸ hinside)
      rw [hoffset, h] at hread
      rw [run_bind_of_error hread]
      exact ⟨_, rfl⟩
  | cutBody h hnone hother hbody =>
      obtain ⟨q, hq, hopened, hblock⟩ := exists_readNextBlockHeader_complete hp (hoffset ▸ h)
      have hvalid : q.isCurrentBlockValid := by rw [isCurrentBlockValid, hblock]; exact hnone
      rw [run_bind_of_ok hq, run_findLoop_other hvalid (by rw [hblock]; exact hother)]
      refine ⟨q, run_bind_of_error (run_seekToNextBlock_outside fun hcan => ?_) _⟩
      have hle := hcan hopened.memory
      rw [hblock, hopened.data_eq, hoffset] at hle
      exact Nat.not_le.2 hbody hle
  | @next offset length type outcome h hnone hother hbody hrest ih =>
      obtain ⟨q, hq, hopened, hblock⟩ := exists_readNextBlockHeader_complete hp (hoffset ▸ h)
      have hvalid : q.isCurrentBlockValid := by rw [isCurrentBlockValid, hblock]; exact hnone
      have hnext : q.currentBlock.startOfBody + q.currentBlock.length = offset + 3 + length := by
        rw [hblock, hoffset]
      have hcan : q.CanBeAt (q.currentBlock.startOfBody + q.currentBlock.length) := fun _ => by
        rw [hnext, hopened.data_eq]
        exact hbody
      rw [run_bind_of_ok hq, run_findLoop_other hvalid (by rw [hblock]; exact hother),
        EStateM.run_bind, run_seekToNextBlock hvalid hcan, ← EStateM.run_bind]
      have hopened' : OpenedAt data first { q with offset := q.currentBlock.startOfBody +
          q.currentBlock.length } :=
        ⟨hopened.memory, hopened.data_eq, hopened.start, hopened.inside, hopened.startComplete⟩
      exact ih hopened' hnext hbody

/-- A body that is cut is not read. -/
theorem run_readCurrentBlock_cut {p : BinaryFileParser} (hmemory : p.source = .memory)
    (h : p.data.length < p.nextOffset) : ∃ q, readCurrentBlock.run p = .error .eread q := by
  by_cases hvalid : p.isCurrentBlockValid
  · rw [readCurrentBlock, run_get_bind, run_bind_of_ok (run_failIf (not_not_intro hvalid) _ p)]
    by_cases hinside : p.CanBeAt p.currentBlock.startOfBody
    · let p' : BinaryFileParser := { p with offset := p.currentBlock.startOfBody }
      have hcut : (p'.bytesAhead p.currentBlock.length).length ≠ p.currentBlock.length := by
        have hstart := hinside hmemory
        have hend : p.data.length < p.currentBlock.startOfBody + p.currentBlock.length := h
        have hlength : (p'.bytesAhead p.currentBlock.length).length =
            min p.currentBlock.length (p.data.length - p.currentBlock.startOfBody) :=
          p'.length_bytesAhead _
        omega
      have hinside' : p'.CanBeAt p'.offset := hinside
      rw [run_bind_of_ok (run_seek hinside), run_bind_of_ok (run_read hinside' _)]
      exact ⟨_, run_bind_of_error (run_failIf_of hcut _ _) _⟩
    · exact ⟨p, run_bind_of_error (run_seek_outside hinside) _⟩
  · exact ⟨p, run_readCurrentBlock_invalid hvalid⟩

end BinaryFileParser

/-- **The search for a type**: from every state that a parser gets to, it ends with the outcome
that the bytes of the file tell from the first block on. If a block is found, it is the current
one, and its body can be read if it is inside the file. -/
theorem findFirstBlockByType_finds {data : List UInt8} {junk p : BinaryFileParser}
    (h : init .memory data junk = .ok () p) (ops : List BinaryOp) {blockType : ℕ}
    (htype : blockType ≠ 0) :
    HasHeader data p.startOfFirstBlock ∧
    (∃ outcome, FirstBlock data blockType p.startOfFirstBlock outcome) ∧
    ∀ outcome, FirstBlock data blockType p.startOfFirstBlock outcome →
      match outcome with
      | .ok block =>
          ∃ q, (findFirstBlockByType blockType).run (p.after ops) = .ok () q ∧
            q.currentBlock = block ∧
            ((block.startOfBody + block.length ≤ data.length ∧ ∃ r, readCurrentBlock.run q =
                .ok ((data.drop block.startOfBody).take block.length) r) ∨
              data.length < block.startOfBody + block.length ∧
                ∃ r, readCurrentBlock.run q = .error .eread r)
      | .error e =>
          ∃ q, (findFirstBlockByType blockType).run (p.after ops) = .error e q := by
  obtain ⟨hheader, hopened, -⟩ := openedAt_init h
  refine ⟨hheader, exists_firstBlock data blockType hopened.inside, fun outcome hfirst => ?_⟩
  have hafter : (p.after ops).OpenedAt data p.startOfFirstBlock :=
    after_invariant (fun _ _ => OpenedAt.move) hopened ops
  let p' : BinaryFileParser := { p.after ops with offset := (p.after ops).startOfFirstBlock }
  have hopened' : p'.OpenedAt data p.startOfFirstBlock :=
    ⟨hafter.memory, hafter.data_eq, hafter.start, hafter.inside, hafter.startComplete⟩
  have hfinds := finds_from htype hfirst hopened' hafter.start hopened.inside
  have hrun : (findFirstBlockByType blockType).run (p.after ops) =
      (do readNextBlockHeader; findLoop blockType : Action Unit).run p' := by
    have hinside : (p.after ops).CanBeAt (p.after ops).startOfFirstBlock := fun _ => by
      rw [hafter.start, hafter.data_eq]
      exact hopened.inside
    rw [findFirstBlockByType, EStateM.run_bind, run_rewind hinside, ← EStateM.run_bind]
  rw [← hrun] at hfinds
  cases outcome with
  | error e => exact hfinds
  | ok block =>
      obtain ⟨q, hq, hqopened, hvalid, rfl⟩ := hfinds
      refine ⟨q, hq, rfl, ?_⟩
      rcases Nat.lt_or_ge data.length q.nextOffset with hcut | hinside
      · exact .inr ⟨hcut, run_readCurrentBlock_cut hqopened.memory (hqopened.data_eq ▸ hcut)⟩
      · have hread := run_readCurrentBlock hvalid (hqopened.data_eq ▸ hinside)
        rw [hqopened.data_eq] at hread
        exact .inl ⟨hinside, _, hread⟩

/-- A file with one light program of one byte, which is found from behind it. -/
theorem findFirstBlockByType_finds_oneBlock :
    ∃ p, init .memory [115, 107, 121, 98, 1, 2, 1, 0, 7] ⟨.memory, [], 0, 0, 0, 0, ⟨0, 0, 0⟩⟩ =
        .ok () p ∧
      ∃ q, (findFirstBlockByType 2).run (p.after [.seekToNextBlock]) = .ok () q ∧
        ∃ r, readCurrentBlock.run q = .ok [7] r := by
  have hinit : init .memory [115, 107, 121, 98, 1, 2, 1, 0, 7]
        ⟨.memory, [], 0, 0, 0, 0, ⟨0, 0, 0⟩⟩ =
      .ok () ⟨.memory, [115, 107, 121, 98, 1, 2, 1, 0, 7], 8, 1, 0, 5, ⟨2, 1, 8⟩⟩ := rfl
  obtain ⟨-, -, hfinds⟩ := findFirstBlockByType_finds hinit [.seekToNextBlock]
    (show (2 : ℕ) ≠ 0 by decide)
  obtain ⟨q, hq, hblock, ⟨-, r, hread⟩ | ⟨hcut, -⟩⟩ :=
    hfinds (.ok ⟨2, 1, 8⟩) (.found rfl rfl)
  · exact ⟨_, hinit, q, hq, r, hread⟩
  · exact absurd hcut (by decide)

/-! ### The current block -/

/-- A block is one of the file, or none: its type and its length stand before its body. -/
def DescribesHeader (data : List UInt8) (block : BinaryBlock) : Prop :=
  block.type = binaryBlockNone ∨
    3 ≤ block.startOfBody ∧ data[block.startOfBody - 3]? = some block.type ∧
      ∃ low high, data[block.startOfBody - 2]? = some low ∧
        data[block.startOfBody - 1]? = some high ∧
        block.length = low.toNat + high.toNat * 256

/-- If the chain of blocks ends in a header that is cut, its type is `SB_BINARY_BLOCK_NONE` or
that of the block before it. -/
def CutHeaderAgrees (data : List UInt8) (first : ℕ) : Prop :=
  ∀ offset type length type', BlockAt data first offset type length →
    headerAt data (offset + 3 + length) = .cut type' → type' = binaryBlockNone ∨ type' = type

theorem describesHeader_of_complete {data : List UInt8} {offset length : ℕ} {type : UInt8}
    (h : headerAt data offset = .complete type length) :
    DescribesHeader data ⟨type, length, offset + 3⟩ := by
  obtain ⟨low, high, htype, hlow, hhigh, hlength⟩ := headerAt_eq_complete_iff.1 h
  exact .inr ⟨Nat.le_add_left 3 offset, htype, low, high, hlow, hhigh, hlength⟩

namespace BinaryFileParser

/-- The current block is one of the chain, or none. -/
def InChain (data : List UInt8) (first : ℕ) (p : BinaryFileParser) : Prop :=
  p.isCurrentBlockValid → ∃ offset, BlockAt data first offset p.currentBlock.type
    p.currentBlock.length ∧ p.currentBlock.startOfBody = offset + 3

/-- If a cut header agrees with the block before it, no move leaves the chain. -/
theorem InChain.move {data : List UInt8} {first : ℕ} (hagrees : CutHeaderAgrees data first)
    {p q : BinaryFileParser} (h : Move p q) (hp : p.OpenedAt data first ∧ p.InChain data first) :
    q.OpenedAt data first ∧ q.InChain data first := by
  obtain ⟨hopened, hchain⟩ := hp
  refine ⟨hopened.move h, ?_⟩
  cases h with
  | goTo offset => exact hchain
  | @header offset hplace hinside =>
      have hopened' : OpenedAt data first { p with offset := offset } :=
        ⟨hopened.memory, hopened.data_eq, hopened.start, hopened.inside, hopened.startComplete⟩
      have hle : offset ≤ data.length := hopened.data_eq ▸ hinside hopened.memory
      rw [hopened'.run_readNextBlockHeader hle]
      dsimp only
      cases hheader : headerAt data offset with
      | missing => exact fun hvalid => absurd rfl hvalid
      | cut type =>
          rcases hplace with rfl | ⟨hvalid, rfl⟩
          · exact absurd (hopened.start ▸ hheader) (hopened.startComplete type)
          · obtain ⟨offset, hblock, hstart⟩ := hchain hvalid
            rw [nextOffset, hstart] at hheader
            intro hvalid'
            rcases hagrees _ _ _ _ hblock hheader with hnone | hsame
            · exact absurd hnone hvalid'
            · exact ⟨offset, hsame ▸ hblock, hstart⟩
      | complete type length =>
          intro htype
          rcases hplace with rfl | ⟨hvalid, rfl⟩
          · rw [hopened.start] at hheader ⊢
            exact ⟨first, .first hheader htype, rfl⟩
          · obtain ⟨offset, hblock, hstart⟩ := hchain hvalid
            rw [nextOffset, hstart] at hheader ⊢
            exact ⟨_, .next hblock hheader htype, rfl⟩

theorem after_append (p : BinaryFileParser) (ops ops' : List BinaryOp) :
    p.after (ops ++ ops') = (p.after ops).after ops' := by
  induction ops generalizing p with
  | nil => rfl
  | cons op ops ih => exact ih _

/-- Every block of the chain is reached: by induction on the blocks before it. -/
theorem exists_after_blockAt {data : List UInt8} {first offset length : ℕ} {type : UInt8}
    (h : BlockAt data first offset type length) {p : BinaryFileParser}
    (hp : p.OpenedAt data first)
    (hfirst : ∀ type length, headerAt data first = .complete type length →
      p.currentBlock = ⟨type, length, first + 3⟩) :
    ∃ ops, (p.after ops).OpenedAt data first ∧
      (p.after ops).currentBlock = ⟨type, length, offset + 3⟩ := by
  induction h with
  | first h htype => exact ⟨[], hp, hfirst _ _ h⟩
  | @next offset length length' type type' h hnext htype ih =>
      obtain ⟨ops, hopened, hblock⟩ := ih
      have hvalid : (p.after ops).isCurrentBlockValid := by
        rw [isCurrentBlockValid, hblock]
        exact h.header.2
      have hoffset : (p.after ops).nextOffset = offset + 3 + length := by rw [nextOffset, hblock]
      have hheader : headerAt (p.after ops).data (p.after ops).nextOffset =
          .complete type' length' := by rw [hopened.data_eq, hoffset, hnext]
      have hstep := step_seekToNextBlock_ok (run_seekToNextBlock_complete hvalid hheader)
      refine ⟨ops ++ [.seekToNextBlock], ?_⟩
      rw [after_append, after, after, hstep, hoffset]
      exact ⟨⟨hopened.memory, hopened.data_eq, hopened.start, hopened.inside,
        hopened.startComplete⟩, rfl⟩

/-- A header that is cut replaces the type of the current block only. -/
theorem run_seekToNextBlock_cut {p : BinaryFileParser} (hvalid : p.isCurrentBlockValid)
    {type : UInt8} (h : headerAt p.data p.nextOffset = .cut type) :
    seekToNextBlock.run p = .error .eread
      ({ p with offset := p.data.length }.withBlock { p.currentBlock with type := type }) := by
  have hinside : p.CanBeAt p.nextOffset := fun _ => by
    refine Nat.le_of_not_lt fun hlt => ?_
    rw [headerAt_eq_missing_iff.2 (Nat.le_of_lt hlt)] at h
    cases h
  rw [run_seekToNextBlock hvalid hinside, run_readNextBlockHeader hinside]
  dsimp only [nextOffset] at h ⊢
  rw [h]

end BinaryFileParser

/-- **The current block is always one of the file, or none, exactly if a cut header at the end
of the chain agrees with the block before it.** -/
theorem blocks_described_iff (data : List UInt8) (junk : BinaryFileParser) :
    (∀ p, init .memory data junk = .ok () p →
      ∀ ops, DescribesHeader data (p.after ops).currentBlock) ↔
    ∀ first, HasHeader data first → CutHeaderAgrees data first := by
  constructor
  · intro hdescribed first hheader offset type length type' hblock hcut
    obtain ⟨type₀, length₀, hfirst⟩ := hblock.exists_first
    obtain ⟨version, features, hinit⟩ := init_firstBlock hheader
    have hopen := hinit .memory junk
    rw [hfirst] at hopen
    obtain ⟨-, hopened, -⟩ := openedAt_init hopen
    obtain ⟨ops, hafter, hcurrent⟩ := exists_after_blockAt hblock hopened
      fun type length h => by rw [hfirst] at h; cases h; rfl
    -- one more step meets the cut header
    let q := (BinaryFileParser.mk .memory data (first + 3) version features first
      ⟨type₀, length₀, first + 3⟩).after ops
    have hvalid : q.isCurrentBlockValid := by
      rw [isCurrentBlockValid, hcurrent]
      exact hblock.header.2
    have hnext : headerAt q.data q.nextOffset = .cut type' := by
      rw [hafter.data_eq, nextOffset, hcurrent]
      exact hcut
    have hdescribes := hdescribed _ hopen (ops ++ [.seekToNextBlock])
    rw [after_append, after, after,
      step_seekToNextBlock_error (run_seekToNextBlock_cut hvalid hnext)] at hdescribes
    dsimp only [withBlock] at hdescribes
    rw [hcurrent] at hdescribes
    refine hdescribes.imp_right ?_
    rintro ⟨-, htype, -⟩
    obtain ⟨-, -, hreal, -⟩ := headerAt_eq_complete_iff.1 hblock.header.1
    exact Option.some.inj (htype.symm.trans hreal)
  · intro hagrees p hinit ops
    obtain ⟨hheader, hopened, hfirst⟩ := openedAt_init hinit
    have hchain : p.InChain data p.startOfFirstBlock := by
      intro hvalid
      split at hfirst
      case h_1 type length hcomplete =>
        rw [isCurrentBlockValid, hfirst] at hvalid
        rw [hfirst]
        exact ⟨_, .first hcomplete hvalid, rfl⟩
      case h_2 =>
        rw [isCurrentBlockValid, hfirst] at hvalid
        exact absurd rfl hvalid
    obtain ⟨-, hafter⟩ := after_invariant (fun _ _ => InChain.move (hagrees _ hheader))
      ⟨hopened, hchain⟩ ops
    by_cases hvalid : (p.after ops).isCurrentBlockValid
    · obtain ⟨offset, hblock, hstart⟩ := hafter hvalid
      have hdescribes := describesHeader_of_complete hblock.header.1
      rw [← hstart] at hdescribes
      exact hdescribes
    · exact .inl (not_not.1 hvalid)

/-- Behind an empty trajectory there is the first byte of a header, of a light program: when it
has been read, the current block is a light program where the trajectory stands. -/
theorem cutHeader_mixes_blocks :
    ¬ ∀ (data : List UInt8) (junk p : BinaryFileParser), init .memory data junk = .ok () p →
      ∀ ops, DescribesHeader data (p.after ops).currentBlock := by
  intro hdescribed
  have hinit : init .memory [115, 107, 121, 98, 1, 1, 0, 0, 2]
        ⟨.memory, [], 0, 0, 0, 0, ⟨0, 0, 0⟩⟩ =
      .ok () ⟨.memory, [115, 107, 121, 98, 1, 1, 0, 0, 2], 8, 1, 0, 5, ⟨1, 0, 8⟩⟩ := rfl
  have hblock : (after ⟨.memory, [115, 107, 121, 98, 1, 1, 0, 0, 2], 8, 1, 0, 5, ⟨1, 0, 8⟩⟩
    [.seekToNextBlock]).currentBlock = ⟨2, 0, 8⟩ := rfl
  have hdescribes := hdescribed _ _ _ hinit [.seekToNextBlock]
  rw [hblock] at hdescribes
  rcases hdescribes with hnone | ⟨-, htype, -⟩
  · exact absurd hnone (by decide)
  · exact absurd htype (by decide)

end Skybrush
