import Mathlib.Logic.Relation
import Skybrush.BinaryHeader
import Skybrush.Library.Lockstep

/-!
# Sessions on Binary Files

What can be done with a parser once it has been opened: its operations in any order, and what
is observed of them. An operation that fails leaves the parser as it is by then, and the next
one goes on from there.

## Main results

* `BinaryFileParser.init_firstBlock`: a file that has a header is opened at its first block.
* `BinaryFileParser.run_seekToNextBlock_complete`: how the parser goes from block to block.
* `BinaryFileParser.moves_step`, `BinaryFileParser.after_invariant`: everything that an
  operation can do, and what holds after all operations.
* `BinaryFileParser.run_readCurrentBlock`: the body of a block is read off the data.
-/

namespace Skybrush

open BinaryFileParser

/-! ### Sessions -/

/-- An operation on a parser that has been opened. -/
inductive BinaryOp where
  | rewind
  | seekToNextBlock
  | findFirstBlockByType (blockType : ℕ)
  | readCurrentBlock
  deriving DecidableEq, Repr

/-- An operation as an action, with the bytes that it reads. -/
def BinaryOp.action : BinaryOp → Action (List UInt8)
  | .rewind => do
      BinaryFileParser.rewind
      pure []
  | .seekToNextBlock => do
      BinaryFileParser.seekToNextBlock
      pure []
  | .findFirstBlockByType blockType => do
      BinaryFileParser.findFirstBlockByType blockType
      pure []
  | .readCurrentBlock => BinaryFileParser.readCurrentBlock

/-- What is observed of an operation. -/
structure Observation where
  result : Except SbError (List UInt8)
  currentBlock : BinaryBlock

/-- A parser does an operation. -/
def BinaryFileParser.step (p : BinaryFileParser) (op : BinaryOp) :
    Observation × BinaryFileParser :=
  match op.action.run p with
  | .ok bytes q => (⟨.ok bytes, q.getCurrentBlock⟩, q)
  | .error e q => (⟨.error e, q.getCurrentBlock⟩, q)

/-- The parser after some operations. -/
def BinaryFileParser.after (p : BinaryFileParser) : List BinaryOp → BinaryFileParser
  | [] => p
  | op :: ops => (p.step op).2.after ops

/-- What is observed of a parser that is opened on some data, and then does some operations.
It does not matter for a session what is in the parser before it is opened. -/
def session (source : BinarySource) (junk : BinaryFileParser) (data : List UInt8)
    (ops : List BinaryOp) : Except SbError (BinaryBlock × List Observation) :=
  match init source data junk with
  | .ok _ p => .ok (p.getCurrentBlock, observe step p ops)
  | .error e _ => .error e

namespace BinaryFileParser

/-! ### From block to block -/

/-- The end of the current block. -/
def nextOffset (p : BinaryFileParser) : ℕ := p.currentBlock.startOfBody + p.currentBlock.length

theorem step_seekToNextBlock_ok {p q : BinaryFileParser}
    (h : seekToNextBlock.run p = .ok () q) :
    p.step .seekToNextBlock = (⟨.ok [], q.getCurrentBlock⟩, q) := by
  rw [step, BinaryOp.action, run_bind_of_ok h]
  rfl

theorem step_seekToNextBlock_error {p q : BinaryFileParser} {e : SbError}
    (h : seekToNextBlock.run p = .error e q) :
    p.step .seekToNextBlock = (⟨.error e, q.getCurrentBlock⟩, q) := by
  rw [step, BinaryOp.action, run_bind_of_error h]

/-- A complete header is read in the same way, from memory and from a file. -/
theorem run_seekToNextBlock_complete {p : BinaryFileParser} (hvalid : p.isCurrentBlockValid)
    {length : ℕ} {type : UInt8} (h : headerAt p.data p.nextOffset = .complete type length) :
    seekToNextBlock.run p = .ok () ({ p with offset := p.nextOffset + 3 }.withBlock
      ⟨type, length, p.nextOffset + 3⟩) := by
  have hinside : p.CanBeAt p.nextOffset := fun _ =>
    Nat.le_of_add_right_le (headerAt_complete h)
  rw [run_seekToNextBlock hvalid hinside, run_readNextBlockHeader hinside]
  dsimp only [nextOffset] at h ⊢
  rw [h]

/-! ### The body of a block -/

theorem run_readCurrentBlock {p : BinaryFileParser} (hvalid : p.isCurrentBlockValid)
    (h : p.nextOffset ≤ p.data.length) :
    readCurrentBlock.run p =
      .ok ((p.data.drop p.currentBlock.startOfBody).take p.currentBlock.length)
        { p with offset := p.nextOffset } := by
  have hstart : p.currentBlock.startOfBody ≤ p.data.length := Nat.le_of_add_right_le h
  let p' : BinaryFileParser := { p with offset := p.currentBlock.startOfBody }
  have hlength : (p'.bytesAhead p.currentBlock.length).length = p.currentBlock.length := by
    rw [length_bytesAhead]
    exact Nat.min_eq_left (Nat.le_sub_of_add_le' h)
  have hread : (read p.currentBlock.length).run p' =
      .ok (p'.bytesAhead p.currentBlock.length) { p with offset := p.nextOffset } := by
    rw [run_read fun _ => hstart, hlength]
    rfl
  rw [readCurrentBlock, run_get_bind, run_bind_of_ok (run_failIf (not_not_intro hvalid) _ p),
    run_bind_of_ok (run_seek fun _ => hstart), run_bind_of_ok hread,
    run_bind_of_ok (run_failIf (not_not_intro hlength) _ _)]
  rfl

theorem run_readCurrentBlock_invalid {p : BinaryFileParser} (h : ¬ p.isCurrentBlockValid) :
    readCurrentBlock.run p = .error .eread p := by
  rw [readCurrentBlock, run_get_bind, run_bind_of_error (run_failIf_of h _ p)]

/-! ### What the operations can do -/

/-- The state behind an outcome. -/
def stateOf {α : Type} : EStateM.Result SbError BinaryFileParser α → BinaryFileParser
  | .ok _ q => q
  | .error _ q => q

/-- What the operations do to a parser, piece by piece: it goes to some place, or it reads the
header of a block, at the first block or behind the current one. -/
inductive Move : BinaryFileParser → BinaryFileParser → Prop
  | goTo (p : BinaryFileParser) (offset : ℕ) : Move p { p with offset := offset }
  | header {p : BinaryFileParser} {offset : ℕ}
      (hplace : offset = p.startOfFirstBlock ∨ p.isCurrentBlockValid ∧ offset = p.nextOffset)
      (hinside : p.CanBeAt offset) :
      Move p (stateOf (readNextBlockHeader.run { p with offset := offset }))

/-- Some moves. -/
abbrev Moves := Relation.ReflTransGen Move

theorem moves_rewind (p : BinaryFileParser) : Moves p (stateOf (rewind.run p)) := by
  by_cases hinside : p.CanBeAt p.startOfFirstBlock
  · rw [run_rewind hinside]
    exact .single (.header (.inl rfl) hinside)
  · rw [rewind, run_get_bind, run_bind_of_error (run_seek_outside hinside)]
    exact .refl

theorem moves_seekToNextBlock (p : BinaryFileParser) :
    Moves p (stateOf (seekToNextBlock.run p)) := by
  by_cases hvalid : p.isCurrentBlockValid
  · by_cases hinside : p.CanBeAt p.nextOffset
    · rw [run_seekToNextBlock hvalid hinside]
      exact .single (.header (.inr ⟨hvalid, rfl⟩) hinside)
    · rw [run_seekToNextBlock_outside hinside]
      exact .refl
  · rw [run_seekToNextBlock_invalid hvalid]
    exact .refl

/-- The search moves from block to block: by induction on the blocks that are ahead. -/
theorem moves_findLoop (blockType : ℕ) (p : BinaryFileParser) :
    Moves p (stateOf ((findLoop blockType).run p)) := by
  induction hn : p.blocksAhead using Nat.strongRecOn generalizing p with
  | _ n ih =>
      rw [run_findLoop]
      split
      · exact .refl
      · split
        · exact .refl
        · have hmoves := moves_seekToNextBlock p
          cases hnext : seekToNextBlock.run p with
          | ok u q =>
              rw [hnext] at hmoves
              rw [run_bind_of_ok hnext]
              exact hmoves.trans (ih _ (hn ▸ blocksAhead_lt hnext) q rfl)
          | error e q =>
              rw [hnext] at hmoves
              rw [run_bind_of_error hnext]
              exact hmoves

/-- Reading concerns the place of the parser only. -/
theorem exists_afterRead_eq (p : BinaryFileParser) (nbytes : ℕ) :
    ∃ offset, p.afterRead nbytes = { p with offset := offset } := by
  rw [afterRead]
  split
  · split
    · exact ⟨_, rfl⟩
    · exact ⟨_, rfl⟩
  · exact ⟨_, rfl⟩

theorem moves_readCurrentBlock (p : BinaryFileParser) :
    Moves p (stateOf (readCurrentBlock.run p)) := by
  by_cases hvalid : p.isCurrentBlockValid
  · rw [readCurrentBlock, run_get_bind, run_bind_of_ok (run_failIf (not_not_intro hvalid) _ p)]
    by_cases hinside : p.CanBeAt p.currentBlock.startOfBody
    · rw [run_bind_of_ok (run_seek hinside)]
      let p' : BinaryFileParser := { p with offset := p.currentBlock.startOfBody }
      obtain ⟨offset, hafter⟩ := exists_afterRead_eq p' p.currentBlock.length
      have hread : (read p.currentBlock.length).run p' =
          .ok (p'.bytesAhead p.currentBlock.length) { p with offset := offset } :=
        congrArg (EStateM.Result.ok _) hafter
      rw [run_bind_of_ok hread]
      by_cases hcut : (p'.bytesAhead p.currentBlock.length).length ≠ p.currentBlock.length
      · rw [run_bind_of_error (run_failIf_of hcut _ _)]
        exact .single (.goTo p offset)
      · rw [run_bind_of_ok (run_failIf hcut _ _)]
        exact .single (.goTo p offset)
    · rw [run_bind_of_error (run_seek_outside hinside)]
      exact .refl
  · rw [run_readCurrentBlock_invalid hvalid]
    exact .refl

/-- What is returned does not concern the state. -/
theorem stateOf_bind_pure {α β : Type} (x : Action α) (b : β) (p : BinaryFileParser) :
    stateOf ((x >>= fun _ => pure b).run p) = stateOf (x.run p) := by
  rw [EStateM.run_bind]
  cases x.run p with
  | ok a q => rfl
  | error e q => rfl

/-- **Everything that an operation can do.** -/
theorem moves_step (p : BinaryFileParser) (op : BinaryOp) : Moves p (p.step op).2 := by
  have hstate : (p.step op).2 = stateOf (op.action.run p) := by
    rw [step]
    cases op.action.run p with
    | ok bytes q => rfl
    | error e q => rfl
  rw [hstate]
  cases op with
  | rewind =>
      rw [BinaryOp.action, stateOf_bind_pure]
      exact moves_rewind p
  | seekToNextBlock =>
      rw [BinaryOp.action, stateOf_bind_pure]
      exact moves_seekToNextBlock p
  | findFirstBlockByType blockType =>
      rw [BinaryOp.action, stateOf_bind_pure, findFirstBlockByType]
      have hmoves := moves_rewind p
      cases hrewind : rewind.run p with
      | ok u q =>
          rw [hrewind] at hmoves
          rw [run_bind_of_ok hrewind]
          exact hmoves.trans (moves_findLoop blockType q)
      | error e q =>
          rw [hrewind] at hmoves
          rw [run_bind_of_error hrewind]
          exact hmoves
  | readCurrentBlock => exact moves_readCurrentBlock p

/-- **What every move keeps, holds after all operations.** -/
theorem after_invariant {I : BinaryFileParser → Prop} (hmove : ∀ p q, Move p q → I p → I q)
    {p : BinaryFileParser} (h : I p) (ops : List BinaryOp) : I (p.after ops) := by
  have hmoves : ∀ p q, Moves p q → I p → I q := by
    intro p q hpq hp
    induction hpq with
    | refl => exact hp
    | tail _ hstep ih => exact hmove _ _ hstep ih
  induction ops generalizing p with
  | nil => exact h
  | cons op ops ih => exact ih (hmoves _ _ (moves_step p op) h)

/-! ### Opening -/

/-- A file that has a header is opened at its first block. -/
theorem init_firstBlock {data : List UInt8} {n : ℕ} (h : HasHeader data n) :
    ∃ version features, ∀ source (junk : BinaryFileParser), init source data junk =
      match headerAt data n with
      | .missing => .ok () ⟨source, data, n, version, features, n, ⟨binaryBlockNone, 0, 0⟩⟩
      | .cut type => .error .eread ⟨source, data, data.length, version, features, n,
          { junk.currentBlock with type := type }⟩
      | .complete type length =>
          .ok () ⟨source, data, n + 3, version, features, n, ⟨type, length, n + 3⟩⟩ := by
  obtain ⟨hinside, version, features, -, hinit⟩ := init_of_hasHeader h
  refine ⟨version, features, fun source junk => ?_⟩
  rw [hinit, run_rewind fun _ => hinside, run_readNextBlockHeader fun _ => hinside]
  rfl

end BinaryFileParser

end Skybrush
