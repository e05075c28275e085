import Skybrush.ArrayStore
import Skybrush.BackendEquivalence
import Skybrush.BinaryBlocks
import Skybrush.Library.Heap
import Skybrush.RthPlan
import Skybrush.YawControl

/-!
# Loading Objects from Binary Files

Trajectories, light programs, return-to-home plans and yaw controls are loaded from binary
files in the same way (`sb_*_init_from_binary_file` and `sb_*_init_from_binary_file_in_memory`):
the first block of their type is looked for, a block of memory is asked for, the body is read
into it, and the object is set up from it and takes ownership of the memory. On the way the
memory is freed whenever something fails.

The objects are modelled with the memory that their bytes are in, on a `Heap`; the parser is that
of `BinaryFile`. What memory holds can be compared with the values of `Trajectory`,
`LightProgram`, `RthPlan` and `YawControl`, which know nothing of memory.

## Main results

* `BinaryFileParser.findFirstBlockByType_search`: the search and the reading of the body, from
  memory and from a descriptor, against the bytes of the file.
* `ObjectKind.allocates_initFromBinaryFile`: loading with memory does what loading does without.
* `load_ok_iff`: an object is loaded, in the same way from both, exactly if the file has a header
  and its first complete block of the type can be set up.
* `load_fault_iff`: loading reads outside the memory exactly if this block is too short.
-/

namespace Skybrush

open Checked BinaryFileParser

/-! ### Objects with their memory -/

/-- An object with the memory that its bytes are in: the address of the block, null if there is
none, the number of bytes, whether the object has to free the block, and the other fields. -/
structure MemoryObject (τ : Type) where
  buffer : Option ℕ
  bufferLength : ℕ
  owner : Bool
  fields : τ

/-- What the kinds of objects that can be loaded differ in: the type of their blocks, whether a
block without bytes is rejected, and how the other fields are read off the bytes. The
fields do not have the bytes, they can be put in. -/
structure ObjectKind (τ : Type) where
  blockType : ℕ
  rejectsEmpty : Bool
  parseFields : List UInt8 → Checked SbError τ
  withBytes : τ → List UInt8 → τ

/-- `SB_BINARY_BLOCK_TRAJECTORY`, `SB_BINARY_BLOCK_LIGHT_PROGRAM`, `SB_BINARY_BLOCK_RTH_PLAN` and
`SB_BINARY_BLOCK_YAW_CONTROL`. -/
def binaryBlockTrajectory : ℕ := 1

@[inherit_doc binaryBlockTrajectory]
def binaryBlockLightProgram : ℕ := 2

@[inherit_doc binaryBlockTrajectory]
def binaryBlockRthPlan : ℕ := 4

@[inherit_doc binaryBlockTrajectory]
def binaryBlockYawControl : ℕ := 5

/-- Trajectories: `sb_i_trajectory_parse_header`, and the length of the header. -/
def Trajectory.kind (F : Rounding) : ObjectKind Trajectory where
  blockType := binaryBlockTrajectory
  rejectsEmpty := true
  parseFields := fun bytes => do
    let (trajectory, headerLength) ← Trajectory.parseHeader F bytes 0
    pure { trajectory with headerLength := headerLength }
  withBytes := fun trajectory bytes => { trajectory with buffer := bytes }

/-- Light programs, which have no other fields. -/
def LightProgram.kind : ObjectKind LightProgram where
  blockType := binaryBlockLightProgram
  rejectsEmpty := false
  parseFields := fun _ => ok { buffer := [], bufferLength := 0 }
  withBytes := fun _ bytes => { buffer := bytes, bufferLength := bytes.length }

/-- Return-to-home plans: `sb_i_rth_plan_parse_header`. -/
def RthPlan.kind : ObjectKind RthPlan where
  blockType := binaryBlockRthPlan
  rejectsEmpty := false
  parseFields := fun bytes => do
    let ((scale, numPoints), headerLength) ← RthPlan.parseHeader bytes 0
    pure { buffer := [], scale := scale, headerLength := headerLength, numPoints := numPoints }
  withBytes := fun plan bytes => { plan with buffer := bytes }

/-- Yaw controls: `sb_i_yaw_control_parse_header`. -/
def YawControl.kind : ObjectKind YawControl where
  blockType := binaryBlockYawControl
  rejectsEmpty := false
  parseFields := fun bytes => do
    let ((autoYaw, yawOffsetDdeg), headerLength) ← YawControl.parseHeader bytes 0
    pure
      { buffer := []
        headerLength := headerLength
        numDeltas := YawControl.countDeltas bytes.length headerLength
        autoYaw := autoYaw
        yawOffsetDdeg := yawOffsetDdeg }
  withBytes := fun ctrl bytes => { ctrl with buffer := bytes }

namespace ObjectKind

open Heap (Routine)
open Heap.Routine (lift contents store free allocate)

variable {τ : Type} (K : ObjectKind τ)

/-- The fields of an object that is to own a block with some bytes. -/
def fieldsFrom (bytes : List UInt8) : Checked SbError τ :=
  if K.rejectsEmpty ∧ bytes = [] then error .einval else K.parseFields bytes

/-- The fields, with the bytes that they were read from. -/
def fieldsAndBytes (bytes : List UInt8) : Checked SbError (τ × List UInt8) := do
  let fields ← K.fieldsFrom bytes
  pure (fields, bytes)

/-- The value of an object on some bytes, without the memory that they are in. -/
def initFromBytes (bytes : List UInt8) : Checked SbError τ := do
  let fields ← K.fieldsFrom bytes
  pure (K.withBytes fields bytes)

/-! ### Functions -/

/-- `sb_*_init_from_buffer`: the object is a view of a block with that many bytes. -/
def initFromBuffer (buf nbytes : ℕ) : Routine SbError UInt8 (MemoryObject τ) := do
  let bytes ← contents buf
  let fields ← lift (K.parseFields (bytes.take nbytes))
  pure { buffer := some buf, bufferLength := nbytes, owner := false, fields := fields }

/-- `sb_i_*_take_ownership`. -/
def takeOwnership (object : MemoryObject τ) : MemoryObject τ := { object with owner := true }

/-- The object on a block that it is to own: `sb_i_trajectory_init_from_bytes`, or
`sb_*_init_from_buffer` and `sb_i_*_take_ownership`. -/
def initOwned (buf nbytes : ℕ) : Routine SbError UInt8 (MemoryObject τ) :=
  if K.rejectsEmpty ∧ nbytes = 0 then
    Routine.throw .einval
  else do
    let object ← K.initFromBuffer buf nbytes
    pure (takeOwnership object)

/-- Free a block and go on with the error if something has failed. -/
def freeOnError (buf : ℕ) (p : Routine SbError UInt8 (MemoryObject τ)) :
    Routine SbError UInt8 (MemoryObject τ) := fun h =>
  match p h with
  | error (e, h) => (do free buf; Routine.throw e : Routine SbError UInt8 (MemoryObject τ)) h
  | result => result

/-- What `sb_i_*_init_from_parser` does with the block that it was given: the body is read into
it, and the object is set up. -/
def fillAndInit (parser : BinaryFileParser) (buf : ℕ) : Routine SbError UInt8 (MemoryObject τ) :=
  match readCurrentBlock.run parser with
  | .error e _ => Routine.throw e
  | .ok bytes _ => do
      store buf bytes
      K.initOwned buf parser.getCurrentBlock.length

/-- `sb_i_*_init_from_parser`. Whether the memory can be had is an argument. -/
def initFromParser (granted : Bool) (parser : BinaryFileParser) :
    Routine SbError UInt8 (MemoryObject τ) :=
  match (findFirstBlockByType K.blockType).run parser with
  | .error e _ => Routine.throw e
  | .ok _ parser => do
      match ← allocate granted (List.replicate parser.getCurrentBlock.length 0) with
      | none => Routine.throw .enomem
      | some buf => freeOnError buf (K.fillAndInit parser buf)

/-- `sb_*_init_from_binary_file` and `sb_*_init_from_binary_file_in_memory`, with what happens
to be in the parser before it is opened. -/
def initFromBinaryFile (source : BinarySource) (data : List UInt8) (junk : BinaryFileParser)
    (granted : Bool) : Routine SbError UInt8 (MemoryObject τ) :=
  match init source data junk with
  | .error e _ => Routine.throw e
  | .ok _ parser => K.initFromParser granted parser

/-- What is loaded, without the memory: the fields of the object and its bytes. -/
def load (source : BinarySource) (data : List UInt8) (junk : BinaryFileParser) (granted : Bool) :
    Checked SbError (τ × List UInt8) :=
  match init source data junk with
  | .error e _ => error e
  | .ok _ parser =>
      match (findFirstBlockByType K.blockType).run parser with
      | .error e _ => error e
      | .ok _ parser =>
          if granted then
            match readCurrentBlock.run parser with
            | .error e _ => error e
            | .ok bytes _ => K.fieldsAndBytes bytes
          else
            error .enomem

end ObjectKind

/-! ### The body of the first block of a type -/

/-- The body of the first block of a type, from an offset on: before it are complete blocks of
other types. -/
inductive FirstBody (data : List UInt8) (blockType : ℕ) : ℕ → List UInt8 → Prop
  | found {offset length : ℕ} {type : UInt8} (h : headerAt data offset = .complete type length)
      (hfound : type.toNat = blockType) (hbody : offset + 3 + length ≤ data.length) :
      FirstBody data blockType offset ((data.drop (offset + 3)).take length)
  | next {offset length : ℕ} {type : UInt8} {body : List UInt8}
      (h : headerAt data offset = .complete type length) (hnone : type ≠ binaryBlockNone)
      (hother : type.toNat ≠ blockType)
      (hrest : FirstBody data blockType (offset + 3 + length) body) :
      FirstBody data blockType offset body

namespace FirstBody

variable {data body body' : List UInt8} {blockType offset length : ℕ} {type : UInt8}

theorem header (h : FirstBody data blockType offset body) :
    ∃ type length, headerAt data offset = .complete type length := by
  cases h with
  | found h _ _ => exact ⟨_, _, h⟩
  | next h _ _ _ => exact ⟨_, _, h⟩

/-- A block of the type is the first one, and no other. -/
theorem iff_found (h : headerAt data offset = .complete type length)
    (hfound : type.toNat = blockType) :
    FirstBody data blockType offset body ↔
      offset + 3 + length ≤ data.length ∧ body = (data.drop (offset + 3)).take length := by
  constructor
  · intro hfirst
    cases hfirst with
    | found h' _ hbody =>
        rw [h] at h'
        cases h'
        exact ⟨hbody, rfl⟩
    | next h' _ hother _ =>
        rw [h] at h'
        cases h'
        exact absurd hfound hother
  · rintro ⟨hbody, rfl⟩
    exact .found h hfound hbody

/-- A block of another type is passed. -/
theorem iff_next (h : headerAt data offset = .complete type length)
    (hnone : type ≠ binaryBlockNone) (hother : type.toNat ≠ blockType) :
    FirstBody data blockType offset body ↔
      FirstBody data blockType (offset + 3 + length) body := by
  constructor
  · intro hfirst
    cases hfirst with
    | found h' hfound _ =>
        rw [h] at h'
        cases h'
        exact absurd hfound hother
    | next h' _ _ hrest =>
        rw [h] at h'
        cases h'
        exact hrest
  · exact .next h hnone hother

/-- There is at most one: by induction on the blocks before it. -/
theorem unique (h : FirstBody data blockType offset body)
    (h' : FirstBody data blockType offset body') : body = body' := by
  induction h with
  | found h hfound _ => exact ((iff_found h hfound).1 h').2.symm
  | next h hnone hother _ ih => exact ih ((iff_next h hnone hother).1 h')

/-- There is nothing behind a block without a type. -/
theorem not_none (h : headerAt data offset = .complete binaryBlockNone length)
    (htype : blockType ≠ 0) : ¬ FirstBody data blockType offset body := by
  intro hfirst
  cases hfirst with
  | found h' hfound _ =>
      rw [h] at h'
      cases h'
      exact htype hfound.symm
  | next h' hnone _ _ =>
      rw [h] at h'
      cases h'
      exact hnone rfl

end FirstBody

/-- From an offset on there are complete blocks, up to the end of the data or to a block without
a type. -/
inductive WholeBlocks (data : List UInt8) : ℕ → Prop
  | atEnd {offset : ℕ} (h : headerAt data offset = .missing) : WholeBlocks data offset
  | none {offset length : ℕ} (h : headerAt data offset = .complete binaryBlockNone length) :
      WholeBlocks data offset
  | next {offset length : ℕ} {type : UInt8} (h : headerAt data offset = .complete type length)
      (hbody : offset + 3 + length ≤ data.length) (hrest : WholeBlocks data (offset + 3 + length)) :
      WholeBlocks data offset

theorem WholeBlocks.of_complete {data : List UInt8} {offset length : ℕ} {type : UInt8}
    (hwhole : WholeBlocks data offset) (h : headerAt data offset = .complete type length)
    (hnone : type ≠ binaryBlockNone) :
    offset + 3 + length ≤ data.length ∧ WholeBlocks data (offset + 3 + length) := by
  cases hwhole with
  | atEnd h' =>
      rw [h] at h'
      cases h'
  | none h' =>
      rw [h] at h'
      cases h'
      exact absurd rfl hnone
  | next h' hbody hrest =>
      rw [h] at h'
      cases h'
      exact ⟨hbody, hrest⟩

theorem WholeBlocks.not_cut {data : List UInt8} {offset : ℕ} (hwhole : WholeBlocks data offset)
    (type : UInt8) : headerAt data offset ≠ .cut type := by
  intro hcut
  cases hwhole with
  | atEnd h =>
      rw [hcut] at h
      cases h
  | none h =>
      rw [hcut] at h
      cases h
  | next h _ _ =>
      rw [hcut] at h
      cases h

namespace BinaryFileParser

variable {data : List UInt8} {blockType : ℕ}

/-- The outcome of a search for a type, against the body that the bytes tell from an offset
on: the parser stands on the block, which may be cut, or there is none. -/
inductive Search (source : BinarySource) (data : List UInt8) (blockType offset : ℕ) :
    EStateM.Result SbError BinaryFileParser Unit → Prop
  | found {q : BinaryFileParser} (hsource : q.source = source) (hdata : q.data = data)
      (hvalid : q.isCurrentBlockValid) (hstart : q.currentBlock.startOfBody ≤ data.length)
      (hbody : ∀ body, FirstBody data blockType offset body ↔ q.nextOffset ≤ data.length ∧
        body = (data.drop q.currentBlock.startOfBody).take q.currentBlock.length)
      (hwhole : WholeBlocks data offset → q.nextOffset ≤ data.length) :
      Search source data blockType offset (.ok () q)
  | notFound {e : SbError} {q : BinaryFileParser}
      (hnone : ∀ body, ¬ FirstBody data blockType offset body)
      (hwhole : WholeBlocks data offset → e = .enoent) :
      Search source data blockType offset (.error e q)

/-- A block of another type is passed. -/
theorem Search.of_next {source : BinarySource} {offset length : ℕ} {type : UInt8}
    {r : EStateM.Result SbError BinaryFileParser Unit}
    (h : headerAt data offset = .complete type length) (hnone : type ≠ binaryBlockNone)
    (hother : type.toNat ≠ blockType)
    (hsearch : Search source data blockType (offset + 3 + length) r) :
    Search source data blockType offset r := by
  have hiff : ∀ body, FirstBody data blockType offset body ↔
      FirstBody data blockType (offset + 3 + length) body :=
    fun _ => FirstBody.iff_next h hnone hother
  cases hsearch with
  | found hsource hdata hvalid hstart hbody hwhole =>
      exact .found hsource hdata hvalid hstart (fun body => (hiff body).trans (hbody body))
        fun hall => hwhole (hall.of_complete h hnone).2
  | notFound hnot hwhole =>
      exact .notFound (fun body hfirst => hnot body ((hiff body).1 hfirst))
        fun hall => hwhole (hall.of_complete h hnone).2

/-- **The search from an offset on**, from memory or from a descriptor: by induction on the data
that is left. A descriptor goes past the end when a body is cut, and finds nothing there. -/
theorem search_from (htype : blockType ≠ 0) {p : BinaryFileParser} (hp : p.CanBeAt p.offset) :
    Search p.source p.data blockType p.offset
      ((do readNextBlockHeader; findLoop blockType : Action Unit).run p) := by
  induction hn : p.data.length - p.offset using Nat.strongRecOn generalizing p with
  | _ n ih =>
      have hread := run_readNextBlockHeader hp
      cases hheader : headerAt p.data p.offset with
      | missing =>
          rw [hheader] at hread
          rw [run_bind_of_ok hread, run_findLoop_invalid fun hvalid => hvalid rfl]
          refine .notFound (fun body hfirst => ?_) fun _ => rfl
          obtain ⟨type, length, h⟩ := hfirst.header
          rw [hheader] at h
          cases h
      | cut type =>
          rw [hheader] at hread
          rw [run_bind_of_error hread]
          refine .notFound (fun body hfirst => ?_) fun hall => absurd hheader (hall.not_cut type)
          obtain ⟨type, length, h⟩ := hfirst.header
          rw [hheader] at h
          cases h
      | complete type length =>
          rw [hheader] at hread
          dsimp only at hread
          rw [run_bind_of_ok hread]
          have hinside := headerAt_complete hheader
          by_cases hnone : type = binaryBlockNone
          · subst hnone
            rw [run_findLoop_invalid fun hvalid => hvalid rfl]
            exact .notFound (fun body => FirstBody.not_none hheader htype) fun _ => rfl
          · let q : BinaryFileParser :=
              { p with offset := p.offset + 3 }.withBlock ⟨type, length, p.offset + 3⟩
            have hvalid : q.isCurrentBlockValid := hnone
            change Search _ _ _ _ ((findLoop blockType).run q)
            by_cases hfound : type.toNat = blockType
            · rw [run_findLoop_found hvalid hfound]
              exact .found rfl rfl hvalid hinside
                (fun body => FirstBody.iff_found hheader hfound)
                fun hall => (hall.of_complete hheader hnone).1
            · rw [run_findLoop_other hvalid hfound]
              by_cases hcan : q.CanBeAt (q.currentBlock.startOfBody + q.currentBlock.length)
              · rw [EStateM.run_bind, run_seekToNextBlock hvalid hcan, ← EStateM.run_bind]
                let p' : BinaryFileParser := { q with offset := p.offset + 3 + length }
                have hless : p'.data.length - p'.offset < n := by
                  subst hn
                  change p.data.length - (p.offset + 3 + length) < p.data.length - p.offset
                  omega
                exact (ih _ hless (p := p') hcan rfl).of_next hheader hnone hfound
              · rw [run_bind_of_error (run_seekToNextBlock_outside hcan)]
                refine .notFound (fun body hfirst => hcan fun _ => ?_) fun hall =>
                  absurd (fun _ => (hall.of_complete hheader hnone).1) hcan
                obtain ⟨type', length', h⟩ :=
                  ((FirstBody.iff_next hheader hnone hfound).1 hfirst).header
                exact Nat.le_of_add_right_le (headerAt_complete h)

/-- **The search**, on a parser that can go to the first block. -/
theorem findFirstBlockByType_search (htype : blockType ≠ 0) {p : BinaryFileParser}
    (hp : p.CanBeAt p.startOfFirstBlock) :
    Search p.source p.data blockType p.startOfFirstBlock
      ((findFirstBlockByType blockType).run p) := by
  rw [findFirstBlockByType, EStateM.run_bind, run_rewind hp, ← EStateM.run_bind]
  exact search_from htype (p := { p with offset := p.startOfFirstBlock }) hp

/-- A body that is cut is not read, from memory or from a descriptor. -/
theorem exists_readCurrentBlock_error {p : BinaryFileParser}
    (hstart : p.currentBlock.startOfBody ≤ p.data.length)
    (hcut : p.data.length < p.nextOffset) : ∃ q, readCurrentBlock.run p = .error .eread q := by
  by_cases hvalid : p.isCurrentBlockValid
  · let p' : BinaryFileParser := { p with offset := p.currentBlock.startOfBody }
    have hinside : p'.CanBeAt p'.offset := fun _ => hstart
    have hshort : (p'.bytesAhead p.currentBlock.length).length ≠ p.currentBlock.length := by
      have hend : p.data.length < p.currentBlock.startOfBody + p.currentBlock.length := hcut
      have hlength : (p'.bytesAhead p.currentBlock.length).length =
          min p.currentBlock.length (p.data.length - p.currentBlock.startOfBody) :=
        p'.length_bytesAhead _
      omega
    rw [readCurrentBlock, run_get_bind, run_bind_of_ok (run_failIf (not_not_intro hvalid) _ p),
      run_bind_of_ok (run_seek fun _ => hstart), run_bind_of_ok (run_read hinside _)]
    exact ⟨_, run_bind_of_error (run_failIf_of hshort _ _) _⟩
  · exact ⟨p, run_readCurrentBlock_invalid hvalid⟩

/-- What is read of a body is complete. -/
theorem length_readCurrentBlock {p q : BinaryFileParser} {bytes : List UInt8}
    (h : readCurrentBlock.run p = .ok bytes q) : bytes.length = p.currentBlock.length := by
  by_cases hvalid : p.isCurrentBlockValid
  · rw [readCurrentBlock, run_get_bind,
      run_bind_of_ok (run_failIf (not_not_intro hvalid) _ p)] at h
    by_cases hinside : p.CanBeAt p.currentBlock.startOfBody
    · let p' : BinaryFileParser := { p with offset := p.currentBlock.startOfBody }
      have hinside' : p'.CanBeAt p'.offset := hinside
      rw [run_bind_of_ok (run_seek hinside), run_bind_of_ok (run_read hinside' _)] at h
      by_cases hlength : (p'.bytesAhead p.currentBlock.length).length ≠ p.currentBlock.length
      · rw [run_bind_of_error (run_failIf_of hlength _ _)] at h
        cases h
      · rw [run_bind_of_ok (run_failIf hlength _ _)] at h
        cases h
        exact not_not.1 hlength
    · rw [run_bind_of_error (run_seek_outside hinside)] at h
      cases h
  · rw [run_readCurrentBlock_invalid hvalid] at h
    cases h

end BinaryFileParser

/-- Where the header of a file ends. -/
theorem HasHeader.unique {data : List UInt8} {n n' : ℕ} (h : HasHeader data n)
    (h' : HasHeader data n') : n = n' := by
  cases h with
  | versionOne hdata =>
      cases h' with
      | versionOne _ => rfl
      | noChecksum hdata' _ =>
          rw [hdata] at hdata'
          cases hdata'
      | checksum hdata' _ _ =>
          rw [hdata] at hdata'
          cases hdata'
  | noChecksum hdata hfeatures =>
      cases h' with
      | versionOne hdata' =>
          rw [hdata] at hdata'
          cases hdata'
      | noChecksum _ _ => rfl
      | checksum hdata' hfeatures' _ =>
          rw [hdata] at hdata'
          cases hdata'
          exact absurd hfeatures hfeatures'
  | checksum hdata hfeatures _ =>
      cases h' with
      | versionOne hdata' =>
          rw [hdata] at hdata'
          cases hdata'
      | noChecksum hdata' hfeatures' =>
          rw [hdata] at hdata'
          cases hdata'
          exact absurd hfeatures' hfeatures
      | checksum _ _ _ => rfl

namespace ObjectKind

open Heap (Routine)
open Heap.Routine (lift contents store free allocate)

variable {τ : Type} {K : ObjectKind τ}

/-! ### The memory that loading needs -/

/-- The object on a block that is full. -/
theorem initOwned_of_block {h : Heap UInt8} {buf : ℕ} {bytes : List UInt8}
    (hblock : h.block buf = some bytes) :
    K.initOwned buf bytes.length h =
      match K.fieldsFrom bytes with
      | ok fields => ok (⟨some buf, bytes.length, true, fields⟩, h)
      | error e => error (e, h)
      | fault => fault
      | outOfFuel => outOfFuel := by
  have hempty : (K.rejectsEmpty = true ∧ bytes.length = 0) ↔ K.rejectsEmpty = true ∧ bytes = [] :=
    and_congr_right fun _ => List.length_eq_zero_iff
  rw [initOwned, fieldsFrom]
  by_cases hrejected : K.rejectsEmpty = true ∧ bytes = []
  · rw [if_pos hrejected, if_pos (hempty.2 hrejected)]
    rfl
  · rw [if_neg hrejected, if_neg (mt hempty.1 hrejected), Heap.Routine.bind_apply, initFromBuffer,
      Heap.Routine.bind_of_ok (Heap.Routine.contents_of_block hblock), List.take_length,
      Heap.Routine.bind_apply]
    cases K.parseFields bytes <;> rfl

/-- A block that is written as soon as it is handed out. -/
theorem put_push (h : Heap UInt8) (old bytes : List UInt8) :
    (h.push old).put h.next (some bytes) = h.push bytes := by
  rw [Heap.put, Heap.push, Heap.push, Heap.next, List.set_append_right _ _ (Nat.le_refl _),
    Nat.sub_self]
  rfl

/-- If something fails, the block is freed. -/
theorem freeOnError_of_error {buf : ℕ} {p : Routine SbError UInt8 (MemoryObject τ)}
    {h h' : Heap UInt8} {e : SbError} (hp : p h = error (e, h')) (hlive : h'.Live buf) :
    freeOnError buf p h = error (e, h'.put buf none) := by
  rw [freeOnError, hp]
  exact Heap.Routine.bind_of_ok (Heap.Routine.free_of_live hlive) _

/-- A program over a heap that gives a value without memory: an object on one more block, or
an error that leaves all blocks as they were. -/
def Allocates (h : Heap UInt8) (outcome : Checked SbError (τ × List UInt8))
    (r : Checked (SbError × Heap UInt8) (MemoryObject τ × Heap UInt8)) : Prop :=
  match outcome with
  | ok (fields, bytes) => r = ok (⟨some h.next, bytes.length, true, fields⟩, h.push bytes)
  | error e => ∃ h', h.Same h' ∧ r = error (e, h')
  | fault => r = fault
  | outOfFuel => r = outOfFuel

/-- **What becomes of a block** that was handed out for the body: it is kept by the object, or
freed. -/
theorem allocates_freeOnError (q : BinaryFileParser) (h : Heap UInt8) :
    Allocates h
      (match readCurrentBlock.run q with
        | .error e _ => error e
        | .ok bytes _ => K.fieldsAndBytes bytes)
      (freeOnError h.next (K.fillAndInit q h.next)
        (h.push (List.replicate q.currentBlock.length 0))) := by
  have hfresh := Heap.block_push_self h (List.replicate q.currentBlock.length (0 : UInt8))
  have hlive : ∀ bytes : List UInt8, (h.push bytes).Live h.next := fun bytes =>
    Heap.live_iff.2 ⟨_, Heap.block_push_self h bytes⟩
  cases hread : readCurrentBlock.run q with
  | error e r =>
      have hfill : K.fillAndInit q h.next (h.push (List.replicate q.currentBlock.length 0)) =
          error (e, h.push (List.replicate q.currentBlock.length 0)) := by
        rw [fillAndInit, hread]
        rfl
      exact ⟨_, h.same_put_push _, freeOnError_of_error hfill (hlive _)⟩
  | ok bytes r =>
      have hlength := length_readCurrentBlock hread
      have hstore : (store h.next bytes : Routine SbError UInt8 Unit)
          (h.push (List.replicate q.currentBlock.length 0)) = ok ((), h.push bytes) := by
        rw [Heap.Routine.store_of_block hfresh (by rw [hlength, List.length_replicate]), put_push]
      have hfill : K.fillAndInit q h.next (h.push (List.replicate q.currentBlock.length 0)) =
          K.initOwned h.next bytes.length (h.push bytes) := by
        rw [fillAndInit, hread, hlength]
        exact Heap.Routine.bind_of_ok hstore _
      rw [initOwned_of_block (Heap.block_push_self h bytes)] at hfill
      dsimp only
      rw [fieldsAndBytes]
      cases hfields : K.fieldsFrom bytes with
      | ok fields =>
          rw [hfields] at hfill
          rw [freeOnError, hfill]
          rfl
      | error e =>
          rw [hfields] at hfill
          exact ⟨_, h.same_put_push bytes, freeOnError_of_error hfill (hlive bytes)⟩
      | fault =>
          rw [hfields] at hfill
          rw [freeOnError, hfill]
          rfl
      | outOfFuel =>
          rw [hfields] at hfill
          rw [freeOnError, hfill]
          rfl

/-- **Loading with memory** does what loading does without memory. -/
theorem allocates_initFromBinaryFile (source : BinarySource) (data : List UInt8)
    (junk : BinaryFileParser) (granted : Bool) (h : Heap UInt8) :
    Allocates h (K.load source data junk granted)
      (K.initFromBinaryFile source data junk granted h) := by
  rw [load, initFromBinaryFile]
  cases init source data junk with
  | error e p => exact ⟨h, .refl h, rfl⟩
  | ok u p =>
      dsimp only
      rw [initFromParser]
      cases (findFirstBlockByType K.blockType).run p with
      | error e q => exact ⟨h, .refl h, rfl⟩
      | ok u q =>
          dsimp only
          rw [Heap.Routine.bind_apply, allocate]
          cases granted with
          | false => exact ⟨h, .refl h, rfl⟩
          | true => exact allocates_freeOnError q h

/-! ### What is loaded -/

/-- Everything that can come of loading: there is no complete block of the type, the memory
is refused, or the object is set up from the body of the first one. -/
inductive Loads (K : ObjectKind τ) (data : List UInt8) (granted : Bool) :
    Checked SbError (τ × List UInt8) → Prop
  | noBody {e : SbError}
      (hnone : ∀ n body, HasHeader data n → ¬ FirstBody data K.blockType n body)
      (hwhole : ∀ n, HasHeader data n → WholeBlocks data n → granted = true → e = .enoent) :
      Loads K data granted (error e)
  | refused {n : ℕ} {body : List UInt8} (hheader : HasHeader data n)
      (hfirst : FirstBody data K.blockType n body) (hgranted : granted = false) :
      Loads K data granted (error .enomem)
  | body {n : ℕ} {body : List UInt8} (hheader : HasHeader data n)
      (hfirst : FirstBody data K.blockType n body) (hgranted : granted = true) :
      Loads K data granted (K.fieldsAndBytes body)

/-- **Everything that can come of loading** from a file, read from memory or by a descriptor. -/
theorem loads_load (htype : K.blockType ≠ 0) (source : BinarySource) (data : List UInt8)
    (junk : BinaryFileParser) (granted : Bool) :
    Loads K data granted (K.load source data junk granted) := by
  rw [load]
  by_cases hheader : ∃ n, HasHeader data n
  · obtain ⟨n, hheader⟩ := hheader
    obtain ⟨version, features, hinit⟩ := init_firstBlock hheader
    have hinside := (init_of_hasHeader hheader).1
    have hopened : ∀ p : BinaryFileParser, p.data = data → p.startOfFirstBlock = n →
        Loads K data granted
          (match (findFirstBlockByType K.blockType).run p with
          | .error e _ => error e
          | .ok _ parser =>
              if granted then
                match readCurrentBlock.run parser with
                | .error e _ => error e
                | .ok bytes _ => K.fieldsAndBytes bytes
              else
                error .enomem) := by
      rintro p rfl rfl
      have hsearch := findFirstBlockByType_search htype (p := p) fun _ => hinside
      generalize (findFirstBlockByType K.blockType).run p = r at hsearch ⊢
      cases hsearch with
      | @notFound e q hnone hwhole =>
          refine .noBody (fun n body hheader' => ?_) fun n hheader' hall _ => ?_
          · obtain rfl := hheader.unique hheader'
            exact hnone body
          · obtain rfl := hheader.unique hheader'
            exact hwhole hall
      | @found q hsource hdata hvalid hstart hbody hwhole =>
          dsimp only
          rcases Nat.lt_or_ge p.data.length q.nextOffset with hcut | hinside
          · have hnone : ∀ n body, HasHeader p.data n → ¬ FirstBody p.data K.blockType n body := by
              intro n body hheader' hfirst
              obtain rfl := hheader.unique hheader'
              exact absurd ((hbody body).1 hfirst).1 (Nat.not_le.2 hcut)
            obtain ⟨r, hread⟩ := exists_readCurrentBlock_error (hdata ▸ hstart) (hdata ▸ hcut)
            have hnotWhole : ∀ n, HasHeader p.data n → ¬ WholeBlocks p.data n := by
              intro n hheader' hall
              obtain rfl := hheader.unique hheader'
              exact absurd (hwhole hall) (Nat.not_le.2 hcut)
            rw [hread]
            cases granted with
            | false => exact .noBody hnone fun n hheader' hall => absurd hall (hnotWhole n hheader')
            | true => exact .noBody hnone fun n hheader' hall => absurd hall (hnotWhole n hheader')
          · have hfirst := (hbody _).2 ⟨hinside, rfl⟩
            have hread := run_readCurrentBlock hvalid (hdata ▸ hinside)
            rw [hdata] at hread
            rw [hread]
            cases granted with
            | false => exact .refused hheader hfirst rfl
            | true => exact .body hheader hfirst rfl
    rw [hinit]
    cases hfirst : headerAt data n with
    | missing => exact hopened _ rfl rfl
    | cut type =>
        refine .noBody (fun n' body hheader' hbody => ?_) fun n' hheader' hall _ => ?_
        · obtain rfl := hheader.unique hheader'
          obtain ⟨type', length, hcomplete⟩ := hbody.header
          rw [hfirst] at hcomplete
          cases hcomplete
        · obtain rfl := hheader.unique hheader'
          exact absurd hfirst (hall.not_cut type)
    | complete type length => exact hopened _ rfl rfl
  · obtain ⟨e, hinit⟩ := init_of_noHeader (not_exists.1 hheader)
    obtain ⟨p, hp⟩ := hinit source junk
    rw [hp]
    exact .noBody (fun n body hheader' => absurd ⟨n, hheader'⟩ hheader)
      fun n hheader' => absurd ⟨n, hheader'⟩ hheader

/-- **The first complete block of the type decides.** Without one nothing is loaded, and all blocks
of memory are as they were. -/
theorem initFromBinaryFile_cases (htype : K.blockType ≠ 0) (source : BinarySource)
    (data : List UInt8) (junk : BinaryFileParser) (granted : Bool) (h : Heap UInt8) :
    ((granted = true → ∀ n body, HasHeader data n → ¬ FirstBody data K.blockType n body) ∧
      ∃ e h', h.Same h' ∧ K.initFromBinaryFile source data junk granted h = error (e, h') ∧
        (granted = true → ∀ n, HasHeader data n → WholeBlocks data n → e = .enoent)) ∨
    granted = true ∧ ∃ n body, HasHeader data n ∧ FirstBody data K.blockType n body ∧
      Allocates h (K.fieldsAndBytes body) (K.initFromBinaryFile source data junk granted h) := by
  have hallocates := allocates_initFromBinaryFile (K := K) source data junk granted h
  have hloads := loads_load htype source data junk granted
  generalize K.load source data junk granted = r at hallocates hloads
  cases hloads with
  | @noBody e hnone hwhole =>
      obtain ⟨h', hsame, herror⟩ := hallocates
      exact .inl ⟨fun _ => hnone, e, h', hsame, herror,
        fun hgranted n hheader hall => hwhole n hheader hall hgranted⟩
  | refused _ _ hgranted =>
      obtain ⟨h', hsame, herror⟩ := hallocates
      have hnot : granted ≠ true := Bool.eq_false_iff.1 hgranted
      exact .inl ⟨fun h => absurd h hnot, _, h', hsame, herror, fun h => absurd h hnot⟩
  | body hheader hfirst hgranted => exact .inr ⟨hgranted, _, _, hheader, hfirst, hallocates⟩

/-- The value of an object, with the bytes that are in its memory now. -/
def value (K : ObjectKind τ) (h : Heap UInt8) (object : MemoryObject τ) : τ :=
  K.withBytes object.fields
    (((object.buffer.bind h.block).getD []).take object.bufferLength)

theorem value_of_block {h : Heap UInt8} {buf : ℕ} {bytes : List UInt8} {owner : Bool} {fields : τ}
    (hblock : h.block buf = some bytes) :
    K.value h ⟨some buf, bytes.length, owner, fields⟩ = K.withBytes fields bytes := by
  rw [value, Option.bind_some, hblock, Option.getD_some, List.take_length]

/-- The other fields are in the first bytes, and nothing is checked. -/
structure HeaderSize (K : ObjectKind τ) (size : ℕ) : Prop where
  ok_of_le : ∀ bytes : List UInt8, size ≤ bytes.length → ∃ fields, K.parseFields bytes = ok fields
  fault_of_lt : ∀ bytes : List UInt8, bytes.length < size → K.parseFields bytes = fault

/-- A parser that needs a number of bytes at the start. -/
theorem headerSize_of_needs {α : Type} {p : Parser SbError UInt8 α} {size : ℕ} (h : p.Needs size)
    {f : List UInt8 → α × ℕ → τ}
    (hparse : ∀ bytes, K.parseFields bytes = p bytes 0 >>= fun r => ok (f bytes r)) :
    K.HeaderSize size := by
  refine ⟨fun bytes hle => ?_, fun bytes hlt => ?_⟩
  · obtain ⟨a, ha⟩ := (h bytes 0 (Nat.zero_le _)).1 (by omega)
    exact ⟨f bytes (a, 0 + size), by rw [hparse, ha, ok_bind]⟩
  · rw [hparse, (h bytes 0 (Nat.zero_le _)).2 (by omega), fault_bind]

/-- A block is too short for the fields, and is not rejected for that. -/
theorem fieldsFrom_eq_fault_iff {size : ℕ} (hsize : K.HeaderSize size) (bytes : List UInt8) :
    K.fieldsFrom bytes = fault ↔
      bytes.length < size ∧ ¬ (K.rejectsEmpty = true ∧ bytes = []) := by
  rw [fieldsFrom]
  split
  case isTrue hrejected =>
    constructor
    · rintro ⟨⟩
    · exact fun h => absurd hrejected h.2
  case isFalse haccepted =>
    constructor
    · intro hfault
      refine ⟨Nat.lt_of_not_le fun hle => ?_, haccepted⟩
      obtain ⟨fields, hfields⟩ := hsize.ok_of_le bytes hle
      rw [hfields] at hfault
      cases hfault
    · exact fun h => hsize.fault_of_lt bytes h.1

end ObjectKind

/-! ### The four kinds -/

/-- The kinds of objects that can be loaded. -/
inductive Kind where
  | trajectory
  | lightProgram
  | rthPlan
  | yawControl
  deriving DecidableEq, Repr

namespace Kind

/-- The values of a kind. -/
abbrev Value : Kind → Type
  | trajectory => Trajectory
  | lightProgram => LightProgram
  | rthPlan => RthPlan
  | yawControl => YawControl

/-- What the kinds differ in. -/
def spec (F : Rounding) : (kind : Kind) → ObjectKind kind.Value
  | trajectory => Trajectory.kind F
  | lightProgram => LightProgram.kind
  | rthPlan => RthPlan.kind
  | yawControl => YawControl.kind

/-- The number of bytes that are read when an object is set up. -/
def headerSize : Kind → ℕ
  | trajectory => 9
  | lightProgram => 0
  | rthPlan => 3
  | yawControl => 3

theorem blockType_ne (F : Rounding) (kind : Kind) : (kind.spec F).blockType ≠ 0 := by
  cases kind <;> exact Nat.succ_ne_zero _

/-- Only trajectories reject a block without bytes. -/
theorem rejectsEmpty_spec (F : Rounding) (kind : Kind) :
    (kind.spec F).rejectsEmpty = decide (kind = .trajectory) := by
  cases kind <;> rfl

theorem headerSize_spec (F : Rounding) (kind : Kind) :
    (kind.spec F).HeaderSize kind.headerSize := by
  cases kind with
  | trajectory =>
      exact ObjectKind.headerSize_of_needs (Trajectory.needs_parseHeader F)
        (f := fun _ r => { r.1 with headerLength := r.2 }) fun _ => rfl
  | lightProgram => exact ⟨fun _ _ => ⟨_, rfl⟩, fun _ hlt => absurd hlt (Nat.not_lt_zero _)⟩
  | rthPlan =>
      have hneeds : RthPlan.parseHeader.Needs 3 :=
        Parser.needs_cell.bind fun _ => needs_parseUint16.bind_pure
      exact ObjectKind.headerSize_of_needs hneeds (f := fun _ r => ⟨[], r.1.1, r.2, r.1.2⟩)
        fun _ => rfl
  | yawControl =>
      exact ObjectKind.headerSize_of_needs YawControl.needs_parseHeader
        (f := fun bytes r =>
          ⟨[], r.2, YawControl.countDeltas bytes.length r.2, r.1.1, r.1.2⟩) fun _ => rfl

/-- The values are those that are set up from the bytes alone. -/
theorem initFromBytes_trajectory (F : Rounding) (bytes : List UInt8) :
    (spec F trajectory).initFromBytes bytes = Trajectory.initFromBytes F true bytes := by
  rw [ObjectKind.initFromBytes, ObjectKind.fieldsFrom, Trajectory.initFromBytes]
  change (if true = true ∧ bytes = [] then _ else _) >>= _ = _
  split
  · rfl
  · change (Trajectory.parseHeader F bytes 0 >>= _) >>= _ = _
    cases Trajectory.parseHeader F bytes 0 <;> rfl

theorem initFromBytes_lightProgram (F : Rounding) (bytes : List UInt8) :
    (spec F lightProgram).initFromBytes bytes =
      Checked.lift (LightProgram.initFromBuffer bytes) := rfl

theorem initFromBytes_rthPlan (F : Rounding) (bytes : List UInt8) :
    (spec F rthPlan).initFromBytes bytes = RthPlan.initFromBuffer bytes := by
  change (RthPlan.parseHeader bytes 0 >>= _) >>= _ = _
  rw [RthPlan.initFromBuffer]
  cases RthPlan.parseHeader bytes 0 <;> rfl

theorem initFromBytes_yawControl (F : Rounding) (bytes : List UInt8) :
    (spec F yawControl).initFromBytes bytes = YawControl.initFromBuffer bytes := by
  change (YawControl.parseHeader bytes 0 >>= _) >>= _ = _
  rw [YawControl.initFromBuffer]
  cases YawControl.parseHeader bytes 0 <;> rfl

/-- `sb_trajectory_init_from_binary_file`, `sb_light_program_init_from_binary_file`,
`sb_rth_plan_init_from_binary_file` and `sb_yaw_control_init_from_binary_file`, and their
variants for memory. -/
def initFromBinaryFile (F : Rounding) (kind : Kind) (source : BinarySource) (data : List UInt8)
    (junk : BinaryFileParser) (granted : Bool) :
    Heap.Routine SbError UInt8 (MemoryObject kind.Value) :=
  (kind.spec F).initFromBinaryFile source data junk granted

end Kind

/-- **What is loaded**, from memory and by a descriptor alike: exactly if the memory can be had,
the file has a header, and there is a first complete block of the type from which the value
can be set up, an object with this value; it owns one more block, with the body. -/
theorem load_ok_iff (F : Rounding) (kind : Kind) (source : BinarySource) (data : List UInt8)
    (junk : BinaryFileParser) (granted : Bool) (h h' : Heap UInt8) (value : kind.Value) :
    (∃ object, kind.initFromBinaryFile F source data junk granted h = ok (object, h') ∧
      object.buffer = some h.next ∧ object.owner = true ∧
      (kind.spec F).value h' object = value) ↔
    granted = true ∧ ∃ n body, HasHeader data n ∧ FirstBody data (kind.spec F).blockType n body ∧
      (kind.spec F).initFromBytes body = ok value ∧ h' = h.push body := by
  rw [Kind.initFromBinaryFile]
  rcases ObjectKind.initFromBinaryFile_cases (kind.blockType_ne F) source data junk granted h with
    ⟨hnone, e, h'', -, herror, -⟩ | ⟨rfl, n, body, hheader, hfirst, hallocates⟩
  · rw [herror]
    constructor
    · rintro ⟨object, ⟨⟩, -⟩
    · rintro ⟨hgranted, n, body, hheader, hfirst, -⟩
      exact absurd hfirst (hnone hgranted n body hheader)
  · generalize (kind.spec F).initFromBinaryFile source data junk true h = r at hallocates ⊢
    rw [ObjectKind.fieldsAndBytes] at hallocates
    constructor
    · rintro ⟨object, rfl, -, -, rfl⟩
      refine ⟨rfl, n, body, hheader, hfirst, ?_⟩
      rw [ObjectKind.initFromBytes]
      cases hfields : (kind.spec F).fieldsFrom body with
      | ok fields =>
          rw [hfields] at hallocates
          obtain ⟨rfl, rfl⟩ := Prod.mk.inj (Checked.ok.inj hallocates)
          rw [ObjectKind.value_of_block (h.block_push_self body)]
          exact ⟨rfl, rfl⟩
      | error e =>
          rw [hfields] at hallocates
          obtain ⟨h'', -, ⟨⟩⟩ := hallocates
      | fault =>
          rw [hfields] at hallocates
          cases hallocates
      | outOfFuel =>
          rw [hfields] at hallocates
          cases hallocates
    · rintro ⟨-, n', body', hheader', hfirst', hinit, rfl⟩
      obtain rfl := hheader.unique hheader'
      obtain rfl := hfirst.unique hfirst'
      obtain ⟨fields, hfields, hvalue⟩ := bind_eq_ok.1 hinit
      cases hvalue
      rw [hfields] at hallocates
      exact ⟨_, hallocates, rfl, rfl, ObjectKind.value_of_block (h.block_push_self body)⟩

/-- **Loading leaves the memory exactly if the first complete block of the type is too short** for
the fields that are read from it without a check, and there is memory for it. Only
trajectories reject a block without bytes. -/
theorem load_fault_iff (F : Rounding) (kind : Kind) (source : BinarySource) (data : List UInt8)
    (junk : BinaryFileParser) (granted : Bool) (h : Heap UInt8) :
    kind.initFromBinaryFile F source data junk granted h = fault ↔
      granted = true ∧ ∃ n body, HasHeader data n ∧
        FirstBody data (kind.spec F).blockType n body ∧ body.length < kind.headerSize ∧
        ¬ (kind = .trajectory ∧ body = []) := by
  rw [Kind.initFromBinaryFile]
  rcases ObjectKind.initFromBinaryFile_cases (kind.blockType_ne F) source data junk granted h with
    ⟨hnone, e, h', -, herror, -⟩ | ⟨rfl, n, body, hheader, hfirst, hallocates⟩
  · rw [herror]
    constructor
    · rintro ⟨⟩
    · rintro ⟨hgranted, n, body, hheader, hfirst, -⟩
      exact absurd hfirst (hnone hgranted n body hheader)
  · have hiff := ObjectKind.fieldsFrom_eq_fault_iff (kind.headerSize_spec F) body
    rw [Kind.rejectsEmpty_spec, decide_eq_true_eq] at hiff
    constructor
    · intro hfault
      refine ⟨rfl, n, body, hheader, hfirst, hiff.1 ?_⟩
      rw [hfault, ObjectKind.fieldsAndBytes] at hallocates
      cases hfields : (kind.spec F).fieldsFrom body with
      | ok fields =>
          rw [hfields] at hallocates
          cases hallocates
      | error e =>
          rw [hfields] at hallocates
          obtain ⟨h', -, ⟨⟩⟩ := hallocates
      | fault => rfl
      | outOfFuel =>
          rw [hfields] at hallocates
          cases hallocates
    · rintro ⟨-, n', body', hheader', hfirst', hshort⟩
      obtain rfl := hheader.unique hheader'
      obtain rfl := hfirst.unique hfirst'
      rw [ObjectKind.fieldsAndBytes, hiff.2 hshort] at hallocates
      exact hallocates

end Skybrush
