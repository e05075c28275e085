import Skybrush.Loading

/-!
# Who Owns the Memory

A client of the library loads objects, makes empty ones and views of its own buffers, hands a
buffer over to a trajectory, and destroys what it has made, in any order. Every object knows
whether it has to free its memory, and nothing else in the library keeps track of it.

What a client may do is told without any memory, by a shelf of values (`Shelf.Step`): a place
is filled only when it is free, a buffer is released only when no object is a view of it. A client
that keeps to this never frees a block twice, never touches one that was freed, and what it
reads off its objects are the values on the shelf; every block that was not freed has exactly
one owner, so nothing is left when everything has been destroyed. Destroying a trajectory
that is a view fills the buffer of the client with zeros.

## Main results

* `represents_step`: one operation, on the shelf and with memory.
* `client_refines`: all operations, and that nothing is left when everything was destroyed.
-/

namespace Skybrush

open Checked
open Heap (Routine)
open Heap.Routine (contents store free allocate)

/-! ### Making and destroying objects -/

/-- `free`, which does nothing to a null pointer. -/
def freePointer (pointer : Option ℕ) : Routine SbError UInt8 Unit :=
  match pointer with
  | none => pure ()
  | some id => free id

section Objects

variable {τ : Type}

/-- An object without memory. -/
def nullObject (fields : τ) : MemoryObject τ :=
  { buffer := none, bufferLength := 0, owner := false, fields := fields }

/-- Destroy an object: its memory is freed if it owns it. The other fields are those of an empty
object. -/
def destroyObject (fields : τ) (object : MemoryObject τ) :
    Routine SbError UInt8 (MemoryObject τ) := do
  if object.owner then
    freePointer object.buffer
  pure (nullObject fields)

end Objects

/-- The fields of an empty trajectory. -/
def Trajectory.emptyFields : Trajectory :=
  { buffer := [], start := ⟨0, 0, 0, 0⟩, scale := 1, useYaw := false, headerLength := 0 }

/-- `sb_trajectory_init_empty`, with a block of one byte from `sb_buffer_init`. -/
def Trajectory.initEmpty (granted : Bool) : Routine SbError UInt8 (MemoryObject Trajectory) := do
  match ← allocate granted [0] with
  | none => Routine.throw .enomem
  | some buf =>
      pure { buffer := some buf, bufferLength := 0, owner := true, fields := emptyFields }

/-- `sb_buffer_fill` with zeros. -/
def fillWithZeros (pointer : Option ℕ) (nbytes : ℕ) : Routine SbError UInt8 Unit :=
  match pointer with
  | none => fun _ => fault
  | some id => store id (List.replicate nbytes 0)

/-- `sb_trajectory_clear`: the bytes of a view are overwritten, and its scale is zero. -/
def Trajectory.clear (object : MemoryObject Trajectory) :
    Routine SbError UInt8 (MemoryObject Trajectory) :=
  if object.owner then
    pure { object with bufferLength := 0, fields := emptyFields }
  else do
    fillWithZeros object.buffer object.bufferLength
    pure { object with fields := { emptyFields with scale := 0 } }

/-- `sb_trajectory_destroy`, with `sb_buffer_destroy`. -/
def Trajectory.destroy (object : MemoryObject Trajectory) :
    Routine SbError UInt8 (MemoryObject Trajectory) := do
  let object ← Trajectory.clear object
  if object.owner then do
    freePointer object.buffer
    pure { object with buffer := none, bufferLength := 0 }
  else
    pure { object with bufferLength := 0 }

/-- The fields of an empty light program. -/
def LightProgram.emptyFields : LightProgram := { buffer := [], bufferLength := 0 }

/-- `sb_light_program_init_empty`. -/
def LightProgram.initEmpty : MemoryObject LightProgram := nullObject emptyFields

/-- `sb_light_program_destroy` and `sb_light_program_clear`. -/
def LightProgram.destroy : MemoryObject LightProgram → Routine SbError UInt8
    (MemoryObject LightProgram) :=
  destroyObject emptyFields

/-- `sb_rth_plan_destroy`. -/
def RthPlan.destroy : MemoryObject RthPlan → Routine SbError UInt8 (MemoryObject RthPlan) :=
  destroyObject RthPlan.initEmpty

/-- The fields of an empty yaw control. -/
def YawControl.emptyFields : YawControl :=
  { buffer := [], headerLength := 0, numDeltas := 0, autoYaw := false, yawOffsetDdeg := 0 }

/-- `sb_yaw_control_init_empty`. -/
def YawControl.initEmpty : MemoryObject YawControl := nullObject emptyFields

/-- `sb_yaw_control_destroy`. -/
def YawControl.destroy : MemoryObject YawControl → Routine SbError UInt8
    (MemoryObject YawControl) :=
  destroyObject emptyFields

namespace Kind

/-- The value of an empty object. -/
def emptyValue : (kind : Kind) → kind.Value
  | trajectory => Trajectory.emptyFields
  | lightProgram => LightProgram.emptyFields
  | rthPlan => RthPlan.initEmpty
  | yawControl => YawControl.emptyFields

/-- An empty object. Only trajectories ask for memory. -/
def initEmpty (granted : Bool) : (kind : Kind) → Routine SbError UInt8 (MemoryObject kind.Value)
  | trajectory => Trajectory.initEmpty granted
  | lightProgram => pure LightProgram.initEmpty
  | rthPlan => pure (nullObject RthPlan.initEmpty)
  | yawControl => pure YawControl.initEmpty

/-- Destroy an object. -/
def destroy : (kind : Kind) → MemoryObject kind.Value →
    Routine SbError UInt8 (MemoryObject kind.Value)
  | trajectory => Trajectory.destroy
  | lightProgram => LightProgram.destroy
  | rthPlan => RthPlan.destroy
  | yawControl => YawControl.destroy

end Kind

/-! ### A client -/

/-- An object of any kind. -/
abbrev AnyObject : Type := Σ kind : Kind, MemoryObject kind.Value

/-- A client: the memory, the objects in their places, and the client's own buffers. -/
structure Client where
  heap : Heap UInt8
  objects : ℕ → Option AnyObject
  buffers : ℕ → Option ℕ

/-- What a client does. Whether memory can be had is part of it, and what happens to be in a
parser. -/
inductive ClientOp where
  | newBuffer (name : ℕ) (bytes : List UInt8)
  | freeBuffer (name : ℕ)
  | initFromBinaryFile (place : ℕ) (kind : Kind) (source : BinarySource) (data : List UInt8)
      (junk : BinaryFileParser) (granted : Bool)
  | initFromBuffer (place : ℕ) (kind : Kind) (name : ℕ)
  | initFromBytes (place name : ℕ)
  | initEmpty (place : ℕ) (kind : Kind) (granted : Bool)
  | destroy (place : ℕ)

/-- What comes of an operation: the error code, or that there is none. -/
abbrev Status := Except SbError Unit

namespace Client

/-- A client that has not done anything. -/
def start : Client := ⟨Heap.empty, fun _ => none, fun _ => none⟩

/-- Put an object into a place, if it could be made. -/
def put (c : Client) (place : ℕ) (kind : Kind)
    (r : Checked (SbError × Heap UInt8) (MemoryObject kind.Value × Heap UInt8)) :
    Checked SbError (Status × Client) :=
  match r with
  | ok (object, heap) => ok (.ok (),
      { c with heap := heap, objects := Function.update c.objects place (some ⟨kind, object⟩) })
  | error (e, heap) => ok (.error e, { c with heap := heap })
  | fault => fault
  | outOfFuel => outOfFuel

/-- The number of bytes in a buffer of the client. -/
def bufferLength (c : Client) (id : ℕ) : ℕ := ((c.heap.block id).getD []).length

/-- One operation. A trajectory that owns the bytes of a buffer takes it from the client. -/
def step (F : Rounding) (c : Client) : ClientOp → Checked SbError (Status × Client)
  | .newBuffer name bytes => ok (.ok (),
      { c with
        heap := c.heap.push bytes
        buffers := Function.update c.buffers name (some c.heap.next) })
  | .freeBuffer name =>
      match freePointer (c.buffers name) c.heap with
      | ok (_, heap) => ok (.ok (),
          { c with heap := heap, buffers := Function.update c.buffers name none })
      | _ => fault
  | .initFromBinaryFile place kind source data junk granted =>
      c.put place kind (kind.initFromBinaryFile F source data junk granted c.heap)
  | .initFromBuffer place kind name =>
      match c.buffers name with
      | none => fault
      | some id => c.put place kind ((kind.spec F).initFromBuffer id (c.bufferLength id) c.heap)
  | .initFromBytes place name =>
      match c.buffers name with
      | none => fault
      | some id =>
          match (Kind.trajectory.spec F).initOwned id (c.bufferLength id) c.heap with
          | ok r => { c with buffers := Function.update c.buffers name none }.put place
              .trajectory (ok r)
          | r => c.put place .trajectory r
  | .initEmpty place kind granted => c.put place kind (kind.initEmpty granted c.heap)
  | .destroy place =>
      match c.objects place with
      | none => fault
      | some ⟨kind, object⟩ =>
          match kind.destroy object c.heap with
          | ok (_, heap) => ok (.ok (),
              { c with heap := heap, objects := Function.update c.objects place none })
          | _ => fault

/-- Some operations, with what comes of each. -/
def run (F : Rounding) (c : Client) : List ClientOp → Checked SbError (List Status × Client)
  | [] => ok ([], c)
  | op :: ops => do
      let (status, c) ← c.step F op
      let (statuses, c) ← c.run F ops
      pure (status :: statuses, c)

/-- The value in a place. -/
def value (F : Rounding) (c : Client) (place : ℕ) : Option (Σ kind : Kind, kind.Value) :=
  (c.objects place).map fun object => ⟨object.1, (object.1.spec F).value c.heap object.2⟩

/-- The block of memory that the object in a place has to free. -/
def held (object : Option AnyObject) : Option ℕ :=
  object.bind fun object => if object.2.owner then object.2.buffer else none

/-- Who holds a block of memory: the places, and the client for its buffers. -/
def holds (c : Client) : ℕ ⊕ ℕ → Option ℕ := Sum.elim (held ∘ c.objects) c.buffers

/-- What the places and the client hold, when a place is filled or cleared. -/
theorem holds_updateObject (c : Client) (heap : Heap UInt8) (place : ℕ)
    (object : Option AnyObject) :
    holds { c with heap := heap, objects := Function.update c.objects place object } =
      Function.update c.holds (.inl place) (held object) := by
  rw [holds, holds, Sum.update_elim_inl, Function.comp_update]

/-- What they hold, when one of the buffers is another. -/
theorem holds_updateBuffer (c : Client) (heap : Heap UInt8) (name : ℕ) (id : Option ℕ) :
    holds { c with heap := heap, buffers := Function.update c.buffers name id } =
      Function.update c.holds (.inr name) id := by
  rw [holds, holds, Sum.update_elim_inr]

end Client

/-! ### A shelf of values -/

/-- What is in a place: a value of its own, or a view of a buffer with the other fields. -/
inductive ShelfObject (kind : Kind) where
  | own (value : kind.Value)
  | view (fields : kind.Value) (name : ℕ)

/-- A shelf: values in their places, and buffers of bytes. -/
structure Shelf where
  objects : ℕ → Option (Σ kind : Kind, ShelfObject kind)
  buffers : ℕ → Option (List UInt8)

namespace Shelf

/-- Nothing is on the shelf. -/
def empty : Shelf := ⟨fun _ => none, fun _ => none⟩

/-- No object is a view of a buffer. -/
def Unviewed (s : Shelf) (name : ℕ) : Prop :=
  ∀ place kind fields, s.objects place ≠ some ⟨kind, .view fields name⟩

/-- Put something into a place. -/
def put (s : Shelf) (place : ℕ) (kind : Kind) (object : ShelfObject kind) : Shelf :=
  { s with objects := Function.update s.objects place (some ⟨kind, object⟩) }

/-- The value in a place. -/
def value (F : Rounding) (s : Shelf) (place : ℕ) : Option (Σ kind : Kind, kind.Value) :=
  (s.objects place).map fun object => ⟨object.1,
    match object.2 with
    | .own value => value
    | .view fields name => (object.1.spec F).withBytes fields ((s.buffers name).getD [])⟩

/-- **What a client may do**, and what comes of it. -/
inductive Step (F : Rounding) (s : Shelf) : ClientOp → Status → Shelf → Prop
  | newBuffer {name : ℕ} {bytes : List UInt8} (hfree : s.buffers name = none) :
      Step F s (.newBuffer name bytes) (.ok ())
        { s with buffers := Function.update s.buffers name (some bytes) }
  | freeBuffer {name : ℕ} {bytes : List UInt8} (hbuffer : s.buffers name = some bytes)
      (hunviewed : s.Unviewed name) :
      Step F s (.freeBuffer name) (.ok ())
        { s with buffers := Function.update s.buffers name none }
  | load {place : ℕ} {kind : Kind} {source : BinarySource} {data : List UInt8}
      {junk : BinaryFileParser} {granted : Bool} {fields : kind.Value} {bytes : List UInt8}
      (hfree : s.objects place = none)
      (hload : (kind.spec F).load source data junk granted = ok (fields, bytes)) :
      Step F s (.initFromBinaryFile place kind source data junk granted) (.ok ())
        (s.put place kind (.own ((kind.spec F).withBytes fields bytes)))
  | loadFails {place : ℕ} {kind : Kind} {source : BinarySource} {data : List UInt8}
      {junk : BinaryFileParser} {granted : Bool} {e : SbError}
      (hload : (kind.spec F).load source data junk granted = error e) :
      Step F s (.initFromBinaryFile place kind source data junk granted) (.error e) s
  | view {place name : ℕ} {kind : Kind} {fields : kind.Value} {bytes : List UInt8}
      (hfree : s.objects place = none) (hbuffer : s.buffers name = some bytes)
      (hfields : (kind.spec F).parseFields bytes = ok fields) :
      Step F s (.initFromBuffer place kind name) (.ok ())
        (s.put place kind (.view fields name))
  | handOver {place name : ℕ} {fields : Trajectory} {bytes : List UInt8}
      (hfree : s.objects place = none) (hbuffer : s.buffers name = some bytes)
      (hunviewed : s.Unviewed name)
      (hfields : (Kind.trajectory.spec F).fieldsFrom bytes = ok fields) :
      Step F s (.initFromBytes place name) (.ok ())
        ({ s with buffers := Function.update s.buffers name none }.put place .trajectory
          (.own ((Kind.trajectory.spec F).withBytes fields bytes)))
  | handOverFails {place name : ℕ} {bytes : List UInt8} {e : SbError}
      (hbuffer : s.buffers name = some bytes)
      (hfields : (Kind.trajectory.spec F).fieldsFrom bytes = error e) :
      Step F s (.initFromBytes place name) (.error e) s
  | initEmpty {place : ℕ} {kind : Kind} {granted : Bool} (hfree : s.objects place = none)
      (hgranted : kind = .trajectory → granted = true) :
      Step F s (.initEmpty place kind granted) (.ok ())
        (s.put place kind (.own kind.emptyValue))
  | initEmptyFails {place : ℕ} :
      Step F s (.initEmpty place .trajectory false) (.error .enomem) s
  | destroyOwn {place : ℕ} {kind : Kind} {value : kind.Value}
      (hobject : s.objects place = some ⟨kind, .own value⟩) :
      Step F s (.destroy place) (.ok ())
        { s with objects := Function.update s.objects place none }
  | destroyView {place name : ℕ} {kind : Kind} {fields : kind.Value} {bytes : List UInt8}
      (hobject : s.objects place = some ⟨kind, .view fields name⟩)
      (hbuffer : s.buffers name = some bytes) (hother : kind ≠ .trajectory) :
      Step F s (.destroy place) (.ok ())
        { s with objects := Function.update s.objects place none }
  | destroyTrajectoryView {place name : ℕ} {fields : Trajectory} {bytes : List UInt8}
      (hobject : s.objects place = some ⟨.trajectory, .view fields name⟩)
      (hbuffer : s.buffers name = some bytes) :
      Step F s (.destroy place) (.ok ())
        { objects := Function.update s.objects place none
          buffers := Function.update s.buffers name (some (List.replicate bytes.length 0)) }

/-- Some operations, with what comes of each. -/
inductive Run (F : Rounding) : Shelf → List ClientOp → List Status → Shelf → Prop
  | nil (s : Shelf) : Run F s [] [] s
  | cons {s s' s'' : Shelf} {op : ClientOp} {ops : List ClientOp} {status : Status}
      {statuses : List Status} (hstep : Step F s op status s') (hrun : Run F s' ops statuses s'') :
      Run F s (op :: ops) (status :: statuses) s''

end Shelf

/-! ### The shelf and the memory -/

/-- The object in a place stands for what is on the shelf. -/
inductive Stands (F : Rounding) (heap : Heap UInt8) (names : ℕ → Option ℕ) :
    Option AnyObject → Option (Σ kind : Kind, ShelfObject kind) → Prop
  | free : Stands F heap names none none
  | own {kind : Kind} {object : MemoryObject kind.Value} {id : ℕ} {cells : List UInt8}
      (howner : object.owner = true) (hbuffer : object.buffer = some id)
      (hblock : heap.block id = some cells) :
      Stands F heap names (some ⟨kind, object⟩) (some ⟨kind,
        .own ((kind.spec F).withBytes object.fields (cells.take object.bufferLength))⟩)
  | null {kind : Kind} {fields : kind.Value} (hother : kind ≠ .trajectory) :
      Stands F heap names (some ⟨kind, nullObject fields⟩) (some ⟨kind,
        .own ((kind.spec F).withBytes fields [])⟩)
  | view {kind : Kind} {fields : kind.Value} {name id : ℕ} {cells : List UInt8}
      (hname : names name = some id) (hblock : heap.block id = some cells) {nbytes : ℕ}
      (hlength : nbytes = cells.length) :
      Stands F heap names (some ⟨kind, ⟨some id, nbytes, false, fields⟩⟩)
        (some ⟨kind, .view fields name⟩)

/-- A client stands for a shelf, and every block of memory has an owner. -/
structure Represents (F : Rounding) (c : Client) (s : Shelf) : Prop where
  ledger : c.heap.Ledger c.holds
  buffers : ∀ name, s.buffers name = (c.buffers name).bind c.heap.block
  objects : ∀ place, Stands F c.heap c.buffers (c.objects place) (s.objects place)

section Standing

variable {F : Rounding} {heap heap' : Heap UInt8} {names names' : ℕ → Option ℕ}
  {object : Option AnyObject} {shelved : Option (Σ kind : Kind, ShelfObject kind)}

/-- An object does not notice what happens to blocks that it does not own and is not a view of. -/
theorem Stands.frame (h : Stands F heap names object shelved)
    (hown : ∀ id, Client.held object = some id → heap'.block id = heap.block id)
    (hview : ∀ kind fields name id cells, shelved = some ⟨kind, .view fields name⟩ →
      names name = some id → heap.block id = some cells → names' name = some id ∧
        ∃ cells', heap'.block id = some cells' ∧ cells'.length = cells.length) :
    Stands F heap' names' object shelved := by
  cases h with
  | free => exact .free
  | @own kind object id cells howner hbuffer hblock =>
      have hheld : Client.held (some ⟨kind, object⟩) = some id := by
        rw [Client.held, Option.bind_some]
        dsimp only
        rw [if_pos howner, hbuffer]
      exact .own howner hbuffer ((hown id hheld).trans hblock)
  | null hother => exact .null hother
  | @view kind fields name id cells hname hblock nbytes hlength =>
      obtain ⟨hname', cells', hblock', hlength'⟩ :=
        hview kind fields name id cells rfl hname hblock
      exact .view hname' hblock' (hlength.trans hlength'.symm)

/-- The value of an object is the one on the shelf. -/
theorem Stands.value_eq (h : Stands F heap names object shelved)
    {buffers : ℕ → Option (List UInt8)} (hbuffers : ∀ name, buffers name =
      (names name).bind heap.block) :
    (object.map fun object =>
      (⟨object.1, (object.1.spec F).value heap object.2⟩ : Σ kind : Kind, kind.Value)) =
    shelved.map fun object => ⟨object.1,
      match object.2 with
      | .own value => value
      | .view fields name => (object.1.spec F).withBytes fields ((buffers name).getD [])⟩ := by
  cases h with
  | free => rfl
  | own howner hbuffer hblock =>
      rw [Option.map_some, Option.map_some, ObjectKind.value]
      dsimp only
      rw [hbuffer, Option.bind_some, hblock, Option.getD_some]
  | null hother => rfl
  | view hname hblock hlength =>
      rw [Option.map_some, Option.map_some, ObjectKind.value]
      dsimp only
      rw [hbuffers, hname, Option.bind_some, hlength]
      change some (Sigma.mk _ ((Kind.spec F _).withBytes _
        (((heap.block _).getD []).take _))) = _
      rw [hblock, Option.getD_some, List.take_length]

end Standing

namespace Represents

variable {F : Rounding} {c : Client} {s : Shelf}

/-- A buffer on the shelf is one of the client. -/
theorem exists_buffer (h : Represents F c s) {name : ℕ} {bytes : List UInt8}
    (hbuffer : s.buffers name = some bytes) :
    ∃ id, c.buffers name = some id ∧ c.heap.block id = some bytes := by
  rw [h.buffers] at hbuffer
  exact Option.bind_eq_some_iff.1 hbuffer

/-- And the other way round. -/
theorem buffer_none (h : Represents F c s) {name : ℕ} (hfree : s.buffers name = none) :
    c.buffers name = none := by
  rw [h.buffers] at hfree
  cases hname : c.buffers name with
  | none => rfl
  | some id =>
      obtain ⟨cells, hcells⟩ := Heap.live_iff.1 (h.ledger.live (.inr name) id hname)
      rw [hname, Option.bind_some, hcells] at hfree
      cases hfree

/-- A free place on the shelf is a free place of the client. -/
theorem object_none (h : Represents F c s) {place : ℕ} (hfree : s.objects place = none) :
    c.objects place = none := by
  have hstands := h.objects place
  rw [hfree] at hstands
  generalize c.objects place = object at hstands
  cases hstands
  rfl

/-- What a place owns is not a buffer of the client. -/
theorem held_ne (h : Represents F c s) {place name id id' : ℕ}
    (hheld : Client.held (c.objects place) = some id) (hname : c.buffers name = some id') :
    id ≠ id' := by
  rintro rfl
  have hsame := h.ledger.unique (.inl place) (.inr name) id hheld hname
  cases hsame

/-- Two places do not own the same block. -/
theorem held_ne_held (h : Represents F c s) {place place' id id' : ℕ} (hne : place' ≠ place)
    (hheld : Client.held (c.objects place) = some id)
    (hheld' : Client.held (c.objects place') = some id') : id' ≠ id := by
  rintro rfl
  exact hne (Sum.inl.inj (h.ledger.unique (.inl place') (.inl place) id' hheld' hheld))

/-- Two buffers are not in the same block. -/
theorem buffer_ne (h : Represents F c s) {name name' id id' : ℕ} (hne : name' ≠ name)
    (hname : c.buffers name = some id) (hname' : c.buffers name' = some id') : id' ≠ id := by
  rintro rfl
  exact hne (Sum.inr.inj (h.ledger.unique (.inr name') (.inr name) id' hname' hname))

/-- The client stands for the shelf after a failure that left all blocks as they were. -/
theorem same (h : Represents F c s) {heap : Heap UInt8} (hsame : c.heap.Same heap) :
    Represents F { c with heap := heap } s := by
  refine ⟨h.ledger.same hsame, fun name => ?_, fun place => ?_⟩
  · rw [h.buffers]
    exact congrArg _ (funext fun id => (hsame id).symm)
  · refine (h.objects place).frame (fun id _ => hsame id) fun _ _ _ id cells _ hname hblock => ?_
    exact ⟨hname, cells, (hsame id).trans hblock, rfl⟩

/-- Something else is in a place, and the blocks of the others are as they were. -/
theorem update (h : Represents F c s) {place : ℕ} {heap : Heap UInt8} {object : Option AnyObject}
    {shelved : Option (Σ kind : Kind, ShelfObject kind)}
    (hledger : heap.Ledger (Function.update c.holds (.inl place) (Client.held object)))
    (hown : ∀ place', place' ≠ place → ∀ id, Client.held (c.objects place') = some id →
      heap.block id = c.heap.block id)
    (hbuffers : ∀ name id, c.buffers name = some id → heap.block id = c.heap.block id)
    (hstands : Stands F heap c.buffers object shelved) :
    Represents F { c with heap := heap, objects := Function.update c.objects place object }
      { s with objects := Function.update s.objects place shelved } := by
  refine ⟨?_, fun name => ?_, fun place' => ?_⟩
  · rw [Client.holds_updateObject]
    exact hledger
  · rw [h.buffers]
    dsimp only
    cases hname : c.buffers name with
    | none => rfl
    | some id => exact (hbuffers name id hname).symm
  · dsimp only
    rcases eq_or_ne place' place with rfl | hne
    · rw [Function.update_self, Function.update_self]
      exact hstands
    · rw [Function.update_of_ne hne, Function.update_of_ne hne]
      refine (h.objects place').frame (hown place' hne) fun _ _ name id cells _ hname hblock => ?_
      exact ⟨hname, cells, (hbuffers name id hname).trans hblock, rfl⟩

/-- An object that owns one more block. -/
theorem put_push (h : Represents F c s) {place : ℕ} (hfree : s.objects place = none) (kind : Kind)
    (nbytes : ℕ) (fields : kind.Value) (cells : List UInt8) :
    Represents F
      { c with
        heap := c.heap.push cells
        objects := Function.update c.objects place
          (some ⟨kind, ⟨some c.heap.next, nbytes, true, fields⟩⟩) }
      (s.put place kind (.own ((kind.spec F).withBytes fields (cells.take nbytes)))) := by
  have hplace := h.object_none hfree
  have hholds : c.holds (.inl place) = none := by
    rw [Client.holds, Sum.elim_inl, Function.comp_apply, hplace]
    rfl
  refine h.update (h.ledger.take hholds cells) (fun place' _ id hid => ?_) (fun name id hid => ?_)
    (.own rfl rfl (Heap.block_push_self c.heap cells))
  · exact Heap.block_push_of_live cells (h.ledger.live (.inl place') id hid)
  · exact Heap.block_push_of_live cells (h.ledger.live (.inr name) id hid)

/-- An object that does not own a block. -/
theorem put_unowned (h : Represents F c s) {place : ℕ} (hfree : s.objects place = none)
    {object : Option AnyObject} {shelved : Option (Σ kind : Kind, ShelfObject kind)}
    (hheld : Client.held object = none) (hstands : Stands F c.heap c.buffers object shelved) :
    Represents F { c with objects := Function.update c.objects place object }
      { s with objects := Function.update s.objects place shelved } := by
  have hplace := h.object_none hfree
  have hholds : c.holds (.inl place) = Client.held object := by
    rw [hheld, Client.holds, Sum.elim_inl, Function.comp_apply, hplace]
    rfl
  refine h.update ?_ (fun _ _ _ _ => rfl) (fun _ _ _ => rfl) hstands
  rw [← hholds, Function.update_eq_self]
  exact h.ledger

/-- The place of an object that does not own its block is cleared. -/
theorem clear_unowned (h : Represents F c s) {place : ℕ}
    (hheld : Client.held (c.objects place) = none) :
    Represents F { c with objects := Function.update c.objects place none }
      { s with objects := Function.update s.objects place none } := by
  refine h.update ?_ (fun _ _ _ _ => rfl) (fun _ _ _ => rfl) .free
  have hholds : c.holds (.inl place) = Client.held none := hheld
  rw [← hholds, Function.update_eq_self]
  exact h.ledger

/-- The place of an object is cleared, and its block given back. -/
theorem clear_owned (h : Represents F c s) {place id : ℕ}
    (hheld : Client.held (c.objects place) = some id) :
    Represents F
      { c with heap := c.heap.put id none, objects := Function.update c.objects place none }
      { s with objects := Function.update s.objects place none } := by
  refine h.update (h.ledger.giveBack hheld)
    (fun place' hne id' hid' => ?_) (fun name id' hid' => ?_) .free
  · exact Heap.block_put_of_ne _ (h.held_ne_held hne hheld hid') _
  · exact Heap.block_put_of_ne _ (h.held_ne hheld hid').symm _

/-- The client makes another buffer. -/
theorem newBuffer (h : Represents F c s) {name : ℕ} (hfree : s.buffers name = none)
    (bytes : List UInt8) :
    Represents F
      { c with
        heap := c.heap.push bytes
        buffers := Function.update c.buffers name (some c.heap.next) }
      { s with buffers := Function.update s.buffers name (some bytes) } := by
  have hname := h.buffer_none hfree
  refine ⟨?_, fun name' => ?_, fun place => ?_⟩
  · rw [Client.holds_updateBuffer]
    exact h.ledger.take (k := .inr name) hname bytes
  · dsimp only
    rcases eq_or_ne name' name with rfl | hne
    · rw [Function.update_self, Function.update_self, Option.bind_some, Heap.block_push_self]
    · rw [Function.update_of_ne hne, Function.update_of_ne hne, h.buffers]
      cases hname' : c.buffers name' with
      | none => rfl
      | some id =>
          exact (Heap.block_push_of_live bytes (h.ledger.live (.inr name') id hname')).symm
  · refine (h.objects place).frame
      (fun id hid => Heap.block_push_of_live bytes (h.ledger.live (.inl place) id hid))
      fun _ _ name' id cells _ hname' hblock => ?_
    have hne : name' ≠ name := by
      rintro rfl
      rw [hname] at hname'
      cases hname'
    refine ⟨?_, cells, ?_, rfl⟩
    · dsimp only
      rw [Function.update_of_ne hne]
      exact hname'
    · rw [Heap.block_push_of_live bytes (Heap.live_iff.2 ⟨cells, hblock⟩)]
      exact hblock

/-- The client gives up a buffer that no object is a view of, and keeps the others. -/
theorem frame_dropBuffer (h : Represents F c s) {name id : ℕ} (hname : c.buffers name = some id)
    (hunviewed : s.Unviewed name) {heap : Heap UInt8}
    (hheap : ∀ id', id' ≠ id → heap.block id' = c.heap.block id') :
    (∀ name', Function.update s.buffers name none name' =
      (Function.update c.buffers name none name').bind heap.block) ∧
    ∀ place, Stands F heap (Function.update c.buffers name none) (c.objects place)
      (s.objects place) := by
  refine ⟨fun name' => ?_, fun place => ?_⟩
  · rcases eq_or_ne name' name with rfl | hne
    · rw [Function.update_self, Function.update_self]
      rfl
    · rw [Function.update_of_ne hne, Function.update_of_ne hne, h.buffers]
      cases hname' : c.buffers name' with
      | none => rfl
      | some id' => exact (hheap id' (h.buffer_ne hne hname hname')).symm
  · refine (h.objects place).frame (fun id' hid' => hheap id' (h.held_ne hid' hname))
      fun kind fields name' id' cells hview hname' hblock => ?_
    have hne : name' ≠ name := by
      rintro rfl
      exact hunviewed place kind fields hview
    refine ⟨?_, cells, (hheap id' (h.buffer_ne hne hname hname')).trans hblock, rfl⟩
    rw [Function.update_of_ne hne]
    exact hname'

/-- The client frees a buffer. -/
theorem freeBuffer (h : Represents F c s) {name id : ℕ} (hname : c.buffers name = some id)
    (hunviewed : s.Unviewed name) :
    Represents F
      { c with
        heap := c.heap.put id none
        buffers := Function.update c.buffers name none }
      { s with buffers := Function.update s.buffers name none } := by
  obtain ⟨hbuffers, hobjects⟩ := h.frame_dropBuffer hname hunviewed
    fun id' hne => Heap.block_put_of_ne c.heap hne none
  refine ⟨?_, hbuffers, hobjects⟩
  rw [Client.holds_updateBuffer]
  exact h.ledger.giveBack (k := .inr name) hname

/-- The client hands a buffer over to an object. -/
theorem handOver (h : Represents F c s) {place name id : ℕ} (hfree : s.objects place = none)
    (hname : c.buffers name = some id) (hunviewed : s.Unviewed name) {cells : List UInt8}
    (hblock : c.heap.block id = some cells) {kind : Kind} {fields : kind.Value} :
    Represents F
      { c with
        objects := Function.update c.objects place
          (some ⟨kind, ⟨some id, cells.length, true, fields⟩⟩)
        buffers := Function.update c.buffers name none }
      ({ s with buffers := Function.update s.buffers name none }.put place kind
        (.own ((kind.spec F).withBytes fields cells))) := by
  have hplace := h.object_none hfree
  obtain ⟨hbuffers, hobjects⟩ := h.frame_dropBuffer hname hunviewed fun _ _ => rfl
  refine ⟨?_, hbuffers, fun place' => ?_⟩
  · have hholds : c.holds (.inl place) = none := by
      rw [Client.holds, Sum.elim_inl, Function.comp_apply, hplace]
      rfl
    have hledger := h.ledger.handOver (k := .inr name) hname hholds
    rw [← Client.holds_updateBuffer c c.heap name none] at hledger
    rw [Client.holds_updateObject { c with buffers := Function.update c.buffers name none }]
    exact hledger
  · dsimp only [Shelf.put]
    rcases eq_or_ne place' place with rfl | hne
    · rw [Function.update_self, Function.update_self]
      have hstands : Stands F c.heap (Function.update c.buffers name none)
          (some ⟨kind, ⟨some id, cells.length, true, fields⟩⟩) _ := .own rfl rfl hblock
      rw [List.take_length] at hstands
      exact hstands
    · rw [Function.update_of_ne hne, Function.update_of_ne hne]
      exact hobjects place'

/-- The bytes of a buffer are overwritten. -/
theorem overwrite (h : Represents F c s) {name id : ℕ} (hname : c.buffers name = some id)
    {cells cells' : List UInt8} (hblock : c.heap.block id = some cells)
    (hlength : cells'.length = cells.length) :
    Represents F { c with heap := c.heap.put id (some cells') }
      { s with buffers := Function.update s.buffers name (some cells') } := by
  have hlive : c.heap.Live id := Heap.live_iff.2 ⟨cells, hblock⟩
  refine ⟨h.ledger.write hlive cells', fun name' => ?_, fun place => ?_⟩
  · dsimp only
    rcases eq_or_ne name' name with rfl | hne
    · rw [Function.update_self, hname, Option.bind_some, Heap.block_put_self hlive]
    · rw [Function.update_of_ne hne, h.buffers]
      cases hname' : c.buffers name' with
      | none => rfl
      | some id' => exact (Heap.block_put_of_ne _ (h.buffer_ne hne hname hname') _).symm
  · refine (h.objects place).frame
      (fun id' hid' => Heap.block_put_of_ne _ (h.held_ne hid' hname) _)
      fun _ _ name' id' cells'' _ hname' hblock' => ⟨hname', ?_⟩
    rcases eq_or_ne id' id with rfl | hne
    · rw [hblock] at hblock'
      cases hblock'
      exact ⟨cells', Heap.block_put_self hlive _, hlength⟩
    · exact ⟨cells'', (Heap.block_put_of_ne _ hne _).trans hblock', rfl⟩

end Represents

/-! ### What a client does -/

section Operations

variable {F : Rounding} {c : Client} {s s' : Shelf}

theorem withBytes_emptyValue (F : Rounding) (kind : Kind) :
    (kind.spec F).withBytes kind.emptyValue [] = kind.emptyValue := by
  cases kind <;> rfl

/-- An object that owns its memory frees it. -/
theorem destroy_of_owner {kind : Kind} {object : MemoryObject kind.Value} {h : Heap UInt8} {id : ℕ}
    (howner : object.owner = true) (hbuffer : object.buffer = some id) (hlive : h.Live id) :
    ∃ object', kind.destroy object h = ok (object', h.put id none) := by
  have hfree : freePointer object.buffer h = ok ((), h.put id none) := by
    rw [hbuffer]
    exact Heap.Routine.free_of_live hlive
  have hdestroyObject : ∀ {τ : Type} (fields : τ) (object : MemoryObject τ), object.owner = true →
      freePointer object.buffer h = ok ((), h.put id none) →
      ∃ object', destroyObject fields object h = ok (object', h.put id none) := by
    intro τ fields object howner hfree
    rw [destroyObject, if_pos howner, Heap.Routine.bind_of_ok hfree]
    exact ⟨_, rfl⟩
  cases kind with
  | trajectory =>
      have hclear : Trajectory.clear object h =
          ok ({ object with bufferLength := 0, fields := Trajectory.emptyFields }, h) := by
        rw [Trajectory.clear, if_pos howner]
        rfl
      refine ⟨⟨none, 0, object.owner, Trajectory.emptyFields⟩, ?_⟩
      refine (Heap.Routine.bind_of_ok hclear _).trans ?_
      dsimp only
      rw [if_pos howner, Heap.Routine.bind_of_ok hfree]
      rfl
  | lightProgram => exact hdestroyObject _ object howner hfree
  | rthPlan => exact hdestroyObject _ object howner hfree
  | yawControl => exact hdestroyObject _ object howner hfree

/-- An object that does not own its memory leaves it, unless it is a trajectory. -/
theorem destroy_of_not_owner {kind : Kind} (hother : kind ≠ .trajectory)
    (object : MemoryObject kind.Value) (howner : object.owner = false) (h : Heap UInt8) :
    ∃ object', kind.destroy object h = ok (object', h) := by
  have hdestroyObject : ∀ {τ : Type} (fields : τ) (object : MemoryObject τ), object.owner = false →
      ∃ object', destroyObject fields object h = ok (object', h) := by
    intro τ fields object howner
    rw [destroyObject, if_neg (by rw [howner]; exact Bool.false_ne_true)]
    exact ⟨_, rfl⟩
  cases kind with
  | trajectory => exact absurd rfl hother
  | lightProgram => exact hdestroyObject _ object howner
  | rthPlan => exact hdestroyObject _ object howner
  | yawControl => exact hdestroyObject _ object howner

/-- A trajectory that is a view fills the buffer with zeros. -/
theorem destroy_trajectoryView {h : Heap UInt8} {id nbytes : ℕ} {cells : List UInt8}
    (fields : Trajectory) (hblock : h.block id = some cells) (hlength : nbytes = cells.length) :
    ∃ object', Kind.trajectory.destroy ⟨some id, nbytes, false, fields⟩ h =
      ok (object', h.put id (some (List.replicate cells.length 0))) := by
  have hfill : fillWithZeros (some id) nbytes h =
      ok ((), h.put id (some (List.replicate cells.length 0))) := by
    rw [fillWithZeros, hlength]
    exact Heap.Routine.store_of_block hblock List.length_replicate
  refine ⟨_, (Heap.Routine.bind_of_ok (a := MemoryObject.mk (some id) nbytes false
    { Trajectory.emptyFields with scale := 0 }) ?_ _).trans rfl⟩
  exact Heap.Routine.bind_of_ok hfill _

/-- **One operation**: what is permitted on the shelf does not go wrong in memory, with the same
error code, and memory stands for the shelf again. -/
theorem represents_step (h : Represents F c s) {op : ClientOp} {status : Status}
    (hstep : Shelf.Step F s op status s') :
    ∃ c', c.step F op = ok (status, c') ∧ Represents F c' s' := by
  cases hstep with
  | newBuffer hfree => exact ⟨_, rfl, h.newBuffer hfree _⟩
  | @freeBuffer name bytes hbuffer hunviewed =>
      obtain ⟨id, hname, hblock⟩ := h.exists_buffer hbuffer
      have hfree : freePointer (c.buffers name) c.heap = ok ((), c.heap.put id none) := by
        rw [hname]
        exact Heap.Routine.free_of_live (Heap.live_iff.2 ⟨bytes, hblock⟩)
      refine ⟨_, ?_, h.freeBuffer hname hunviewed⟩
      rw [Client.step, hfree]
  | @load place kind source data junk granted fields bytes hfree hload =>
      have hallocates := ObjectKind.allocates_initFromBinaryFile (K := kind.spec F) source data
        junk granted c.heap
      rw [hload] at hallocates
      have hput := h.put_push hfree kind bytes.length fields bytes
      rw [List.take_length] at hput
      refine ⟨_, ?_, hput⟩
      rw [Client.step, Kind.initFromBinaryFile, show _ = _ from hallocates]
      rfl
  | @loadFails place kind source data junk granted e hload =>
      have hallocates := ObjectKind.allocates_initFromBinaryFile (K := kind.spec F) source data
        junk granted c.heap
      rw [hload] at hallocates
      obtain ⟨heap, hsame, herror⟩ := hallocates
      refine ⟨_, ?_, h.same hsame⟩
      rw [Client.step, Kind.initFromBinaryFile, herror]
      rfl
  | @view place name kind fields bytes hfree hbuffer hfields =>
      obtain ⟨id, hname, hblock⟩ := h.exists_buffer hbuffer
      have hlength : c.bufferLength id = bytes.length := by
        rw [Client.bufferLength, hblock, Option.getD_some]
      have hinit : (kind.spec F).initFromBuffer id (c.bufferLength id) c.heap =
          ok (⟨some id, bytes.length, false, fields⟩, c.heap) := by
        rw [hlength, ObjectKind.initFromBuffer,
          Heap.Routine.bind_of_ok (Heap.Routine.contents_of_block hblock), List.take_length,
          hfields]
        rfl
      refine ⟨_, ?_, h.put_unowned hfree rfl (.view hname hblock rfl)⟩
      rw [Client.step, hname]
      dsimp only
      rw [hinit]
      rfl
  | @handOver place name fields bytes hfree hbuffer hunviewed hfields =>
      obtain ⟨id, hname, hblock⟩ := h.exists_buffer hbuffer
      have hlength : c.bufferLength id = bytes.length := by
        rw [Client.bufferLength, hblock, Option.getD_some]
      have hinit := ObjectKind.initOwned_of_block (K := Kind.trajectory.spec F) hblock
      rw [hfields] at hinit
      refine ⟨_, ?_, h.handOver hfree hname hunviewed hblock⟩
      rw [Client.step, hname]
      dsimp only
      rw [hlength, hinit]
      rfl
  | @handOverFails place name bytes e hbuffer hfields =>
      obtain ⟨id, hname, hblock⟩ := h.exists_buffer hbuffer
      have hlength : c.bufferLength id = bytes.length := by
        rw [Client.bufferLength, hblock, Option.getD_some]
      have hinit := ObjectKind.initOwned_of_block (K := Kind.trajectory.spec F) hblock
      rw [hfields] at hinit
      refine ⟨c, ?_, h⟩
      rw [Client.step, hname]
      dsimp only
      rw [hlength, hinit]
      rfl
  | @initEmpty place kind granted hfree hgranted =>
      by_cases hkind : kind = .trajectory
      · subst hkind
        have hput := h.put_push hfree .trajectory 0 Trajectory.emptyFields [0]
        refine ⟨_, ?_, hput⟩
        rw [Client.step, hgranted rfl]
        rfl
      · have hstands : Stands F c.heap c.buffers (some ⟨kind, nullObject kind.emptyValue⟩) _ :=
          .null hkind
        have hput := h.put_unowned hfree rfl hstands
        rw [withBytes_emptyValue] at hput
        refine ⟨_, ?_, hput⟩
        rw [Client.step]
        cases kind with
        | trajectory => exact absurd rfl hkind
        | lightProgram => rfl
        | rthPlan => rfl
        | yawControl => rfl
  | initEmptyFails => exact ⟨c, rfl, h⟩
  | @destroyOwn place kind value hobject =>
      have hstands := h.objects place
      rw [hobject] at hstands
      generalize hplace : c.objects place = object at hstands
      cases hstands with
      | @own _ object id cells howner hbuffer hblock =>
          have hheld : Client.held (c.objects place) = some id := by
            rw [hplace, Client.held, Option.bind_some]
            dsimp only
            rw [if_pos howner, hbuffer]
          obtain ⟨object', hdestroy⟩ := destroy_of_owner howner hbuffer
            (Heap.live_iff.2 ⟨cells, hblock⟩)
          refine ⟨_, ?_, h.clear_owned hheld⟩
          rw [Client.step, hplace]
          dsimp only
          rw [hdestroy]
      | @null _ fields hother =>
          have hheld : Client.held (c.objects place) = none := by
            rw [hplace]
            rfl
          obtain ⟨object', hdestroy⟩ :=
            destroy_of_not_owner hother (nullObject fields) rfl c.heap
          refine ⟨_, ?_, h.clear_unowned hheld⟩
          rw [Client.step, hplace]
          dsimp only
          rw [hdestroy]
  | @destroyView place name kind fields bytes hobject hbuffer hother =>
      have hstands := h.objects place
      rw [hobject] at hstands
      generalize hplace : c.objects place = object at hstands
      cases hstands with
      | @view _ _ _ id cells hname hblock nbytes hlength =>
          have hheld : Client.held (c.objects place) = none := by
            rw [hplace]
            rfl
          obtain ⟨object', hdestroy⟩ :=
            destroy_of_not_owner hother ⟨some id, nbytes, false, fields⟩ rfl c.heap
          refine ⟨_, ?_, h.clear_unowned hheld⟩
          rw [Client.step, hplace]
          dsimp only
          rw [hdestroy]
  | @destroyTrajectoryView place name fields bytes hobject hbuffer =>
      have hstands := h.objects place
      rw [hobject] at hstands
      generalize hplace : c.objects place = object at hstands
      cases hstands with
      | @view _ _ _ id cells hname hblock nbytes hlength =>
          have hheld : Client.held (c.objects place) = none := by
            rw [hplace]
            rfl
          obtain rfl : bytes = cells := by
            rw [h.buffers, hname, Option.bind_some, hblock] at hbuffer
            exact (Option.some.inj hbuffer).symm
          obtain ⟨object', hdestroy⟩ := destroy_trajectoryView fields hblock hlength
          refine ⟨_, ?_, (h.clear_unowned hheld).overwrite hname hblock List.length_replicate⟩
          rw [Client.step, hplace]
          dsimp only
          rw [hdestroy]

theorem represents_start (F : Rounding) : Represents F .start .empty :=
  ⟨Heap.Ledger.empty.congr fun k => by cases k <;> rfl, fun _ => rfl, fun _ => .free⟩

/-- **All operations**: by induction on them. -/
theorem represents_run {ops : List ClientOp} {statuses : List Status}
    (hrun : Shelf.Run F s ops statuses s') (h : Represents F c s) :
    ∃ c', c.run F ops = ok (statuses, c') ∧ Represents F c' s' := by
  induction hrun generalizing c with
  | nil s => exact ⟨c, rfl, h⟩
  | cons hstep _ ih =>
      obtain ⟨c₁, hfirst, h₁⟩ := represents_step h hstep
      obtain ⟨c₂, hrest, h₂⟩ := ih h₁
      refine ⟨c₂, ?_, h₂⟩
      rw [Client.run, hfirst, ok_bind]
      dsimp only
      rw [hrest]
      rfl

end Operations

/-- **What a client may do does not go wrong**, whatever it does and whenever memory is refused:
no block is freed twice or touched after it was freed, every operation returns the error code
that the shelf tells, and the objects have the values that are on the shelf. Every block that
was not freed has one owner, an object or the client, and when the shelf is empty, all were. -/
theorem client_refines {F : Rounding} {ops : List ClientOp} {statuses : List Status} {s : Shelf}
    (hrun : Shelf.Run F .empty ops statuses s) :
    ∃ c, Client.start.run F ops = ok (statuses, c) ∧
      (∀ place, c.value F place = s.value F place) ∧
      (∀ id, c.heap.Live id ↔ ∃ owner, c.holds owner = some id) ∧
      (∀ owner owner' id, c.holds owner = some id → c.holds owner' = some id → owner = owner') ∧
      ((∀ place, s.objects place = none) → (∀ name, s.buffers name = none) →
        ∀ id, ¬ c.heap.Live id) := by
  obtain ⟨c, hclient, h⟩ := represents_run hrun (represents_start F)
  refine ⟨c, hclient, fun place => (h.objects place).value_eq h.buffers, fun id => ⟨?_, ?_⟩,
    h.ledger.unique, fun hobjects hbuffers => h.ledger.nothing_left.1 fun owner => ?_⟩
  · exact h.ledger.held id
  · rintro ⟨owner, howner⟩
    exact h.ledger.live owner id howner
  · rcases owner with place | name
    · rw [Client.holds, Sum.elim_inl, Function.comp_apply, h.object_none (hobjects place)]
      rfl
    · exact h.buffer_none (hbuffers name)

/-- A client makes a buffer and a view of it, a trajectory; it makes an empty trajectory, and is
refused another one; it destroys the trajectories and frees the buffer. Nothing is left. -/
theorem client_refines_twoTrajectories :
    ∃ c, Client.start.run .exact
        [.newBuffer 0 [1, 2, 3, 4, 5, 6, 7, 8, 9], .initFromBuffer 0 .trajectory 0,
          .initEmpty 1 .trajectory true, .initEmpty 2 .trajectory false, .destroy 0, .destroy 1,
          .freeBuffer 0] =
        ok ([.ok (), .ok (), .ok (), .error .enomem, .ok (), .ok (), .ok ()], c) ∧
      ∀ id, ¬ c.heap.Live id := by
  obtain ⟨fields, hfields⟩ := (Kind.trajectory.headerSize_spec .exact).ok_of_le
    [1, 2, 3, 4, 5, 6, 7, 8, 9] (Nat.le_refl 9)
  -- what is in the places when both trajectories have been destroyed
  let objects : ℕ → Option (Σ kind : Kind, ShelfObject kind) :=
    Function.update (Function.update (Function.update (Function.update (fun _ => none) 0
      (some ⟨.trajectory, .view fields 0⟩)) 1 (some ⟨.trajectory, .own Kind.trajectory.emptyValue⟩))
      0 none) 1 none
  have hobjects : ∀ place, objects place = none := fun
    | 0 => rfl
    | 1 => rfl
    | _ + 2 => rfl
  have hunviewed : ∀ place kind fields, objects place ≠ some ⟨kind, .view fields 0⟩ := by
    intro place kind fields hview
    rw [hobjects] at hview
    cases hview
  obtain ⟨s, hrun, hplaces, hbuffers⟩ : ∃ s, Shelf.Run .exact .empty
      [.newBuffer 0 [1, 2, 3, 4, 5, 6, 7, 8, 9], .initFromBuffer 0 .trajectory 0,
        .initEmpty 1 .trajectory true, .initEmpty 2 .trajectory false, .destroy 0, .destroy 1,
        .freeBuffer 0] [.ok (), .ok (), .ok (), .error .enomem, .ok (), .ok (), .ok ()] s ∧
      (∀ place, s.objects place = none) ∧ ∀ name, s.buffers name = none := by
    refine ⟨_, .cons (.newBuffer rfl) (.cons (.view rfl rfl hfields) (.cons (.initEmpty rfl
      fun _ => rfl) (.cons .initEmptyFails (.cons (.destroyTrajectoryView rfl rfl)
        (.cons (.destroyOwn rfl) (.cons (.freeBuffer rfl hunviewed) (.nil _))))))), hobjects, ?_⟩
    exact fun
      | 0 => rfl
      | _ + 1 => rfl
  obtain ⟨c, hclient, -, -, -, hnothing⟩ := client_refines hrun
  exact ⟨c, hclient, hnothing hplaces hbuffers⟩

end Skybrush
