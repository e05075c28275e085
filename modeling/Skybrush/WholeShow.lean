import Skybrush.LoopPlayback
import Skybrush.Mission
import Skybrush.YawEvaluation

/-!
# Whole Shows

A show file has everything that a drone needs: a trajectory, a light program, a yaw control and a
return-to-home plan. They are loaded one after the other, in any order and as often as one likes,
each from memory or by a descriptor, and all of them stay what they are when others are loaded.

A `Show` is what the file is made from: the calls on a trajectory builder, a light program with
loops, the deltas of the yaw and the entries of the plan. What is loaded performs the show.

## Main results

* `loadAll_eq_ok`: all objects are loaded, each into memory of its own.
* `Show.performed_of_body`: what is set up from the blocks of a show performs the show.
* `show_performed`: so does everything that is loaded from a file of the show.
-/

namespace Skybrush

open Checked Rounding RthSource TrajectoryBuilder

/-! ### Loading one object after the other -/

/-- What is to be loaded, and where from; with what happens to be in the parser before. -/
structure Load where
  kind : Kind
  source : BinarySource
  junk : BinaryFileParser

/-- An object of any kind. -/
abbrev LoadedObject : Type := (kind : Kind) × MemoryObject kind.Value

/-- Load objects from the bytes of a file, one after the other. There is memory for all of them. -/
def loadAll (F : Rounding) (data : List UInt8) :
    List Load → Heap.Routine SbError UInt8 (List LoadedObject)
  | [] => pure []
  | load :: loads => do
      let object ← load.kind.initFromBinaryFile F load.source data load.junk true
      let objects ← loadAll F data loads
      pure (⟨load.kind, object⟩ :: objects)

/-- The value of an object depends on its own block only. -/
theorem ObjectKind.value_congr {τ : Type} {K : ObjectKind τ} {h h' : Heap UInt8}
    {object : MemoryObject τ} {buf : ℕ} (hbuffer : object.buffer = some buf)
    (hblock : h'.block buf = h.block buf) : K.value h' object = K.value h object := by
  rw [value, value, hbuffer, Option.bind_some, Option.bind_some, hblock]

/-- What is known of loaded objects: each owns a live block from some address on, no two of them
the same one, and has the value that its kind is to have. -/
structure AreLoaded (F : Rounding) (values : (kind : Kind) → kind.Value) (start : ℕ)
    (h : Heap UInt8) (objects : List LoadedObject) : Prop where
  owner : ∀ o ∈ objects, o.2.owner = true
  live : ∀ o ∈ objects, ∃ buf, o.2.buffer = some buf ∧ start ≤ buf ∧ h.Live buf
  value : ∀ o ∈ objects, (o.1.spec F).value h o.2 = values o.1
  nodup : (objects.map fun o => o.2.buffer).Nodup

/-- One more object was loaded before. -/
theorem AreLoaded.cons {F : Rounding} {values : (kind : Kind) → kind.Value} {h h' : Heap UInt8}
    {objects : List LoadedObject} {body : List UInt8}
    (hloaded : AreLoaded F values (h.push body).next h' objects)
    (hkeeps : ∀ id, (h.push body).Live id → h'.block id = (h.push body).block id) {kind : Kind}
    {object : MemoryObject kind.Value} (hbuffer : object.buffer = some h.next)
    (howner : object.owner = true)
    (hvalue : (kind.spec F).value (h.push body) object = values kind) :
    AreLoaded F values h.next h' (⟨kind, object⟩ :: objects) := by
  have hnext : (h.push body).next = h.next + 1 := List.length_append
  have hpushed : (h.push body).Live h.next :=
    Heap.live_iff.2 ⟨body, h.block_push_self body⟩
  have hblock := hkeeps _ hpushed
  refine ⟨?_, ?_, ?_, ?_⟩
  · intro o ho
    rcases List.mem_cons.1 ho with rfl | ho
    · exact howner
    · exact hloaded.owner o ho
  · intro o ho
    rcases List.mem_cons.1 ho with rfl | ho
    · refine ⟨h.next, hbuffer, le_rfl, ?_⟩
      rw [Heap.Live, hblock]
      exact hpushed
    · obtain ⟨buf, hbuf, hle, hlive⟩ := hloaded.live o ho
      exact ⟨buf, hbuf, by omega, hlive⟩
  · intro o ho
    rcases List.mem_cons.1 ho with rfl | ho
    · rw [ObjectKind.value_congr hbuffer hblock, hvalue]
    · exact hloaded.value o ho
  · rw [List.map_cons, List.nodup_cons]
    refine ⟨fun hmem => ?_, hloaded.nodup⟩
    obtain ⟨o, ho, hsame⟩ := List.mem_map.1 hmem
    obtain ⟨buf, hbuf, hle, -⟩ := hloaded.live o ho
    rw [hbuf, hbuffer] at hsame
    have heq : buf = h.next := Option.some.inj hsame
    omega

/-- **All objects are loaded**, each into memory of its own, and keep their values: by induction
on the loads. -/
theorem loadAll_eq_ok (file : ShowFile) (hsize : file.bytes.length < 2 ^ 32) (F : Rounding)
    (values : (kind : Kind) → kind.Value) (loads : List Load)
    (hvalues : ∀ load ∈ loads, ∃ block,
      file.firstBlock (load.kind.spec F).blockType = some block ∧
        (load.kind.spec F).initFromBytes block.body = ok (values load.kind)) (h : Heap UInt8) :
    ∃ objects h', loadAll F file.bytes loads h = ok (objects, h') ∧
      objects.map Sigma.fst = loads.map Load.kind ∧
      (∀ id, h.Live id → h'.block id = h.block id) ∧ AreLoaded F values h.next h' objects := by
  induction loads generalizing h with
  | nil => exact ⟨[], h, rfl, rfl, fun _ _ => rfl, nofun, nofun, nofun, List.nodup_nil⟩
  | cons load loads ih =>
      obtain ⟨block, hblock, hinit⟩ := hvalues load List.mem_cons_self
      obtain ⟨object, hload, hbuffer, howner, hvalue⟩ :=
        file.exists_loaded hsize F load.source load.junk h hblock hinit
      obtain ⟨objects, h', hrest, hkinds, hkeeps, hloaded⟩ :=
        ih (fun l hl => hvalues l (List.mem_cons_of_mem _ hl)) (h.push block.body)
      refine ⟨⟨load.kind, object⟩ :: objects, h', ?_, ?_, ?_, ?_⟩
      · rw [loadAll, Heap.Routine.bind_of_ok hload, Heap.Routine.bind_of_ok hrest]
        rfl
      · rw [List.map_cons, List.map_cons, hkinds]
      · intro id hlive
        have hpushed := h.block_push_of_live block.body hlive
        rw [← hpushed]
        refine hkeeps id ?_
        rw [Heap.Live, hpushed]
        exact hlive
      · exact hloaded.cons hkeeps hbuffer howner hvalue

/-! ### Shows -/

/-- The type byte of the blocks of a kind. -/
def Kind.typeByte : Kind → UInt8
  | trajectory => 1
  | lightProgram => 2
  | rthPlan => 4
  | yawControl => 5

theorem Kind.typeByte_ne (kind : Kind) : kind.typeByte ≠ binaryBlockNone := by
  cases kind <;> decide

/-- What a show is made from. -/
structure Show where
  /-- The trajectory: the calls on a builder that was given a scale and a start. -/
  scale : UInt8
  flags : UInt8
  start : Option Vector3WithYaw
  moves : List Move
  builder : TrajectoryBuilder
  builds : Builds .exact scale flags start moves builder
  moves_fit : (moves.map Move.durationMsec).sum < 2 ^ 32
  /-- How often a line of the trajectory is split where half a millisecond is lost. -/
  halvings : ℕ
  moves_halved : ∀ move ∈ moves, move.HalvedIn halvings
  /-- The light program. -/
  light : StructuredCode
  light_playable : ∀ i ∈ light.program.instructions, i.IsPlayable
  light_fits : Score.finish .start light.program.instructions < 2 ^ 63
  /-- The yaw control. -/
  yaw : StoredYawControl
  yaw_timed : yaw.Timed
  /-- The return-to-home plan. -/
  plan : RthSource
  plan_ne : plan.entries ≠ []

/-- A program whose players show the timeline of some instructions, whatever they are asked before
and whatever signals there are. -/
structure LightsAsComposed (program : LightProgram) (instructions : List Instruction) : Prop where
  length_eq : program.bufferLength = program.buffer.length
  shown : ∀ (signals : Signals) (memory : UninitMemory) (calls : List LightPlayerCall)
    (call : LightPlayerCall), call.timestamp.toNat ∉ Score.starts .start instructions →
    ∃ fuel₀, ∀ fuel ≥ fuel₀, ∃ p,
      lightPlayerAfter .exact signals fuel (lightPlayerInit .exact signals memory program.buffer)
          (calls ++ [call]) = some p ∧
        p.shown = Score.shownAt call.timestamp.toNat .start instructions

/-- Whatever a yaw player is asked before, it returns some yaw at a time. -/
def TurnsAsPlanned (ctrl : YawControl) (yawAt : TimeSec → ℚ) : Prop :=
  ∀ (ops : List YawPlayer.Op) (time : TimeSec), time ≠ .nan →
    ∃ fuel₀, ∀ fuel ≥ fuel₀, ∃ first player player',
      YawPlayer.rewind .exact ctrl = ok first ∧
      YawPlayer.run .exact fuel first ops = ok player ∧
      player.getYawAt .exact fuel time = ok (yawAt time, player')

/-- At any time from zero on, a plan is evaluated to the entry that is to be taken then. -/
def ReturnsAsPlanned (loaded : RthPlan) (plan : RthSource) : Prop :=
  ∀ time : TimeSec, time.isBefore 0 = false → ∃ i entry,
    Selected .exact plan.entries time i entry ∧
      loaded.evaluateAt .exact time =
        ok (plan.describe .exact (plan.entries.take (i + 1)) entry)

namespace Show

/-- The bytes of the block of a kind. -/
def body (s : Show) : Kind → List UInt8
  | .trajectory => s.builder.bytes
  | .lightProgram => s.light.bytes
  | .rthPlan => s.plan.bytes
  | .yawControl => s.yaw.bytes

/-- The first block of each kind in a file is that of the show. -/
def WrittenTo (s : Show) (file : ShowFile) : Prop :=
  ∀ kind : Kind, ∃ block, file.firstBlock (kind.spec .exact).blockType = some block ∧
    block.body = s.body kind

/-- A file with the blocks of the show and no others, if they fit into blocks. -/
def file (s : Show) (header : ShowHeader) (h : ∀ kind, (s.body kind).length < 2 ^ 16) : ShowFile :=
  ⟨header, [Kind.trajectory, .lightProgram, .rthPlan, .yawControl].map fun kind =>
    ⟨kind.typeByte, s.body kind, kind.typeByte_ne, h kind⟩⟩

/-- **The show is written** to its file. -/
theorem writtenTo_file (s : Show) (header : ShowHeader)
    (h : ∀ kind, (s.body kind).length < 2 ^ 16) : s.WrittenTo (s.file header h) := by
  intro kind
  cases kind <;> exact ⟨_, rfl, rfl⟩

/-- Four blocks are not too much for a checksum. -/
theorem length_bytes_file_lt (s : Show) (header : ShowHeader)
    (h : ∀ kind, (s.body kind).length < 2 ^ 16) :
    (s.file header h).bytes.length < 2 ^ 32 := by
  have hheader := ShowFile.length_headerBytes_le header (s.file header h).blockBytes
  have hblocks : (s.file header h).blockBytes.length =
      (3 + (s.body .trajectory).length) + (3 + (s.body .lightProgram).length) +
        (3 + (s.body .rthPlan).length) + (3 + (s.body .yawControl).length) := by
    simp only [ShowFile.blockBytes, file, List.map_cons, List.map_nil, List.flatMap_cons,
      List.flatMap_nil, List.length_append, List.length_nil, length_bytes, Nat.add_zero,
      Nat.add_assoc]
  have htrajectory := h .trajectory
  have hlight := h .lightProgram
  have hplan := h .rthPlan
  have hyaw := h .yawControl
  rw [ShowFile.bytes, List.length_append, hblocks]
  change (ShowFile.headerBytes header (s.file header h).blockBytes).length + _ < _
  omega

/-- What is loaded performs the show. -/
def PerformedBy (s : Show) : (kind : Kind) → kind.Value → Prop
  | .trajectory, trajectory =>
      quantise s.scale.toNat (s.start.getD .zero) = trajectory.start ∧
        FlownAsPlanned trajectory s.scale.toNat s.halvings (s.start.getD .zero) s.moves
  | .lightProgram, program => LightsAsComposed program s.light.program.instructions
  | .rthPlan, plan => ReturnsAsPlanned plan s.plan
  | .yawControl, ctrl => TurnsAsPlanned ctrl s.yaw.yawAt

/-- The yaw of a show is turned as it was planned. -/
theorem turnsAsPlanned (s : Show) : TurnsAsPlanned (s.yaw.yawControl []) s.yaw.yawAt := by
  intro ops time htime
  refine ⟨s.yaw.deltas.length + 2, fun fuel hfuel => ?_⟩
  obtain ⟨setpoint, hrun, hstands⟩ := s.yaw_timed.run s.yaw.stands_start hfuel ops
  obtain ⟨rel, setpoint', hseek, -, -, -, hyaw⟩ := s.yaw_timed.seekToTime hstands htime hfuel
  refine ⟨_, _, ⟨s.yaw.yawControl [], setpoint'⟩, s.yaw.rewind_eq .exact, hrun, ?_⟩
  rw [YawPlayer.getYawAt, hseek, ok_bind, ← hyaw]
  rfl

/-- **What is set up from the block of a kind** performs the show. -/
theorem performed_of_body (s : Show) (kind : Kind) :
    ∃ value, (kind.spec .exact).initFromBytes (s.body kind) = ok value ∧
      s.PerformedBy kind value := by
  cases kind with
  | trajectory =>
      obtain ⟨b₁, hstarted, hwritten⟩ := exists_started s.builds
      obtain ⟨trajectory, hinit, hstart, hflown⟩ :=
        flownAsPlanned_of_written hstarted hwritten s.moves_halved s.moves_fit
      refine ⟨trajectory, ?_, hstart.symm, hflown⟩
      rw [Kind.initFromBytes_trajectory]
      exact hinit
  | lightProgram =>
      refine ⟨⟨s.light.bytes, s.light.bytes.length⟩, rfl, rfl, ?_⟩
      intro signals memory calls call hstarts
      exact StructuredCode.exists_shown signals memory s.light_playable s.light_fits calls
        hstarts
  | rthPlan =>
      refine ⟨s.plan.plan, ?_, fun time htime => ?_⟩
      · rw [Kind.initFromBytes_rthPlan]
        exact s.plan.initFromBuffer_bytes
      · obtain ⟨i, entry, hselected⟩ := exists_selected .exact s.plan_ne time
        exact ⟨i, entry, hselected, s.plan.evaluateAt_selected .exact htime hselected⟩
  | yawControl =>
      refine ⟨s.yaw.yawControl [], ?_, s.turnsAsPlanned⟩
      have hinit := s.yaw.initFromBuffer []
      rw [List.append_nil] at hinit
      rw [Kind.initFromBytes_yawControl]
      exact hinit

end Show

/-- **A whole show**: whatever is loaded from a file to which a show was written, in any order and
as often as one likes, from memory or by a descriptor, is loaded into memory of its own, and
performs the show when everything has been loaded. -/
theorem show_performed (s : Show) (file : ShowFile) (hsize : file.bytes.length < 2 ^ 32)
    (hwritten : s.WrittenTo file) (loads : List Load) (h : Heap UInt8) :
    ∃ objects h', loadAll .exact file.bytes loads h = ok (objects, h') ∧
      objects.map Sigma.fst = loads.map Load.kind ∧
      (∀ id, h.Live id → h'.block id = h.block id) ∧
      (objects.map fun o => o.2.buffer).Nodup ∧
      ∀ o ∈ objects, o.2.owner = true ∧
        s.PerformedBy o.1 ((o.1.spec .exact).value h' o.2) := by
  have hall := fun kind => s.performed_of_body kind
  choose values hinit hperformed using hall
  obtain ⟨objects, h', hload, hkinds, hkeeps, hloaded⟩ :=
    loadAll_eq_ok file hsize .exact values loads (fun load _ => by
      obtain ⟨block, hblock, hbody⟩ := hwritten load.kind
      exact ⟨block, hblock, hbody ▸ hinit load.kind⟩) h
  refine ⟨objects, h', hload, hkinds, hkeeps, hloaded.nodup, fun o ho => ?_⟩
  rw [hloaded.value o ho]
  exact ⟨hloaded.owner o ho, hperformed o.1⟩

/-- A meter up, three flashes, a turn, and a plan to land after five seconds. Everything is loaded
from a file with a checksum, the light program twice. -/
theorem show_performed_oneMeter :
    ∃ (s : Show) (file : ShowFile) (objects : List LoadedObject) (h' : Heap UInt8),
      s.moves = [.line (fun _ => true) ⟨0, 0, 1000, 0⟩ 2000, .hold (fun _ => true) 1000] ∧
      s.light = flashes ∧ s.yaw = turnAndBack ∧ s.WrittenTo file ∧
      loadAll .exact file.bytes
          [⟨.lightProgram, .file, ⟨.memory, [], 0, 0, 0, 0, ⟨0, 0, 0⟩⟩⟩,
            ⟨.trajectory, .memory, ⟨.memory, [], 0, 0, 0, 0, ⟨0, 0, 0⟩⟩⟩,
            ⟨.yawControl, .memory, ⟨.memory, [], 0, 0, 0, 0, ⟨0, 0, 0⟩⟩⟩,
            ⟨.rthPlan, .memory, ⟨.memory, [], 0, 0, 0, 0, ⟨0, 0, 0⟩⟩⟩,
            ⟨.lightProgram, .memory, ⟨.memory, [], 0, 0, 0, 0, ⟨0, 0, 0⟩⟩⟩] .empty =
        ok (objects, h') ∧
      objects.map Sigma.fst =
        [.lightProgram, .trajectory, .yawControl, .rthPlan, .lightProgram] ∧
      (objects.map fun o => o.2.buffer).Nodup ∧
      ∀ o ∈ objects, s.PerformedBy o.1 ((o.1.spec .exact).value h' o.2) := by
  let plan : RthSource :=
    { scale := 1
      points := []
      entries := [⟨5, .land, 0, none, none⟩]
      scale_le := by decide
      length_points := by decide
      points_fit := nofun
      length_entries := by decide
      entries_valid := by
        intro entry hentry
        obtain rfl := List.mem_singleton.1 hentry
        exact ⟨trivial, by decide, nofun, nofun⟩
      time_lt := by decide }
  let s : Show :=
    { scale := 10
      flags := 0
      start := none
      moves := [.line (fun _ => true) ⟨0, 0, 1000, 0⟩ 2000, .hold (fun _ => true) 1000]
      builder := _
      builds := builds_oneMeter
      moves_fit := by decide
      halvings := 0
      moves_halved := halved_oneMeter
      light := flashes
      light_playable := by decide
      light_fits := by decide
      yaw := turnAndBack
      yaw_timed := ⟨by decide, by decide⟩
      plan := plan
      plan_ne := by decide }
  have hbody : ∀ kind, (s.body kind).length < 2 ^ 16 := by
    intro kind
    cases kind <;> decide +kernel
  obtain ⟨objects, h', hload, hkinds, -, hnodup, hperformed⟩ := show_performed s
    (s.file (.versionTwo 1) hbody) (s.length_bytes_file_lt _ hbody) (s.writtenTo_file _ hbody)
    [⟨.lightProgram, .file, ⟨.memory, [], 0, 0, 0, 0, ⟨0, 0, 0⟩⟩⟩,
      ⟨.trajectory, .memory, ⟨.memory, [], 0, 0, 0, 0, ⟨0, 0, 0⟩⟩⟩,
      ⟨.yawControl, .memory, ⟨.memory, [], 0, 0, 0, 0, ⟨0, 0, 0⟩⟩⟩,
      ⟨.rthPlan, .memory, ⟨.memory, [], 0, 0, 0, 0, ⟨0, 0, 0⟩⟩⟩,
      ⟨.lightProgram, .memory, ⟨.memory, [], 0, 0, 0, 0, ⟨0, 0, 0⟩⟩⟩] .empty
  exact ⟨s, _, objects, h', rfl, rfl, rfl, s.writtenTo_file _ hbody, hload, hkinds, hnodup,
    fun o ho => (hperformed o ho).2⟩

end Skybrush
