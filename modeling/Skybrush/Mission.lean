import Skybrush.PlannedFlight
import Skybrush.RthEvaluation
import Skybrush.RthFlight
import Skybrush.ShowFile

/-!
# Missions

What a vehicle does with a show file, from the bytes of the file to the positions that it is
told. A trajectory that was made by a builder is put into a file, loaded from it and played; and
a return-to-home plan is put into a file, loaded, evaluated, converted into a trajectory and
played. In both cases the positions are those of the plan, truncated to the scale, up to the
half milliseconds that are lost where long lines are split.

## Main results

* `flownAsPlanned_of_written`: a trajectory that was written is flown as it was planned.
* `built_mission`: from the calls on a builder to the positions.
* `rth_mission`: from a return-to-home plan to the positions.
-/

namespace Skybrush

open Checked Rounding TrajectoryBuilder TrajectoryPlayer

/-- A trajectory is flown as some moves were planned: whatever a player is asked before, the
position that it returns at any time is a planned one, truncated to the scale, up to some halves
of a millisecond. -/
def FlownAsPlanned (trajectory : Trajectory) (scale n : ℕ) (start : Vector3WithYaw)
    (moves : List Move) : Prop :=
  ∀ (ops : List PlayerOp) (x : ℚ), ∃ fuel₀, ∀ fuel ≥ fuel₀, ∃ first player position player',
    TrajectoryPlayer.rewind .exact trajectory = ok first ∧
    TrajectoryPlayer.run .exact fuel first ops = ok player ∧
    player.getPositionAt .exact fuel (.finite x) = ok (position, player') ∧
    ∃ t : ℚ, 0 ≤ t ∧ |t - max 0 (1000 * x)| ≤ n / 2 ∧
      Truncates scale (plannedAt t start 0 moves) position

/-! ### What was written -/

/-- The segments of moves take time. -/
theorem pos_moveSegments {n : ℕ} {moves : List Move} (hmoves : ∀ move ∈ moves, move.HalvedIn n)
    (last : Vector3WithYaw) : ∀ s ∈ moveSegments .exact last moves, 0 < s.2 := by
  induction moves generalizing last with
  | nil => exact List.forall_mem_nil _
  | cons move moves ih =>
      intro s hs
      rcases List.mem_append.1 hs with hfirst | hrest
      · cases move with
        | line alloc target durationMsec =>
            exact pos_lineSegments (hmoves _ List.mem_cons_self).1 s hfirst
        | hold alloc durationMsec => exact pos_holdSegments last durationMsec s hfirst
      · exact ih (fun m hm => hmoves m (List.mem_cons_of_mem _ hm)) _ s hrest

/-- The segments of moves take as long as the moves. -/
theorem sum_moveSegments (last : Vector3WithYaw) (moves : List Move) :
    ((moveSegments .exact last moves).map Prod.snd).sum = (moves.map Move.durationMsec).sum := by
  induction moves generalizing last with
  | nil => rfl
  | cons move moves ih =>
      rw [moveSegments, List.map_append, List.sum_append, ih, List.map_cons, List.sum_cons]
      cases move with
      | line alloc target durationMsec =>
          exact congrArg (· + _) (splits_lineSegments last target durationMsec).1.sum_eq
      | hold alloc durationMsec =>
          exact congrArg (· + _) (splits_holdSegments last durationMsec).1.sum_eq

/-- **A trajectory that was written** by a builder is flown as it was planned. -/
theorem flownAsPlanned_of_written {scale flags : UInt8} {start : Vector3WithYaw}
    {b₁ b : TrajectoryBuilder} {moves : List Move} {n : ℕ}
    (hstarted : Started scale flags start b₁)
    (hwritten : Written .exact b₁ (moveSegments .exact start moves) b)
    (hmoves : ∀ move ∈ moves, move.HalvedIn n)
    (hfits : (moves.map Move.durationMsec).sum < 2 ^ 32) :
    ∃ trajectory, Trajectory.initFromBytes .exact true b.bytes = ok trajectory ∧
      trajectory.start = quantise scale.toNat start ∧
      FlownAsPlanned trajectory scale.toNat n start moves := by
  have hshort := short_moveSegments (F := .exact) start moves
  obtain ⟨t, hbytes, hscale, hstart, hsegments, hall⟩ :=
    StoredTrajectory.exists_of_written hstarted hwritten hshort
  have htimed : t.Timed := by
    constructor
    · rw [hsegments]
      exact StoredSegment.pos_ofSegments hshort (pos_moveSegments hmoves start)
    · rwa [hsegments, StoredSegment.totalDuration_ofSegments hshort, sum_moveSegments]
  have hpositive : 0 < scale.toNat :=
    Nat.pos_of_ne_zero fun hzero => hstarted.scale_ne (UInt8.toNat_inj.1 hzero)
  refine ⟨t.trajectory, by rw [hbytes, t.initFromBytes], hstart, fun ops x => ?_⟩
  refine ⟨t.segments.length + 2, fun fuel hfuel => ?_⟩
  obtain ⟨segment, hrun, hstands⟩ := htimed.run t.stands_rewind hfuel ops
  obtain ⟨rel, segment', hseek, -, -, -, heval⟩ :=
    htimed.seekToTime hstands (show TimeSec.finite x ≠ .nan from nofun) hfuel
  refine ⟨_, _, t.positionAt (.finite x), ⟨t.trajectory, segment'⟩, t.rewind, hrun, ?_, ?_⟩
  · rw [getPositionAt, hseek, ok_bind, ← heval]
    rfl
  · have hclip : t.positionAt (.finite x) = StoredSegment.positionAt scale.toNat
        (max 0 (1000 * x)) (quantise scale.toNat start) 0
        (StoredSegment.ofSegments scale.toNat start (moveSegments .exact start moves)) := by
      rw [← hscale, hscale, ← hstart, ← hsegments, StoredTrajectory.positionAt]
      split
      case isTrue hle =>
        rw [max_eq_left (by linarith), ← Nat.cast_zero, StoredSegment.positionAt_start]
      case isFalse hlt =>
        rw [max_eq_right (by linarith), hscale]
    have hnonneg : ((0 : ℕ) : ℚ) ≤ max 0 (1000 * x) := by
      rw [Nat.cast_zero]
      exact le_max_left _ _
    obtain ⟨t', hle, hdrift, hnear⟩ :=
      StoredSegment.near_moveSegments hpositive hmoves hall hnonneg
    rw [hclip]
    rw [Nat.cast_zero] at hle
    exact ⟨t', hle, hdrift, hnear⟩

/-! ### Missions -/

/-- **A mission that was built**: the bytes of a builder are put into a show file, and what is
loaded from the file, from memory or by a descriptor, is flown as it was planned. -/
theorem built_mission {scale flags : UInt8} {start : Option Vector3WithYaw} {moves : List Move}
    {b : TrajectoryBuilder} (h : Builds .exact scale flags start moves b) {n : ℕ}
    (hmoves : ∀ move ∈ moves, move.HalvedIn n)
    (hfits : (moves.map Move.durationMsec).sum < 2 ^ 32) (file : ShowFile)
    (hsize : file.bytes.length < 2 ^ 32) {block : ShowBlock}
    (hblock : file.firstBlock binaryBlockTrajectory = some block) (hbody : block.body = b.bytes)
    (source : BinarySource) (junk : BinaryFileParser) (heap : Heap UInt8) :
    ∃ object trajectory,
      Kind.trajectory.initFromBinaryFile .exact source file.bytes junk true heap =
        ok (object, heap.push b.bytes) ∧
      object.buffer = some heap.next ∧ object.owner = true ∧
      (Trajectory.kind .exact).value (heap.push b.bytes) object = trajectory ∧
      trajectory.start = quantise scale.toNat (start.getD .zero) ∧
      FlownAsPlanned trajectory scale.toNat n (start.getD .zero) moves := by
  obtain ⟨b₁, hstarted, hwritten⟩ := exists_started h
  obtain ⟨trajectory, hinit, hstart, hflown⟩ :=
    flownAsPlanned_of_written hstarted hwritten hmoves hfits
  have hvalue : (Kind.trajectory.spec .exact).initFromBytes block.body = ok trajectory := by
    rw [Kind.initFromBytes_trajectory, hbody, hinit]
  have hfirst : file.firstBlock (Kind.trajectory.spec .exact).blockType = some block := hblock
  obtain ⟨object, hload, hbuffer, howner, hobject⟩ :=
    file.exists_loaded hsize .exact source junk heap hfirst hvalue
  rw [hbody] at hload hobject
  exact ⟨object, trajectory, hload, hbuffer, howner, hobject, hstart, hflown⟩

/-- One meter up in two seconds, and a second of rest, in the bytes of a builder. -/
theorem builds_oneMeter :
    Builds .exact 10 0 none
      [.line (fun _ => true) ⟨0, 0, 1000, 0⟩ 2000, .hold (fun _ => true) 1000]
      ⟨⟨[10, 0, 0, 0, 0, 0, 0, 0, 0, 16, 208, 7, 100, 0, 0, 232, 3], 72, true⟩,
        ⟨0, 0, 1000, 0⟩, 10⟩ := by
  let b₀ : TrajectoryBuilder := ⟨⟨[10, 0, 0, 0, 0, 0, 0, 0, 0], 9, true⟩, .zero, 10⟩
  let b₁ : TrajectoryBuilder :=
    ⟨⟨[10, 0, 0, 0, 0, 0, 0, 0, 0, 16, 208, 7, 100, 0], 36, true⟩, ⟨0, 0, 1000, 0⟩, 10⟩
  let b₂ : TrajectoryBuilder :=
    ⟨⟨[10, 0, 0, 0, 0, 0, 0, 0, 0, 16, 208, 7, 100, 0, 0, 232, 3], 72, true⟩, ⟨0, 0, 1000, 0⟩, 10⟩
  have hline : (appendLine .exact (fun _ => true) ⟨0, 0, 1000, 0⟩ 2000).run b₀ = .ok () b₁ := by
    have hres : Buffer.reservation b₀.buffer.size b₀.buffer.capacity 11 = some 36 := by
      decide +kernel
    have hfits : SegmentFits .exact b₀.scale b₀.lastPosition ⟨0, 0, 1000, 0⟩ :=
      ⟨fun h => absurd rfl h, fun h => absurd rfl h, fun _ => by norm_num [CoordinateFits, b₀]⟩
    have hb₁ : appended .exact b₀ ⟨0, 0, 1000, 0⟩ 2000 36 = b₁ := by decide +kernel
    rw [run_appendLine_of_le rfl _ (by decide), appendSegment_done rfl hres (Or.inr rfl) hfits, hb₁]
  have hhold : (holdPositionFor .exact (fun _ => true) 1000).run b₁ = .ok () b₂ := by
    rw [run_holdPositionFor rfl, holdSegments, if_pos (by decide), holdSegments,
      if_neg (by decide)]
    rfl
  refine ⟨b₀, rfl, ?_⟩
  simp only [Option.map_none, Option.toList_none, List.map_cons, List.map_nil, Move.call,
    List.nil_append, runCalls, Call.action, EStateM.run_bind, hline, hhold, EStateM.run_pure]
  rfl

/-- Neither move is split. -/
theorem halved_oneMeter : ∀ move ∈ [Move.line (fun _ => true) ⟨0, 0, 1000, 0⟩ 2000,
    .hold (fun _ => true) 1000], move.HalvedIn 0 := by
  intro move hmove
  rcases List.mem_cons.1 hmove with rfl | hmove
  · exact ⟨by decide, by decide⟩
  · obtain rfl := List.mem_singleton.1 hmove
    trivial

/-- One meter up in two seconds, and a second of rest, in a file with a comment before. -/
theorem built_mission_oneMeter :
    ∃ object trajectory,
      Kind.trajectory.initFromBinaryFile .exact .memory
        (ShowFile.bytes ⟨.versionTwo 1, [⟨3, [104, 105], by decide, by decide⟩,
          ⟨1, [10, 0, 0, 0, 0, 0, 0, 0, 0, 16, 208, 7, 100, 0, 0, 232, 3], by decide,
            by decide⟩]⟩) ⟨.memory, [], 0, 0, 0, 0, ⟨0, 0, 0⟩⟩ true .empty =
          ok (object, Heap.empty.push
            [10, 0, 0, 0, 0, 0, 0, 0, 0, 16, 208, 7, 100, 0, 0, 232, 3]) ∧
      object.buffer = some 0 ∧ object.owner = true ∧
      (Trajectory.kind .exact).value (Heap.empty.push
        [10, 0, 0, 0, 0, 0, 0, 0, 0, 16, 208, 7, 100, 0, 0, 232, 3]) object = trajectory ∧
      trajectory.start = quantise 10 .zero ∧
      FlownAsPlanned trajectory 10 0 .zero
        [.line (fun _ => true) ⟨0, 0, 1000, 0⟩ 2000, .hold (fun _ => true) 1000] := by
  let block : ShowBlock := ⟨1, [10, 0, 0, 0, 0, 0, 0, 0, 0, 16, 208, 7, 100, 0, 0, 232, 3],
    by decide, by decide⟩
  let file : ShowFile := ⟨.versionTwo 1, [⟨3, [104, 105], by decide, by decide⟩, block]⟩
  have hsize : file.bytes.length < 2 ^ 32 := by
    have hheader := ShowFile.length_headerBytes_le file.header file.blockBytes
    have hblocks : file.blockBytes.length = 25 := rfl
    rw [ShowFile.bytes, List.length_append]
    omega
  exact built_mission builds_oneMeter halved_oneMeter (by decide) file hsize
    (show _ = some block from rfl) rfl .memory ⟨.memory, [], 0, 0, 0, 0, ⟨0, 0, 0⟩⟩ .empty

/-! ### Return-to-home missions -/

/-- **An entry** that can be converted is flown as its legs ask for, if there is memory. -/
theorem flownAsPlanned_of_entry {alloc : Allocator} (halloc : ∀ n, alloc n = true)
    {time : TimeSec} {entry : RthPlanEntry} (h : entry.Evaluated time)
    (hnan : entry.timeSec ≠ .nan) {start : Vector3WithYaw} (hfits : ¬ entry.Overflows .exact start)
    {n : ℕ} (hlegs : ∀ leg ∈ entry.legs start, (leg.move alloc).HalvedIn n)
    (hsum : ((entry.legs start).map Leg.durationMsec).sum < 2 ^ 32) :
    ∃ scale trajectory, scaleFor .exact entry start = .ok scale ∧
      Trajectory.initFromRthPlanEntry .exact alloc entry start = ok trajectory ∧
      trajectory.start = quantise scale.toNat start ∧
      FlownAsPlanned trajectory scale.toNat n start ((entry.legs start).map (Leg.move alloc)) := by
  rw [overflows_exact_iff h] at hfits
  cases hscale : scaleFor .exact entry start with
  | error e => exact absurd (.inl (scaleFor_error hscale).2) hfits
  | ok scale =>
      obtain ⟨b₀, b₁, hinit, hstart, hstarted, houtcome⟩ :=
        exists_outcome alloc h hnan (scaleFor_ok reachedBy_exact hscale)
      have hwait := lasts_legs h hnan start _ List.mem_cons_self
      rcases msec_of_lasts hwait with ⟨-, -, hmsec⟩ | ⟨hlong, -⟩
      · rw [initFromRthPlanEntry_eq h hscale hmsec hinit hstart (halloc _)]
        cases houtcome with
        | @written b hrun hwritten hshort =>
            rw [hstarted.lastPosition_eq] at hwritten
            have hmoves : ∀ move ∈ (entry.legs start).map (Leg.move alloc), move.HalvedIn n := by
              intro move hmove
              obtain ⟨leg, hleg, rfl⟩ := List.mem_map.1 hmove
              exact hlegs leg hleg
            obtain ⟨trajectory, hbytes, hposition, hflown⟩ := flownAsPlanned_of_written hstarted
              hwritten hmoves (by rwa [durationMsec_move])
            obtain ⟨builder, hbuilder⟩ := initFromBuilder_of_bytes
              (Nat.zero_lt_of_lt (hstarted.length_lt hwritten)) hbytes
            refine ⟨scale, trajectory, rfl, ?_, hposition, hflown⟩
            simp only [hrun, hbuilder, ok_bind]
        | tooLong _ hmem hlong => exact absurd (.inr ⟨_, hmem, hlong⟩) hfits
        | @noMemory _ n _ hmemory =>
            rw [halloc] at hmemory
            cases hmemory
      · exact absurd (.inr ⟨_, List.mem_cons_self, hlong⟩) hfits

open RthSource in
/-- **A return-to-home mission**: the bytes of a plan are put into a show file. What is loaded from
the file, from memory or by a descriptor, is evaluated at any time to the entry that was asked
for, and the trajectory into which the entry is converted is flown as its legs ask for. -/
theorem rth_mission (plan : RthSource) (hne : plan.entries ≠ []) (file : ShowFile)
    (hsize : file.bytes.length < 2 ^ 32) {block : ShowBlock}
    (hblock : file.firstBlock binaryBlockRthPlan = some block) (hbody : block.body = plan.bytes)
    (source : BinarySource) (junk : BinaryFileParser) (heap : Heap UInt8) :
    ∃ object loaded,
      Kind.rthPlan.initFromBinaryFile .exact source file.bytes junk true heap =
        ok (object, heap.push plan.bytes) ∧
      object.buffer = some heap.next ∧ object.owner = true ∧
      RthPlan.kind.value (heap.push plan.bytes) object = loaded ∧
      ∀ time : TimeSec, time.isBefore 0 = false → ∃ i entry described,
        Selected .exact plan.entries time i entry ∧
        described = plan.describe .exact (plan.entries.take (i + 1)) entry ∧
        loaded.evaluateAt .exact time = ok described ∧
        ∀ (alloc : Allocator) (start : Vector3WithYaw) (n : ℕ), (∀ k, alloc k = true) →
          ¬ described.Overflows .exact start →
          (∀ leg ∈ described.legs start, (leg.move alloc).HalvedIn n) →
          ((described.legs start).map Leg.durationMsec).sum < 2 ^ 32 →
          ∃ scale trajectory, scaleFor .exact described start = .ok scale ∧
            Trajectory.initFromRthPlanEntry .exact alloc described start = ok trajectory ∧
            trajectory.start = quantise scale.toNat start ∧
            FlownAsPlanned trajectory scale.toNat n start
              ((described.legs start).map (Leg.move alloc)) := by
  have hvalue : (Kind.rthPlan.spec .exact).initFromBytes block.body = ok plan.plan := by
    rw [Kind.initFromBytes_rthPlan, hbody, plan.initFromBuffer_bytes]
  have hfirst : file.firstBlock (Kind.rthPlan.spec .exact).blockType = some block := hblock
  obtain ⟨object, hload, hbuffer, howner, hobject⟩ :=
    file.exists_loaded hsize .exact source junk heap hfirst hvalue
  rw [hbody] at hload hobject
  refine ⟨object, plan.plan, hload, hbuffer, howner, hobject, fun time htime => ?_⟩
  obtain ⟨i, entry, hselected⟩ := exists_selected .exact hne time
  have hevaluate := plan.evaluateAt_selected .exact htime hselected
  refine ⟨i, entry, _, hselected, rfl, hevaluate, fun alloc start n halloc hfits hlegs hsum => ?_⟩
  exact flownAsPlanned_of_entry halloc (RthPlan.evaluated_of_evaluateAt hevaluate)
    (show TimeSec.finite _ ≠ .nan from nofun) hfits hlegs hsum

/-- From a height of one meter, after three seconds: at five seconds, climb by 500 mm in two
seconds, and go to (100, 0, 3000) in ten seconds. -/
theorem rth_mission_climbAndGo :
    ∃ object loaded described trajectory,
      Kind.rthPlan.initFromBinaryFile .exact .file
          (ShowFile.bytes ⟨.versionOne, [⟨4, climbAndGo, by decide, by decide⟩]⟩)
          ⟨.memory, [], 0, 0, 0, 0, ⟨0, 0, 0⟩⟩ true .empty =
        ok (object, Heap.empty.push climbAndGo) ∧
      RthPlan.kind.value (Heap.empty.push climbAndGo) object = loaded ∧
      loaded.evaluateAt .exact (.finite 3) = ok described ∧
      Trajectory.initFromRthPlanEntry .exact (fun _ => true) described ⟨0, 0, 1000, 0⟩ =
        ok trajectory ∧
      FlownAsPlanned trajectory 1 0 ⟨0, 0, 1000, 0⟩
        [.hold (fun _ => true) 5000, .line (fun _ => true) ⟨0, 0, 1500, 0⟩ 2000,
          .line (fun _ => true) ⟨100, 0, 3000, 0⟩ 10000] := by
  let plan : RthSource :=
    { scale := 1
      points := [(100, 0)]
      entries := [⟨5, .goToWithAltitude 0 3000 500 2, 10, none, none⟩]
      scale_le := by decide
      length_points := by decide
      points_fit := by decide
      length_entries := by decide
      entries_valid := by
        intro entry hentry
        obtain rfl := List.mem_singleton.1 hentry
        exact ⟨⟨by decide, by decide, by decide, by decide⟩, by decide, nofun, nofun⟩
      time_lt := by decide }
  have hbytes : plan.bytes = climbAndGo := by decide +kernel
  let block : ShowBlock := ⟨4, climbAndGo, by decide, by decide⟩
  obtain ⟨object, loaded, hload, -, -, hobject, hmission⟩ := rth_mission plan (by decide)
    ⟨.versionOne, [block]⟩ (by decide) (show _ = some block from rfl) hbytes.symm .file
    ⟨.memory, [], 0, 0, 0, 0, ⟨0, 0, 0⟩⟩ .empty
  rw [hbytes] at hload hobject
  obtain ⟨i, entry, described, hselected, hdescribed, hevaluate, hflies⟩ :=
    hmission (.finite 3) (by decide)
  -- there is only one entry
  obtain ⟨hlt, -⟩ := List.getElem?_eq_some_iff.1 hselected.entry_eq
  obtain rfl : i = 0 := Nat.lt_one_iff.1 hlt
  obtain rfl := Option.some.inj hselected.entry_eq
  have hlegs : described.legs ⟨0, 0, 1000, 0⟩ = [.hold (.finite 5),
      .line ⟨0, 0, 1500, 0⟩ (.finite 2), .line ⟨100, 0, 3000, 0⟩ (.finite 10)] := by
    rw [hdescribed]
    decide +kernel
  have hmoves : [Leg.hold (.finite 5), .line ⟨0, 0, 1500, 0⟩ (.finite 2),
      .line ⟨100, 0, 3000, 0⟩ (.finite 10)].map (Leg.durationMsec) = [5000, 2000, 10000] := by
    decide +kernel
  simp only [List.map_cons, List.map_nil, List.cons.injEq, and_true] at hmoves
  obtain ⟨hfive, htwo, hten⟩ := hmoves
  have hscale : scaleFor .exact described ⟨0, 0, 1000, 0⟩ = .ok 1 := by
    rw [hdescribed]
    decide +kernel
  have hfits : ¬ described.Overflows .exact ⟨0, 0, 1000, 0⟩ := by
    rw [overflows_exact_iff (RthPlan.evaluated_of_evaluateAt hevaluate)]
    rintro (hfar | ⟨leg, hmem, hlong⟩)
    · exact (scaleFor_ok reachedBy_exact hscale).not_somethingTooFar hfar
    · rw [hlegs] at hmem
      simp only [List.mem_cons, List.not_mem_nil, or_false] at hmem
      rcases hmem with rfl | rfl | rfl
      · exact not_tooLong_of_le rfl (by norm_num [uint32Max]) hlong
      · exact not_tooLong_of_le rfl (by norm_num [uint32Max]) hlong
      · exact not_tooLong_of_le rfl (by norm_num [uint32Max]) hlong
  obtain ⟨scale, trajectory, hscale', hconverted, -, hflown⟩ :=
    hflies (fun _ => true) ⟨0, 0, 1000, 0⟩ 0 (fun _ => rfl) hfits
      (by
        rw [hlegs]
        intro leg hmem
        simp only [List.mem_cons, List.not_mem_nil, or_false] at hmem
        rcases hmem with rfl | rfl | rfl
        · trivial
        · rw [Leg.move, htwo]
          exact ⟨by decide, by decide⟩
        · rw [Leg.move, hten]
          exact ⟨by decide, by decide⟩)
      (by
        rw [hlegs]
        simp only [List.map_cons, List.map_nil, hfive, htwo, hten]
        decide)
  obtain rfl : 1 = scale := Except.ok.inj (hscale.symm.trans hscale')
  simp only [hlegs, List.map_cons, List.map_nil, Leg.move, hfive, htwo, hten] at hflown
  exact ⟨object, loaded, described, trajectory, hload, hobject, hevaluate, hconverted, hflown⟩

end Skybrush
