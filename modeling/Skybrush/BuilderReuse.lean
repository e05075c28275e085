import Skybrush.StoredTrajectory

/-!
# Reusing a Trajectory Builder

A trajectory builder remembers the last position that it was given, and leaves out the
coordinates of the next segment that have not changed. That is right as long as a player
that walks to the end of the bytes arrives at the same position, quantised: the memory of
the builder and the position of the player are two copies of one fact.

All calls keep the two in step but one. When the bytes of a builder are handed over to a
trajectory, the builder starts again with a header whose start position is the origin, and
still remembers the position that it had. The next trajectory is right only if the two
happen to be the same.

## Main results

* `TrajectoryBuilder.Written.playerAtEnd_eq`: where a player arrives that walks to the end of
  the bytes.
* `TrajectoryBuilder.InStep.playerAgrees`: builder and player are in step.
* `TrajectoryBuilder.InStep.initFromBuilder`: the hand-over keeps them in step at the origin.
* `builder_inStep_iff`: a builder is in step with its player in all states of a run if and
  only if all hand-overs of the run are made at the origin.
-/

namespace Skybrush

open Checked Rounding TrajectoryPlayer

/-- Where a player arrives that walks to the end of encoded bytes. -/
def playerAtEnd (bytes : List UInt8) : Checked SbError Vector3WithYaw := do
  let trajectory ← Trajectory.initFromBytes .exact true bytes
  let player ← rewind .exact trajectory
  let (_, player) ← walk .exact bytes.length player
  pure (player.currentSegment.data.poly.eval .exact 0)

namespace TrajectoryBuilder

/-! ### Runs -/

/-- A call on a builder that may be used for several trajectories. -/
inductive Operation where
  | init (scale flags : UInt8)
  | setStartPosition (start : Vector3WithYaw)
  | move (m : Move)
  | initFromBuilder

/-- The operation succeeds on a builder, and leaves another one. -/
def Operation.Succeeds (b b' : TrajectoryBuilder) : Operation → Prop
  | .init scale flags => TrajectoryBuilder.init scale flags = .ok b'
  | .setStartPosition start => (TrajectoryBuilder.setStartPosition .exact start).run b = .ok () b'
  | .move m => (m.call.action .exact).run b = .ok () b'
  | .initFromBuilder =>
      ∃ trajectory, Trajectory.initFromBuilder .exact b = ok (trajectory, b')

/-- A run of operations that all succeed, each with the builder behind it. -/
inductive Run : TrajectoryBuilder → List (Operation × TrajectoryBuilder) → Prop
  | nil {b : TrajectoryBuilder} : Run b []
  | cons {b b' : TrajectoryBuilder} {op : Operation}
      {steps : List (Operation × TrajectoryBuilder)} (hop : op.Succeeds b b')
      (hrest : Run b' steps) : Run b ((op, b') :: steps)

/-- A player that walks to the end of the bytes arrives at the quantised last position. -/
def PlayerAgrees (b : TrajectoryBuilder) : Prop :=
  playerAtEnd b.bytes = ok (quantise b.scale b.lastPosition)

/-- The last position is stored as the origin. -/
def AtOrigin (b : TrajectoryBuilder) : Prop := quantise b.scale b.lastPosition = .zero

/-- **The condition on a run**: when the bytes are handed over, the builder is at the origin. -/
def HandsOverAtOrigin : TrajectoryBuilder → List (Operation × TrajectoryBuilder) → Prop
  | _, [] => True
  | b, (.initFromBuilder, b') :: steps => b.AtOrigin ∧ HandsOverAtOrigin b' steps
  | _, (_, b') :: steps => HandsOverAtOrigin b' steps

/-! ### Builders in step -/

/-- The bytes of a builder are a header with a start position, followed by segments from there
to the last position. -/
structure InStep (b : TrajectoryBuilder) : Prop where
  exists_written : ∃ scale flags start b₀ segments, Started scale flags start b₀ ∧
    Written .exact b₀ segments b ∧ ∀ s ∈ segments, s.2 ≤ maxDurationMsec

theorem Started.inStep {scale flags : UInt8} {start : Vector3WithYaw} {b : TrajectoryBuilder}
    (h : Started scale flags start b) : b.InStep :=
  ⟨scale, flags, start, b, [], h, .nil h.owned, List.forall_mem_nil _⟩

/-- A player that walks over a header and segments arrives behind the last one. -/
theorem Written.playerAtEnd_eq {scale flags : UInt8} {start : Vector3WithYaw}
    {b₀ b : TrajectoryBuilder} {segments : List Segment} (hstarted : Started scale flags start b₀)
    (hwritten : Written .exact b₀ segments b) (hshort : ∀ s ∈ segments, s.2 ≤ maxDurationMsec) :
    playerAtEnd b.bytes = ok (quantise scale.toNat (endOf start segments)) := by
  obtain ⟨trajectory, player, final, hinit, -, -, hrewind, hwalk, _, hend⟩ :=
    walk_written hstarted hwritten hshort
  rw [playerAtEnd, hinit, ok_bind, hrewind, ok_bind, hwalk _ le_rfl]
  change ok (final.currentSegment.data.poly.eval .exact 0) = _
  rw [hend, eval_restSegment]

/-- **Builder and player are in step.** -/
theorem InStep.playerAgrees {b : TrajectoryBuilder} (h : b.InStep) : b.PlayerAgrees := by
  obtain ⟨scale, flags, start, b₀, segments, hstarted, hwritten, hshort⟩ := h.exists_written
  rw [PlayerAgrees, hwritten.playerAtEnd_eq hstarted hshort, hwritten.scale_eq,
    hwritten.lastPosition_eq, hstarted.scale_eq, hstarted.lastPosition_eq]

/-! ### What the operations keep -/

/-- Setting the start position succeeds only on a builder that has not moved. -/
theorem InStep.setStartPosition {start : Vector3WithYaw} {b b' : TrajectoryBuilder} (h : b.InStep)
    (hrun : (setStartPosition .exact start).run b = .ok () b') : b'.InStep := by
  obtain ⟨scale, flags, old, b₀, segments, hstarted, hwritten, -⟩ := h.exists_written
  have hsize : b.buffer.size = headerLength := by
    by_contra hsize
    rw [run_setStartPosition_of_ne .exact start hsize] at hrun
    cases hrun
  have hlength := congrArg List.length hwritten.bytes_eq
  have hcount := length_le_encodeSegments .exact b₀.scale b₀.lastPosition segments
  have hheader : b₀.bytes.length = headerLength := by
    rw [hstarted.bytes_eq]
    rfl
  rw [List.length_append, hheader, show b.bytes.length = headerLength from hsize] at hlength
  obtain rfl : segments = [] := List.eq_nil_of_length_eq_zero (by omega)
  have hb : Started scale flags old b :=
    { hstarted with
      bytes_eq := by rw [hwritten.bytes_eq, hstarted.bytes_eq]; exact List.append_nil _
      lastPosition_eq := hwritten.lastPosition_eq.trans hstarted.lastPosition_eq
      scale_eq := hwritten.scale_eq.trans hstarted.scale_eq
      owned := hwritten.owned }
  exact (hb.setStartPosition hrun).inStep

theorem InStep.move {move : Move} {b b' : TrajectoryBuilder} (h : b.InStep)
    (hrun : (move.call.action .exact).run b = .ok () b') : b'.InStep := by
  obtain ⟨scale, flags, start, b₀, segments, hstarted, hwritten, hshort⟩ := h.exists_written
  refine ⟨scale, flags, start, b₀, _, hstarted,
    hwritten.trans (written_call hwritten.owned hrun), fun s hs => ?_⟩
  rcases List.mem_append.mp hs with hs | hs
  · exact hshort s hs
  · exact short_moveSegments b.lastPosition [move] s (List.mem_append_left _ hs)

/-- **What the hand-over leaves behind**: a builder that was initialised again, but for its last
position. -/
theorem InStep.initFromBuilder_eq {trajectory : Trajectory} {b b' : TrajectoryBuilder}
    (h : b.InStep) (hrun : Trajectory.initFromBuilder .exact b = ok (trajectory, b')) :
    ∃ scale flags b₀, init scale flags = .ok b₀ ∧ b₀.scale = b.scale ∧
      b' = { b₀ with lastPosition := b.lastPosition } := by
  obtain ⟨scale, flags, start, b₀, segments, hstarted, hwritten, -⟩ := h.exists_written
  have hscale : b.scale = scale.toNat := hwritten.scale_eq.trans hstarted.scale_eq
  have hread : (read b.bytes 0 : Checked SbError UInt8) =
      ok (if flags &&& trajectoryUseYaw != 0 then scale ||| 128 else scale) := by
    rw [hwritten.bytes_eq, hstarted.bytes_eq]
    rfl
  have hvalid : ¬ (scale = 0 ∨ 127 < scale) := by
    rw [not_or, UInt8.not_lt]
    exact ⟨hstarted.scale_ne, hstarted.scale_le⟩
  rw [Trajectory.initFromBuilder, hread, ok_bind] at hrun
  obtain ⟨t, -, hrun⟩ := bind_eq_ok.mp hrun
  cases hrun
  refine ⟨scale, flags, _, by rw [init, if_neg hvalid], hscale.symm, ?_⟩
  rw [← hscale]

/-- At the origin, the header with the start position is the one without. -/
theorem Started.withLastPosition {scale flags : UInt8} {position : Vector3WithYaw}
    {b : TrajectoryBuilder} (h : Started scale flags .zero b)
    (horigin : quantise scale.toNat position = .zero) :
    Started scale flags position { b with lastPosition := position } := by
  have hne : (scale.toNat : ℚ) ≠ 0 :=
    Nat.cast_ne_zero.mpr fun hzero => h.scale_ne (UInt8.toNat_inj.mp hzero)
  have hfloor : ∀ {coordinate : ℚ}, quantiseCoordinate scale.toNat coordinate = 0 →
      ⌊(Rounding.exact (coordinate / scale.toNat) : ℚ)⌋ = 0 := by
    intro coordinate hzero
    rw [quantiseCoordinate, mul_eq_zero, or_iff_right hne] at hzero
    exact_mod_cast hzero
  have hfits : ∀ {coordinate : ℚ}, quantiseCoordinate scale.toNat coordinate = 0 →
      CoordinateFits .exact scale.toNat coordinate := by
    intro coordinate hzero
    rw [CoordinateFits, hfloor hzero]
    decide
  simp only [quantise, Vector3WithYaw.zero, Vector3WithYaw.mk.injEq] at horigin
  obtain ⟨hx, hy, hz, hyaw⟩ := horigin
  have hangle : scaleAngle .exact position.yaw = scaleAngle .exact 0 := by
    rw [quantiseAngle, div_eq_zero_iff, or_iff_left (by norm_num)] at hyaw
    rw [scaleAngle_exact, scaleAngle_exact, Int.cast_eq_zero.mp hyaw]
    simp
  refine ⟨h.scale_ne, h.scale_le, ?_, rfl, h.scale_eq, h.owned, hfits hx, hfits hy, hfits hz⟩
  have hzero : ⌊(Rounding.exact (0 / scale.toNat) : ℚ)⌋ = 0 := by simp
  change b.bytes = _
  rw [h.bytes_eq, headerBytes, headerBytes, hfloor hx, hfloor hy, hfloor hz, hangle,
    Vector3WithYaw.zero, hzero]

/-- The origin is stored as it is. -/
theorem quantise_zero (scale : ℕ) : quantise scale .zero = .zero := by
  simp [quantise, quantiseCoordinate, quantiseAngle, Vector3WithYaw.zero]

/-- **The hand-over keeps builder and player in step** at the origin, and nowhere else. -/
theorem InStep.initFromBuilder {trajectory : Trajectory} {b b' : TrajectoryBuilder}
    (h : b.InStep) (hrun : Trajectory.initFromBuilder .exact b = ok (trajectory, b')) :
    (b.AtOrigin → b'.InStep) ∧ (b'.PlayerAgrees → b.AtOrigin) := by
  obtain ⟨scale, flags, b₀, hinit, hscale, rfl⟩ := h.initFromBuilder_eq hrun
  have hstarted := started_init hinit
  rw [AtOrigin, ← hscale]
  constructor
  · intro horigin
    rw [hstarted.scale_eq] at horigin
    exact (hstarted.withLastPosition horigin).inStep
  · intro hagrees
    have hplayer := hstarted.inStep.playerAgrees
    rw [PlayerAgrees, hstarted.lastPosition_eq, quantise_zero] at hplayer
    have hsame : ok .zero = (ok (quantise b₀.scale b.lastPosition) : Checked SbError _) :=
      hplayer.symm.trans hagrees
    exact (ok.inj hsame).symm

/-- **A run keeps builder and player in step** as long as it hands over at the origin. -/
theorem InStep.run {b : TrajectoryBuilder} {steps : List (Operation × TrajectoryBuilder)}
    (h : b.InStep) (hrun : Run b steps) :
    (∀ s ∈ steps, s.2.PlayerAgrees) ↔ HandsOverAtOrigin b steps := by
  induction hrun with
  | nil => exact ⟨fun _ => trivial, fun _ => List.forall_mem_nil _⟩
  | @cons b b' op steps hop hrest ih =>
      rw [List.forall_mem_cons]
      have hkept : b'.InStep → ((b'.PlayerAgrees ∧ ∀ s ∈ steps, s.2.PlayerAgrees) ↔
          HandsOverAtOrigin b' steps) :=
        fun hb' => (and_iff_right hb'.playerAgrees).trans (ih hb')
      cases op with
      | init scale flags => exact hkept (started_init hop).inStep
      | setStartPosition start => exact hkept (h.setStartPosition hop)
      | move m => exact hkept (h.move hop)
      | initFromBuilder =>
          obtain ⟨trajectory, hop⟩ := hop
          obtain ⟨hkeep, horigin⟩ := h.initFromBuilder hop
          constructor
          · intro hagree
            exact ⟨horigin hagree.1, (hkept (hkeep (horigin hagree.1))).mp hagree⟩
          · rintro ⟨hb, hrest⟩
            exact (hkept (hkeep hb)).mpr hrest

end TrajectoryBuilder

open TrajectoryBuilder

/-- **The encoder and the decoder agree exactly as long as bytes are handed over at the
origin**: in every run of successful operations on a builder that was initialised, the
position that a player reaches at the end of the bytes is the quantised last position of the
builder, in the first state and in every other one, if and only if all hand-overs of the run
are made when the last position is stored as the origin. -/
theorem builder_inStep_iff {scale flags : UInt8} {b : TrajectoryBuilder}
    (hinit : init scale flags = .ok b) {steps : List (Operation × TrajectoryBuilder)}
    (hrun : Run b steps) :
    (b.PlayerAgrees ∧ ∀ s ∈ steps, s.2.PlayerAgrees) ↔ HandsOverAtOrigin b steps := by
  have hstep := (started_init hinit).inStep
  exact (and_iff_right hstep.playerAgrees).trans (hstep.run hrun)

/-- A new builder with scale 10. -/
def scaleTen : TrajectoryBuilder := ⟨⟨[10, 0, 0, 0, 0, 0, 0, 0, 0], 9, true⟩, .zero, 10⟩

/-- The first line of a new builder. -/
theorem scaleTen_line {target : Vector3WithYaw}
    (hfits : SegmentFits .exact scaleTen.scale scaleTen.lastPosition target) :
    (appendLine .exact (fun _ => true) target 1000).run scaleTen =
      .ok () (appended .exact scaleTen target 1000 36) := by
  have hres : Buffer.reservation scaleTen.buffer.size scaleTen.buffer.capacity 11 = some 36 := by
    decide +kernel
  rw [run_appendLine_of_le rfl _ (by decide), appendSegment_done rfl hres (Or.inr rfl) hfits]

/-- With scale 10, a builder moves to x = 5, which is stored as zero, and hands its bytes over. -/
theorem builder_inStep_iff_nearOrigin :
    ∃ b b' b'' : TrajectoryBuilder, init 10 0 = .ok b ∧
      ((b.PlayerAgrees ∧ ∀ s ∈ [(Operation.move (.line (fun _ => true) ⟨5, 0, 0, 0⟩ 1000), b'),
          (Operation.initFromBuilder, b'')], s.2.PlayerAgrees) ↔
        HandsOverAtOrigin b [(.move (.line (fun _ => true) ⟨5, 0, 0, 0⟩ 1000), b'),
          (.initFromBuilder, b'')]) := by
  have hfits : SegmentFits .exact scaleTen.scale scaleTen.lastPosition ⟨5, 0, 0, 0⟩ :=
    ⟨fun _ => by norm_num [CoordinateFits, scaleTen], fun h => absurd rfl h,
      fun h => absurd rfl h⟩
  exact ⟨scaleTen, _, _, rfl,
    @builder_inStep_iff 10 0 scaleTen rfl _ (.cons (scaleTen_line hfits) (.cons ⟨_, rfl⟩ .nil))⟩

/-- With scale 10, a builder moves to y = 25 and hands its bytes over: its player starts at the
origin, and the builder goes on from y = 20. -/
theorem handOver_keepsPosition :
    ∃ b b' b'' : TrajectoryBuilder, init 10 0 = .ok b ∧
      Run b [(.move (.line (fun _ => true) ⟨0, 25, 0, 0⟩ 1000), b'), (.initFromBuilder, b'')] ∧
      playerAtEnd b''.bytes = ok .zero ∧ quantise b''.scale b''.lastPosition = ⟨0, 20, 0, 0⟩ ∧
      ¬ b''.PlayerAgrees := by
  have hfits : SegmentFits .exact scaleTen.scale scaleTen.lastPosition ⟨0, 25, 0, 0⟩ :=
    ⟨fun h => absurd rfl h, fun _ => by norm_num [CoordinateFits, scaleTen],
      fun h => absurd rfl h⟩
  have hplayer : playerAtEnd [10, 0, 0, 0, 0, 0, 0, 0, 0] = ok .zero := by decide +kernel
  have hlast : quantise 10 ⟨0, 25, 0, 0⟩ = ⟨0, 20, 0, 0⟩ := by decide +kernel
  refine ⟨scaleTen, _, _, rfl, .cons (scaleTen_line hfits) (.cons ⟨_, rfl⟩ .nil), hplayer, hlast,
    fun hagrees => ?_⟩
  have hsame : ok .zero = (ok ⟨0, 20, 0, 0⟩ : Checked SbError Vector3WithYaw) :=
    hplayer.symm.trans (hagrees.trans (congrArg ok hlast))
  exact absurd hsame (by decide +kernel)

end Skybrush
