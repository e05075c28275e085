import Skybrush.BuilderRoundTrip

/-!
# Flying What Was Built

Two things that a user of the trajectory builder relies on. As long as the positions are
small enough for the scale and the buffer is not huge, a call on the builder fails only when
there is no memory (`TrajectoryBuilder.run_appendSegments`, in any precision in which positions
can be encoded, `TrajectoryBuilder.CanEncode`). And what was built is flown
as it was meant: a line is cut into pieces, but the pieces lie on the line and each takes its
share of the time (`Traces`).

## Main results

* `TrajectoryBuilder.run_move`: a move of a builder succeeds unless there is no memory.
* `traces_lineSegments`: the pieces of a line lie on the line.
* `TrajectoryPlayer.flies_moveSegments`: what a player finds that walks over encoded moves.
* `TrajectoryPlayer.flies_written`: a trajectory that was built is flown as it was meant.
-/

namespace Skybrush

open Checked Rounding

/-- A position whose coordinates are within a bound. -/
structure Within (bound : ℚ) (p : Vector3WithYaw) : Prop where
  x : |p.x| ≤ bound
  y : |p.y| ≤ bound
  z : |p.z| ≤ bound

/-- A position is small enough for a scale. -/
abbrev Storable (scale : ℕ) : Vector3WithYaw → Prop := Within ((scale * 32767 : ℕ) : ℚ)

namespace TrajectoryBuilder

variable {F : Rounding} {alloc : Allocator} {scale : ℕ} {bound : ℚ}

/-! ### Coordinates that fit -/

/-- Coordinates within a bound can be encoded, and so can those halfway between them. -/
structure CanEncode (F : Rounding) (scale : ℕ) (bound : ℚ) : Prop where
  fits : ∀ {coordinate : ℚ}, |coordinate| ≤ bound → CoordinateFits F scale coordinate
  halfway : ∀ {a b : ℚ}, |a| ≤ bound → |b| ≤ bound → |F (F (a + b) / 2)| ≤ bound

/-- A coordinate that is small enough can be encoded. -/
theorem coordinateFits_of_abs_le {coordinate : ℚ} (hscale : 0 < scale)
    (h : |coordinate| ≤ ((scale * 32767 : ℕ) : ℚ)) : CoordinateFits .exact scale coordinate := by
  have hpos : (0 : ℚ) < scale := by exact_mod_cast hscale
  have hquot : |coordinate / scale| ≤ 32767 := by
    rw [abs_div, abs_of_pos hpos, div_le_iff₀ hpos]
    push_cast at h
    linarith
  obtain ⟨hlow, hhigh⟩ := abs_le.mp hquot
  constructor
  · rw [exact_apply, Int.le_floor]
    push_cast
    linarith
  · have hfloor : ((⌊coordinate / scale⌋ : ℤ) : ℚ) ≤ 32767 := (Int.floor_le _).trans hhigh
    exact_mod_cast hfloor

/-- Halfway between two coordinates that are small enough. -/
theorem abs_midpoint_le {a b bound : ℚ} (ha : |a| ≤ bound) (hb : |b| ≤ bound) :
    |(a + b) / 2| ≤ bound := by
  rw [abs_div, abs_two, div_le_iff₀ two_pos]
  linarith [abs_add_le a b]

/-- In exact arithmetic, all coordinates that are small enough can be encoded. -/
theorem canEncode_exact (hscale : 0 < scale) :
    CanEncode .exact scale ((scale * 32767 : ℕ) : ℚ) :=
  ⟨coordinateFits_of_abs_le hscale, abs_midpoint_le⟩

/-- A segment to a position within the bound fits. -/
theorem Within.segmentFits {target : Vector3WithYaw} (h : Within bound target)
    (hcan : CanEncode F scale bound) (last : Vector3WithYaw) : SegmentFits F scale last target :=
  ⟨fun _ => hcan.fits h.x, fun _ => hcan.fits h.y, fun _ => hcan.fits h.z⟩

/-- Halfway between two positions within the bound. -/
theorem Within.midpoint {p q : Vector3WithYaw} (hp : Within bound p) (hq : Within bound q)
    (hcan : CanEncode F scale bound) : Within bound (midpoint F p q) :=
  ⟨hcan.halfway hp.x hq.x, hcan.halfway hp.y hq.y, hcan.halfway hp.z hq.z⟩

/-- The pieces of a line between positions within the bound. -/
theorem within_lineSegments (hcan : CanEncode F scale bound) {last target : Vector3WithYaw}
    (hlast : Within bound last) (htarget : Within bound target) (durationMsec : ℕ) :
    ∀ s ∈ lineSegments F last target durationMsec, Within bound s.1 := by
  induction last, target, durationMsec using lineSegments.induct F with
  | case1 last target durationMsec hlong ihFirst ihSecond =>
      have hmid := Within.midpoint hlast htarget hcan
      rw [lineSegments, if_pos hlong]
      intro s hs
      rcases List.mem_append.mp hs with hs | hs
      · exact ihFirst hlast hmid s hs
      · exact ihSecond hmid htarget s hs
  | case2 last target durationMsec hshort =>
      rw [lineSegments, if_neg hshort]
      intro s hs
      rw [List.mem_singleton.mp hs]
      exact htarget

/-! ### Space for segments -/

/-- A line has at most one segment for each millisecond, or one. -/
theorem length_lineSegments_le (last target : Vector3WithYaw) (durationMsec : ℕ) :
    (lineSegments F last target durationMsec).length ≤ durationMsec + 1 := by
  have hmax : (lineSegments F last target durationMsec).length ≤ max durationMsec 1 := by
    induction last, target, durationMsec using lineSegments.induct F with
    | case1 last target durationMsec hlong ihFirst ihSecond =>
        rw [lineSegments, if_pos hlong, List.length_append]
        rw [maxDurationMsec] at hlong
        omega
    | case2 last target durationMsec hshort =>
        rw [lineSegments, if_neg hshort]
        exact le_max_right _ _
  omega

/-- A hold has at most one segment for each millisecond. -/
theorem length_holdSegments_le (position : Vector3WithYaw) (durationMsec : ℕ) :
    (holdSegments position durationMsec).length ≤ durationMsec := by
  induction durationMsec using holdSegments.induct with
  | case1 durationMsec hpos ih =>
      rw [holdSegments, if_pos hpos, List.length_cons]
      rw [maxDurationMsec] at *
      omega
  | case2 durationMsec hzero =>
      rw [holdSegments, if_neg hzero]
      exact Nat.zero_le _

/-- A builder whose buffer has space for some more segments, as long as there is memory. -/
structure Roomy (b : TrajectoryBuilder) (count : ℕ) : Prop where
  owned : b.buffer.owned = true
  capacity_pos : 0 < b.buffer.capacity
  size_le : b.buffer.size + 11 * count ≤ 2 ^ 62
  scale_pos : 0 < b.scale

theorem Roomy.mono {b : TrajectoryBuilder} {count count' : ℕ} (h : b.Roomy count)
    (hle : count' ≤ count) : b.Roomy count' :=
  ⟨h.owned, h.capacity_pos, (Nat.add_le_add_left (Nat.mul_le_mul_left 11 hle) _).trans h.size_le,
    h.scale_pos⟩

/-- An action that succeeds, or fails because there is no memory. -/
def SucceedsWithMemory (alloc : Allocator) (x : Action Unit) (b : TrajectoryBuilder)
    (P : TrajectoryBuilder → Prop) : Prop :=
  (∃ b', x.run b = .ok () b' ∧ P b') ∨ ∃ b', x.run b = .error .enomem b' ∧ ∃ n, alloc n = false

/-- **Appending a segment** succeeds unless there is no memory. -/
theorem run_appendSegment_roomy {b : TrajectoryBuilder} {count : ℕ} (h : b.Roomy (count + 1))
    {target : Vector3WithYaw} (hfits : SegmentFits F b.scale b.lastPosition target)
    (durationMsec : ℕ) :
    SucceedsWithMemory alloc (appendSegment F alloc target durationMsec) b fun b' =>
      b'.Roomy count ∧ b'.scale = b.scale := by
  have hmax : sizeMax = 2 ^ 64 - 1 := rfl
  have hsize := h.size_le
  cases hres : Buffer.reservation b.buffer.size b.buffer.capacity 11 with
  | none => exact absurd hres (Buffer.reservation_ne_none h.capacity_pos (by omega))
  | some c =>
      by_cases halloc : Buffer.Available alloc b.buffer.capacity c
      · refine .inl ⟨_, appendSegment_done h.owned hres halloc hfits, ?_, rfl⟩
        have hlength : (appended F b target durationMsec c).buffer.size ≤
            b.buffer.size + 11 := by
          have htargetBytes := length_targetBytes_le F b.scale b.lastPosition target
          change (b.bytes ++ segmentBytes F b.scale b.lastPosition target durationMsec).length
            ≤ b.bytes.length + 11
          rw [List.length_append, segmentBytes, List.length_cons, List.length_append,
            length_encodeUint16]
          omega
        have hcapacity := Buffer.le_of_reservation hres (by omega)
        exact ⟨h.owned, hcapacity.2, by omega, h.scale_pos⟩
      · refine .inr ⟨_, appendSegment_lost h.owned hres halloc, c, ?_⟩
        rw [Buffer.Available, not_or, Bool.not_eq_true] at halloc
        exact halloc.2

/-- **Appending segments** succeeds unless there is no memory. -/
theorem run_appendSegments {segments : List Segment} {b : TrajectoryBuilder} {count : ℕ}
    (h : b.Roomy (segments.length + count)) (hcan : CanEncode F b.scale bound)
    (hwithin : ∀ s ∈ segments, Within bound s.1) :
    SucceedsWithMemory alloc (appendSegments F alloc segments) b fun b' =>
      b'.Roomy count := by
  induction segments generalizing b with
  | nil =>
      rw [List.length_nil, Nat.zero_add] at h
      exact .inl ⟨b, rfl, h⟩
  | cons segment segments ih =>
      obtain ⟨target, durationMsec⟩ := segment
      rw [List.length_cons, Nat.add_right_comm] at h
      rw [SucceedsWithMemory, appendSegments, EStateM.run_bind]
      have hfits := Within.segmentFits (hwithin _ List.mem_cons_self) hcan b.lastPosition
      rcases run_appendSegment_roomy h hfits durationMsec with
        ⟨b₁, hrun, hroomy, hscale⟩ | ⟨b₁, hrun, hmemory⟩
      · rw [hrun]
        rw [← hscale] at hcan
        exact ih hroomy hcan fun s hs => hwithin s (List.mem_cons_of_mem _ hs)
      · rw [hrun]
        exact .inr ⟨b₁, rfl, hmemory⟩

/-- The memory that can be had during a move. -/
def Move.memory : Move → Allocator
  | .line alloc _ _ => alloc
  | .hold alloc _ => alloc

/-- A move has few segments, and none of them leaves the bound. -/
theorem within_segments (hcan : CanEncode F scale bound) {move : Move} {last : Vector3WithYaw}
    (hlast : Within bound last) (htarget : Within bound (move.target last)) :
    (move.segments F last).length ≤ move.durationMsec + 1 ∧
      ∀ s ∈ move.segments F last, Within bound s.1 := by
  cases move with
  | line alloc target durationMsec =>
      exact ⟨length_lineSegments_le last target durationMsec,
        within_lineSegments hcan hlast htarget durationMsec⟩
  | hold alloc durationMsec =>
      refine ⟨(length_holdSegments_le last durationMsec).trans (Nat.le_succ _), fun s hs => ?_⟩
      rw [(splits_holdSegments last durationMsec).2 s hs]
      exact hlast

/-- A move appends its segments. -/
theorem run_call {b : TrajectoryBuilder} (howned : b.buffer.owned = true) (move : Move) :
    (move.call.action F).run b =
      (appendSegments F move.memory (move.segments F b.lastPosition)).run b := by
  cases move with
  | line alloc target durationMsec => exact run_appendLine howned target durationMsec
  | hold alloc durationMsec => exact run_holdPositionFor howned durationMsec

/-- **A move** succeeds unless there is no memory, and writes its segments. -/
theorem run_move {b : TrajectoryBuilder} {move : Move} {count : ℕ}
    (h : b.Roomy (move.durationMsec + 1 + count)) (hcan : CanEncode F b.scale bound)
    (hlast : Within bound b.lastPosition) (htarget : Within bound (move.target b.lastPosition)) :
    SucceedsWithMemory move.memory (move.call.action F) b fun b' =>
      b'.Roomy count ∧ Written F b (move.segments F b.lastPosition) b' := by
  obtain ⟨hlength, hwithin⟩ := within_segments hcan hlast htarget
  rw [SucceedsWithMemory, run_call h.owned]
  rcases run_appendSegments (h.mono (Nat.add_le_add_right hlength count)) hcan hwithin with
    ⟨b', hrun, hroomy⟩ | hmemory
  · exact .inl ⟨b', hrun, hroomy, written_appendSegments h.owned hrun⟩
  · exact .inr hmemory

end TrajectoryBuilder

open TrajectoryBuilder

/-! ### Along a line -/

/-- Segments along the line from one position to another, from a share of the line to another:
each goes straight from one point of the line to a later one, quantised, and takes its share
of the time, up to a millisecond. -/
inductive Traces (scale : ℕ) (p q : Vector3WithYaw) (durationMsec : ℕ) :
    ℚ → List TrajectorySegment → ℚ → Prop
  | nil {t : ℚ} : Traces scale p q durationMsec t [] t
  | cons {t share t' : ℚ} {s : TrajectorySegment} {segments : List TrajectorySegment}
      (hshare : 0 < share)
      (hstraight : s.GoesStraight (quantise scale (p.lerp q t))
        (quantise scale (p.lerp q (t + share))))
      (htime : |(s.durationMsec : ℚ) - share * durationMsec| < 1)
      (hrest : Traces scale p q durationMsec (t + share) segments t') :
      Traces scale p q durationMsec t (s :: segments) t'

/-- Segments that follow on each other, from a time to another. -/
inductive Consecutive : ℕ → List TrajectorySegment → ℕ → Prop
  | nil {time : ℕ} : Consecutive time [] time
  | cons {time time' : ℕ} {s : TrajectorySegment} {segments : List TrajectorySegment}
      (hstart : s.startTimeMsec = time) (hend : s.endTimeMsec = time + s.durationMsec)
      (hrest : Consecutive (time + s.durationMsec) segments time') :
      Consecutive time (s :: segments) time'

/-- How moves are flown, from a position and a time: a line along the line, a hold without
moving, each for as long as it was asked for. -/
inductive Flies (scale : ℕ) : Vector3WithYaw → ℕ → List Move → List TrajectorySegment → Prop
  | nil {last : Vector3WithYaw} {time : ℕ} : Flies scale last time [] []
  | line {last target : Vector3WithYaw} {time durationMsec : ℕ} {alloc : Allocator}
      {moves : List Move} {segments rest : List TrajectorySegment}
      (htraces : Traces scale last target durationMsec 0 segments 1)
      (htime : Consecutive time segments (time + durationMsec))
      (hrest : Flies scale target (time + durationMsec) moves rest) :
      Flies scale last time (.line alloc target durationMsec :: moves) (segments ++ rest)
  | hold {last : Vector3WithYaw} {time durationMsec : ℕ} {alloc : Allocator}
      {moves : List Move} {segments rest : List TrajectorySegment}
      (hconstant : ∀ s ∈ segments, ∀ t, s.poly.eval .exact t = quantise scale last)
      (htime : Consecutive time segments (time + durationMsec))
      (hrest : Flies scale last (time + durationMsec) moves rest) :
      Flies scale last time (.hold alloc durationMsec :: moves) (segments ++ rest)

/-- One piece of the line after the other. -/
theorem Traces.append {scale durationMsec : ℕ} {p q : Vector3WithYaw} {t t' t'' : ℚ}
    {segments segments' : List TrajectorySegment}
    (h : Traces scale p q durationMsec t segments t')
    (h' : Traces scale p q durationMsec t' segments' t'') :
    Traces scale p q durationMsec t (segments ++ segments') t'' := by
  induction h with
  | nil => exact h'
  | cons hshare hstraight htime _ ih => exact .cons hshare hstraight htime (ih h')

theorem Vector3WithYaw.lerp_zero (p q : Vector3WithYaw) : p.lerp q 0 = p := by
  simp [lerp]

theorem Vector3WithYaw.lerp_one (p q : Vector3WithYaw) : p.lerp q 1 = q := by
  simp [lerp]

/-- Halfway between two points of a line. -/
theorem midpoint_lerp (p q : Vector3WithYaw) (t share : ℚ) :
    TrajectoryBuilder.midpoint .exact (p.lerp q t) (p.lerp q (t + share)) =
      p.lerp q (t + share / 2) := by
  have hmid : ∀ a b : ℚ,
      (a + t * (b - a) + (a + (t + share) * (b - a))) / 2 = a + (t + share / 2) * (b - a) := by
    intro a b
    ring
  simp only [TrajectoryBuilder.midpoint, Vector3WithYaw.lerp, exact_apply, hmid]

namespace TrajectoryPlayer

variable {scale : ℕ}

/-- **The pieces of a line** lie on the line: a part of a line is cut in two halves, and each
half gets half of the time, rounded. -/
theorem traces_lineSegments (p q : Vector3WithYaw) (total : ℕ) {t share : ℚ} {durationMsec : ℕ}
    (hshare : 0 < share) (htime : |(durationMsec : ℚ) - share * total| < 1) (time : ℕ) :
    Traces scale p q total t (decodeSegments scale (p.lerp q t) time
      (lineSegments .exact (p.lerp q t) (p.lerp q (t + share)) durationMsec)) (t + share) := by
  induction durationMsec using Nat.strongRecOn generalizing t share time with
  | ind durationMsec ih =>
      rw [lineSegments]
      split
      case isTrue hlong =>
        rw [maxDurationMsec] at hlong
        have hhalf : 0 < share / 2 := half_pos hshare
        have hsum : t + share / 2 + share / 2 = t + share := by ring
        have hfloor : ((durationMsec / 2 : ℕ) : ℚ) ≤ durationMsec / 2 ∧
            (durationMsec : ℚ) / 2 ≤ ((durationMsec / 2 : ℕ) : ℚ) + 1 / 2 := by
          have hdiv : durationMsec = 2 * (durationMsec / 2) + durationMsec % 2 := by omega
          have hmod : durationMsec % 2 ≤ 1 := by omega
          have hdiv' : (durationMsec : ℚ) = 2 * ((durationMsec / 2 : ℕ) : ℚ) +
              ((durationMsec % 2 : ℕ) : ℚ) := by exact_mod_cast hdiv
          have hmod' : ((durationMsec % 2 : ℕ) : ℚ) ≤ 1 := by exact_mod_cast hmod
          have hnonneg : (0 : ℚ) ≤ ((durationMsec % 2 : ℕ) : ℚ) := Nat.cast_nonneg _
          constructor <;> linarith
        have hrest : ((durationMsec - durationMsec / 2 : ℕ) : ℚ) =
            durationMsec - ((durationMsec / 2 : ℕ) : ℚ) := by
          rw [Nat.cast_sub (Nat.div_le_self _ _)]
        obtain ⟨hlow, hhigh⟩ := abs_lt.mp htime
        rw [midpoint_lerp, decodeSegments_append,
          (@splits_lineSegments .exact _ _ (durationMsec / 2)).1.endOf_eq]
        have hfirst := ih (durationMsec / 2) (by omega) (t := t) hhalf
          (abs_lt.mpr ⟨by linarith, by linarith⟩) time
        have hsecond := ih (durationMsec - durationMsec / 2) (by omega) (t := t + share / 2) hhalf
          (abs_lt.mpr ⟨by linarith, by linarith⟩)
          (timeAfter time (lineSegments .exact (p.lerp q t) (p.lerp q (t + share / 2))
            (durationMsec / 2)))
        rw [hsum] at hsecond
        exact hfirst.append hsecond
      case isFalse =>
        exact .cons hshare (eval_segmentCurve scale _ _) htime .nil

/-- Without an overflow, segments follow on each other. -/
theorem consecutive_decodeSegments (last : Vector3WithYaw) {time : ℕ} {segments : List Segment}
    (h : time + (segments.map Prod.snd).sum < 2 ^ 32) :
    Consecutive time (decodeSegments scale last time segments)
        (time + (segments.map Prod.snd).sum) ∧
      timeAfter time segments = time + (segments.map Prod.snd).sum := by
  induction segments generalizing last time with
  | nil => exact ⟨.nil, rfl⟩
  | cons segment segments ih =>
      rw [List.map_cons, List.sum_cons, ← Nat.add_assoc] at h ⊢
      have hmod : (time + segment.2) % 2 ^ 32 = time + segment.2 := Nat.mod_eq_of_lt (by omega)
      obtain ⟨hrest, hafter⟩ := ih segment.1 h
      rw [decodeSegments, timeAfter, hmod]
      exact ⟨.cons rfl hmod hrest, hafter⟩

/-- The pieces of a move take the time of the move. -/
theorem consecutive_splits {last target : Vector3WithYaw} {time durationMsec : ℕ}
    {segments : List Segment} (hsplits : Splits last target durationMsec segments)
    (h : time + durationMsec < 2 ^ 32) :
    Consecutive time (decodeSegments scale last time segments) (time + durationMsec) ∧
      timeAfter time segments = time + durationMsec := by
  rw [← hsplits.sum_eq] at h ⊢
  exact consecutive_decodeSegments last h

/-- **What a player finds** that walks over encoded moves: it flies the moves. -/
theorem flies_moveSegments (last : Vector3WithYaw) (time : ℕ) (moves : List Move)
    (h : time + (moves.map Move.durationMsec).sum < 2 ^ 32) :
    Flies scale last time moves
      (decodeSegments scale last time (moveSegments .exact last moves)) := by
  induction moves generalizing last time with
  | nil => exact .nil
  | cons move moves ih =>
      rw [List.map_cons, List.sum_cons, ← Nat.add_assoc] at h
      rw [moveSegments, decodeSegments_append, endOf_segments]
      have hrest := ih (move.target last) (time + move.durationMsec) h
      cases move with
      | line alloc target durationMsec =>
          have hsplits := (@splits_lineSegments .exact last target durationMsec).1
          have htraces := @traces_lineSegments scale last target durationMsec 0 1 durationMsec
            one_pos (by simp) time
          rw [zero_add, Vector3WithYaw.lerp_zero, Vector3WithYaw.lerp_one] at htraces
          obtain ⟨htime, hafter⟩ := @consecutive_splits scale _ _ _ _ _ hsplits
            ((Nat.le_add_right _ _).trans_lt h)
          simp only [Move.segments, hafter]
          exact .line htraces htime hrest
      | hold alloc durationMsec =>
          obtain ⟨hsplits, hstay⟩ := splits_holdSegments last durationMsec
          obtain ⟨htime, hafter⟩ := @consecutive_splits scale _ _ _ _ _ hsplits
            ((Nat.le_add_right _ _).trans_lt h)
          simp only [Move.segments, hafter]
          exact .hold (constant_decodeSegments hstay time) htime hrest

/-- **What was built is flown**: a trajectory can be made from a builder that has moved, and a
player that walks over it flies the moves and stops at the end of the buffer. -/
theorem flies_written {scale flags : UInt8} {start : Vector3WithYaw} {b₁ b : TrajectoryBuilder}
    {moves : List Move} (hstarted : Started scale flags start b₁)
    (hwritten : Written .exact b₁ (moveSegments .exact start moves) b) :
    ∃ trajectory builder player segments final,
      Trajectory.initFromBuilder .exact b = ok (trajectory, builder) ∧
      trajectory.start = quantise scale.toNat start ∧
      rewind .exact trajectory = ok player ∧
      (∀ fuel, trajectory.buffer.length ≤ fuel →
        walk .exact fuel player = ok (segments, final)) ∧
      final.currentSegment.start = trajectory.buffer.length ∧
      ((moves.map Move.durationMsec).sum < 2 ^ 32 →
        Flies scale.toNat start 0 moves segments) := by
  obtain ⟨trajectory, player, final, hinit, hbuffer, hstart, hrewind, hwalk, _, hend⟩ :=
    walk_written hstarted hwritten (short_moveSegments start moves)
  have hpos : 0 < b.bytes.length := Nat.zero_lt_of_lt (hstarted.length_lt hwritten)
  obtain ⟨builder, hbuilder⟩ := initFromBuilder_of_bytes hpos hinit
  rw [← hbuffer] at hwalk
  refine ⟨trajectory, builder, player, _, final, hbuilder, hstart, hrewind, hwalk,
    congrArg CurrentSegment.start hend, fun hsum => ?_⟩
  refine flies_moveSegments start 0 moves ?_
  rwa [Nat.zero_add]

end TrajectoryPlayer

end Skybrush
