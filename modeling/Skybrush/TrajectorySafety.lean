import Skybrush.Trajectory

/-!
# Reads of Trajectory Players

Neither the header parser nor the segment parser compares its offset with the length of
the buffer, except that the player does so before the header byte of a segment. So a
player reads outside its buffer exactly when a segment that begins inside the buffer does
not end there: `SegmentsFit` says that this happens to no segment of the chain.

## Main results

* `TrajectoryPlayer.BuildCase`, `TrajectoryPlayer.buildCurrentSegment_case`: what building a
  segment can come to.
* `TrajectoryPlayer.Invariant.apply`, `TrajectoryPlayer.Invariant.run`: what rewinding and
  moving on keep, all operations keep.
* `TrajectoryPlayer.Secure.run`: over a chain of segments that fit, no operation faults.
* `TrajectoryPlayer.fitsFrom_of_safe`: a player that can always move on finds such a chain.
* `trajectory_safe_iff`: all reads of all players are inside the buffer exactly when the
  trajectory has its header and, unless its scale is zero, a chain of segments that fit.
-/

namespace Skybrush

open Checked

/-- Every segment of the chain that starts at an offset ends inside the buffer. -/
inductive SegmentsFit (buf : List UInt8) : ℕ → Prop
  | done {offset : ℕ} (hend : buf.length ≤ offset) : SegmentsFit buf offset
  | segment {offset : ℕ} {header : UInt8} (hheader : buf[offset]? = some header)
      (hle : offset + segmentSize header ≤ buf.length)
      (hrest : SegmentsFit buf (offset + segmentSize header)) : SegmentsFit buf offset

/-- At an offset inside the buffer, the segment there fits and so do the ones behind it. -/
theorem segmentsFit_iff {buf : List UInt8} {offset : ℕ} {header : UInt8}
    (hheader : buf[offset]? = some header) :
    SegmentsFit buf offset ↔
      offset + segmentSize header ≤ buf.length ∧
        SegmentsFit buf (offset + segmentSize header) := by
  have hlt := (List.getElem?_eq_some_iff.mp hheader).1
  refine ⟨fun h => ?_, fun ⟨hle, hrest⟩ => .segment hheader hle hrest⟩
  cases h with
  | done hend => omega
  | @segment _ header' hheader' hle hrest =>
      rw [hheader, Option.some.injEq] at hheader'
      subst hheader'
      exact ⟨hle, hrest⟩

/-- An operation of a player. Rewinding is also how a player is initialised. -/
inductive PlayerOp where
  | init
  | buildNextSegment
  | getPositionAt (t : TimeSec)
  | getVelocityAt (t : TimeSec)
  | getAccelerationAt (t : TimeSec)
  | getTotalDurationMsec
  | hasMoreSegments
  deriving DecidableEq, Repr

namespace TrajectoryPlayer

variable (F : Rounding)

/-- Where the segment behind the current one begins. -/
def nextOffset (player : TrajectoryPlayer) : ℕ :=
  player.currentSegment.start + player.currentSegment.length

/-- The player after an operation. -/
def apply (fuel : ℕ) (player : TrajectoryPlayer) : PlayerOp → Checked SbError TrajectoryPlayer
  | .init => rewind F player.trajectory
  | .buildNextSegment => buildNextSegment F player
  | .getPositionAt t => getPositionAt F fuel player t >>= fun r => ok r.2
  | .getVelocityAt t => getVelocityAt F fuel player t >>= fun r => ok r.2
  | .getAccelerationAt t => getAccelerationAt F fuel player t >>= fun r => ok r.2
  | .getTotalDurationMsec => getTotalDurationMsec F fuel player >>= fun r => ok r.2
  | .hasMoreSegments => ok player

/-- The player after a sequence of operations. -/
def run (fuel : ℕ) (player : TrajectoryPlayer) : List PlayerOp → Checked SbError TrajectoryPlayer
  | [] => ok player
  | op :: ops => apply F fuel player op >>= fun player => run fuel player ops

/-- From an offset on, the player does not read outside the buffer. -/
def FitsFrom (trajectory : Trajectory) (offset : ℕ) : Prop :=
  trajectory.scale = 0 ∨ SegmentsFit trajectory.buffer offset

/-- A player of a trajectory whose segments fit, standing at one of them. -/
structure Secure (trajectory : Trajectory) (player : TrajectoryPlayer) : Prop where
  trajectory_eq : player.trajectory = trajectory
  first : FitsFrom trajectory trajectory.headerLength
  next : FitsFrom trajectory player.nextOffset

variable {F} {trajectory : Trajectory}

/-- What building the segment at an offset can come to: the trajectory has ended there, the
segment is read and the next one is behind it, or the segment is cut and read past the end. -/
inductive BuildCase (trajectory : Trajectory) (offset : ℕ) :
    Checked SbError TrajectoryPlayer → Prop
  | ended {player : TrajectoryPlayer} (htraj : player.trajectory = trajectory)
      (hnext : player.nextOffset = offset)
      (hend : trajectory.buffer.length ≤ offset ∨ trajectory.scale = 0) :
      BuildCase trajectory offset (ok player)
  | read {player : TrajectoryPlayer} {header : UInt8} (htraj : player.trajectory = trajectory)
      (hheader : trajectory.buffer[offset]? = some header)
      (hle : offset + segmentSize header ≤ trajectory.buffer.length)
      (hnext : player.nextOffset = offset + segmentSize header) :
      BuildCase trajectory offset (ok player)
  | cut {header : UInt8} (hscale : trajectory.scale ≠ 0)
      (hheader : trajectory.buffer[offset]? = some header)
      (hgt : trajectory.buffer.length < offset + segmentSize header) :
      BuildCase trajectory offset fault

/-- **Building a segment**: the three cases. -/
theorem buildCurrentSegment_case (offset startTimeMsec : ℕ) (start : Vector3WithYaw) :
    BuildCase trajectory offset
      (buildCurrentSegment F trajectory offset startTimeMsec start) := by
  rw [buildCurrentSegment]
  split
  case isTrue hend => exact .ended rfl rfl hend
  case isFalse hmore =>
    rw [not_or, Nat.not_le] at hmore
    obtain ⟨hlt, hscale⟩ := hmore
    have hheader := List.getElem?_eq_getElem hlt
    by_cases hle : offset + segmentSize trajectory.buffer[offset] ≤ trajectory.buffer.length
    · obtain ⟨⟨durationMsec, poly⟩, hsegment⟩ := parseSegment_of_le hheader hle
      rw [hsegment]
      refine .read rfl hheader hle ?_
      have hlength := Nat.add_sub_cancel_left (n := offset)
        (m := segmentSize trajectory.buffer[offset])
      simp only [nextOffset, hlength]
    · rw [parseSegment_of_gt hheader (by omega)]
      exact .cut hscale hheader (by omega)

/-- Building a segment of a chain that fits succeeds, and the chain goes on behind it. -/
theorem buildCurrentSegment_of_fits {offset : ℕ} (h : FitsFrom trajectory offset)
    (startTimeMsec : ℕ) (start : Vector3WithYaw) :
    ∃ player, buildCurrentSegment F trajectory offset startTimeMsec start = ok player ∧
      player.trajectory = trajectory ∧ FitsFrom trajectory player.nextOffset := by
  have hcase : BuildCase trajectory offset
      (buildCurrentSegment F trajectory offset startTimeMsec start) :=
    buildCurrentSegment_case offset startTimeMsec start
  generalize buildCurrentSegment F trajectory offset startTimeMsec start = x at hcase
  cases hcase with
  | @ended player htraj hnext hend =>
      rw [← hnext] at h
      exact ⟨player, rfl, htraj, h⟩
  | @read player header htraj hheader hle hnext =>
      refine ⟨player, rfl, htraj, ?_⟩
      rw [hnext]
      exact h.imp id fun hfits => (segmentsFit_iff hheader).mp hfits |>.2
  | @cut header hscale hheader hgt =>
      rcases h with hzero | hfits
      · exact absurd hzero hscale
      · have := ((segmentsFit_iff hheader).mp hfits).1
        omega

/-! ### Invariants of players -/

variable (F) in
/-- A property that a player keeps when it rewinds and when it moves on, both of which
succeed. -/
structure Invariant (P : TrajectoryPlayer → Prop) : Prop where
  rewind : ∀ {player : TrajectoryPlayer}, P player →
    ∃ player', rewind F player.trajectory = ok player' ∧ P player'
  buildNextSegment : ∀ {player : TrajectoryPlayer}, P player →
    ∃ player', buildNextSegment F player = ok player' ∧ P player'

/-- A computation that runs out of fuel or leaves a player with a property. -/
def Keeps (P : TrajectoryPlayer → Prop) {α : Type} (x : Checked SbError (α × TrajectoryPlayer)) :
    Prop :=
  x = outOfFuel ∨ ∃ a player, x = ok (a, player) ∧ P player

variable {P : TrajectoryPlayer → Prop}

/-- Seeking keeps an invariant, by induction on the fuel. -/
theorem Invariant.seekLoop (h : Invariant F P) (t : TimeSec) {fuel : ℕ}
    {player : TrajectoryPlayer} (hp : P player) : Keeps P (seekLoop F t fuel player) := by
  induction fuel generalizing player with
  | zero => exact Or.inl rfl
  | succ fuel ih =>
      rw [TrajectoryPlayer.seekLoop]
      split
      · obtain ⟨player', hrewind, hp'⟩ := h.rewind hp
        rw [hrewind]
        exact ih hp'
      · split
        · obtain ⟨player', hnext, hp'⟩ := h.buildNextSegment hp
          rw [hnext]
          exact ih hp'
        · exact Or.inr ⟨_, player, rfl, hp⟩

/-- Adding up the durations keeps an invariant, by induction on the fuel. -/
theorem Invariant.totalDurationLoop (h : Invariant F P) {fuel result : ℕ}
    {player : TrajectoryPlayer} (hp : P player) :
    Keeps P (totalDurationLoop F fuel result player) := by
  induction fuel generalizing result player with
  | zero => exact Or.inl rfl
  | succ fuel ih =>
      rw [TrajectoryPlayer.totalDurationLoop]
      split
      · obtain ⟨player', hnext, hp'⟩ := h.buildNextSegment hp
        rw [hnext]
        exact ih hp'
      · exact Or.inr ⟨_, player, rfl, hp⟩

/-- **One operation** runs out of fuel or keeps an invariant. -/
theorem Invariant.apply (h : Invariant F P) (fuel : ℕ) {player : TrajectoryPlayer}
    (hp : P player) (op : PlayerOp) :
    apply F fuel player op = outOfFuel ∨
      ∃ player', apply F fuel player op = ok player' ∧ P player' := by
  have hseek : ∀ t (f : TrajectorySegment → Poly4D),
      ((seekToTime F fuel player t >>= fun r =>
          ok ((f r.2.currentSegment.data).eval F r.1, r.2)) >>= fun r => ok r.2 :
          Checked SbError TrajectoryPlayer) = outOfFuel ∨
        ∃ player', ((seekToTime F fuel player t >>= fun r =>
          ok ((f r.2.currentSegment.data).eval F r.1, r.2)) >>= fun r => ok r.2 :
          Checked SbError TrajectoryPlayer) = ok player' ∧ P player' := by
    intro t f
    have hkeeps : Keeps P (TrajectoryPlayer.seekLoop F t.clip fuel player) :=
      h.seekLoop t.clip hp
    rcases hkeeps with hfuel | ⟨rel, player', hseek, hp'⟩
    · rw [seekToTime, hfuel]
      exact Or.inl rfl
    · rw [seekToTime, hseek]
      exact Or.inr ⟨player', rfl, hp'⟩
  cases op with
  | init => exact Or.inr (h.rewind hp)
  | buildNextSegment => exact Or.inr (h.buildNextSegment hp)
  | getPositionAt t => exact hseek t (·.poly)
  | getVelocityAt t => exact hseek t (·.dpoly)
  | getAccelerationAt t => exact hseek t (·.ddpoly)
  | getTotalDurationMsec =>
      obtain ⟨player', hrewind, hp'⟩ := h.rewind hp
      rw [TrajectoryPlayer.apply, TrajectoryPlayer.getTotalDurationMsec, hrewind, ok_bind]
      have hkeeps : Keeps P (TrajectoryPlayer.totalDurationLoop F fuel 0 player') :=
        h.totalDurationLoop hp'
      rcases hkeeps with hfuel | ⟨result, player'', htotal, hp''⟩
      · rw [hfuel]
        exact Or.inl rfl
      · rw [htotal]
        exact Or.inr ⟨player'', rfl, hp''⟩
  | hasMoreSegments => exact Or.inr ⟨player, rfl, hp⟩

/-- **A run** runs out of fuel or keeps an invariant. -/
theorem Invariant.run (h : Invariant F P) (fuel : ℕ) {player : TrajectoryPlayer} (hp : P player)
    (ops : List PlayerOp) :
    run F fuel player ops = outOfFuel ∨
      ∃ player', run F fuel player ops = ok player' ∧ P player' := by
  induction ops generalizing player with
  | nil => exact Or.inr ⟨player, rfl, hp⟩
  | cons op ops ih =>
      rw [TrajectoryPlayer.run]
      rcases h.apply fuel hp op with hfuel | ⟨player', hop, hp'⟩
      · rw [hfuel]
        exact Or.inl rfl
      · rw [hop]
        exact ih hp'

/-! ### Players of segments that fit -/

/-- A secure player stays one. -/
theorem invariant_secure : Invariant F (Secure trajectory) where
  rewind := by
    intro player h
    obtain ⟨player', hbuild, htraj, hnext⟩ :=
      buildCurrentSegment_of_fits h.first 0 trajectory.start
    rw [h.trajectory_eq]
    exact ⟨player', hbuild, htraj, h.first, hnext⟩
  buildNextSegment := by
    intro player h
    obtain ⟨player', hbuild, htraj, hnext⟩ := buildCurrentSegment_of_fits h.next
      player.currentSegment.data.endTimeMsec (player.currentSegment.data.poly.eval F 1)
    rw [TrajectoryPlayer.buildNextSegment, h.trajectory_eq]
    exact ⟨player', hbuild, htraj, h.first, hnext⟩

/-- **A run** of a secure player does not read outside the buffer. -/
theorem Secure.run (fuel : ℕ) {player : TrajectoryPlayer} (h : Secure trajectory player)
    (ops : List PlayerOp) : (run F fuel player ops).Safe := by
  have hrun : TrajectoryPlayer.run F fuel player ops = outOfFuel ∨
      ∃ player', TrajectoryPlayer.run F fuel player ops = ok player' ∧
        Secure trajectory player' := invariant_secure.run fuel h ops
  rcases hrun with hfuel | ⟨player', hok, -⟩
  · rw [hfuel]
    exact safe_outOfFuel
  · rw [hok]
    exact safe_ok player'

/-- **A player that can always move on** from an offset finds a chain of segments that fit
there: by induction on what is left of the buffer. -/
theorem fitsFrom_of_safe {offset : ℕ} (startTimeMsec : ℕ) (start : Vector3WithYaw)
    (hsafe : ∀ n, (buildCurrentSegment F trajectory offset startTimeMsec start >>= fun player =>
      run F 0 player (List.replicate n .buildNextSegment)).Safe) :
    FitsFrom trajectory offset := by
  induction hleft : trajectory.buffer.length - offset using Nat.strong_induction_on
    generalizing offset startTimeMsec start with
  | _ left ih =>
      have hcase : BuildCase trajectory offset
          (buildCurrentSegment F trajectory offset startTimeMsec start) :=
        buildCurrentSegment_case offset startTimeMsec start
      generalize buildCurrentSegment F trajectory offset startTimeMsec start = x at hsafe hcase
      cases hcase with
      | ended _ _ hend => exact hend.symm.imp id .done
      | @read player header htraj hheader hle hnext =>
          have hlt := (List.getElem?_eq_some_iff.mp hheader).1
          have hsize : 3 ≤ segmentSize header := Nat.le_add_right _ _
          have hrest : FitsFrom trajectory player.nextOffset := by
            refine ih _ (by omega) player.currentSegment.data.endTimeMsec
              (player.currentSegment.data.poly.eval F 1) (fun n => ?_) rfl
            have hmove := hsafe (n + 1)
            rw [ok_bind, List.replicate_succ, run, apply, buildNextSegment, htraj] at hmove
            exact hmove
          rw [hnext] at hrest
          exact hrest.imp id fun hfits => .segment hheader hle hfits
      | cut _ _ _ => exact absurd (hsafe 0) not_safe_fault

end TrajectoryPlayer

/-! ### Whole sessions -/

/-- Open a trajectory and let a player of it do some operations. -/
def trajectorySession (F : Rounding) (owned : Bool) (buf : List UInt8) (fuel : ℕ)
    (ops : List PlayerOp) : Checked SbError TrajectoryPlayer := do
  let trajectory ← Trajectory.initFromBytes F owned buf
  let player ← TrajectoryPlayer.rewind F trajectory
  TrajectoryPlayer.run F fuel player ops

namespace Trajectory

/-- A header without its nine bytes is read past the end. -/
theorem initFromBytes_of_lt {F : Rounding} {owned : Bool} {buf : List UInt8}
    (hbuf : ¬ (owned = true ∧ buf = [])) (hlt : buf.length < 9) :
    initFromBytes F owned buf = fault := by
  rw [initFromBytes, if_neg hbuf, (needs_parseHeader F buf 0 (Nat.zero_le _)).2 (by omega)]
  rfl

/-- **A header** of nine bytes is read; the scale is in its first byte. -/
theorem initFromBytes_of_le (F : Rounding) (owned : Bool) (header : UInt8) {buf : List UInt8}
    (hle : 8 ≤ buf.length) :
    ∃ trajectory, initFromBytes F owned (header :: buf) = ok trajectory ∧
      trajectory.buffer = header :: buf ∧ trajectory.headerLength = 9 ∧
        trajectory.scale = (header &&& 0x7F).toNat := by
  have hbuf : ¬ (owned = true ∧ header :: buf = []) := fun h => List.cons_ne_nil _ _ h.2
  obtain ⟨b1, b2, b3, b4, b5, b6, b7, b8, rest, rfl⟩ :
      ∃ b1 b2 b3 b4 b5 b6 b7 b8 rest,
        buf = b1 :: b2 :: b3 :: b4 :: b5 :: b6 :: b7 :: b8 :: rest := by
    match buf, hle with
    | b1 :: b2 :: b3 :: b4 :: b5 :: b6 :: b7 :: b8 :: rest, _ =>
        exact ⟨b1, b2, b3, b4, b5, b6, b7, b8, rest, rfl⟩
  rw [initFromBytes, if_neg hbuf]
  exact ⟨_, rfl, rfl, rfl, rfl⟩

end Trajectory

open TrajectoryPlayer in
/-- **No read is outside the buffer**, whatever a player is asked to do, exactly when the
trajectory is an empty one that is refused, or has its whole header and, unless its scale is
zero, a chain of segments that all end inside the buffer. -/
theorem trajectory_safe_iff (F : Rounding) (owned : Bool) (buf : List UInt8) :
    (∀ fuel ops, (trajectorySession F owned buf fuel ops).Safe) ↔
      (owned = true ∧ buf = []) ∨
        ∃ header rest, buf = header :: rest ∧ 8 ≤ rest.length ∧
          ((header &&& 0x7F).toNat = 0 ∨ SegmentsFit buf 9) := by
  by_cases hbuf : owned = true ∧ buf = []
  · refine ⟨fun _ => .inl hbuf, fun _ fuel ops => ?_⟩
    rw [trajectorySession, Trajectory.initFromBytes, if_pos hbuf]
    exact safe_error _
  rcases Nat.lt_or_ge buf.length 9 with hlt | hge
  · -- Without a whole header, opening it is enough to read past the end.
    have hfault : ¬ ∀ fuel ops, (trajectorySession F owned buf fuel ops).Safe := by
      intro h
      have hsafe := h 0 []
      rw [trajectorySession, Trajectory.initFromBytes_of_lt hbuf hlt] at hsafe
      exact not_safe_fault hsafe
    refine ⟨fun h => absurd h hfault, fun h => ?_⟩
    rcases h with hempty | ⟨header, rest, rfl, hle, _⟩
    · exact absurd hempty hbuf
    · rw [List.length_cons] at hlt
      omega
  · cases buf with
    | nil => exact absurd hge (by simp)
    | cons header rest =>
        have hle : 8 ≤ rest.length := Nat.le_of_succ_le_succ hge
        obtain ⟨trajectory, hinit, hbytes, hlength, hscale⟩ :=
          Trajectory.initFromBytes_of_le F owned header hle
        have hfrom : FitsFrom trajectory trajectory.headerLength ↔
            (header &&& 0x7F).toNat = 0 ∨ SegmentsFit (header :: rest) 9 := by
          rw [FitsFrom, hbytes, hlength, hscale]
        have hsession : ∀ fuel ops, trajectorySession F owned (header :: rest) fuel ops =
            rewind F trajectory >>= fun player => run F fuel player ops := by
          intro fuel ops
          rw [trajectorySession, hinit]
          rfl
        constructor
        · -- A player that only moves on visits the whole chain.
          intro h
          refine .inr ⟨header, rest, rfl, hle, hfrom.mp ?_⟩
          refine fitsFrom_of_safe (F := F) 0 trajectory.start fun n => ?_
          have hsafe := h 0 (List.replicate n .buildNextSegment)
          rw [hsession] at hsafe
          exact hsafe
        · rintro (hempty | ⟨header', rest', heq, _, hfits⟩) fuel ops
          · exact absurd hempty hbuf
          · obtain ⟨rfl, rfl⟩ := List.cons.inj heq
            have hfirst := hfrom.mpr hfits
            obtain ⟨player, hrewind, htraj, hnext⟩ :=
              buildCurrentSegment_of_fits (F := F) hfirst 0 trajectory.start
            rw [hsession, rewind, hrewind]
            exact Secure.run fuel ⟨htraj, hfirst, hnext⟩ ops

/-- A player of a trajectory of scale one whose only segment is cut behind its format byte
reads past the end. -/
theorem cut_segment_reads_outside :
    ¬ ∀ (F : Rounding) (owned : Bool) (buf : List UInt8) (fuel : ℕ) (ops : List PlayerOp),
      (trajectorySession F owned buf fuel ops).Safe := by
  intro h
  exact h .exact true [1, 0, 0, 0, 0, 0, 0, 0, 0, 0] 0 [] rfl

end Skybrush
