import Skybrush.BuilderReuse
import Skybrush.TrajectorySafety

/-!
# Playing What Was Appended

What a call on a builder appends is played behind what was there before, whatever that is. The
bytes of a builder may come from a longer history than the last position remembers: from a
hand-over to a trajectory, or from calls that failed and left something behind. A player that
walks over them to their end goes on with the segments that are appended, from the
position that it has reached and not from the one that the builder remembers
(`TrajectoryPlayer.playSegments`).

## Main results

* `TrajectoryPlayer.walk_continued`: a walk that has reached the end of the bytes goes on behind it.
* `TrajectoryBuilder.playback_append`: what is decoded from bytes with segments appended.
* `TrajectoryBuilder.Reachable.valid`: what holds of every builder.
-/

namespace Skybrush

open Checked Rounding TrajectoryPlayer

/-! ### More bytes -/

namespace Trajectory

variable {F : Rounding}

theorem extends_parseAngle : (parseAngle F).Extends := extends_parseInt16.bind_pure

theorem extends_parseCoordinate (scale : ℕ) : (parseCoordinate F scale).Extends :=
  extends_parseInt16.bind_pure

theorem extends_parseHeader : (parseHeader F).Extends :=
  Parser.extends_cell.bind fun _ => (extends_parseCoordinate _).bind fun _ =>
    (extends_parseCoordinate _).bind fun _ => (extends_parseCoordinate _).bind fun _ =>
      extends_parseAngle.bind_pure

/-- A trajectory with more bytes. -/
def continued (trajectory : Trajectory) (more : List UInt8) : Trajectory :=
  { trajectory with buffer := trajectory.buffer ++ more }

/-- More bytes leave the header alone. -/
theorem initFromBytes_append {owned : Bool} {buf : List UInt8} {trajectory : Trajectory}
    (h : initFromBytes F owned buf = ok trajectory) (hne : buf ≠ []) (more : List UInt8) :
    initFromBytes F owned (buf ++ more) = ok (trajectory.continued more) := by
  rw [initFromBytes, if_neg fun hempty => hne hempty.2] at h
  obtain ⟨header, hheader, hrest⟩ := bind_eq_ok.mp h
  cases hrest
  rw [initFromBytes, if_neg fun hempty => hne (List.append_eq_nil_iff.mp hempty.2).1,
    extends_parseHeader _ more _ _ hheader]
  rfl

/-- A trajectory that was opened has its bytes and, in the first one, its scale. -/
theorem exists_of_initFromBytes {buf : List UInt8} {trajectory : Trajectory}
    (h : initFromBytes F true buf = ok trajectory) :
    trajectory.buffer = buf ∧ trajectory.headerLength ≤ buf.length ∧ ∃ header rest,
      buf = header :: rest ∧ trajectory.scale = (header &&& 0x7F).toNat := by
  have hne : ¬ (true = true ∧ buf = []) := by
    intro hempty
    rw [initFromBytes, if_pos hempty] at h
    cases h
  rcases Nat.lt_or_ge buf.length 9 with hlt | hge
  · rw [initFromBytes_of_lt hne hlt] at h
    cases h
  · cases buf with
    | nil => exact absurd ⟨rfl, rfl⟩ hne
    | cons header rest =>
        obtain ⟨trajectory', hinit, hbuffer, hlength, hscale⟩ :=
          initFromBytes_of_le F true header (Nat.le_of_succ_le_succ hge)
        rw [hinit, ok.injEq] at h
        subst h
        exact ⟨hbuffer, hlength ▸ hge, header, rest, rfl, hscale⟩

end Trajectory

namespace TrajectoryPlayer

variable {F : Rounding}

theorem extends_parseSegment (scale : ℕ) (start : Vector3WithYaw) :
    (parseSegment F scale start).Extends := by
  have hcoordinates := fun n => (Trajectory.extends_parseCoordinate (F := F) scale).many n
  exact Parser.extends_cell.bind fun _ => extends_parseUint16.bind fun _ =>
    (hcoordinates _).bind fun _ => (hcoordinates _).bind fun _ => (hcoordinates _).bind fun _ =>
      (Trajectory.extends_parseAngle.many _).bind_pure

/-- A walk that has found some segments goes on behind the end of its bytes: if a walk from there
finds others, the walk from the beginning finds all of them. -/
def Continues (F : Rounding) (trajectory : Trajectory) (more : List UInt8)
    (offset startTimeMsec : ℕ) (start : Vector3WithYaw) (segments : List TrajectorySegment)
    (endTimeMsec : ℕ) (stop : Vector3WithYaw) : Prop :=
  ∀ (next last : TrajectoryPlayer) (rest : List TrajectorySegment) (n : ℕ),
    buildCurrentSegment F (trajectory.continued more) trajectory.buffer.length endTimeMsec stop =
      ok next →
    (∀ fuel, n < fuel → walk F fuel next = ok (rest, last)) →
    ∃ player, buildCurrentSegment F (trajectory.continued more) offset startTimeMsec start =
        ok player ∧
      ∀ fuel, segments.length + n < fuel → walk F fuel player = ok (segments ++ rest, last)

/-- **A walk that has reached the end of the bytes** goes on there if there are more: by
induction on its fuel. -/
theorem walk_continued {trajectory : Trajectory} (hscale : trajectory.scale ≠ 0)
    (more : List UInt8) {fuel offset startTimeMsec : ℕ} {start : Vector3WithYaw}
    {player final : TrajectoryPlayer} {segments : List TrajectorySegment}
    (hoffset : offset ≤ trajectory.buffer.length)
    (hbuild : buildCurrentSegment F trajectory offset startTimeMsec start = ok player)
    (hwalk : walk F fuel player = ok (segments, final)) :
    segments.length < fuel ∧ ∃ endTimeMsec stop,
      final.currentSegment.data = restSegment F endTimeMsec stop ∧
      Continues F trajectory more offset startTimeMsec start segments endTimeMsec stop := by
  induction fuel generalizing offset startTimeMsec start player segments with
  | zero => cases hwalk
  | succ fuel ih =>
      rw [buildCurrentSegment] at hbuild
      split at hbuild
      case isTrue hend =>
        cases hbuild
        cases hwalk
        obtain rfl : offset = trajectory.buffer.length :=
          hoffset.antisymm (hend.resolve_right hscale)
        refine ⟨Nat.succ_pos fuel, startTimeMsec, start, rfl, fun _ _ _ n hnext hrest => ?_⟩
        exact ⟨_, hnext, fun k hk => hrest k (by simpa using hk)⟩
      case isFalse hmore =>
        obtain ⟨⟨⟨durationMsec, poly⟩, next⟩, hparse, hplayer⟩ := bind_eq_ok.mp hbuild
        cases hplayer
        -- the segment is inside the bytes
        obtain ⟨hlt, -⟩ := not_or.mp hmore
        rw [Nat.not_le] at hlt
        have hheader := List.getElem?_eq_getElem hlt
        have hle : offset + segmentSize trajectory.buffer[offset] ≤ trajectory.buffer.length := by
          by_contra hgt
          rw [parseSegment_of_gt hheader (by omega)] at hparse
          cases hparse
        obtain ⟨segment, hsegment⟩ := @parseSegment_of_le F trajectory.scale start _ _ _ hheader hle
        rw [hparse, ok.injEq, Prod.mk.injEq] at hsegment
        obtain ⟨-, hnext⟩ := hsegment
        have hsize : 3 ≤ segmentSize trajectory.buffer[offset] := Nat.le_add_right _ _
        have hpos : 0 < next - offset := by omega
        have hinside : offset + (next - offset) ≤ trajectory.buffer.length := by omega
        rw [walk, if_pos (by simpa [hasMoreSegments] using hpos)] at hwalk
        obtain ⟨nextPlayer, hnextBuild, hwalk⟩ := bind_eq_ok.mp hwalk
        obtain ⟨⟨others, final'⟩, hothers, hpure⟩ := bind_eq_ok.mp hwalk
        cases hpure
        obtain ⟨hlength, endTimeMsec, stop, hfinal, hcontinues⟩ := ih hinside hnextBuild hothers
        refine ⟨Nat.succ_lt_succ hlength, endTimeMsec, stop, hfinal,
          fun _ _ _ n hbuild' hrest => ?_⟩
        obtain ⟨player', hplayer', hwalk'⟩ := hcontinues _ _ _ n hbuild' hrest
        have hmore' : ¬ ((trajectory.continued more).buffer.length ≤ offset ∨
            (trajectory.continued more).scale = 0) := by
          rw [not_or, Trajectory.continued, List.length_append]
          exact ⟨by omega, hscale⟩
        have hparse' : parseSegment F (trajectory.continued more).scale start
            (trajectory.continued more).buffer offset = ok ((durationMsec, poly), next) :=
          extends_parseSegment _ _ _ more _ _ hparse
        rw [buildCurrentSegment, if_neg hmore', hparse']
        refine ⟨_, rfl, fun k hk => ?_⟩
        obtain ⟨k, rfl⟩ := Nat.exists_eq_succ_of_ne_zero (Nat.ne_of_gt (Nat.zero_lt_of_lt hk))
        rw [List.length_cons] at hk
        rw [walk, if_pos (by simpa [hasMoreSegments] using hpos), buildNextSegment]
        simp only [hplayer', ok_bind, hwalk' k (by omega)]
        rfl

end TrajectoryPlayer

/-- The segments that a player finds that walks over encoded bytes. -/
def decoded (bytes : List UInt8) : Checked SbError (List TrajectorySegment) := do
  let trajectory ← Trajectory.initFromBytes .exact true bytes
  let player ← rewind .exact trajectory
  let (segments, _) ← walk .exact bytes.length player
  pure segments

/-! ### Bytes with segments appended -/

/-- A header with a scale, if there are bytes at all. -/
def HasScale (scale : ℕ) (bytes : List UInt8) : Prop :=
  ∀ header ∈ bytes.head?, (header &&& 0x7F).toNat = scale

namespace TrajectoryBuilder

variable {scale : ℕ} {bytes : List UInt8} {p last : Vector3WithYaw} {segments : List Segment}

/-- **What is decoded from bytes with segments appended**: a player that gets to the end of the
bytes finds the segments behind it, beginning where it stands. -/
theorem playback_append (hscale : HasScale scale bytes) (hpos : 0 < scale)
    (hp : playerAtEnd bytes = ok p) (hshort : ∀ s ∈ segments, s.2 ≤ maxDurationMsec)
    (hfits : AllFit .exact scale last segments) :
    ∃ before time, decoded bytes = ok before ∧
      playerAtEnd (bytes ++ encodeSegments .exact scale last segments) =
        ok (arrivalOf scale p last segments) ∧
      decoded (bytes ++ encodeSegments .exact scale last segments) =
        ok (before ++ playSegments scale p last time segments) := by
  obtain ⟨trajectory, hinit, hp⟩ := bind_eq_ok.mp hp
  obtain ⟨player, hrewind, hp⟩ := bind_eq_ok.mp hp
  obtain ⟨⟨before, final⟩, hwalk, hp⟩ := bind_eq_ok.mp hp
  obtain ⟨hbuffer, hheader, header, rest, hbytes, htrajectory⟩ :=
    Trajectory.exists_of_initFromBytes hinit
  have hscale' : trajectory.scale = scale := by
    rw [htrajectory]
    exact hscale header (by rw [hbytes]; rfl)
  have hne : bytes ≠ [] := hbytes ▸ List.cons_ne_nil _ _
  subst hscale'
  generalize hmore : encodeSegments .exact trajectory.scale last segments = more
  obtain ⟨hlength, time, stop, hfinal, hcontinues⟩ :=
    walk_continued hpos.ne' more (hbuffer ▸ hheader) hrewind hwalk
  -- the player stands where it stopped
  obtain rfl : stop = p := by
    have heval : final.currentSegment.data.poly.eval .exact 0 = stop := by
      rw [hfinal, eval_restSegment]
    exact heval.symm.trans (ok.inj hp)
  obtain ⟨next, last', hbuild, hplayed, endTime, hend⟩ := @walk_played
    (trajectory.continued more) hpos.ne' segments trajectory.buffer stop last time
    (by rw [Trajectory.continued, ← hmore]) hshort hfits
  obtain ⟨player', hplayer', hwalk'⟩ := hcontinues _ _ _ segments.length hbuild hplayed
  have hcount : segments.length ≤ more.length :=
    hmore ▸ length_le_encodeSegments .exact trajectory.scale last segments
  have hfuel : before.length + segments.length < (bytes ++ more).length := by
    rw [List.length_append]
    omega
  have hinit' := Trajectory.initFromBytes_append hinit hne more
  have hrewind' : rewind .exact (trajectory.continued more) = ok player' := hplayer'
  refine ⟨before, time, ?_, ?_, ?_⟩
  · rw [decoded, hinit, ok_bind, hrewind, ok_bind, hwalk]
    rfl
  · rw [playerAtEnd, hinit', ok_bind, hrewind', ok_bind, hwalk' _ hfuel]
    change ok (last'.currentSegment.data.poly.eval .exact 0) = _
    rw [hend, eval_restSegment]
    rfl
  · rw [decoded, hinit', ok_bind, hrewind', ok_bind, hwalk' _ hfuel]
    rfl

/-! ### All builders -/

/-- What holds of every builder: the buffer is its own, it begins with the scale of the builder,
and without bytes it is lost. -/
structure Valid (b : TrajectoryBuilder) : Prop where
  owned : b.buffer.owned = true
  scale_pos : 0 < b.scale
  hasScale : HasScale b.scale b.bytes
  lost : b.bytes = [] → b.buffer.capacity = 0

/-- A builder that can be reached: from a new one by calls that succeed or fail, and by
hand-overs to trajectories. -/
inductive Reachable : TrajectoryBuilder → Prop
  | init {scale flags : UInt8} {b : TrajectoryBuilder} (hinit : init scale flags = .ok b) :
      Reachable b
  | call {b : TrajectoryBuilder} (c : Call) (h : Reachable b) : Reachable (c.after .exact b)
  | handOver {b b' : TrajectoryBuilder} {trajectory : Trajectory} (h : Reachable b)
      (hrun : Trajectory.initFromBuilder .exact b = ok (trajectory, b')) : Reachable b'

variable {b b' : TrajectoryBuilder}

/-- More bytes behind those of a builder that is not lost. -/
theorem Valid.append (h : b.Valid) (hne : b.bytes ≠ []) {more : List UInt8}
    (hbytes : b'.bytes = b.bytes ++ more) (howned : b'.buffer.owned = true)
    (hscale : b'.scale = b.scale) : b'.Valid := by
  refine ⟨howned, hscale ▸ h.scale_pos, ?_, fun hnil => ?_⟩
  · rw [HasScale, hscale, hbytes, List.head?_append_of_ne_nil _ hne]
    exact h.hasScale
  · rw [hbytes] at hnil
    exact absurd (List.append_eq_nil_iff.mp hnil).1 hne

/-- Appending segments keeps a builder valid, successful or not. -/
theorem Valid.appendSegments (h : b.Valid) (alloc : Allocator) (segments : List Segment) :
    (∀ u, (appendSegments .exact alloc segments).run b = .ok u b' → b'.Valid) ∧
      ∀ e, (appendSegments .exact alloc segments).run b = .error e b' → b'.Valid := by
  induction segments generalizing b with
  | nil =>
      constructor
      · rintro _ ⟨⟩
        exact h
      · rintro _ ⟨⟩
  | cons segment segments ih =>
      obtain ⟨target, durationMsec⟩ := segment
      rw [TrajectoryBuilder.appendSegments, EStateM.run_bind]
      have hne : ∀ {c : ℕ}, Buffer.reservation b.buffer.size b.buffer.capacity 11 = some c →
          b.bytes ≠ [] := by
        intro c hres hnil
        have hsize : b.buffer.size = 0 := congrArg List.length hnil
        have hnone : Buffer.reservation 0 0 11 = none := by decide +kernel
        rw [hsize, h.lost hnil, hnone] at hres
        cases hres
      obtain ⟨-, hrefused⟩ | ⟨c, hres, hlost | ⟨flags, body, -, hunfit⟩ | ⟨-, -, hdone⟩⟩ :=
        @appendSegment_cases .exact alloc b target durationMsec h.owned
      · rw [hrefused]
        constructor
        · rintro _ ⟨⟩
        · rintro _ ⟨⟩
          exact h
      · rw [hlost]
        constructor
        · rintro _ ⟨⟩
        · rintro _ ⟨⟩
          exact ⟨h.owned, h.scale_pos, (fun _ hhead => by cases hhead), fun _ => rfl⟩
      · rw [hunfit]
        constructor
        · rintro _ ⟨⟩
        · rintro _ ⟨⟩
          exact h.append (hne hres) rfl h.owned rfl
      · rw [hdone]
        exact ih (@Valid.append b (appended .exact b target durationMsec c) h (hne hres) _ rfl
          h.owned rfl)

/-- Writing behind the first byte leaves the header alone. -/
theorem head?_writeInt16 (buf : List UInt8) {offset : ℕ} (hpos : 0 < offset) (value : ℤ) :
    (writeInt16 buf offset value).head? = buf.head? := by
  obtain ⟨offset, rfl⟩ := Nat.exists_eq_succ_of_ne_zero hpos.ne'
  cases buf with
  | nil => rfl
  | cons header rest => rfl

/-- Setting the start position keeps a builder valid, successful or not. -/
theorem Valid.setStartPosition (h : b.Valid) (start : Vector3WithYaw) :
    ((Call.setStartPosition start).after .exact b).Valid := by
  -- the header is not written again
  have hbytes : ∀ {buf : List UInt8}, buf.head? = b.bytes.head? → (b.withBytes buf).Valid := by
    intro buf hhead
    refine ⟨h.owned, h.scale_pos, fun header hheader => ?_, fun hnil => ?_⟩
    · exact h.hasScale header (hhead ▸ hheader)
    · refine h.lost (List.head?_eq_none_iff.mp (hhead.symm.trans ?_))
      exact List.head?_eq_none_iff.mpr hnil
  have hx := fun value => head?_writeInt16 b.bytes (Nat.succ_pos 0) value
  have hy := fun value value' => (head?_writeInt16 (writeInt16 b.bytes 1 value) (Nat.succ_pos 2)
    value').trans (hx value)
  rw [Call.after, Call.action]
  by_cases hsize : b.buffer.size = headerLength
  · rw [run_setStartPosition start hsize]
    cases scaleCoordinate .exact b.scale start.x with
    | error e => exact h
    | ok x =>
        cases scaleCoordinate .exact b.scale start.y with
        | error e => exact hbytes (hx x)
        | ok y =>
            cases scaleCoordinate .exact b.scale start.z with
            | error e => exact hbytes (hy x y)
            | ok z =>
                have hset := hbytes ((head?_writeInt16 _ (Nat.succ_pos 6) (scaleAngle .exact
                  start.yaw)).trans ((head?_writeInt16 _ (Nat.succ_pos 4) z).trans (hy x y)))
                exact ⟨hset.owned, hset.scale_pos, hset.hasScale, hset.lost⟩
  · rw [run_setStartPosition_of_ne .exact start hsize]
    exact h

/-- **Every call keeps a builder valid.** -/
theorem Valid.after (h : b.Valid) (c : Call) : (c.after .exact b).Valid := by
  have hsegments : ∀ (alloc : Allocator) (segments : List Segment),
      (c.action .exact).run b = (TrajectoryBuilder.appendSegments .exact alloc segments).run b →
      (c.after .exact b).Valid := by
    intro alloc segments hrun
    rw [Call.after]
    cases hres : (c.action .exact).run b with
    | ok u b' => exact (h.appendSegments alloc segments).1 u (hrun ▸ hres)
    | error e b' => exact (h.appendSegments alloc segments).2 e (hrun ▸ hres)
  cases c with
  | setStartPosition start => exact h.setStartPosition start
  | appendLine alloc target durationMsec =>
      exact hsegments alloc _ (run_appendLine h.owned target durationMsec)
  | holdPositionFor alloc durationMsec =>
      exact hsegments alloc _ (run_holdPositionFor h.owned durationMsec)

/-- **Every builder is valid.** -/
theorem Reachable.valid (h : Reachable b) : b.Valid := by
  induction h with
  | @init scale flags b hinit =>
      have hstarted := started_init hinit
      have hne : b.bytes ≠ [] := by
        rw [hstarted.bytes_eq]
        exact List.cons_ne_nil _ _
      refine ⟨hstarted.owned, ?_, ?_, fun hnil => absurd hnil hne⟩
      · rw [hstarted.scale_eq]
        exact Nat.pos_of_ne_zero fun hzero => hstarted.scale_ne (UInt8.toNat_inj.mp hzero)
      · rw [hstarted.bytes_eq, hstarted.scale_eq]
        rintro _ ⟨⟩
        rw [header_and scale flags hstarted.scale_le]
  | call c _ ih => exact ih.after c
  | @handOver b b' trajectory _ hrun ih =>
      obtain ⟨header, hread, hrun⟩ := bind_eq_ok.mp hrun
      obtain ⟨_, -, hrun⟩ := bind_eq_ok.mp hrun
      cases hrun
      refine ⟨rfl, ih.scale_pos, ?_, fun hnil => by cases hnil⟩
      rintro _ ⟨⟩
      refine ih.hasScale header ?_
      rw [List.head?_eq_getElem?]
      exact read_eq_ok.mp hread

end TrajectoryBuilder

end Skybrush
