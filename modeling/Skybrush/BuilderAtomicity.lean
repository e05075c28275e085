import Skybrush.TrajectoryBuilder

/-!
# Atomicity of the Trajectory Builder

A call on the builder is *atomic* when it either succeeds or leaves the encoded bytes and
the last position as they were. The builder writes first and checks later, so its calls
are atomic only when nothing has been written before they fail. `Call.Harmless`
says when that is, in terms of the arguments and of the state before the call.

## Main results

* `TrajectoryBuilder.appendSegments_atomic_iff`: appending a list of segments is atomic
  exactly when the space for the first one is refused, or all of them can be appended.
* `TrajectoryBuilder.setStartPosition_atomic_iff`: setting the start position is atomic
  exactly when it does not overwrite a coordinate before it finds one that does not fit.
* `builder_atomic_iff`: in every run, the calls are atomic as long as they are harmless.
-/

namespace Skybrush

namespace TrajectoryBuilder

/-- The call leaves the builder as it was when it fails. -/
def Atomic (x : Action Unit) (b : TrajectoryBuilder) : Prop :=
  ∀ e b', x.run b = .error e b' → b'.bytes = b.bytes ∧ b'.lastPosition = b.lastPosition

/-- An action that cannot fail in a state is atomic there. -/
theorem atomic_of_ok {x : Action Unit} {b b' : TrajectoryBuilder} (h : x.run b = .ok () b') :
    Atomic x b := by
  intro e b'' herror
  rw [h] at herror
  cases herror

/-- An action that fails is atomic when it leaves the state alone. -/
theorem atomic_iff_of_error {x : Action Unit} {b b' : TrajectoryBuilder} {e : SbError}
    (h : x.run b = .error e b') :
    Atomic x b ↔ b'.bytes = b.bytes ∧ b'.lastPosition = b.lastPosition := by
  constructor
  · intro hatomic
    exact hatomic e b' h
  · rintro hsame e' b'' herror
    rw [h] at herror
    cases herror
    exact hsame

variable (F : Rounding) (alloc : Allocator)

/-! ### Appending segments -/

/-- The space for another segment is refused, so nothing is written. -/
def Refused (b : TrajectoryBuilder) : Prop :=
  Buffer.reservation b.buffer.size b.buffer.capacity 11 = none

/-- The number of bytes of a segment. -/
def segmentLength (last target : Vector3WithYaw) : ℕ :=
  3 + (if last.x ≠ target.x then 2 else 0) + (if last.y ≠ target.y then 2 else 0) +
    (if last.z ≠ target.z then 2 else 0) + (if last.yaw ≠ target.yaw then 2 else 0)

theorem length_segmentBytes (scale : ℕ) (last target : Vector3WithYaw) (durationMsec : ℕ) :
    (segmentBytes F scale last target durationMsec).length = segmentLength last target := by
  have hchanged : ∀ (changed : Prop) [Decidable changed] (value : ℤ),
      (changedBytes changed value).length = if changed then 2 else 0 := by
    intro changed _ value
    by_cases h : changed <;> simp [changedBytes, h]
  simp only [segmentBytes, targetBytes, List.length_cons, List.length_append, hchanged,
    length_encodeUint16, segmentLength]
  omega

/-- From a buffer of the given capacity and size, and from the given position on, there is
space for every segment of a list, and their coordinates fit. -/
def Completes (scale : ℕ) : ℕ → ℕ → Vector3WithYaw → List Segment → Prop
  | _, _, _, [] => True
  | capacity, size, last, (target, _) :: segments =>
      ∃ c, Buffer.reservation size capacity 11 = some c ∧ Buffer.Available alloc capacity c ∧
        SegmentFits F scale last target ∧
        Completes scale c (size + segmentLength last target) target segments

variable {F alloc}

/-- Appending segments succeeds exactly when all of them can be appended. -/
theorem appendSegments_ok_iff {segments : List Segment} {b : TrajectoryBuilder}
    (howned : b.buffer.owned = true) :
    (∃ b', (appendSegments F alloc segments).run b = .ok () b') ↔
      Completes F alloc b.scale b.buffer.capacity b.buffer.size b.lastPosition segments := by
  induction segments generalizing b with
  | nil => exact ⟨fun _ => trivial, fun _ => ⟨b, rfl⟩⟩
  | cons segment segments ih =>
      obtain ⟨target, durationMsec⟩ := segment
      have hsize : ∀ c, (appended F b target durationMsec c).buffer.size =
          b.buffer.size + segmentLength b.lastPosition target := by
        intro c
        rw [← length_segmentBytes F b.scale b.lastPosition target durationMsec]
        exact List.length_append
      rw [Completes]
      constructor
      · rintro ⟨b', hrun⟩
        rw [appendSegments, EStateM.run_bind] at hrun
        split at hrun
        case h_1 b₁ h₁ =>
          obtain ⟨c, hres, halloc, hfits, rfl⟩ := (appendSegment_eq_ok howned).mp h₁
          have hrest := (ih (b := appended F b target durationMsec c) howned).mp ⟨b', hrun⟩
          rw [hsize] at hrest
          exact ⟨c, hres, halloc, hfits, hrest⟩
        case h_2 => cases hrun
      · rintro ⟨c, hres, halloc, hfits, hrest⟩
        rw [← hsize c] at hrest
        obtain ⟨b', hrun⟩ := (ih (b := appended F b target durationMsec c) howned).mpr hrest
        refine ⟨b', ?_⟩
        rw [appendSegments, EStateM.run_bind, appendSegment_done howned hres halloc hfits]
        exact hrun

/-- Segments that cannot all be appended leave a lost buffer, or a longer one when space
for the first one was found. -/
theorem length_of_appendSegments_error {segments : List Segment} {b b' : TrajectoryBuilder}
    {e : SbError} (howned : b.buffer.owned = true)
    (h : (appendSegments F alloc segments).run b = .error e b') :
    b'.bytes = [] ∨ b.bytes.length ≤ b'.bytes.length ∧
      (¬ b.Refused → b.bytes.length < b'.bytes.length) := by
  induction segments generalizing b with
  | nil => cases h
  | cons segment segments ih =>
      obtain ⟨target, durationMsec⟩ := segment
      rw [appendSegments, EStateM.run_bind] at h
      obtain ⟨hres, hrefused⟩ | ⟨c, -, hlost | ⟨flags, body, hbody, hunfit⟩ | ⟨-, -, hdone⟩⟩ :=
        @appendSegment_cases F alloc b target durationMsec howned
      · rw [hrefused] at h
        cases h
        exact Or.inr ⟨le_rfl, fun hgranted => absurd hres hgranted⟩
      · rw [hlost] at h
        cases h
        exact Or.inl rfl
      · rw [hunfit] at h
        cases h
        have hlen := @length_draft (b.withCapacity c) b.bytes body flags hbody
        exact Or.inr ⟨by omega, fun _ => by omega⟩
      · rw [hdone] at h
        have hlen : (appended F b target durationMsec c).bytes.length =
            b.bytes.length + segmentLength b.lastPosition target := by
          rw [← length_segmentBytes F b.scale b.lastPosition target durationMsec]
          exact List.length_append
        have hpos : 3 ≤ segmentLength b.lastPosition target := by
          simp only [segmentLength]
          omega
        rcases ih (b := appended F b target durationMsec c) howned h with hlost | ⟨hle, -⟩
        · exact Or.inl hlost
        · exact Or.inr ⟨by omega, fun _ => by omega⟩

/-- Segments whose space is refused at once, or that can all be appended, leave the builder
alone when they fail. -/
theorem eq_of_appendSegments_error {segments : List Segment} {b b' : TrajectoryBuilder}
    {e : SbError} (howned : b.buffer.owned = true)
    (h : b.Refused ∨
      Completes F alloc b.scale b.buffer.capacity b.buffer.size b.lastPosition segments)
    (herror : (appendSegments F alloc segments).run b = .error e b') : b' = b := by
  rcases h with hrefused | hcompletes
  · cases segments with
    | nil => cases herror
    | cons segment segments =>
        rw [appendSegments, EStateM.run_bind, appendSegment_refused hrefused] at herror
        cases herror
        rfl
  · obtain ⟨b'', hok⟩ := (appendSegments_ok_iff howned).mpr hcompletes
    rw [herror] at hok
    cases hok

/-- **Appending segments is atomic** exactly when the space for the first one is refused,
or all of them can be appended. -/
theorem appendSegments_atomic_iff {segments : List Segment} {b : TrajectoryBuilder}
    (howned : b.buffer.owned = true) (hne : b.bytes ≠ []) :
    Atomic (appendSegments F alloc segments) b ↔
      b.Refused ∨
        Completes F alloc b.scale b.buffer.capacity b.buffer.size b.lastPosition segments := by
  constructor
  · intro hatomic
    by_contra hnot
    rw [not_or, ← appendSegments_ok_iff howned] at hnot
    cases hrun : (appendSegments F alloc segments).run b with
    | ok u b' => exact hnot.2 ⟨b', hrun⟩
    | error e b' =>
        have hbytes := (hatomic e b' hrun).1
        rcases length_of_appendSegments_error howned hrun with hlost | ⟨-, hlonger⟩
        · exact hne (hbytes ▸ hlost)
        · have := hlonger hnot.1
          rw [hbytes] at this
          omega
  · rintro h e b' herror
    rw [eq_of_appendSegments_error howned h herror]
    exact ⟨rfl, rfl⟩

/-! ### Setting the start position -/

/-- A 16-bit value is stored at an offset already. -/
def Stores (b : TrajectoryBuilder) (offset : ℕ) (value : ℤ) : Prop :=
  writeInt16 b.bytes offset value = b.bytes

/-- Setting this start position overwrites no coordinate before it finds one that does not
fit. -/
def StartKept (F : Rounding) (b : TrajectoryBuilder) (start : Vector3WithYaw) : Prop :=
  b.buffer.size = headerLength → CoordinateFits F b.scale start.x →
    (¬ CoordinateFits F b.scale start.y → b.Stores 1 ⌊F (start.x / b.scale)⌋) ∧
      (CoordinateFits F b.scale start.y → ¬ CoordinateFits F b.scale start.z →
        b.Stores 1 ⌊F (start.x / b.scale)⌋ ∧ b.Stores 3 ⌊F (start.y / b.scale)⌋)

/-- Writing two values at different places changes nothing only if neither does. -/
theorem writeInt16_writeInt16_eq_self {buf : List UInt8} (h : buf.length = 9) (v w : ℤ) :
    writeInt16 (writeInt16 buf 1 v) 3 w = buf ↔
      writeInt16 buf 1 v = buf ∧ writeInt16 buf 3 w = buf := by
  obtain ⟨a, rest, rfl⟩ := List.exists_cons_of_length_eq_add_one h
  obtain ⟨b, rest, rfl⟩ := List.exists_cons_of_length_eq_add_one (Nat.succ.inj h)
  obtain ⟨c, rest, rfl⟩ := List.exists_cons_of_length_eq_add_one (Nat.succ.inj (Nat.succ.inj h))
  simp only [writeInt16, encodeInt16, encodeUint16, writeBytes, List.set_cons_succ,
    List.set_cons_zero, List.cons.injEq, true_and, and_assoc]

theorem run_writeCoordinate (b : TrajectoryBuilder) (coordinate : ℚ) (offset : ℕ) :
    (store.writeCoordinate F coordinate offset).run b =
      match scaleCoordinate F b.scale coordinate with
      | .error e => .error e b
      | .ok v => .ok (offset + 2) (b.withBytes (writeInt16 b.bytes offset v)) :=
  writes_writeCoordinate F b.scale coordinate b rfl offset

/-- Setting the start position, coordinate by coordinate. -/
theorem run_setStartPosition {b : TrajectoryBuilder} (start : Vector3WithYaw)
    (hsize : b.buffer.size = headerLength) :
    (setStartPosition F start).run b =
      match scaleCoordinate F b.scale start.x with
      | .error e => .error e b
      | .ok x =>
          match scaleCoordinate F b.scale start.y with
          | .error e => .error e (b.withBytes (writeInt16 b.bytes 1 x))
          | .ok y =>
              match scaleCoordinate F b.scale start.z with
              | .error e => .error e (b.withBytes (writeInt16 (writeInt16 b.bytes 1 x) 3 y))
              | .ok z =>
                  .ok ()
                    { b.withBytes (writeInt16 (writeInt16 (writeInt16 (writeInt16 b.bytes 1 x) 3 y)
                        5 z) 7 (scaleAngle F start.yaw)) with
                      lastPosition := start } := by
  rw [setStartPosition, BuilderStore.setStartPosition, run_size_bind, if_neg (not_not.mpr hsize)]
  simp only [EStateM.run_bind, run_writeCoordinate]
  cases scaleCoordinate F b.scale start.x with
  | error e => rfl
  | ok x =>
      simp only [scale_withBytes, bytes_withBytes]
      cases scaleCoordinate F b.scale start.y with
      | error e => rfl
      | ok y =>
          simp only [scale_withBytes, bytes_withBytes]
          cases scaleCoordinate F b.scale start.z with
          | error e => rfl
          | ok z => rfl

/-- **Setting the start position is atomic** exactly when it keeps the old one until it
fails. -/
theorem setStartPosition_atomic_iff (b : TrajectoryBuilder) (start : Vector3WithYaw) :
    Atomic (setStartPosition F start) b ↔ StartKept F b start := by
  by_cases hsize : b.buffer.size = headerLength
  · have hlen : b.bytes.length = 9 := hsize
    have hrun := @run_setStartPosition F b start hsize
    by_cases hx : CoordinateFits F b.scale start.x
    · have hokx := scaleCoordinate_of_fits F hx
      by_cases hy : CoordinateFits F b.scale start.y
      · have hoky := scaleCoordinate_of_fits F hy
        by_cases hz : CoordinateFits F b.scale start.z
        · have hokz := scaleCoordinate_of_fits F hz
          simp only [hokx, hoky, hokz] at hrun
          exact ⟨fun _ _ _ => ⟨fun h => absurd hy h, fun _ h => absurd hz h⟩,
            fun _ => atomic_of_ok hrun⟩
        · simp only [hokx, hoky, scaleCoordinate_of_not_fits F hz] at hrun
          rw [atomic_iff_of_error hrun, bytes_withBytes, writeInt16_writeInt16_eq_self hlen]
          exact ⟨fun h _ _ => ⟨fun hnot => absurd hy hnot, fun _ _ => h.1⟩,
            fun h => ⟨(h hsize hx).2 hy hz, rfl⟩⟩
      · simp only [hokx, scaleCoordinate_of_not_fits F hy] at hrun
        rw [atomic_iff_of_error hrun, bytes_withBytes]
        exact ⟨fun h _ _ => ⟨fun _ => h.1, fun hfit => absurd hfit hy⟩,
          fun h => ⟨(h hsize hx).1 hy, rfl⟩⟩
    · simp only [scaleCoordinate_of_not_fits F hx] at hrun
      rw [atomic_iff_of_error hrun]
      exact ⟨fun _ _ hfit => absurd hfit hx, fun _ => ⟨rfl, rfl⟩⟩
  · rw [atomic_iff_of_error (run_setStartPosition_of_ne F start hsize)]
    exact ⟨fun _ hheader => absurd hheader hsize, fun _ => ⟨rfl, rfl⟩⟩

/-! ### Runs -/

/-- A call on a builder, with the memory that can be had during it. -/
inductive Call where
  | setStartPosition (start : Vector3WithYaw)
  | appendLine (alloc : Allocator) (target : Vector3WithYaw) (durationMsec : ℕ)
  | holdPositionFor (alloc : Allocator) (durationMsec : ℕ)

namespace Call

variable (F : Rounding)

/-- What a call does. -/
def action : Call → Action Unit
  | .setStartPosition start => TrajectoryBuilder.setStartPosition F start
  | .appendLine alloc target durationMsec =>
      TrajectoryBuilder.appendLine F alloc target durationMsec
  | .holdPositionFor alloc durationMsec => TrajectoryBuilder.holdPositionFor F alloc durationMsec

/-- The builder after a call, successful or not. -/
def after (c : Call) (b : TrajectoryBuilder) : TrajectoryBuilder :=
  match (c.action F).run b with
  | .ok _ b' => b'
  | .error _ b' => b'

/-- **The condition under which a call is atomic**: it fails before it has written anything,
or it does not fail. -/
def Harmless (b : TrajectoryBuilder) : Call → Prop
  | .setStartPosition start => StartKept F b start
  | .appendLine alloc target durationMsec =>
      b.Refused ∨ Completes F alloc b.scale b.buffer.capacity b.buffer.size b.lastPosition
        (lineSegments F b.lastPosition target durationMsec)
  | .holdPositionFor alloc durationMsec =>
      b.Refused ∨ Completes F alloc b.scale b.buffer.capacity b.buffer.size b.lastPosition
        (holdSegments b.lastPosition durationMsec)

end Call

/-- A builder whose buffer is there. -/
structure Alive (b : TrajectoryBuilder) : Prop where
  owned : b.buffer.owned = true
  bytes_ne : b.bytes ≠ []

/-- A call is atomic exactly when it is harmless. -/
theorem Call.atomic_iff {b : TrajectoryBuilder} (h : b.Alive) (c : Call) :
    Atomic (c.action F) b ↔ c.Harmless F b := by
  cases c with
  | setStartPosition start => exact setStartPosition_atomic_iff b start
  | appendLine alloc target durationMsec =>
      have hiff := @appendSegments_atomic_iff F alloc
        (lineSegments F b.lastPosition target durationMsec) b h.owned h.bytes_ne
      simp only [Atomic, ← run_appendLine h.owned] at hiff
      exact hiff
  | holdPositionFor alloc durationMsec =>
      have hiff := @appendSegments_atomic_iff F alloc
        (holdSegments b.lastPosition durationMsec) b h.owned h.bytes_ne
      simp only [Atomic, ← run_holdPositionFor h.owned] at hiff
      exact hiff

/-- Appending segments makes the builder longer, and keeps its buffer. -/
theorem Alive.appendSegments {segments : List Segment} {b b' : TrajectoryBuilder}
    (hb : b.Alive) (h : (appendSegments F alloc segments).run b = .ok () b') : b'.Alive := by
  induction segments generalizing b with
  | nil =>
      cases h
      exact hb
  | cons segment segments ih =>
      obtain ⟨target, durationMsec⟩ := segment
      rw [TrajectoryBuilder.appendSegments, EStateM.run_bind] at h
      split at h
      case h_1 b₁ h₁ =>
        obtain ⟨c, -, -, -, rfl⟩ := (appendSegment_eq_ok hb.owned).mp h₁
        have hnext : (appended F b target durationMsec c).Alive :=
          ⟨hb.owned, List.append_ne_nil_of_left_ne_nil hb.bytes_ne _⟩
        exact ih hnext h
      case h_2 => cases h

/-- Setting the start position keeps the buffer, successful or not. -/
theorem Alive.setStartPosition {b : TrajectoryBuilder} (h : b.Alive) (start : Vector3WithYaw) :
    ((Call.setStartPosition start).after F b).Alive := by
  have hwrite : ∀ {buf : List UInt8}, buf ≠ [] → ∀ offset value,
      writeInt16 buf offset value ≠ [] := by
    intro buf hbuf offset value
    rw [← List.length_pos_iff] at hbuf ⊢
    rwa [writeInt16, length_writeBytes]
  rw [Call.after, Call.action]
  by_cases hsize : b.buffer.size = headerLength
  · rw [run_setStartPosition start hsize]
    cases scaleCoordinate F b.scale start.x with
    | error e => exact h
    | ok x =>
        have hx := hwrite h.bytes_ne 1 x
        cases scaleCoordinate F b.scale start.y with
        | error e => exact ⟨h.owned, hx⟩
        | ok y =>
            have hy := hwrite hx 3 y
            cases scaleCoordinate F b.scale start.z with
            | error e => exact ⟨h.owned, hy⟩
            | ok z => exact ⟨h.owned, hwrite (hwrite hy 5 z) 7 _⟩
  · rw [run_setStartPosition_of_ne F start hsize]
    exact h

/-- A harmless call keeps the builder alive. -/
theorem Alive.after {b : TrajectoryBuilder} (h : b.Alive) {c : Call} (hc : c.Harmless F b) :
    (c.after F b).Alive := by
  have hsegments : ∀ (alloc : Allocator) (segments : List Segment),
      (c.action F).run b = (TrajectoryBuilder.appendSegments F alloc segments).run b →
      (b.Refused ∨
        Completes F alloc b.scale b.buffer.capacity b.buffer.size b.lastPosition segments) →
      (c.after F b).Alive := by
    intro alloc segments hrun hmet
    rw [Call.after]
    cases hres : (c.action F).run b with
    | ok u b' => exact h.appendSegments (hrun ▸ hres)
    | error e b' =>
        have hsame : b' = b := eq_of_appendSegments_error h.owned hmet (hrun ▸ hres)
        rw [hsame]
        exact h
  cases c with
  | setStartPosition start => exact h.setStartPosition start
  | appendLine alloc target durationMsec =>
      exact hsegments alloc _ (run_appendLine h.owned target durationMsec) hc
  | holdPositionFor alloc durationMsec =>
      exact hsegments alloc _ (run_holdPositionFor h.owned durationMsec) hc

variable (F)

/-- Every call of a run satisfies a property in the state that it is made in. -/
def Always (P : Call → TrajectoryBuilder → Prop) : TrajectoryBuilder → List Call → Prop
  | _, [] => True
  | b, c :: calls => P c b ∧ Always P (c.after F b) calls

/-- A builder that was initialised has its buffer. -/
theorem alive_init {scale flags : UInt8} {b : TrajectoryBuilder} (h : init scale flags = .ok b) :
    b.Alive := by
  rw [init] at h
  split at h
  · cases h
  · cases h
    refine ⟨rfl, ?_⟩
    rw [← List.length_pos_iff]
    simp [bytes, Buffer.init, headerLength]

end TrajectoryBuilder

open TrajectoryBuilder

/-- **The calls on a builder are atomic exactly as long as they are harmless**: in every run
on a builder that was initialised, every call is atomic in the state it is made in if and
only if every call meets the condition in that state. -/
theorem builder_atomic_iff (F : Rounding) {scale flags : UInt8} {b : TrajectoryBuilder}
    (h : init scale flags = .ok b) (calls : List Call) :
    Always F (fun c b => Atomic (c.action F) b) b calls ↔
      Always F (fun c b => c.Harmless F b) b calls := by
  have halive := alive_init h
  clear h
  induction calls generalizing b with
  | nil => exact Iff.rfl
  | cons c calls ih =>
      rw [Always, Always, c.atomic_iff halive]
      constructor
      · rintro ⟨hc, hrest⟩
        exact ⟨hc, (ih (halive.after hc)).mp hrest⟩
      · rintro ⟨hc, hrest⟩
        exact ⟨hc, (ih (halive.after hc)).mpr hrest⟩

/-- With scale 1, a start position at x = 40000 is declined before anything is written, and a line
to (1, 0, 0) is appended: both calls are atomic. -/
theorem builder_atomic_iff_declinedStart :
    ∃ b, init 1 0 = .ok b ∧
      (setStartPosition Rounding.exact ⟨40000, 0, 0, 0⟩).run b = .error .einval b ∧
      Always Rounding.exact (fun c b => Atomic (c.action Rounding.exact) b) b
        [.setStartPosition ⟨40000, 0, 0, 0⟩, .appendLine (fun _ => true) ⟨1, 0, 0, 0⟩ 1000] := by
  let b : TrajectoryBuilder := ⟨⟨[1, 0, 0, 0, 0, 0, 0, 0, 0], 9, true⟩, .zero, 1⟩
  have hunfit : ¬ CoordinateFits Rounding.exact b.scale 40000 := by norm_num [b, CoordinateFits]
  have hfits : SegmentFits Rounding.exact b.scale b.lastPosition ⟨1, 0, 0, 0⟩ :=
    ⟨fun _ => by norm_num [b, CoordinateFits], fun h => absurd rfl h, fun h => absurd rfl h⟩
  have hres : Buffer.reservation b.buffer.size b.buffer.capacity 11 = some 36 := by
    decide +kernel
  have hdeclined : (setStartPosition Rounding.exact ⟨40000, 0, 0, 0⟩).run b = .error .einval b := by
    rw [run_setStartPosition _ rfl, scaleCoordinate_of_not_fits _ hunfit]
  have hafter : (Call.setStartPosition ⟨40000, 0, 0, 0⟩).after Rounding.exact b = b := by
    rw [Call.after, Call.action, hdeclined]
  refine ⟨b, rfl, hdeclined, (@builder_atomic_iff Rounding.exact 1 0 b rfl _).mpr ?_⟩
  refine ⟨fun _ hx => absurd hx hunfit, ?_⟩
  rw [hafter]
  refine ⟨.inr ?_, trivial⟩
  rw [lineSegments_of_le _ (by decide)]
  exact ⟨36, hres, .inr rfl, hfits, trivial⟩

/-- A line to x = 40000 with scale 1: the call fails, and 11 bytes stay behind. -/
theorem appendLine_leavesBytes :
    ∃ b, init 1 0 = .ok b ∧
      ¬ Always Rounding.exact (fun c b => Atomic (c.action Rounding.exact) b) b
        [.appendLine (fun _ => true) ⟨40000, 0, 0, 0⟩ 1000] := by
  let b : TrajectoryBuilder := ⟨⟨[1, 0, 0, 0, 0, 0, 0, 0, 0], 9, true⟩, .zero, 1⟩
  have hunfit : ¬ SegmentFits Rounding.exact b.scale b.lastPosition ⟨40000, 0, 0, 0⟩ := by
    rintro ⟨hx, -, -⟩
    have hhigh := (hx (by decide)).2
    norm_num [b] at hhigh
  have hres : Buffer.reservation b.buffer.size b.buffer.capacity 11 = some 36 := by
    decide +kernel
  obtain ⟨flags, body, hbody, herror⟩ := @appendSegment_unfit Rounding.exact (fun _ => true) b
    ⟨40000, 0, 0, 0⟩ 1000 36 rfl hres (Or.inr rfl) hunfit
  have hlen := @length_draft (b.withCapacity 36) b.bytes body flags hbody
  refine ⟨b, rfl, ?_⟩
  rintro ⟨hatomic, -⟩
  have hbytes := (hatomic .einval ((b.withCapacity 36).draft b.bytes flags body) ?_).1
  · rw [hbytes] at hlen
    omega
  · rw [← herror, Call.action, run_appendLine_of_le rfl _ (by decide)]

end Skybrush
