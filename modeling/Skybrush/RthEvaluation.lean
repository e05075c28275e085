import Skybrush.RthPlan

/-!
# Evaluating Return-to-Home Plans

What the evaluation of an encoded plan yields. A `RthSource` is a plan before it is encoded: the
points and the entries, each of which has its own time difference, duration and delays,
and an action with its parameters unless it is the same as the one before.

The entry that is selected is the first one that is not before the given time. Its action
is the one of the latest entry that says what to do (`RthSource.latestAction`); whatever
comes behind the selected entry has no influence.

## Main results

* `RthPlan.reads_parseEntry`: an entry is read back from its bytes.
* `RthPlan.parseEntries_encode`: so are all entries up to the selected one.
* `RthPlan.kept_foldl`: what is kept after some entries.
* `rth_evaluate`: the evaluation of an encoded plan yields the selected entry.
-/

namespace Skybrush

open Checked Base128

/-! ### Plans before they are encoded -/

/-- What an entry says to do, with points given by their indices and lengths as multiples of
the scale. -/
inductive SourceAction where
  | sameAsPrevious
  | land
  | goToKeepingAltitude (pointIndex : ℕ)
  | goToWithAltitude (pointIndex : ℕ) (altitude neck : ℤ) (neckDuration : ℕ)
  deriving DecidableEq, Repr

namespace SourceAction

/-- The action without its parameters. -/
def kind : SourceAction → RthAction
  | sameAsPrevious => .sameAsPrevious
  | land => .land
  | goToKeepingAltitude _ => .goToKeepingAltitude
  | goToWithAltitude _ _ _ _ => .goToWithAltitude

/-- The index of the target. -/
def pointIndex : SourceAction → ℕ
  | goToKeepingAltitude pointIndex => pointIndex
  | goToWithAltitude pointIndex _ _ _ => pointIndex
  | _ => 0

/-- The altitude of the target. -/
def altitude : SourceAction → ℤ
  | goToWithAltitude _ altitude _ _ => altitude
  | _ => 0

/-- The height of the neck. -/
def neck : SourceAction → ℤ
  | goToWithAltitude _ _ neck _ => neck
  | _ => 0

/-- The duration of the neck. -/
def neckDuration : SourceAction → ℕ
  | goToWithAltitude _ _ _ neckDuration => neckDuration
  | _ => 0

/-- The target is a point of the plan, and everything fits where it is encoded. -/
def Valid (numPoints : ℕ) : SourceAction → Prop
  | sameAsPrevious => True
  | land => True
  | goToKeepingAltitude pointIndex => pointIndex < numPoints
  | goToWithAltitude pointIndex altitude neck neckDuration =>
      pointIndex < numPoints ∧ (-32768 ≤ altitude ∧ altitude ≤ 32767) ∧
        (-32768 ≤ neck ∧ neck ≤ 32767) ∧ neckDuration ≤ RthPlan.maxDuration

/-- The bytes of the parameters. -/
def bytes : SourceAction → List UInt8
  | sameAsPrevious => []
  | land => []
  | goToKeepingAltitude pointIndex => encode pointIndex
  | goToWithAltitude pointIndex altitude neck neckDuration =>
      encode pointIndex ++ (encodeInt16 altitude ++ (encodeInt16 neck ++ encode neckDuration))

/-- The action after an entry, given the one before it. -/
def after (previous : RthAction) (action : SourceAction) : RthAction :=
  if action = sameAsPrevious then previous else action.kind

end SourceAction

/-- An entry before it is encoded. -/
structure SourceEntry where
  timeDiff : ℕ
  action : SourceAction
  duration : ℕ
  preDelay : Option ℕ
  postDelay : Option ℕ
  deriving DecidableEq, Repr

namespace SourceEntry

/-- Everything fits where it is encoded. -/
structure Valid (numPoints : ℕ) (entry : SourceEntry) : Prop where
  action : entry.action.Valid numPoints
  duration : entry.duration ≤ RthPlan.maxDuration
  preDelay : ∀ delay, entry.preDelay = some delay → delay ≤ RthPlan.maxDuration
  postDelay : ∀ delay, entry.postDelay = some delay → delay ≤ RthPlan.maxDuration

/-- The flags of an action, and of delays before and behind it. -/
def flagsOf (action : RthAction) (preDelay postDelay : Bool) : UInt8 :=
  (match action with
    | .sameAsPrevious => 0x00
    | .land => 0x10
    | .goToKeepingAltitude => 0x20
    | .goToWithAltitude => 0x30) |||
  (if preDelay then 0x02 else 0x00) ||| (if postDelay then 0x01 else 0x00)

/-- The flags of an entry: its action, and whether there are delays. -/
def flags (entry : SourceEntry) : UInt8 :=
  flagsOf entry.action.kind entry.preDelay.isSome entry.postDelay.isSome

/-- What the flags say. -/
theorem flagsOf_spec (action : RthAction) (preDelay postDelay : Bool) :
    RthAction.ofFlags (flagsOf action preDelay postDelay) = action ∧
      (flagsOf action preDelay postDelay &&& 0x02 ≠ 0 ↔ preDelay = true) ∧
      (flagsOf action preDelay postDelay &&& 0x01 ≠ 0 ↔ postDelay = true) := by
  cases action <;> cases preDelay <;> cases postDelay <;> decide

/-- The bytes of an entry. The duration is there if the action, which may be the one of an
entry before, has one. -/
def bytes (previous : RthAction) (entry : SourceEntry) : List UInt8 :=
  entry.flags :: (encode entry.timeDiff ++ (entry.action.bytes ++
    ((if (entry.action.after previous).hasDuration then encode entry.duration else []) ++
      ((entry.preDelay.map encode).getD [] ++ (entry.postDelay.map encode).getD []))))

end SourceEntry

/-- The bytes of some entries, given the action before them. -/
def encodeEntries : RthAction → List SourceEntry → List UInt8
  | _, [] => []
  | previous, entry :: entries =>
      entry.bytes previous ++ encodeEntries (entry.action.after previous) entries

/-- The bytes of a point. -/
def encodePoint (point : ℤ × ℤ) : List UInt8 := encodeInt16 point.1 ++ encodeInt16 point.2

/-- A plan before it is encoded. -/
structure RthSource where
  scale : ℕ
  points : List (ℤ × ℤ)
  entries : List SourceEntry
  scale_le : scale ≤ 127
  length_points : points.length ≤ 65535
  points_fit : ∀ point ∈ points, (-32768 ≤ point.1 ∧ point.1 ≤ 32767) ∧
    (-32768 ≤ point.2 ∧ point.2 ≤ 32767)
  length_entries : entries.length ≤ 65535
  entries_valid : ∀ entry ∈ entries, entry.Valid points.length
  time_lt : (entries.map SourceEntry.timeDiff).sum < 2 ^ 32

namespace RthSource

/-- **The binary format** of a plan. -/
def bytes (source : RthSource) : List UInt8 :=
  UInt8.ofNat source.scale :: (encodeUint16 source.points.length ++
    (source.points.flatMap encodePoint ++ (encodeUint16 source.entries.length ++
      encodeEntries .land source.entries)))

/-! ### What the evaluation should yield -/

/-- The cumulative time of the last of some entries. -/
def totalTime (entries : List SourceEntry) : ℕ := (entries.map SourceEntry.timeDiff).sum

/-- The latest action of some entries that is not the same as the one before; land, if there
is none. -/
def latestAction (entries : List SourceEntry) : SourceAction :=
  ((entries.map SourceEntry.action).filter (· ≠ .sameAsPrevious)).getLastD .land

/-- The entry for a time: the first one whose cumulative time is not before it, or the last
one. -/
structure Selected (F : Rounding) (entries : List SourceEntry) (time : TimeSec) (i : ℕ)
    (entry : SourceEntry) : Prop where
  entry_eq : entries[i]? = some entry
  before : ∀ j < i, time.isAtMost (F (totalTime (entries.take (j + 1)))) = false
  reached : time.isAtMost (F (totalTime (entries.take (i + 1)))) = true ∨ i + 1 = entries.length

/-- The coordinates of a point of the plan. -/
def pointAt (F : Rounding) (source : RthSource) (index : ℕ) : Vector2 :=
  match source.points[index]? with
  | some (x, y) => ⟨F (x * source.scale), F (y * source.scale)⟩
  | none => ⟨0, 0⟩

/-- Land, at the given time. -/
def defaultEntry (time : TimeSec) : RthPlanEntry where
  timeSec := time
  action := .land
  durationSec := 0
  target := ⟨0, 0⟩
  targetAltitude := 0
  preDelaySec := 0
  postDelaySec := 0
  preNeckMm := 0
  preNeckDurationSec := 0

/-- The last of some entries: with the action of the latest one that is not the same as the one
before, and its own time, duration and delays. An action without a duration lasts for zero
seconds. -/
def describe (F : Rounding) (source : RthSource) (entries : List SourceEntry)
    (entry : SourceEntry) : RthPlanEntry :=
  let action := latestAction entries
  { timeSec := .finite (F (totalTime entries))
    action := action.kind
    durationSec := if action.kind.hasDuration then F entry.duration else 0
    target := if action.kind.hasTarget then source.pointAt F action.pointIndex else ⟨0, 0⟩
    targetAltitude := F (action.altitude * source.scale)
    preDelaySec := F (entry.preDelay.getD 0 : ℕ)
    postDelaySec := F (entry.postDelay.getD 0 : ℕ)
    preNeckMm := F (action.neck * source.scale)
    preNeckDurationSec := F action.neckDuration }

end RthSource

namespace RthPlan

open RthSource

variable {F : Rounding} {scale : ℕ}

/-! ### Reading one entry -/

/-- What is kept after another entry. -/
def EntryState.next (F : Rounding) (scale : ℕ) (s : EntryState) (e : SourceEntry) :
    EntryState where
  timeS := s.timeS + e.timeDiff
  pointIndex := if e.action = .sameAsPrevious then s.pointIndex else e.action.pointIndex
  entry :=
    { timeSec := .finite (F (s.timeS + e.timeDiff : ℕ))
      action := e.action.after s.entry.action
      durationSec := if (e.action.after s.entry.action).hasDuration then F e.duration else 0
      target := s.entry.target
      targetAltitude :=
        if e.action = .sameAsPrevious then s.entry.targetAltitude else F (e.action.altitude * scale)
      preDelaySec := F (e.preDelay.getD 0 : ℕ)
      postDelaySec := F (e.postDelay.getD 0 : ℕ)
      preNeckMm :=
        if e.action = .sameAsPrevious then s.entry.preNeckMm else F (e.action.neck * scale)
      preNeckDurationSec :=
        if e.action = .sameAsPrevious then s.entry.preNeckDurationSec
        else F e.action.neckDuration }

/-- A duration is read back. -/
theorem reads_parseDuration {duration : ℕ} (h : duration ≤ maxDuration) :
    (parseDuration F).Reads (encode duration) (F duration) := by
  have hlt : duration < 2 ^ 32 := h.trans_lt (by decide)
  refine (reads_varuint32 hlt).bind_nil ?_
  rw [if_neg (Nat.not_lt.mpr h)]
  exact Parser.reads_pure _

/-- An optional delay is read back. -/
theorem reads_delay {condition : Prop} [Decidable condition] {delay : Option ℕ}
    (hcondition : condition = (delay.isSome = true))
    (h : ∀ d, delay = some d → d ≤ maxDuration) :
    (Parser.optional condition (parseDuration F) 0).Reads ((delay.map encode).getD [])
      (F (delay.getD 0 : ℕ)) := by
  subst hcondition
  cases delay with
  | none =>
      rw [Option.getD_none, Nat.cast_zero, Rounding.apply_zero, Parser.optional,
        if_neg (by simp)]
      exact Parser.reads_pure 0
  | some d =>
      rw [Parser.optional, if_pos Option.isSome_some]
      exact reads_parseDuration (h d rfl)

/-- A coordinate is read back. -/
theorem reads_parseCoordinate {value : ℤ} (h : -32768 ≤ value ∧ value ≤ 32767) :
    (parseCoordinate F scale).Reads (encodeInt16 value) (F (value * scale)) :=
  (reads_parseInt16 h.1 h.2).bind_pure

/-- The time of an entry is read back. -/
theorem reads_parseTime {s : EntryState} {timeDiff : ℕ} (h : s.timeS + timeDiff < 2 ^ 32) :
    (parseTime F s).Reads (encode timeDiff)
      { s with
        timeS := s.timeS + timeDiff
        entry := { s.entry with timeSec := .finite (F (s.timeS + timeDiff : ℕ)) } } := by
  have hmod : (timeDiff + s.timeS) % 2 ^ 32 = s.timeS + timeDiff := by omega
  refine (reads_varuint32 (by omega)).bind_nil ?_
  rw [hmod, if_neg (by omega)]
  exact Parser.reads_pure _

variable (F scale) in
/-- Nothing is scaled to nothing. -/
theorem scaled_zero : F (((0 : ℤ) : ℚ) * scale) = 0 := by
  rw [Int.cast_zero, zero_mul, Rounding.apply_zero]

variable (F) in
/-- No time is no time. -/
theorem seconds_zero : F ((0 : ℕ) : ℚ) = 0 := by rw [Nat.cast_zero, Rounding.apply_zero]

/-- The action of an entry is read back. -/
theorem reads_parseAction {numPoints : ℕ} (hpoints : numPoints ≤ 65535) {action : SourceAction}
    (h : action.Valid numPoints) (s : EntryState) :
    (parseAction F scale action.kind s).Reads action.bytes
      { s with
        pointIndex := if action = .sameAsPrevious then s.pointIndex else action.pointIndex
        entry :=
          { s.entry with
            action := action.after s.entry.action
            targetAltitude := if action = .sameAsPrevious then s.entry.targetAltitude
              else F (action.altitude * scale)
            preNeckMm := if action = .sameAsPrevious then s.entry.preNeckMm
              else F (action.neck * scale)
            preNeckDurationSec := if action = .sameAsPrevious then s.entry.preNeckDurationSec
              else F action.neckDuration } } := by
  cases action with
  | sameAsPrevious => exact Parser.reads_pure s
  | land =>
      intro before after
      simp only [SourceAction.altitude, SourceAction.neck, SourceAction.neckDuration, scaled_zero,
        seconds_zero]
      rfl
  | goToKeepingAltitude pointIndex =>
      have hindex : pointIndex < 2 ^ 32 := by
        have hlt : pointIndex < numPoints := h
        omega
      refine (reads_varuint32 hindex).bind_nil ?_
      intro before after
      simp only [SourceAction.altitude, SourceAction.neck, SourceAction.neckDuration, scaled_zero,
        seconds_zero]
      rfl
  | goToWithAltitude pointIndex altitude neck neckDuration =>
      obtain ⟨hindex, haltitude, hneck, hduration⟩ := h
      exact (reads_varuint32 (by omega)).bind <| (reads_parseCoordinate haltitude).bind <|
        (reads_parseCoordinate hneck).bind (reads_parseDuration hduration).bind_pure

/-- The duration and the delays of an entry are read back. -/
theorem reads_parseDurations {numPoints : ℕ} {e : SourceEntry} (h : e.Valid numPoints)
    (s : EntryState) :
    (parseDurations F e.flags s).Reads
      ((if s.entry.action.hasDuration then encode e.duration else []) ++
        ((e.preDelay.map encode).getD [] ++ (e.postDelay.map encode).getD []))
      { s with
        entry :=
          { s.entry with
            durationSec := if s.entry.action.hasDuration then F e.duration else 0
            preDelaySec := F (e.preDelay.getD 0 : ℕ)
            postDelaySec := F (e.postDelay.getD 0 : ℕ) } } := by
  obtain ⟨-, hpre, hpost⟩ := SourceEntry.flagsOf_spec e.action.kind e.preDelay.isSome
    e.postDelay.isSome
  have hduration : (Parser.optional (s.entry.action.hasDuration = true) (parseDuration F) 0).Reads
      (if s.entry.action.hasDuration then encode e.duration else [])
      (if s.entry.action.hasDuration then F e.duration else 0) :=
    .optional fun _ => reads_parseDuration h.duration
  exact hduration.bind <| (reads_delay (propext hpre) h.preDelay).bind
    (reads_delay (propext hpost) h.postDelay).bind_pure

/-- **An entry** is read back from its bytes. -/
theorem reads_parseEntry {numPoints : ℕ} (hpoints : numPoints ≤ 65535) {e : SourceEntry}
    (h : e.Valid numPoints) {s : EntryState} (htime : s.timeS + e.timeDiff < 2 ^ 32) :
    (parseEntry F scale s).Reads (e.bytes s.entry.action) (s.next F scale e) := by
  have hflags := (SourceEntry.flagsOf_spec e.action.kind e.preDelay.isSome e.postDelay.isSome).1
  refine (Parser.reads_cell e.flags).bind ?_
  refine (reads_parseTime htime).bind ?_
  rw [SourceEntry.flags, hflags]
  exact (reads_parseAction hpoints h.action _).bind (reads_parseDurations h _)

/-! ### Reading entries up to the selected one -/

@[simp] theorem action_next (s : EntryState) (e : SourceEntry) :
    (s.next F scale e).entry.action = e.action.after s.entry.action := rfl

@[simp] theorem timeS_next (s : EntryState) (e : SourceEntry) :
    (s.next F scale e).timeS = s.timeS + e.timeDiff := rfl

/-- **The loop stops behind the selected entry**: by induction on the entries, the state having
been reached behind those before them. -/
theorem parseEntries_encode {numPoints : ℕ} (hpoints : numPoints ≤ 65535) {time : TimeSec}
    {entries : List SourceEntry} (hvalid : ∀ e ∈ entries, e.Valid numPoints) {s : EntryState}
    (htime : s.timeS + totalTime entries < 2 ^ 32) {i : ℕ} (hi : i < entries.length)
    (hbefore : ∀ j < i, time.isAtMost
      (F (s.timeS + totalTime (entries.take (j + 1)) : ℕ)) = false)
    (hreached : time.isAtMost (F (s.timeS + totalTime (entries.take (i + 1)) : ℕ)) = true ∨
      i + 1 = entries.length) (before after : List UInt8) :
    ∃ offset, parseEntries F scale time entries.length s
        (before ++ (encodeEntries s.entry.action entries ++ after)) before.length =
      ok ((entries.take (i + 1)).foldl (EntryState.next F scale) s, offset) := by
  induction entries generalizing s i before with
  | nil => exact absurd hi (Nat.not_lt_zero i)
  | cons e entries ih =>
      have htotal : ∀ es, totalTime (e :: es) = e.timeDiff + totalTime es := fun _ => rfl
      rw [htotal] at htime
      have hentry : (parseEntry F scale s).Reads (e.bytes s.entry.action) (s.next F scale e) :=
        reads_parseEntry hpoints (hvalid e List.mem_cons_self) (by omega)
      have hread := hentry before (encodeEntries (e.action.after s.entry.action) entries ++ after)
      have hloop : parseEntries F scale time (entries.length + 1) s = parseEntry F scale s >>=
          fun s => if time.isAtMost (F s.timeS) then pure s
            else parseEntries F scale time entries.length s := rfl
      rw [List.length_cons, hloop, Parser.bind_apply, encodeEntries, List.append_assoc, hread,
        ok_bind]
      cases i with
      | zero =>
          -- The entry is selected: it is not before the time, or nothing follows.
          rcases hreached with hreached | hlast
          · simp only [List.take_succ_cons, List.take_zero, htotal] at hreached
            have hnow : time.isAtMost (F (s.next F scale e).timeS) = true := hreached
            rw [if_pos hnow]
            exact ⟨_, rfl⟩
          · obtain rfl : entries = [] := List.length_eq_zero_iff.mp (by simpa using hlast.symm)
            split
            · exact ⟨_, rfl⟩
            · exact ⟨_, rfl⟩
      | succ i =>
          have hfirst := hbefore 0 (Nat.zero_lt_succ i)
          simp only [List.take_succ_cons, List.take_zero, htotal] at hfirst
          have hnow : ¬ time.isAtMost (F (s.next F scale e).timeS) = true := by
            rw [timeS_next]
            simp only [Bool.not_eq_true]
            exact hfirst
          rw [if_neg hnow]
          have hshift : ∀ j, s.timeS + totalTime ((e :: entries).take (j + 1 + 1)) =
              (s.next F scale e).timeS + totalTime (entries.take (j + 1)) := by
            intro j
            rw [List.take_succ_cons, htotal, timeS_next, Nat.add_assoc]
          have hrest := ih (fun e' he' => hvalid e' (List.mem_cons_of_mem _ he'))
            (s := s.next F scale e) (by rw [timeS_next]; omega) (Nat.lt_of_succ_lt_succ hi)
            (fun j hj => by rw [← hshift]; exact hbefore (j + 1) (Nat.succ_lt_succ hj))
            (by rw [← hshift]; exact hreached.imp id Nat.succ.inj)
            (before ++ e.bytes s.entry.action)
          rw [List.length_append, List.append_assoc, action_next] at hrest
          exact hrest

/-! ### What is kept -/

/-- Another entry gives the action, unless it is the same as the one before. -/
theorem latestAction_concat (entries : List SourceEntry) (e : SourceEntry) :
    latestAction (entries ++ [e]) =
      if e.action = .sameAsPrevious then latestAction entries else e.action := by
  by_cases he : e.action = .sameAsPrevious
  · simp [latestAction, he]
  · simp [latestAction, he]

/-- The latest action is the one of an entry, or land. -/
theorem latestAction_valid {numPoints : ℕ} {entries : List SourceEntry}
    (h : ∀ e ∈ entries, e.Valid numPoints) : (latestAction entries).Valid numPoints := by
  induction entries using List.reverseRecOn with
  | nil => exact trivial
  | append_singleton entries e ih =>
      rw [latestAction_concat]
      split
      · exact ih fun e' he' => h e' (List.mem_append_left _ he')
      · exact (h e (List.mem_append_right _ List.mem_cons_self)).action

/-- What the state keeps of the entries before: the time and the latest action. -/
structure Kept (F : Rounding) (scale : ℕ) (entries : List SourceEntry) (s : EntryState) :
    Prop where
  timeS : s.timeS = totalTime entries
  pointIndex : s.pointIndex = (latestAction entries).pointIndex
  action : s.entry.action = (latestAction entries).kind
  targetAltitude : s.entry.targetAltitude = F ((latestAction entries).altitude * scale)
  preNeckMm : s.entry.preNeckMm = F ((latestAction entries).neck * scale)
  preNeckDurationSec : s.entry.preNeckDurationSec = F (latestAction entries).neckDuration

/-- **After some entries**, the latest action is kept: one step. -/
theorem Kept.next {entries : List SourceEntry} {s : EntryState} (h : Kept F scale entries s)
    (e : SourceEntry) : Kept F scale (entries ++ [e]) (s.next F scale e) := by
  have htime : totalTime (entries ++ [e]) = totalTime entries + e.timeDiff := by
    simp [totalTime]
  have hlatest := latestAction_concat entries e
  by_cases he : e.action = .sameAsPrevious
  · rw [if_pos he] at hlatest
    refine ⟨?_, ?_, ?_, ?_, ?_, ?_⟩
    · rw [timeS_next, h.timeS, htime]
    · rw [hlatest]
      exact (if_pos he).trans h.pointIndex
    · rw [hlatest, action_next, SourceAction.after, if_pos he, h.action]
    · rw [hlatest]
      exact (if_pos he).trans h.targetAltitude
    · rw [hlatest]
      exact (if_pos he).trans h.preNeckMm
    · rw [hlatest]
      exact (if_pos he).trans h.preNeckDurationSec
  · rw [if_neg he] at hlatest
    refine ⟨?_, ?_, ?_, ?_, ?_, ?_⟩
    · rw [timeS_next, h.timeS, htime]
    · rw [hlatest]
      exact if_neg he
    · rw [hlatest, action_next, SourceAction.after, if_neg he]
    · rw [hlatest]
      exact if_neg he
    · rw [hlatest]
      exact if_neg he
    · rw [hlatest]
      exact if_neg he

/-- After all of some entries. -/
theorem kept_foldl (entries : List SourceEntry) (time : TimeSec) :
    Kept F scale entries (entries.foldl (EntryState.next F scale) (.initial time)) := by
  induction entries using List.reverseRecOn with
  | nil =>
      exact ⟨rfl, rfl, rfl, (scaled_zero F scale).symm, (scaled_zero F scale).symm,
        (seconds_zero F).symm⟩
  | append_singleton entries e ih =>
      rw [List.foldl_append]
      exact ih.next e

/-- What the last of some entries has of its own. -/
theorem own_foldl {entries : List SourceEntry} {e : SourceEntry} (s₀ : EntryState)
    {s : EntryState} (h : (entries ++ [e]).foldl (EntryState.next F scale) s₀ = s) :
    s.entry.timeSec = .finite (F s.timeS) ∧
      s.entry.durationSec = (if s.entry.action.hasDuration then F e.duration else 0) ∧
      s.entry.preDelaySec = F (e.preDelay.getD 0 : ℕ) ∧
      s.entry.postDelaySec = F (e.postDelay.getD 0 : ℕ) := by
  rw [List.foldl_append] at h
  subst h
  exact ⟨rfl, rfl, rfl, rfl⟩

end RthPlan

/-! ### Whole plans -/

namespace RthSource

open RthPlan

/-- The plan that is loaded. -/
def plan (source : RthSource) : RthPlan where
  buffer := source.bytes
  scale := source.scale
  headerLength := 3
  numPoints := source.points.length

variable (source : RthSource)

theorem offsetOfPoint_plan (index : ℕ) : source.plan.offsetOfPoint index = 3 + index * 4 := rfl

/-- The header is read back, and the plan is loaded. -/
theorem initFromBuffer_bytes : initFromBuffer source.bytes = ok source.plan := by
  have hscale : (UInt8.ofNat source.scale &&& 0x7F).toNat = source.scale := by
    have hmask : (UInt8.ofNat source.scale &&& 0x7F).toNat =
        (UInt8.ofNat source.scale).toNat % 128 := by
      rw [UInt8.toNat_and]
      exact Nat.and_two_pow_sub_one_eq_mod _ 7
    have hle := source.scale_le
    rw [hmask, UInt8.toNat_ofNat']
    omega
  have hpoints := source.length_points
  have hnum : parseUint16.Reads (encodeUint16 source.points.length) source.points.length :=
    reads_parseUint16 (by omega)
  have hheader : parseHeader.Reads
      (UInt8.ofNat source.scale :: encodeUint16 source.points.length)
      ((UInt8.ofNat source.scale &&& 0x7F).toNat, source.points.length) :=
    (Parser.reads_cell (UInt8.ofNat source.scale)).bind hnum.bind_pure
  have hparse := hheader [] (source.points.flatMap encodePoint ++
    (encodeUint16 source.entries.length ++ encodeEntries .land source.entries))
  have hbytes : [] ++ (UInt8.ofNat source.scale :: encodeUint16 source.points.length ++
      (source.points.flatMap encodePoint ++
        (encodeUint16 source.entries.length ++ encodeEntries .land source.entries))) =
      source.bytes := rfl
  rw [hbytes, List.length_nil] at hparse
  rw [initFromBuffer, hparse, ok_bind, hscale]
  rfl

theorem length_flatMap_encodePoint (points : List (ℤ × ℤ)) :
    (points.flatMap encodePoint).length = points.length * 4 := by
  induction points with
  | nil => rfl
  | cons point points ih =>
      rw [List.flatMap_cons, List.length_append, ih, List.length_cons]
      simp only [encodePoint, List.length_append, length_encodeInt16]
      omega

/-- **A point** is read back. -/
theorem getPoint_bytes (F : Rounding) {index : ℕ} (h : index < source.points.length) :
    source.plan.getPoint F index = ok (source.pointAt F index) := by
  obtain ⟨hx, hy⟩ := source.points_fit _ (List.getElem_mem h)
  have hread : (parsePoint F source.scale).Reads (encodePoint source.points[index])
      (source.pointAt F index) := by
    rw [pointAt, List.getElem?_eq_getElem h]
    exact (reads_parseCoordinate hx).bind (reads_parseCoordinate hy).bind_pure
  obtain ⟨before, after, hsplit, hoffset⟩ : ∃ before after,
      source.bytes = before ++ (encodePoint source.points[index] ++ after) ∧
        before.length = source.plan.offsetOfPoint index := by
    have hpoints : source.points.flatMap encodePoint =
        (source.points.take index).flatMap encodePoint ++ (encodePoint source.points[index] ++
          (source.points.drop (index + 1)).flatMap encodePoint) := by
      rw [← List.flatMap_cons, ← List.flatMap_append, List.getElem_cons_drop,
        List.take_append_drop]
    refine ⟨UInt8.ofNat source.scale :: (encodeUint16 source.points.length ++
        (source.points.take index).flatMap encodePoint),
      (source.points.drop (index + 1)).flatMap encodePoint ++
        (encodeUint16 source.entries.length ++ encodeEntries .land source.entries), ?_, ?_⟩
    · rw [bytes, hpoints]
      simp only [List.cons_append, List.append_assoc]
    · rw [List.length_cons, List.length_append, length_flatMap_encodePoint,
        length_encodeUint16, List.length_take_of_le h.le, offsetOfPoint_plan]
      omega
  have hparse := hread before after
  rw [← hsplit, hoffset] at hparse
  have hnot : ¬ source.plan.numPoints ≤ index := Nat.not_le.mpr h
  rw [getPoint, if_neg hnot]
  change parsePoint F source.scale source.bytes (source.plan.offsetOfPoint index) >>= _ = _
  rw [hparse]
  rfl

/-- The bytes in front of the entries. -/
def tableBytes : List UInt8 :=
  UInt8.ofNat source.scale :: (encodeUint16 source.points.length ++
    source.points.flatMap encodePoint)

theorem length_tableBytes : source.tableBytes.length = source.plan.offsetOfEntryTable := by
  rw [tableBytes, List.length_cons, List.length_append, length_flatMap_encodePoint,
    length_encodeUint16, offsetOfEntryTable, offsetOfPoint_plan]
  change _ = 3 + source.points.length * 4
  omega

/-- The number of entries is read back. -/
theorem getNumEntries_bytes : source.plan.getNumEntries = ok source.entries.length := by
  have hentries := source.length_entries
  have hread : parseUint16.Reads (encodeUint16 source.entries.length) source.entries.length :=
    reads_parseUint16 (by omega)
  have hparse := hread source.tableBytes (encodeEntries .land source.entries)
  have hbytes : source.tableBytes ++ (encodeUint16 source.entries.length ++
      encodeEntries .land source.entries) = source.plan.buffer := by
    simp only [tableBytes, plan, bytes, List.cons_append, List.append_assoc]
  have hlength := congrArg List.length hbytes
  rw [List.length_append, List.length_append, length_encodeUint16, length_tableBytes] at hlength
  rw [hbytes, length_tableBytes] at hparse
  rw [getNumEntries, if_pos (by omega), hparse]
  rfl

/-- The target of an entry that was put together. -/
theorem targetOf_bytes (F : Rounding) {entries : List SourceEntry} {s : EntryState}
    (hentries : ∀ e ∈ entries, e.Valid source.points.length)
    (h : Kept F source.scale entries s) :
    source.plan.targetOf F s =
      ok (if (latestAction entries).kind.hasTarget then
        source.pointAt F (latestAction entries).pointIndex else ⟨0, 0⟩) := by
  have hvalid := latestAction_valid hentries
  rw [targetOf, h.action, h.pointIndex]
  split
  case isTrue htarget =>
    refine source.getPoint_bytes F ?_
    cases haction : latestAction entries with
    | sameAsPrevious =>
        rw [haction] at htarget
        cases htarget
    | land =>
        rw [haction] at htarget
        cases htarget
    | goToKeepingAltitude pointIndex =>
        rw [haction] at hvalid
        exact hvalid
    | goToWithAltitude pointIndex altitude neck neckDuration =>
        rw [haction] at hvalid
        exact hvalid.1
  case isFalse => rfl

/-- Without an entry to look at, the evaluation yields the default. -/
theorem evaluateAt_default (F : Rounding) (time : TimeSec)
    (h : time.isBefore 0 = true ∨ source.entries = []) :
    source.plan.evaluateAt F time = ok (defaultEntry time) := by
  have hnone : (if time.isBefore 0 then 0 else source.entries.length) = 0 := by
    rcases h with htime | hempty
    · rw [if_pos htime]
    · rw [hempty, List.length_nil, ite_self]
  rw [evaluateAt, getNumEntries_bytes, ok_bind, hnone]
  rfl

/-- **The selected entry** is what the evaluation yields. -/
theorem evaluateAt_selected (F : Rounding) {time : TimeSec} (htime : time.isBefore 0 = false)
    {i : ℕ} {entry : SourceEntry} (h : Selected F source.entries time i entry) :
    source.plan.evaluateAt F time =
      ok (source.describe F (source.entries.take (i + 1)) entry) := by
  obtain ⟨hi, hentry⟩ := List.getElem?_eq_some_iff.mp h.entry_eq
  have hzero : ∀ n : ℕ, (EntryState.initial time).timeS + n = n := Nat.zero_add
  have hparse : ∃ offset, parseEntries F source.scale time source.entries.length (.initial time)
      ((source.tableBytes ++ encodeUint16 source.entries.length) ++
        (encodeEntries .land source.entries ++ []))
      (source.tableBytes ++ encodeUint16 source.entries.length).length =
        ok ((source.entries.take (i + 1)).foldl (EntryState.next F source.scale) (.initial time),
          offset) := by
    refine parseEntries_encode source.length_points source.entries_valid ?_ hi ?_ ?_ _ []
    · rw [hzero]
      exact source.time_lt
    · simp only [hzero]
      exact h.before
    · rw [hzero]
      exact h.reached
  obtain ⟨offset, hparse⟩ := hparse
  have hbytes : (source.tableBytes ++ encodeUint16 source.entries.length) ++
      (encodeEntries .land source.entries ++ []) = source.bytes := by
    simp only [tableBytes, bytes, List.cons_append, List.append_assoc, List.append_nil]
  have hoffset : (source.tableBytes ++ encodeUint16 source.entries.length).length =
      source.plan.offsetOfFirstEntry := by
    rw [List.length_append, length_tableBytes, length_encodeUint16, offsetOfFirstEntry]
  rw [hbytes, hoffset] at hparse
  have hkept : Kept F source.scale (source.entries.take (i + 1)) _ :=
    kept_foldl (source.entries.take (i + 1)) time
  have htarget := source.targetOf_bytes F
    (fun e he => source.entries_valid e (List.mem_of_mem_take he)) hkept
  rw [evaluateAt, getNumEntries_bytes, ok_bind, htime]
  change parseEntries F source.scale time source.entries.length (.initial time) source.bytes
    source.plan.offsetOfFirstEntry >>= _ = _
  rw [hparse, ok_bind]
  dsimp only
  rw [htarget, ok_bind]
  have hlast : source.entries.take (i + 1) = source.entries.take i ++ [entry] := by
    rw [List.take_add_one, h.entry_eq]
    rfl
  generalize hs : (source.entries.take (i + 1)).foldl (EntryState.next F source.scale)
    (.initial time) = s at hkept
  rw [hlast] at hs
  obtain ⟨htimeSec, hduration, hpre, hpost⟩ := own_foldl _ hs
  rw [hkept.timeS] at htimeSec
  rw [hkept.action] at hduration
  simp only [describe, pure_eq, htimeSec, hduration, hpre, hpost, hkept.action,
    hkept.targetAltitude, hkept.preNeckMm, hkept.preNeckDurationSec]

/-- With an entry, one of them is selected. -/
theorem exists_selected (F : Rounding) {entries : List SourceEntry} (h : entries ≠ [])
    (time : TimeSec) : ∃ i entry, Selected F entries time i entry := by
  have hpos : 0 < entries.length := List.length_pos_iff.mpr h
  have hstop : ∃ i, time.isAtMost (F (totalTime (entries.take (i + 1)))) = true ∨
      i + 1 = entries.length := ⟨entries.length - 1, .inr (by omega)⟩
  have hlt : Nat.find hstop < entries.length := by
    have hle : Nat.find hstop ≤ entries.length - 1 := Nat.find_min' hstop (.inr (by omega))
    omega
  refine ⟨Nat.find hstop, entries[Nat.find hstop], List.getElem?_eq_getElem hlt, fun j hj => ?_,
    Nat.find_spec hstop⟩
  have hnot := Nat.find_min hstop hj
  rw [not_or, Bool.not_eq_true] at hnot
  exact hnot.1

end RthSource

open RthPlan RthSource

/-- **Evaluating an encoded plan** succeeds for every time. Before the start and without entries
it yields the default. Otherwise it yields the selected entry, with the latest action that
is not the same as the one before. -/
theorem rth_evaluate (F : Rounding) (source : RthSource) (time : TimeSec) :
    ∃ plan, initFromBuffer source.bytes = ok plan ∧
      (time.isBefore 0 = true ∨ source.entries = [] →
        plan.evaluateAt F time = ok (defaultEntry time)) ∧
      (time.isBefore 0 = false → source.entries ≠ [] →
        ∃ i entry, Selected F source.entries time i entry ∧
          plan.evaluateAt F time =
            ok (source.describe F (source.entries.take (i + 1)) entry)) := by
  refine ⟨source.plan, source.initFromBuffer_bytes, source.evaluateAt_default F time, ?_⟩
  intro htime hne
  obtain ⟨i, entry, hselected⟩ := exists_selected F hne time
  exact ⟨i, entry, hselected, source.evaluateAt_selected F htime hselected⟩

end Skybrush
