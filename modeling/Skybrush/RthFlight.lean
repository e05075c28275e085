import Skybrush.RthErrors

/-!
# Flying Return-to-Home Entries

What the trajectory does that an entry of a return-to-home plan is converted into. An entry
asks for a few legs (`RthPlanEntry.legs`): wait at the start position, climb or sink along the
neck, go to the target, and wait there. The conversion succeeds as long as every leg can be
stored; then a player that walks over the trajectory flies the legs.

## Main results

* `TrajectoryBuilder.addRthPlanEntry_eq`: the conversion appends the legs one by one.
* `TrajectoryBuilder.run_flyLegs`: legs can be appended unless one of them is too long or there
  is no memory.
* `flies_of_converted`: what is flown of an entry that was converted.
* `rth_converted`: the conversion of an entry that was evaluated from a plan.
-/

namespace Skybrush

open Checked Rounding TrajectoryBuilder TrajectoryPlayer

/-! ### Legs -/

/-- A leg of a flight, with its duration in seconds: wait, or go straight to a position. -/
inductive Leg where
  | hold (durationSec : TimeSec)
  | line (target : Vector3WithYaw) (durationSec : TimeSec)
  deriving DecidableEq, Repr

namespace Leg

/-- How long a leg takes. -/
def durationSec : Leg → TimeSec
  | hold durationSec => durationSec
  | line _ durationSec => durationSec

/-- How long a leg takes in milliseconds, truncated. -/
def durationMsec (leg : Leg) : ℕ :=
  match leg.durationSec with
  | .nan => 0
  | .negInfinity => 0
  | .finite duration => (truncate (duration * 1000)).toNat
  | .infinity => 0

/-- The move of the builder for a leg. -/
def move (alloc : Allocator) : Leg → Move
  | hold durationSec => .hold alloc (hold durationSec).durationMsec
  | line target durationSec => .line alloc target (line target durationSec).durationMsec

/-- The duration is too large for 32 bits. -/
def TooLong (leg : Leg) : Prop := leg.durationSec.TooLong

/-- The duration is not negative. -/
def Lasts (leg : Leg) : Prop := leg.durationSec.Lasts

end Leg

namespace RthPlanEntry

/-- Climb or sink, if there is a neck. -/
def neckLegs (entry : RthPlanEntry) (start : Vector3WithYaw) : List Leg :=
  if entry.preNeckMm = 0 ∧ entry.preNeckDurationSec = 0 then
    []
  else
    [.line { start with z := start.z + entry.preNeckMm } (.finite entry.preNeckDurationSec)]

/-- Go to the target, at the altitude that the entry says or at the current one. -/
def actionLegs (entry : RthPlanEntry) (start : Vector3WithYaw) : List Leg :=
  match entry.action with
  | .sameAsPrevious => []
  | .land => []
  | .goToKeepingAltitude =>
      [.line ⟨entry.target.x, entry.target.y, start.z + entry.preNeckMm, start.yaw⟩
        (.finite entry.durationSec)]
  | .goToWithAltitude =>
      [.line ⟨entry.target.x, entry.target.y, entry.targetAltitude, start.yaw⟩
        (.finite entry.durationSec)]

/-- Wait behind the action. -/
def postLegs (entry : RthPlanEntry) : List Leg :=
  if entry.postDelaySec = 0 then [] else [.hold (.finite entry.postDelaySec)]

/-- **The legs that an entry asks for**: wait until its time and for its delay, climb or sink
along the neck, go to the target, and wait for the delay behind it. -/
def legs (entry : RthPlanEntry) (start : Vector3WithYaw) : List Leg :=
  .hold (entry.timeSec.clip.delayed .exact entry.preDelaySec) ::
    (entry.neckLegs start ++ (entry.actionLegs start ++ entry.postLegs))

end RthPlanEntry

/-! ### Durations -/

theorem not_tooLong_of_le {leg : Leg} {duration : ℚ} (h : leg.durationSec = .finite duration)
    (hle : duration ≤ (uint32Max : ℚ) / 1000) : ¬ leg.TooLong := by
  rintro (hinf | ⟨duration', heq, hlong⟩)
  · rw [h] at hinf
    cases hinf
  · rw [h] at heq
    cases heq
    exact not_lt.mpr hle hlong

/-- A duration that is not negative can be converted unless it is too long. -/
theorem msec_of_lasts {leg : Leg} (h : leg.Lasts) :
    (¬ leg.TooLong ∧ leg.durationMsec < 2 ^ 32 ∧
        uint32MsecDurationFromFloatSeconds .exact leg.durationSec = .ok leg.durationMsec) ∨
      (leg.TooLong ∧
        uint32MsecDurationFromFloatSeconds .exact leg.durationSec = .error .eoverflow) := by
  rcases h with hinf | ⟨duration, hfin, hnonneg⟩
  · rw [hinf]
    exact .inr ⟨.inl hinf, rfl⟩
  · rw [Leg.durationMsec, hfin, uint32MsecDurationFromFloatSeconds,
      if_neg (not_lt.mpr hnonneg), maxDurationSec_exact]
    by_cases hlong : (uint32Max : ℚ) / 1000 < duration
    · rw [if_pos hlong]
      exact .inr ⟨.inr ⟨duration, hfin, hlong⟩, rfl⟩
    · have hmsec : (truncate (duration * 1000)).toNat < 2 ^ 32 := by
        have hle : duration * 1000 ≤ uint32Max := by
          rw [not_lt, le_div_iff₀ (by norm_num)] at hlong
          exact hlong
        have htruncate : truncate (duration * 1000) = ⌊duration * 1000⌋ :=
          if_pos (by positivity)
        have hfloor : ⌊duration * 1000⌋ ≤ (uint32Max : ℤ) := by
          have hcast := (Int.floor_le (duration * 1000)).trans hle
          exact_mod_cast hcast
        have hmax : uint32Max = 2 ^ 32 - 1 := rfl
        rw [htruncate]
        omega
      rw [if_neg hlong, exact_apply, Nat.mod_eq_of_lt hmsec]
      exact .inl ⟨not_tooLong_of_le hfin (not_lt.mp hlong), hmsec, rfl⟩

/-! ### The conversion leg by leg -/

namespace TrajectoryBuilder

variable (alloc : Allocator)

/-- Convert the duration of a leg and append it. -/
def flyLeg (leg : Leg) : Action Unit := do
  let durationMsec ← MonadExcept.ofExcept
    (uint32MsecDurationFromFloatSeconds .exact leg.durationSec)
  match leg with
  | .hold _ => holdPositionFor .exact alloc durationMsec
  | .line target _ => appendLine .exact alloc target durationMsec

/-- Append legs one by one. -/
def flyLegs : List Leg → Action Unit
  | [] => pure ()
  | leg :: legs => do
      flyLeg alloc leg
      flyLegs legs

theorem flyLegs_append (legs legs' : List Leg) :
    flyLegs alloc (legs ++ legs') = (flyLegs alloc legs >>= fun _ => flyLegs alloc legs') := by
  induction legs with
  | nil => rfl
  | cons leg legs ih => simp only [List.cons_append, flyLegs, ih, bind_assoc]

theorem flyLegs_singleton (leg : Leg) : flyLegs alloc [leg] = flyLeg alloc leg := by
  simp only [flyLegs]
  exact bind_pure_unit

variable {alloc}

/-- The neck, leg by leg. -/
theorem addPreNeck_eq (entry : RthPlanEntry) (start : Vector3WithYaw) :
    addPreNeck .exact alloc entry start =
      (flyLegs alloc (entry.neckLegs start) >>= fun _ =>
        pure { start with z := start.z + entry.preNeckMm }) := by
  rw [addPreNeck, RthPlanEntry.neckLegs]
  by_cases hnone : entry.preNeckMm = 0 ∧ entry.preNeckDurationSec = 0
  · have hstay : { start with z := start.z + entry.preNeckMm } = start := by
      rw [hnone.1, add_zero]
    rw [if_neg (by tauto), if_pos hnone, hstay]
    rfl
  · rw [if_pos (by tauto), if_neg hnone, flyLegs_singleton]
    rfl

/-- The action, leg by leg. -/
theorem addAction_eq {entry : RthPlanEntry} (hne : entry.action ≠ .sameAsPrevious)
    (start : Vector3WithYaw) :
    addAction .exact alloc entry { start with z := start.z + entry.preNeckMm } =
      flyLegs alloc (entry.actionLegs start) := by
  rw [addAction, RthPlanEntry.actionLegs]
  cases haction : entry.action with
  | sameAsPrevious => exact absurd haction hne
  | land => rfl
  | goToKeepingAltitude =>
      dsimp only
      rw [flyLegs_singleton]
      rfl
  | goToWithAltitude =>
      dsimp only
      rw [flyLegs_singleton]
      rfl

/-- The delay behind the action, leg by leg. -/
theorem addPostDelay_eq {entry : RthPlanEntry} (hnonneg : 0 ≤ entry.postDelaySec) :
    addPostDelay .exact alloc entry = flyLegs alloc entry.postLegs := by
  rw [addPostDelay, RthPlanEntry.postLegs]
  by_cases hzero : entry.postDelaySec = 0
  · rw [if_neg (by rw [hzero]; exact lt_irrefl 0), if_pos hzero]
    rfl
  · rw [if_pos (lt_of_le_of_ne hnonneg (Ne.symm hzero)), if_neg hzero, flyLegs_singleton]
    rfl

/-- **The conversion appends the legs** of an entry, one by one. -/
theorem addRthPlanEntry_eq {time : TimeSec} {entry : RthPlanEntry} (h : entry.Evaluated time)
    (start : Vector3WithYaw) {durationMsec : ℕ}
    (hmsec : uint32MsecDurationFromFloatSeconds .exact
      (entry.timeSec.clip.delayed .exact entry.preDelaySec) = .ok durationMsec) :
    addRthPlanEntry .exact alloc entry start durationMsec =
      (setStartPosition .exact start >>= fun _ => flyLegs alloc (entry.legs start)) := by
  have hfirst : holdPositionFor .exact alloc durationMsec =
      flyLeg alloc (.hold (entry.timeSec.clip.delayed .exact entry.preDelaySec)) := by
    rw [flyLeg, Leg.durationSec, hmsec]
    rfl
  rw [addRthPlanEntry, hfirst, RthPlanEntry.legs, flyLegs]
  simp only [flyLegs_append, addPreNeck_eq, bind_assoc, pure_bind, addAction_eq h.action_ne,
    addPostDelay_eq h.postDelaySec_nonneg]

/-- A leg is the move of its duration. -/
theorem flyLeg_of_msec {leg : Leg}
    (h : uint32MsecDurationFromFloatSeconds .exact leg.durationSec = .ok leg.durationMsec) :
    flyLeg alloc leg = (leg.move alloc).call.action .exact := by
  rw [flyLeg, h]
  cases leg <;> rfl

/-- A leg whose duration cannot be converted. -/
theorem run_flyLeg_error {leg : Leg} {e : SbError}
    (h : uint32MsecDurationFromFloatSeconds .exact leg.durationSec = .error e)
    (b : TrajectoryBuilder) : (flyLeg alloc leg).run b = .error e b := by
  rw [flyLeg, h]
  rfl

theorem run_flyLegs_cons_ok {leg : Leg} {legs : List Leg} {b b' : TrajectoryBuilder}
    (h : (flyLeg alloc leg).run b = .ok () b') :
    (flyLegs alloc (leg :: legs)).run b = (flyLegs alloc legs).run b' := by
  rw [flyLegs, EStateM.run_bind, h]

theorem run_flyLegs_cons_error {leg : Leg} {legs : List Leg} {b b' : TrajectoryBuilder}
    {e : SbError} (h : (flyLeg alloc leg).run b = .error e b') :
    (flyLegs alloc (leg :: legs)).run b = .error e b' := by
  rw [flyLegs, EStateM.run_bind, h]

/-- The three ways in which appending legs can end: they are written, one of them is too long, or
there is no memory. -/
inductive LegsOutcome (alloc : Allocator) (legs : List Leg) (b : TrajectoryBuilder) : Prop
  | written {b' : TrajectoryBuilder} (hrun : (flyLegs alloc legs).run b = .ok () b')
      (hwritten : Written .exact b
        (moveSegments .exact b.lastPosition (legs.map (Leg.move alloc))) b')
      (hshort : ∀ leg ∈ legs, ¬ leg.TooLong) : LegsOutcome alloc legs b
  | tooLong {b' : TrajectoryBuilder} {leg : Leg}
      (hrun : (flyLegs alloc legs).run b = .error .eoverflow b') (hmem : leg ∈ legs)
      (hlong : leg.TooLong) : LegsOutcome alloc legs b
  | noMemory {b' : TrajectoryBuilder} {n : ℕ}
      (hrun : (flyLegs alloc legs).run b = .error .enomem b') (hmemory : alloc n = false) :
      LegsOutcome alloc legs b

/-- **Appending legs** succeeds unless one of them is too long or there is no memory. -/
theorem run_flyLegs {legs : List Leg} {b : TrajectoryBuilder}
    (h : b.Roomy (legs.length * 2 ^ 32)) (hlast : Storable b.scale b.lastPosition)
    (htargets : ∀ target duration, .line target duration ∈ legs → Storable b.scale target)
    (hlasts : ∀ leg ∈ legs, leg.Lasts) : LegsOutcome alloc legs b := by
  induction legs generalizing b with
  | nil => exact .written rfl (.nil h.owned) (List.forall_mem_nil _)
  | cons leg legs ih =>
      rcases msec_of_lasts (hlasts _ List.mem_cons_self) with
        ⟨hshort, hlt, hmsec⟩ | ⟨hlong, herror⟩
      · have hroomy : b.Roomy ((leg.move alloc).durationMsec + 1 + legs.length * 2 ^ 32) := by
          refine h.mono ?_
          have hduration : (leg.move alloc).durationMsec = leg.durationMsec := by
            cases leg <;> rfl
          rw [hduration, List.length_cons]
          omega
        have htarget : Storable b.scale ((leg.move alloc).target b.lastPosition) := by
          cases leg with
          | hold duration => exact hlast
          | line target duration => exact htargets target duration List.mem_cons_self
        have hmemory : (leg.move alloc).memory = alloc := by
          cases leg <;> rfl
        rcases run_move hroomy (canEncode_exact hroomy.scale_pos) hlast htarget with
          ⟨b₁, hrun, hroomy₁, hwritten⟩ | ⟨b₁, hrun, n, hno⟩
        · rw [← flyLeg_of_msec hmsec] at hrun
          have hlast₁ : b₁.lastPosition = (leg.move alloc).target b.lastPosition :=
            hwritten.lastPosition_eq.trans (endOf_segments _ _)
          have hrest := ih hroomy₁ (by rw [hwritten.scale_eq, hlast₁]; exact htarget)
            (fun target duration hmem => by
              rw [hwritten.scale_eq]
              exact htargets target duration (List.mem_cons_of_mem _ hmem))
            fun leg' hmem => hlasts leg' (List.mem_cons_of_mem _ hmem)
          cases hrest with
          | written hrun' hwritten' hshort' =>
              rw [hlast₁] at hwritten'
              exact .written ((run_flyLegs_cons_ok hrun).trans hrun') (hwritten.trans hwritten')
                (List.forall_mem_cons.mpr ⟨hshort, hshort'⟩)
          | tooLong hrun' hmem hlong =>
              exact .tooLong ((run_flyLegs_cons_ok hrun).trans hrun')
                (List.mem_cons_of_mem _ hmem) hlong
          | noMemory hrun' hmemory' =>
              exact .noMemory ((run_flyLegs_cons_ok hrun).trans hrun') hmemory'
        · rw [← flyLeg_of_msec hmsec] at hrun
          rw [hmemory] at hno
          exact .noMemory (run_flyLegs_cons_error hrun) hno
      · exact .tooLong (run_flyLegs_cons_error (run_flyLeg_error herror b)) List.mem_cons_self hlong

/-- A builder starts at any position that its scale suffices for. -/
theorem exists_start {entry : RthPlanEntry} {start : Vector3WithYaw} {scale : UInt8}
    (h : Suffices .exact InReach entry start scale) :
    ∃ b₀ b₁, init scale 0 = .ok b₀ ∧ (setStartPosition .exact start).run b₀ = .ok () b₁ ∧
      Started scale 0 start b₁ ∧ b₁.Roomy (4 * 2 ^ 32) ∧ Storable b₁.scale start := by
  have hpos : 0 < scale.toNat := h.pos
  have hinit : ∃ b₀, init scale 0 = .ok b₀ ∧ b₀.buffer.capacity = 9 := by
    have hscale : ¬ (scale = 0 ∨ 127 < scale) := by
      rintro (rfl | hlt)
      · exact absurd hpos (by decide)
      · exact absurd h.le (UInt8.not_le.mpr hlt)
    rw [init, if_neg hscale]
    exact ⟨_, rfl, rfl⟩
  obtain ⟨b₀, hinit, hcapacity⟩ := hinit
  have hstarted := started_init hinit
  have hsize : b₀.buffer.size = headerLength := congrArg List.length hstarted.bytes_eq
  have hstorable : Storable scale.toNat start := ⟨h.position.1, h.position.2.1, h.position.2.2⟩
  have hrun := @run_setStartPosition .exact b₀ start hsize
  rw [hstarted.scale_eq, scaleCoordinate_of_fits _ (coordinateFits_of_abs_le hpos hstorable.x),
    scaleCoordinate_of_fits _ (coordinateFits_of_abs_le hpos hstorable.y),
    scaleCoordinate_of_fits _ (coordinateFits_of_abs_le hpos hstorable.z)] at hrun
  obtain ⟨b₁, hrun, hcapacity⟩ : ∃ b₁, (setStartPosition .exact start).run b₀ = .ok () b₁ ∧
      b₁.buffer.capacity = 9 := ⟨_, hrun, hcapacity⟩
  have hstart := hstarted.setStartPosition hrun
  have hlength : b₁.buffer.size = 9 := congrArg List.length hstart.bytes_eq
  refine ⟨b₀, b₁, hinit, hrun, hstart, ⟨hstart.owned, by omega, by omega, ?_⟩, ?_⟩
  · rw [hstart.scale_eq]
    exact hpos
  · rw [hstart.scale_eq]
    exact hstorable

end TrajectoryBuilder

/-! ### Whole conversions -/

/-- How long the conversion stays at the start position. -/
theorem startHoldSec_eq {time : TimeSec} {entry : RthPlanEntry} (h : entry.Evaluated time) :
    startHoldSec .exact entry = entry.timeSec.clip.delayed .exact entry.preDelaySec := by
  have hclip : (if entry.timeSec.isBefore 0 then .finite 0 else entry.timeSec) =
      entry.timeSec.clip := by
    cases entry.timeSec with
    | nan => rfl
    | negInfinity => rfl
    | infinity => rfl
    | finite t =>
        rw [TimeSec.isBefore, TimeSec.clip]
        rcases lt_trichotomy t 0 with hneg | rfl | hpos
        · rw [if_pos (decide_eq_true hneg), if_pos hneg.le]
        · rfl
        · rw [if_neg (by simpa using hpos.le), if_neg (not_le.mpr hpos)]
  have hdelay : (if 0 < entry.preDelaySec then entry.preDelaySec else 0) = entry.preDelaySec := by
    split
    case isTrue => rfl
    case isFalse hnot => exact le_antisymm h.preDelaySec_nonneg (not_lt.mp hnot)
  rw [startHoldSec, hclip, hdelay]

/-- **The legs of an entry**, by the part of the entry that they come from. -/
theorem mem_legs {entry : RthPlanEntry} {start : Vector3WithYaw} {leg : Leg}
    (h : leg ∈ entry.legs start) :
    leg = .hold (entry.timeSec.clip.delayed .exact entry.preDelaySec) ∨
      (¬ (entry.preNeckMm = 0 ∧ entry.preNeckDurationSec = 0) ∧
        leg = .line { start with z := start.z + entry.preNeckMm }
          (.finite entry.preNeckDurationSec)) ∨
      (entry.action = .goToKeepingAltitude ∧
        leg = .line ⟨entry.target.x, entry.target.y, start.z + entry.preNeckMm, start.yaw⟩
          (.finite entry.durationSec)) ∨
      (entry.action = .goToWithAltitude ∧
        leg = .line ⟨entry.target.x, entry.target.y, entry.targetAltitude, start.yaw⟩
          (.finite entry.durationSec)) ∨
      leg = .hold (.finite entry.postDelaySec) := by
  rw [RthPlanEntry.legs, List.mem_cons, List.mem_append, List.mem_append] at h
  rcases h with hwait | hneck | haction | hpost
  · exact .inl hwait
  · rw [RthPlanEntry.neckLegs] at hneck
    split at hneck
    · cases hneck
    case isFalse hsome => exact .inr (.inl ⟨hsome, List.mem_singleton.mp hneck⟩)
  · rw [RthPlanEntry.actionLegs] at haction
    split at haction
    case h_1 => cases haction
    case h_2 => cases haction
    case h_3 hkeep => exact .inr (.inr (.inl ⟨hkeep, List.mem_singleton.mp haction⟩))
    case h_4 hwith => exact .inr (.inr (.inr (.inl ⟨hwith, List.mem_singleton.mp haction⟩)))
  · rw [RthPlanEntry.postLegs] at hpost
    split at hpost
    · cases hpost
    · exact .inr (.inr (.inr (.inr (List.mem_singleton.mp hpost))))

/-- An entry has at most four legs. -/
theorem length_legs_le (entry : RthPlanEntry) (start : Vector3WithYaw) :
    (entry.legs start).length ≤ 4 := by
  have hneck : (entry.neckLegs start).length ≤ 1 := by
    rw [RthPlanEntry.neckLegs]
    split
    · exact Nat.zero_le _
    · exact le_rfl
  have haction : (entry.actionLegs start).length ≤ 1 := by
    rw [RthPlanEntry.actionLegs]
    cases entry.action with
    | sameAsPrevious | land => exact Nat.zero_le _
    | goToKeepingAltitude | goToWithAltitude => exact le_rfl
  have hpost : entry.postLegs.length ≤ 1 := by
    rw [RthPlanEntry.postLegs]
    split
    · exact Nat.zero_le _
    · exact le_rfl
  rw [RthPlanEntry.legs, List.length_cons, List.length_append, List.length_append]
  omega

/-- The targets of an entry can be stored: the scale was picked for all of them. -/
theorem storable_legs {time : TimeSec} {entry : RthPlanEntry} (h : entry.Evaluated time)
    {start : Vector3WithYaw} {scale : UInt8} (hscale : Suffices .exact InReach entry start scale)
    {target : Vector3WithYaw} {duration : TimeSec}
    (hmem : .line target duration ∈ entry.legs start) : Storable scale.toNat target := by
  obtain ⟨hx, hy, hz⟩ := hscale.position
  rcases mem_legs hmem with hwait | ⟨hsome, hneck⟩ | ⟨hkeep, haction⟩ | ⟨hwith, haction⟩ | hpost
  · cases hwait
  · cases hneck
    cases hhas : entry.action.hasNeck with
    | false => exact absurd (h.neck hhas) hsome
    | true => exact ⟨hx, hy, hscale.neck hhas⟩
  · cases haction
    -- an action that keeps the altitude has no neck
    have hstay := (h.neck (by rw [hkeep]; rfl)).1
    obtain ⟨htx, hty⟩ := hscale.target (by rw [hkeep]; rfl)
    refine ⟨htx, hty, ?_⟩
    rw [hstay, add_zero]
    exact hz
  · cases haction
    obtain ⟨htx, hty⟩ := hscale.target (by rw [hwith]; rfl)
    exact ⟨htx, hty, hscale.altitude (by rw [hwith]; rfl)⟩
  · cases hpost

/-- Apart from the time, no duration of an entry is negative. -/
theorem lasts_legs {time : TimeSec} {entry : RthPlanEntry} (h : entry.Evaluated time)
    (hnan : entry.timeSec ≠ .nan) (start : Vector3WithYaw) :
    ∀ leg ∈ entry.legs start, leg.Lasts := by
  intro leg hmem
  rcases mem_legs hmem with rfl | ⟨-, rfl⟩ | ⟨-, rfl⟩ | ⟨-, rfl⟩ | rfl
  · rw [Leg.Lasts, Leg.durationSec]
    cases htime : entry.timeSec with
    | nan => exact absurd htime hnan
    | negInfinity =>
        exact .inr ⟨0 + entry.preDelaySec, rfl, by rw [zero_add]; exact h.preDelaySec_nonneg⟩
    | infinity => exact .inl rfl
    | finite t =>
        rw [TimeSec.clip]
        split
        case isTrue =>
          exact .inr ⟨0 + entry.preDelaySec, rfl, by rw [zero_add]; exact h.preDelaySec_nonneg⟩
        case isFalse hpos =>
          exact .inr ⟨t + entry.preDelaySec, rfl,
            add_nonneg (not_le.mp hpos).le h.preDelaySec_nonneg⟩
  · exact .inr ⟨_, rfl, h.preNeckDurationSec_nonneg⟩
  · exact .inr ⟨_, rfl, h.durationSec_nonneg⟩
  · exact .inr ⟨_, rfl, h.durationSec_nonneg⟩
  · exact .inr ⟨_, rfl, h.postDelaySec_nonneg⟩

/-- With a scale that suffices, a builder starts at the start position, and the legs can be
appended unless one of them is too long or there is no memory. -/
theorem exists_outcome (alloc : Allocator) {time : TimeSec} {entry : RthPlanEntry}
    (h : entry.Evaluated time) (hnan : entry.timeSec ≠ .nan) {start : Vector3WithYaw}
    {scale : UInt8} (hscale : Suffices .exact InReach entry start scale) :
    ∃ b₀ b₁, init scale 0 = .ok b₀ ∧ (setStartPosition .exact start).run b₀ = .ok () b₁ ∧
      Started scale 0 start b₁ ∧ LegsOutcome alloc (entry.legs start) b₁ := by
  obtain ⟨b₀, b₁, hinit, hstart, hstarted, hroomy, hstorable⟩ := exists_start hscale
  refine ⟨b₀, b₁, hinit, hstart, hstarted, run_flyLegs ?_ ?_ ?_ (lasts_legs h hnan start)⟩
  · exact hroomy.mono (Nat.mul_le_mul_right _ (length_legs_le entry start))
  · rw [hstarted.lastPosition_eq]
    exact hstorable
  · intro target duration hmem
    rw [hstarted.scale_eq]
    exact storable_legs h hscale hmem

/-- The moves of some legs take as long as the legs. -/
theorem durationMsec_move (alloc : Allocator) (legs : List Leg) :
    (legs.map (Leg.move alloc)).map Move.durationMsec = legs.map Leg.durationMsec := by
  rw [List.map_map]
  exact List.map_congr_left fun leg _ => by cases leg <;> rfl

/-- When the scale and the time up to which the start position is held are known, the conversion
appends the legs and takes over the bytes, if there is memory for the header. -/
theorem initFromRthPlanEntry_eq {alloc : Allocator} {time : TimeSec} {entry : RthPlanEntry}
    (h : entry.Evaluated time) {start : Vector3WithYaw} {scale : UInt8} {durationMsec : ℕ}
    {b₀ b₁ : TrajectoryBuilder} (hscale : scaleFor .exact entry start = .ok scale)
    (hmsec : uint32MsecDurationFromFloatSeconds .exact
      (entry.timeSec.clip.delayed .exact entry.preDelaySec) = .ok durationMsec)
    (hinit : init scale 0 = .ok b₀) (hstart : (setStartPosition .exact start).run b₀ = .ok () b₁)
    (halloc : alloc headerLength = true) :
    Trajectory.initFromRthPlanEntry .exact alloc entry start =
      match (flyLegs alloc (entry.legs start)).run b₁ with
      | .error e _ => error e
      | .ok _ builder => Trajectory.initFromBuilder .exact builder >>= fun made => ok made.1 := by
  rw [Trajectory.initFromRthPlanEntry, hscale, startHoldSec_eq h, hmsec]
  simp only [Checked.lift, ok_bind, hinit, addRthPlanEntry_eq h start hmsec, EStateM.run_bind,
    hstart, allocateHeader, halloc, if_true]
  rfl

/-- Without memory for the header, there is no trajectory. -/
theorem initFromRthPlanEntry_of_noMemory {alloc : Allocator} {time : TimeSec}
    {entry : RthPlanEntry} (h : entry.Evaluated time) {start : Vector3WithYaw} {scale : UInt8}
    {durationMsec : ℕ} {b₀ : TrajectoryBuilder} (hscale : scaleFor .exact entry start = .ok scale)
    (hmsec : uint32MsecDurationFromFloatSeconds .exact
      (entry.timeSec.clip.delayed .exact entry.preDelaySec) = .ok durationMsec)
    (hinit : init scale 0 = .ok b₀) (halloc : alloc headerLength = false) :
    Trajectory.initFromRthPlanEntry .exact alloc entry start = error .enomem := by
  rw [Trajectory.initFromRthPlanEntry, hscale, startHoldSec_eq h, hmsec]
  simp only [Checked.lift, ok_bind, hinit, allocateHeader, halloc, Bool.false_eq_true, if_false,
    error_bind]

/-- An entry that says to land asks for nothing but its delays. -/
theorem legs_of_land {time : TimeSec} {entry : RthPlanEntry} (h : entry.Evaluated time)
    (hland : entry.action = .land) (start : Vector3WithYaw) :
    entry.legs start = .hold (entry.timeSec.clip.delayed .exact entry.preDelaySec) ::
      entry.postLegs := by
  have hneck := h.neck (by rw [hland]; rfl)
  rw [RthPlanEntry.legs, RthPlanEntry.neckLegs, if_pos hneck, RthPlanEntry.actionLegs, hland]
  rfl

/-- In exact arithmetic an entry overflows exactly when there is no scale for it or one of its
legs is too long. -/
theorem overflows_exact_iff {time : TimeSec} {entry : RthPlanEntry} (h : entry.Evaluated time)
    (start : Vector3WithYaw) :
    entry.Overflows .exact start ↔
      SomethingTooFar .exact entry start ∨ ∃ leg ∈ entry.legs start, leg.TooLong := by
  have hzero : ¬ (TimeSec.finite 0).TooLong := by
    rintro (hinf | ⟨duration, hfinite, hlong⟩)
    · cases hinf
    · cases hfinite
      exact absurd hlong (by norm_num [uint32Max])
  have hhold : startHoldSec .exact entry =
      (Leg.hold (entry.timeSec.clip.delayed .exact entry.preDelaySec)).durationSec :=
    startHoldSec_eq h
  refine or_congr_right ⟨?_, ?_⟩
  · rintro ⟨t, hmem, hlong⟩
    simp only [RthPlanEntry.durations, List.cons_append, List.nil_append, List.mem_cons,
      List.mem_append, List.not_mem_nil, or_false, List.mem_ite_nil_right] at hmem
    rcases hmem with rfl | rfl | ⟨haction, rfl⟩ | rfl
    · rw [hhold] at hlong
      exact ⟨_, List.mem_cons_self, hlong⟩
    · have hsome : ¬ (entry.preNeckMm = 0 ∧ entry.preNeckDurationSec = 0) := fun hnone =>
        hzero (hnone.2 ▸ hlong)
      refine ⟨.line { start with z := start.z + entry.preNeckMm }
        (.finite entry.preNeckDurationSec), ?_, hlong⟩
      rw [RthPlanEntry.legs, RthPlanEntry.neckLegs, if_neg hsome]
      simp
    · have hleg : ∃ leg ∈ entry.actionLegs start, leg.durationSec = .finite entry.durationSec := by
        rw [RthPlanEntry.actionLegs]
        cases hcase : entry.action with
        | sameAsPrevious => exact absurd hcase h.action_ne
        | land =>
            rw [hcase] at haction
            cases haction
        | goToKeepingAltitude => exact ⟨_, List.mem_singleton_self _, rfl⟩
        | goToWithAltitude => exact ⟨_, List.mem_singleton_self _, rfl⟩
      obtain ⟨leg, hmem, hduration⟩ := hleg
      rw [← hduration] at hlong
      refine ⟨leg, ?_, hlong⟩
      rw [RthPlanEntry.legs]
      exact List.mem_cons_of_mem _ (List.mem_append_right _ (List.mem_append_left _ hmem))
    · have hsome : entry.postDelaySec ≠ 0 := fun hnone => hzero (hnone ▸ hlong)
      refine ⟨.hold (.finite entry.postDelaySec), ?_, hlong⟩
      rw [RthPlanEntry.legs, RthPlanEntry.postLegs, if_neg hsome]
      simp
  · rintro ⟨leg, hmem, hlong⟩
    refine ⟨leg.durationSec, ?_, hlong⟩
    rw [RthPlanEntry.durations]
    rcases mem_legs hmem with rfl | ⟨-, rfl⟩ | ⟨haction, rfl⟩ | ⟨haction, rfl⟩ | rfl
    · rw [hhold]
      exact List.mem_cons_self
    · simp [Leg.durationSec]
    · simp [Leg.durationSec, haction, RthAction.hasTarget]
    · simp [Leg.durationSec, haction, RthAction.hasTarget]
    · simp [Leg.durationSec]

/-- **What is flown** of an entry that was converted, in exact arithmetic: a player that walks
over the trajectory flies the legs that the entry asks for, from the start position, and stops
at the end of the buffer. -/
theorem flies_of_converted {alloc : Allocator} {time : TimeSec} {entry : RthPlanEntry}
    (h : entry.Evaluated time) {start : Vector3WithYaw} {trajectory : Trajectory}
    (hconverted : Trajectory.initFromRthPlanEntry .exact alloc entry start = ok trajectory) :
    ∃ scale player segments final,
      scaleFor .exact entry start = .ok scale ∧ ¬ entry.Overflows .exact start ∧
      trajectory.start = quantise scale.toNat start ∧
      rewind .exact trajectory = ok player ∧
      (∀ fuel, trajectory.buffer.length ≤ fuel →
        walk .exact fuel player = ok (segments, final)) ∧
      final.currentSegment.start = trajectory.buffer.length ∧
      (((entry.legs start).map Leg.durationMsec).sum < 2 ^ 32 →
        Flies scale.toNat start 0 ((entry.legs start).map (Leg.move alloc)) segments) := by
  cases hscale : scaleFor .exact entry start with
  | error e =>
      rw [Trajectory.initFromRthPlanEntry, hscale] at hconverted
      cases hconverted
  | ok scale =>
      have hsuffices := scaleFor_ok reachedBy_exact hscale
      by_cases hnan : entry.timeSec = .nan
      · rw [Trajectory.initFromRthPlanEntry, hscale, startHoldSec, hnan] at hconverted
        cases hconverted
      · have hwait := lasts_legs h hnan start _ List.mem_cons_self
        rcases msec_of_lasts hwait with ⟨-, -, hmsec⟩ | ⟨-, hmsec⟩
        · obtain ⟨b₀, b₁, hinit, hstart, hstarted, houtcome⟩ :=
            exists_outcome alloc h hnan hsuffices
          by_cases halloc : alloc headerLength = true
          · rw [initFromRthPlanEntry_eq h hscale hmsec hinit hstart halloc] at hconverted
            cases houtcome with
            | written hrun hwritten hshort =>
                rw [hstarted.lastPosition_eq] at hwritten
                obtain ⟨trajectory', builder, player, segments, final, hbuilder, hposition,
                  hrewind, hwalk, hend, hflies⟩ := flies_written hstarted hwritten
                simp only [hrun, hbuilder, ok_bind] at hconverted
                obtain rfl : trajectory' = trajectory := Checked.ok.inj hconverted
                rw [durationMsec_move] at hflies
                refine ⟨scale, player, segments, final, rfl, ?_, hposition, hrewind, hwalk, hend,
                  hflies⟩
                rw [overflows_exact_iff h]
                rintro (hfar | ⟨leg, hmem, hlong⟩)
                · exact hsuffices.not_somethingTooFar hfar
                · exact hshort leg hmem hlong
            | tooLong hrun _ _ =>
                rw [hrun] at hconverted
                cases hconverted
            | noMemory hrun _ =>
                rw [hrun] at hconverted
                cases hconverted
          · rw [Bool.not_eq_true] at halloc
            rw [initFromRthPlanEntry_of_noMemory h hscale hmsec hinit halloc] at hconverted
            cases hconverted
        · rw [Leg.durationSec] at hmsec
          rw [Trajectory.initFromRthPlanEntry, hscale, startHoldSec_eq h, hmsec] at hconverted
          cases hconverted

/-- **Converting an entry** that was evaluated from a plan, in exact arithmetic or in single
precision: it fails because a coordinate or a duration is too large, because the time is not a
number, or because there is no memory; or it succeeds. In exact arithmetic, a player that walks
over the trajectory then flies the legs that the entry asks for, from the start position, and
stops at the end of the buffer. An entry that says to land asks for nothing but its delays. -/
theorem rth_converted {F : Rounding} (hF : F = .exact ∨ F = .binary32) (alloc : Allocator)
    {plan : RthPlan} {time : TimeSec} {entry : RthPlanEntry}
    (h : plan.evaluateAt F time = ok entry) (start : Vector3WithYaw) :
    ((Trajectory.initFromRthPlanEntry F alloc entry start = error .eoverflow ∧
        entry.Overflows F start) ∨
      (Trajectory.initFromRthPlanEntry F alloc entry start = error .einval ∧ time = .nan) ∨
      (Trajectory.initFromRthPlanEntry F alloc entry start = error .enomem ∧
        ∃ n, alloc n = false) ∨
      ∃ trajectory, Trajectory.initFromRthPlanEntry F alloc entry start = ok trajectory) ∧
    (F = .exact → ∀ trajectory,
      Trajectory.initFromRthPlanEntry F alloc entry start = ok trajectory →
        ∃ scale player segments final,
          scaleFor .exact entry start = .ok scale ∧ ¬ entry.Overflows .exact start ∧
          trajectory.start = quantise scale.toNat start ∧
          rewind .exact trajectory = ok player ∧
          (∀ fuel, trajectory.buffer.length ≤ fuel →
            walk .exact fuel player = ok (segments, final)) ∧
          final.currentSegment.start = trajectory.buffer.length ∧
          (((entry.legs start).map Leg.durationMsec).sum < 2 ^ 32 →
            Flies scale.toNat start 0 ((entry.legs start).map (Leg.move alloc)) segments)) ∧
    (entry.action = .land → entry.legs start =
      .hold (entry.timeSec.clip.delayed .exact entry.preDelaySec) :: entry.postLegs) := by
  have hentry := RthPlan.evaluated_of_evaluateAt h
  refine ⟨Trajectory.initFromRthPlanEntry_cases hF alloc hentry start, ?_,
    fun hland => legs_of_land hentry hland start⟩
  rintro rfl trajectory hconverted
  exact flies_of_converted hentry hconverted

/-- A plan with one point and one entry: at five seconds, climb by 500 mm in two seconds, and
go to (100, 0, 3000) in ten seconds. -/
def climbAndGo : List UInt8 :=
  [0x01, 0x01, 0x00, 0x64, 0x00, 0x00, 0x00, 0x01, 0x00,
    0x30, 0x05, 0x00, 0xB8, 0x0B, 0xF4, 0x01, 0x02, 0x0A]

/-- From a height of one meter, the entry of this plan is flown in three legs. -/
theorem rth_converted_climbAndGo :
    ∃ plan entry trajectory player segments final,
      RthPlan.initFromBuffer climbAndGo = ok plan ∧
      plan.evaluateAt .exact (.finite 0) = ok entry ∧
      Trajectory.initFromRthPlanEntry .exact (fun _ => true) entry ⟨0, 0, 1000, 0⟩ =
        ok trajectory ∧
      rewind .exact trajectory = ok player ∧
      walk .exact trajectory.buffer.length player = ok (segments, final) ∧
      Flies 1 ⟨0, 0, 1000, 0⟩ 0
        [.hold (fun _ => true) 5000, .line (fun _ => true) ⟨0, 0, 1500, 0⟩ 2000,
          .line (fun _ => true) ⟨100, 0, 3000, 0⟩ 10000] segments := by
  let entry : RthPlanEntry := ⟨.finite 5, .goToWithAltitude, 10, ⟨100, 0⟩, 3000, 0, 0, 500, 2⟩
  have hentry : RthPlan.evaluateAt .exact ⟨climbAndGo, 1, 3, 1⟩ (.finite 0) = ok entry := by
    decide +kernel
  have hlegs : entry.legs ⟨0, 0, 1000, 0⟩ = [.hold (.finite 5),
      .line ⟨0, 0, 1500, 0⟩ (.finite 2), .line ⟨100, 0, 3000, 0⟩ (.finite 10)] := by
    decide +kernel
  have hfive : (Leg.hold (.finite 5)).durationMsec = 5000 := by decide +kernel
  have htwo : (Leg.line ⟨0, 0, 1500, 0⟩ (.finite 2)).durationMsec = 2000 := by decide +kernel
  have hten : (Leg.line ⟨100, 0, 3000, 0⟩ (.finite 10)).durationMsec = 10000 := by
    decide +kernel
  have hone : scaleFor .exact entry ⟨0, 0, 1000, 0⟩ = .ok 1 := by decide +kernel
  have hfits : ¬ entry.Overflows .exact ⟨0, 0, 1000, 0⟩ := by
    rw [overflows_exact_iff (RthPlan.evaluated_of_evaluateAt hentry)]
    rintro (hfar | ⟨leg, hmem, hlong⟩)
    · exact (scaleFor_ok reachedBy_exact hone).not_somethingTooFar hfar
    · rw [hlegs] at hmem
      simp only [List.mem_cons, List.not_mem_nil, or_false] at hmem
      rcases hmem with rfl | rfl | rfl
      · exact not_tooLong_of_le rfl (by norm_num [uint32Max]) hlong
      · exact not_tooLong_of_le rfl (by norm_num [uint32Max]) hlong
      · exact not_tooLong_of_le rfl (by norm_num [uint32Max]) hlong
  obtain ⟨⟨-, hover⟩ | ⟨-, hnan⟩ | ⟨-, n, hmemory⟩ | ⟨trajectory, hconverted⟩, hflown, -⟩ :=
    rth_converted (.inl rfl) (fun _ => true) hentry ⟨0, 0, 1000, 0⟩
  · exact absurd hover hfits
  · cases hnan
  · cases hmemory
  · obtain ⟨scale, player, segments, final, hscale, -, -, hrewind, hwalk, -, hflies⟩ :=
      hflown rfl trajectory hconverted
    obtain rfl : 1 = scale := Except.ok.inj (hone.symm.trans hscale)
    simp only [hlegs, List.map_cons, List.map_nil, Leg.move, hfive, htwo, hten] at hflies
    exact ⟨_, entry, trajectory, player, segments, final, rfl, hentry, hconverted, hrewind,
      hwalk _ le_rfl, hflies (by decide)⟩

/-- Without an entry, the plan is evaluated to the time that was asked for, and a time that is
not a number is rejected. -/
theorem timeNan_rejected :
    ∃ entry, RthPlan.initEmpty.evaluateAt .exact .nan = ok entry ∧
      Trajectory.initFromRthPlanEntry .exact (fun _ => true) entry .zero = error .einval :=
  ⟨_, rfl, rfl⟩

end Skybrush
