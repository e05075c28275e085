import Skybrush.BuilderFlight
import Skybrush.RthConversion

/-!
# Errors of Converting Return-to-Home Entries

How the conversion of an entry of a return-to-home plan can fail, in exact arithmetic and in
single precision. The scale is picked before anything is written, so no coordinate that is
written later can be too large for it; rounding does not spoil that, because the scale
leaves room for half a step (`NearReach`). What remains are coordinates that are too large for
the largest scale, durations that are too large for 32 bits, a time that is not a number, and
memory.

## Main results

* `msec_cases`: a duration that is not negative is converted unless it is too long.
* `TrajectoryBuilder.ends_addRthPlanEntry`: the calls on the builder fail only because a
  duration is too long or there is no memory.
* `Trajectory.initFromRthPlanEntry_cases`: the errors of the conversion.
-/

namespace Skybrush

open Checked Rounding

/-! ### Durations -/

namespace TimeSec

/-- A duration is too large for 32 bits of milliseconds. -/
def TooLong (t : TimeSec) : Prop :=
  t = .infinity ∨ ∃ duration, t = .finite duration ∧ (uint32Max : ℚ) / 1000 < duration

/-- A duration is not negative. -/
def Lasts (t : TimeSec) : Prop :=
  t = .infinity ∨ ∃ duration, t = .finite duration ∧ 0 ≤ duration

end TimeSec

theorem maxDurationSec_exact : maxDurationSec .exact = (uint32Max : ℚ) / 1000 := rfl

/-- In single precision the largest duration is rounded up. -/
theorem maxDurationSec_binary32 : maxDurationSec .binary32 = 4294967.5 := by
  have hmax : toBinary32 (uint32Max : ℚ) = 2 ^ 32 := by
    have hround : roundEven ((uint32Max : ℚ) / 2 ^ (8 : ℤ)) = 16777216 :=
      roundEven_eq (by norm_num [uint32Max]) (by norm_num [uint32Max])
    rw [toBinary32_of_binade (e := 8) (by decide) (by norm_num [uint32Max])
      (by norm_num [uint32Max]), hround]
    norm_num
  have hquot : toBinary32 (2 ^ 32 / 1000) = 4294967.5 := by
    have hround : roundEven ((2 ^ 32 / 1000 : ℚ) / 2 ^ (-1 : ℤ)) = 8589935 :=
      roundEven_eq (by norm_num) (by norm_num)
    rw [toBinary32_of_binade (e := -1) (by decide) (by norm_num) (by norm_num), hround]
    norm_num
  simp only [maxDurationSec, binary32_apply, hmax, hquot]

/-- In exact arithmetic and in single precision, durations are not declined too early. -/
theorem le_maxDurationSec {F : Rounding} (hF : F = .exact ∨ F = .binary32) :
    (uint32Max : ℚ) / 1000 ≤ maxDurationSec F := by
  rcases hF with rfl | rfl
  · exact maxDurationSec_exact.ge
  · rw [maxDurationSec_binary32]
    norm_num [uint32Max]

/-- A duration that is not negative is converted unless it is too long. -/
theorem msec_cases {F : Rounding} (hmax : (uint32Max : ℚ) / 1000 ≤ maxDurationSec F) {t : TimeSec}
    (h : t.Lasts) :
    (∃ durationMsec < 2 ^ 32, uint32MsecDurationFromFloatSeconds F t = .ok durationMsec) ∨
      (uint32MsecDurationFromFloatSeconds F t = .error .eoverflow ∧ t.TooLong) := by
  rcases h with rfl | ⟨duration, rfl, hnonneg⟩
  · exact .inr ⟨rfl, .inl rfl⟩
  · rw [uint32MsecDurationFromFloatSeconds, if_neg (not_lt.mpr hnonneg)]
    split
    case isTrue hlong => exact .inr ⟨rfl, .inr ⟨duration, rfl, hmax.trans_lt hlong⟩⟩
    case isFalse => exact .inl ⟨_, Nat.mod_lt _ (Nat.two_pow_pos 32), rfl⟩

/-! ### Coordinates -/

namespace TrajectoryBuilder

variable {F : Rounding}

/-- **In single precision**, coordinates can be encoded that are too large by less than half of
the scale. -/
theorem canEncode_keepsBinary32 (hF : F.KeepsBinary32) {scale : ℕ} (hpos : 0 < scale)
    (hle : scale ≤ 127) : CanEncode F scale (scale * 65535 / 2) := by
  have hscale : (0 : ℚ) < scale := by exact_mod_cast hpos
  -- the bounds that occur are numbers of single precision
  have hhalf : ∀ m : ℤ, |m| ≤ 2 ^ 24 → F ((m : ℚ) / 2) = (m : ℚ) / 2 := by
    intro m hm
    have hkeep := hF m (-1) (by decide) hm
    norm_num at hkeep
    simpa only [div_eq_mul_inv, one_mul, one_div] using hkeep
  have hround : ∀ {q : ℚ} {m : ℤ}, |m| ≤ 2 ^ 24 → |q| ≤ (m : ℚ) / 2 → |F q| ≤ (m : ℚ) / 2 := by
    intro q m hm hq
    obtain ⟨hlow, hhigh⟩ := abs_le.mp hq
    have hlow' := F.mono hlow
    have hhigh' := F.mono hhigh
    rw [hhalf m hm] at hhigh'
    have hneg : -((m : ℚ) / 2) = ((-m : ℤ) : ℚ) / 2 := by
      push_cast
      ring
    rw [hneg, hhalf (-m) (by rwa [abs_neg]), ← hneg] at hlow'
    exact abs_le.mpr ⟨hlow', hhigh'⟩
  have hbound : ((scale * 65535 : ℤ) : ℚ) / 2 = scale * 65535 / 2 := by push_cast; rfl
  have hsmall : |(scale * 65535 : ℤ)| ≤ 2 ^ 24 := by
    rw [abs_of_nonneg (by positivity)]
    omega
  refine ⟨fun {coordinate} h => ?_, fun {a b} ha hb => ?_⟩
  · have hquot : |coordinate / scale| ≤ ((65535 : ℤ) : ℚ) / 2 := by
      rw [abs_div, abs_of_pos hscale, div_le_iff₀ hscale]
      push_cast
      linarith
    obtain ⟨hlow, hhigh⟩ := abs_le.mp (hround (by decide) hquot)
    constructor
    · rw [Int.le_floor]
      push_cast at hlow ⊢
      linarith
    · have hlt : ⌊F (coordinate / scale)⌋ < 32768 := by
        rw [Int.floor_lt]
        push_cast at hhigh ⊢
        linarith
      omega
  · have hdouble : |(2 * (scale * 65535) : ℤ)| ≤ 2 ^ 24 := by
      rw [abs_of_nonneg (by positivity)]
      omega
    have hsum : |a + b| ≤ ((2 * (scale * 65535) : ℤ) : ℚ) / 2 := by
      refine (abs_add_le a b).trans ?_
      push_cast
      linarith
    have hrounded := hround hdouble hsum
    rw [← hbound]
    refine hround hsmall ?_
    rw [abs_div, abs_two, div_le_div_iff_of_pos_right two_pos]
    push_cast at hrounded ⊢
    linarith

/-! ### The calls on the builder -/

/-- An action succeeds, or it fails because a duration is too long or there is no memory. -/
def Ends {α : Type} (alloc : Allocator) (Long : Prop) (x : Action α) (b : TrajectoryBuilder)
    (P : α → TrajectoryBuilder → Prop) : Prop :=
  (∃ a b', x.run b = .ok a b' ∧ P a b') ∨ ((∃ b', x.run b = .error .eoverflow b') ∧ Long) ∨
    ((∃ b', x.run b = .error .enomem b') ∧ ∃ n, alloc n = false)

section Rules

variable {α β : Type} {alloc : Allocator} {Long : Prop} {b : TrajectoryBuilder}

theorem ends_pure {P : α → TrajectoryBuilder → Prop} {a : α} (h : P a b) :
    Ends alloc Long (pure a) b P := .inl ⟨a, b, rfl, h⟩

/-- **Sequencing.** -/
theorem Ends.bind {x : Action α} {f : α → Action β} {P : α → TrajectoryBuilder → Prop}
    {Q : β → TrajectoryBuilder → Prop} (h : Ends alloc Long x b P)
    (hf : ∀ a b', P a b' → Ends alloc Long (f a) b' Q) : Ends alloc Long (x >>= f) b Q := by
  rcases h with ⟨a, b', hrun, ha⟩ | ⟨⟨b', hrun⟩, hlong⟩ | ⟨⟨b', hrun⟩, hmemory⟩
  · have hrest := hf a b' ha
    simp only [Ends, EStateM.run_bind, hrun] at hrest ⊢
    exact hrest
  · exact .inr (.inl ⟨⟨b', by rw [EStateM.run_bind, hrun]⟩, hlong⟩)
  · exact .inr (.inr ⟨⟨b', by rw [EStateM.run_bind, hrun]⟩, hmemory⟩)

/-- Converting a duration. -/
theorem ends_convert (hmax : (uint32Max : ℚ) / 1000 ≤ maxDurationSec F) {t : TimeSec}
    (h : t.Lasts) (hlong : t.TooLong → Long) :
    Ends alloc Long (ofExcept (uint32MsecDurationFromFloatSeconds F t)) b
      fun durationMsec b' => b' = b ∧ durationMsec < 2 ^ 32 := by
  rcases msec_cases hmax h with ⟨durationMsec, hlt, hmsec⟩ | ⟨hmsec, htoo⟩
  · rw [hmsec]
    exact .inl ⟨durationMsec, b, rfl, rfl, hlt⟩
  · rw [hmsec]
    exact .inr (.inl ⟨⟨b, rfl⟩, hlong htoo⟩)

end Rules

/-- A builder that can go on: it has its header, it stands within the bound, and there is space
for some more moves. -/
structure Ready (scale : ℕ) (bound : ℚ) (moves : ℕ) (b : TrajectoryBuilder) : Prop where
  roomy : b.Roomy (moves * 2 ^ 32)
  scale_eq : b.scale = scale
  last : Within bound b.lastPosition
  header : headerLength ≤ b.bytes.length

variable {alloc : Allocator} {Long : Prop} {b : TrajectoryBuilder} {scale moves : ℕ} {bound : ℚ}

theorem Ready.mono {moves' : ℕ} (h : b.Ready scale bound moves) (hle : moves' ≤ moves) :
    b.Ready scale bound moves' :=
  { h with roomy := h.roomy.mono (Nat.mul_le_mul_right _ hle) }

/-- **A move** to a position within the bound. -/
theorem ends_move {move : Move} (hcan : CanEncode F scale bound)
    (h : b.Ready scale bound (moves + 1)) (hlt : move.durationMsec < 2 ^ 32)
    (htarget : Within bound (move.target b.lastPosition)) (halloc : move.memory = alloc) :
    Ends alloc Long (move.call.action F) b fun _ b' => b'.Ready scale bound moves := by
  subst halloc
  have hroomy : b.Roomy (move.durationMsec + 1 + moves * 2 ^ 32) := h.roomy.mono (by omega)
  rcases run_move hroomy (h.scale_eq ▸ hcan) h.last htarget with
    ⟨b', hrun, hroomy', hwritten⟩ | ⟨b', hrun, hmemory⟩
  · refine .inl ⟨(), b', hrun, hroomy', hwritten.scale_eq.trans h.scale_eq, ?_, ?_⟩
    · rw [hwritten.lastPosition_eq, endOf_segments]
      exact htarget
    · rw [hwritten.bytes_eq, List.length_append]
      exact h.header.trans (Nat.le_add_right _ _)
  · exact .inr (.inr ⟨⟨b', hrun⟩, hmemory⟩)

/-- A line with its duration in seconds. -/
theorem ends_appendLineFor (hcan : CanEncode F scale bound)
    (hmax : (uint32Max : ℚ) / 1000 ≤ maxDurationSec F) (h : b.Ready scale bound (moves + 1))
    {target : Vector3WithYaw} (htarget : Within bound target) {durationSec : ℚ}
    (hnonneg : 0 ≤ durationSec) (hlong : (TimeSec.finite durationSec).TooLong → Long) :
    Ends alloc Long (appendLineFor F alloc target durationSec) b
      fun _ b' => b'.Ready scale bound moves := by
  refine (ends_convert hmax (.inr ⟨_, rfl, hnonneg⟩) hlong).bind fun durationMsec b' hb' => ?_
  obtain ⟨rfl, hlt⟩ := hb'
  exact @ends_move F alloc Long b' scale moves bound (.line alloc target durationMsec) hcan h hlt
    htarget rfl

end TrajectoryBuilder

namespace RthPlanEntry

/-- The durations that are converted for an entry: the time until which the start position is
held, and those of the neck, the action and the delay behind it. -/
def durations (F : Rounding) (entry : RthPlanEntry) : List TimeSec :=
  [startHoldSec F entry, .finite entry.preNeckDurationSec] ++
    ((if entry.action.hasTarget then [.finite entry.durationSec] else []) ++
      [.finite entry.postDelaySec])

/-- A coordinate of the entry is too large for the largest scale, or a duration is too large
for 32 bits. -/
def Overflows (F : Rounding) (entry : RthPlanEntry) (start : Vector3WithYaw) : Prop :=
  SomethingTooFar F entry start ∨ ∃ t ∈ entry.durations F, t.TooLong

end RthPlanEntry

/-! ### The parts of the conversion -/

namespace TrajectoryBuilder

section Parts

variable {F : Rounding} {alloc : Allocator} {b : TrajectoryBuilder} {scale : UInt8} {moves : ℕ}
variable {time : TimeSec} {entry : RthPlanEntry} {start target : Vector3WithYaw}

/-- The bound up to which coordinates are near a scale. -/
abbrev nearBound (scale : UInt8) : ℚ := scale.toNat * 65535 / 2

/-- **The neck** ends within the bound. -/
theorem ends_addPreNeck (hcan : CanEncode F scale.toNat (nearBound scale))
    (hmax : (uint32Max : ℚ) / 1000 ≤ maxDurationSec F) (h : entry.Evaluated time)
    (hscale : Suffices F NearReach entry start scale)
    (hready : b.Ready scale.toNat (nearBound scale) (moves + 1)) :
    Ends alloc (∃ t ∈ entry.durations F, t.TooLong) (addPreNeck F alloc entry start) b
      fun target b' => b'.Ready scale.toNat (nearBound scale) moves ∧
        Within (nearBound scale) target := by
  obtain ⟨hx, hy, hz⟩ := hscale.position
  rw [addPreNeck]
  split
  case isTrue hsome =>
    have hneck : entry.action.hasNeck = true := by
      by_contra hnone
      obtain ⟨hmm, hduration⟩ := h.neck (Bool.not_eq_true _ ▸ hnone)
      tauto
    have htarget : Within (nearBound scale)
        { start with z := F (start.z + entry.preNeckMm) } := ⟨hx, hy, hscale.neck hneck⟩
    refine (ends_appendLineFor hcan hmax hready htarget h.preNeckDurationSec_nonneg
      fun hlong => ⟨_, ?_, hlong⟩).bind fun _ b' hb' => ends_pure ⟨hb', htarget⟩
    simp [RthPlanEntry.durations]
  case isFalse => exact ends_pure ⟨hready.mono (Nat.le_succ _), hx, hy, hz⟩

/-- **The action** ends within the bound. -/
theorem ends_addAction (hcan : CanEncode F scale.toNat (nearBound scale))
    (hmax : (uint32Max : ℚ) / 1000 ≤ maxDurationSec F) (h : entry.Evaluated time)
    (hscale : Suffices F NearReach entry start scale)
    (hready : b.Ready scale.toNat (nearBound scale) (moves + 1))
    (htarget : Within (nearBound scale) target) :
    Ends alloc (∃ t ∈ entry.durations F, t.TooLong) (addAction F alloc entry target) b
      fun _ b' => b'.Ready scale.toNat (nearBound scale) moves := by
  have hline : ∀ {target' : Vector3WithYaw}, entry.action.hasTarget = true →
      Within (nearBound scale) target' →
      Ends alloc (∃ t ∈ entry.durations F, t.TooLong)
        (appendLineFor F alloc target' entry.durationSec) b
        fun _ b' => b'.Ready scale.toNat (nearBound scale) moves := by
    intro target' haction htarget'
    refine ends_appendLineFor hcan hmax hready htarget' h.durationSec_nonneg
      fun hlong => ⟨_, ?_, hlong⟩
    simp [RthPlanEntry.durations, haction]
  rw [addAction]
  cases haction : entry.action with
  | sameAsPrevious => exact absurd haction h.action_ne
  | land => exact ends_pure (hready.mono (Nat.le_succ _))
  | goToKeepingAltitude =>
      have hhas : entry.action.hasTarget = true := by rw [haction]; rfl
      obtain ⟨htx, hty⟩ := hscale.target hhas
      exact hline hhas ⟨htx, hty, htarget.z⟩
  | goToWithAltitude =>
      have hhas : entry.action.hasTarget = true := by rw [haction]; rfl
      obtain ⟨htx, hty⟩ := hscale.target hhas
      exact hline hhas ⟨htx, hty, hscale.altitude (by rw [haction]; rfl)⟩

/-- **The delay** behind the action. -/
theorem ends_addPostDelay (hcan : CanEncode F scale.toNat (nearBound scale))
    (hmax : (uint32Max : ℚ) / 1000 ≤ maxDurationSec F)
    (hready : b.Ready scale.toNat (nearBound scale) (moves + 1)) :
    Ends alloc (∃ t ∈ entry.durations F, t.TooLong) (addPostDelay F alloc entry) b
      fun _ b' => b'.Ready scale.toNat (nearBound scale) moves := by
  rw [addPostDelay]
  split
  case isTrue hpos =>
    refine (ends_convert hmax (.inr ⟨_, rfl, hpos.le⟩) fun hlong => ⟨_, ?_, hlong⟩).bind
      fun durationMsec b' hb' => ?_
    · obtain ⟨rfl, hlt⟩ := hb'
      exact @ends_move F alloc _ b' _ moves _ (.hold alloc durationMsec) hcan hready hlt
        hready.last rfl
    · simp [RthPlanEntry.durations]
  case isFalse => exact ends_pure (hready.mono (Nat.le_succ _))

/-- **All calls on the builder** behind the start position. -/
theorem ends_addRthPlanEntry (hcan : CanEncode F scale.toNat (nearBound scale))
    (hmax : (uint32Max : ℚ) / 1000 ≤ maxDurationSec F) (h : entry.Evaluated time)
    (hscale : Suffices F NearReach entry start scale) {durationMsec : ℕ}
    (hlt : durationMsec < 2 ^ 32) {b₀ : TrajectoryBuilder}
    (hstart : (setStartPosition F start).run b₀ = .ok () b)
    (hready : b.Ready scale.toNat (nearBound scale) 4) :
    Ends alloc (∃ t ∈ entry.durations F, t.TooLong)
      (addRthPlanEntry F alloc entry start durationMsec) b₀
      fun _ b' => b'.Ready scale.toNat (nearBound scale) 0 := by
  have hset : Ends alloc (∃ t ∈ entry.durations F, t.TooLong) (setStartPosition F start) b₀
      fun _ b' => b'.Ready scale.toNat (nearBound scale) 4 := .inl ⟨(), b, hstart, hready⟩
  rw [addRthPlanEntry]
  refine hset.bind fun _ b₁ hb₁ => ?_
  have hhold := @ends_move F alloc (∃ t ∈ entry.durations F, t.TooLong) b₁ _ 3 _
    (.hold alloc durationMsec) hcan hb₁ hlt hb₁.last rfl
  refine Ends.bind hhold fun _ b₂ hb₂ => ?_
  refine (ends_addPreNeck hcan hmax h hscale hb₂).bind fun target b₃ hb₃ => ?_
  exact (ends_addAction hcan hmax h hscale hb₃.1 hb₃.2).bind fun _ b₄ hb₄ =>
    ends_addPostDelay hcan hmax hb₄

/-- **A builder starts** at a position within the bound. -/
theorem exists_ready (hcan : CanEncode F scale.toNat (nearBound scale))
    (hscale : Suffices F NearReach entry start scale) :
    ∃ b₀ b₁, init scale 0 = .ok b₀ ∧ (setStartPosition F start).run b₀ = .ok () b₁ ∧
      b₁.Ready scale.toNat (nearBound scale) 4 := by
  obtain ⟨hx, hy, hz⟩ := hscale.position
  have hpos : 0 < scale.toNat := hscale.pos
  have hinit : ¬ (scale = 0 ∨ 127 < scale) := by
    rintro (rfl | hlt)
    · exact absurd hpos (by decide)
    · exact absurd hscale.le (UInt8.not_le.mpr hlt)
  obtain ⟨b₀, hb₀, hsize, hcapacity, howned, hscale_eq⟩ : ∃ b₀, init scale 0 = .ok b₀ ∧
      b₀.bytes.length = headerLength ∧ b₀.buffer.capacity = 9 ∧ b₀.buffer.owned = true ∧
      b₀.scale = scale.toNat := by
    rw [init, if_neg hinit]
    exact ⟨_, rfl, rfl, rfl, rfl, rfl⟩
  have hrun := @run_setStartPosition F b₀ start hsize
  rw [hscale_eq, scaleCoordinate_of_fits F (hcan.fits hx), scaleCoordinate_of_fits F (hcan.fits hy),
    scaleCoordinate_of_fits F (hcan.fits hz)] at hrun
  have hlength : ∀ (buf : List UInt8) (x y z yaw : ℤ), (writeInt16 (writeInt16 (writeInt16
      (writeInt16 buf 1 x) 3 y) 5 z) 7 yaw).length = buf.length := by
    intro buf x y z yaw
    simp only [writeInt16, length_writeBytes]
  refine ⟨b₀, _, hb₀, hrun, ⟨howned, ?_, ?_, ?_⟩, hscale_eq, ⟨hx, hy, hz⟩, ?_⟩
  · exact hcapacity ▸ (by decide : 0 < 9)
  · refine (Nat.add_le_add_right (hlength b₀.bytes _ _ _ _).le _).trans ?_
    rw [hsize]
    decide
  · exact hscale_eq ▸ hpos
  · exact (hsize.symm.trans (hlength b₀.bytes _ _ _ _).symm).le

end Parts

end TrajectoryBuilder

open TrajectoryBuilder

/-! ### Whole conversions -/

variable {F : Rounding}

/-- Unless the time of an entry is not a number, the start position is held for some time. -/
theorem lasts_startHoldSec {entry : RthPlanEntry} (hnan : entry.timeSec ≠ .nan) :
    (startHoldSec F entry).Lasts := by
  have hdelay : 0 ≤ (if 0 < entry.preDelaySec then entry.preDelaySec else 0) := by
    split
    case isTrue hpos => exact hpos.le
    case isFalse => exact le_rfl
  have hfinite : ∀ {t : ℚ}, 0 ≤ t → ((TimeSec.finite t).delayed F
      (if 0 < entry.preDelaySec then entry.preDelaySec else 0)).Lasts :=
    fun ht => .inr ⟨_, rfl, F.nonneg (add_nonneg ht hdelay)⟩
  simp only [startHoldSec]
  cases htime : entry.timeSec with
  | nan => exact absurd htime hnan
  | negInfinity => exact hfinite le_rfl
  | infinity => exact .inl rfl
  | finite t =>
      rw [TimeSec.isBefore]
      by_cases hneg : t < 0
      · rw [if_pos (decide_eq_true hneg)]
        exact hfinite le_rfl
      · rw [if_neg (by simpa using hneg)]
        exact hfinite (not_lt.mp hneg)

/-- A builder with its header makes a trajectory. -/
theorem exists_initFromBuilder {b : TrajectoryBuilder} (h : headerLength ≤ b.bytes.length) :
    ∃ made, Trajectory.initFromBuilder F b = ok made := by
  have hpos : 0 < b.bytes.length := (by decide : 0 < headerLength).trans_le h
  have hne : ¬ (true = true ∧ b.bytes = []) := by
    rintro ⟨-, hnil⟩
    rw [hnil] at hpos
    exact absurd hpos (by decide)
  obtain ⟨header, hheader⟩ := (Trajectory.needs_parseHeader F b.bytes 0 (Nat.zero_le _)).1
    (by rw [Nat.zero_add]; exact h)
  obtain ⟨trajectory, hinit⟩ : ∃ trajectory,
      Trajectory.initFromBytes F true b.bytes = ok trajectory := by
    rw [Trajectory.initFromBytes, if_neg hne, hheader]
    exact ⟨_, rfl⟩
  obtain ⟨builder, hbuilder⟩ := initFromBuilder_of_bytes hpos hinit
  exact ⟨_, hbuilder⟩

/-- **The errors of the conversion** of an entry that was evaluated from a plan, in exact
arithmetic and in single precision. -/
theorem Trajectory.initFromRthPlanEntry_cases (hF : F = .exact ∨ F = .binary32)
    (alloc : Allocator) {time : TimeSec} {entry : RthPlanEntry} (h : entry.Evaluated time)
    (start : Vector3WithYaw) :
    (initFromRthPlanEntry F alloc entry start = error .eoverflow ∧ entry.Overflows F start) ∨
      (initFromRthPlanEntry F alloc entry start = error .einval ∧ time = .nan) ∨
      (initFromRthPlanEntry F alloc entry start = error .enomem ∧ ∃ n, alloc n = false) ∨
      ∃ trajectory, initFromRthPlanEntry F alloc entry start = ok trajectory := by
  have hmax := le_maxDurationSec hF
  have hkeeps : F.KeepsBinary32 := by
    rcases hF with rfl | rfl
    · exact keepsBinary32_exact
    · exact keepsBinary32_binary32
  cases hscale : scaleFor F entry start with
  | error e =>
      obtain ⟨rfl, hfar⟩ := scaleFor_error hscale
      rw [initFromRthPlanEntry, hscale]
      exact .inl ⟨rfl, .inl hfar⟩
  | ok scale =>
      have hsuffices := scaleFor_ok (reachedBy_keepsBinary32 hkeeps) hscale
      have hcan : CanEncode F scale.toNat (nearBound scale) :=
        canEncode_keepsBinary32 hkeeps hsuffices.pos hsuffices.le
      by_cases hnan : entry.timeSec = .nan
      · have htime : time = .nan := by
          rcases h.timeSec with hsame | ⟨t, hfinite⟩
          · exact hsame.symm.trans hnan
          · rw [hnan] at hfinite
            cases hfinite
        rw [initFromRthPlanEntry, hscale, startHoldSec, hnan]
        exact .inr (.inl ⟨rfl, htime⟩)
      · rcases msec_cases hmax (lasts_startHoldSec hnan) with
          ⟨durationMsec, hlt, hmsec⟩ | ⟨hmsec, hlong⟩
        · obtain ⟨b₀, b₁, hinit, hstart, hready⟩ := exists_ready hcan hsuffices
          rw [initFromRthPlanEntry, hscale, hmsec, allocateHeader]
          simp only [Checked.lift, ok_bind, hinit]
          cases halloc : alloc Skybrush.headerLength with
          | false =>
              rw [if_neg Bool.false_ne_true]
              exact .inr (.inr (.inl ⟨rfl, _, halloc⟩))
          | true =>
              simp only [if_true, ok_bind]
              rcases ends_addRthPlanEntry hcan hmax h hsuffices hlt hstart hready with
                ⟨_, b', hrun, hb'⟩ | ⟨⟨b', hrun⟩, hlong⟩ | ⟨⟨b', hrun⟩, hmemory⟩
              · obtain ⟨made, hmade⟩ := @exists_initFromBuilder F b' hb'.header
                rw [hrun]
                simp only [hmade, ok_bind]
                exact .inr (.inr (.inr ⟨_, rfl⟩))
              · rw [hrun]
                exact .inl ⟨rfl, .inr hlong⟩
              · rw [hrun]
                exact .inr (.inr (.inl ⟨rfl, hmemory⟩))
        · rw [initFromRthPlanEntry, hscale, hmsec]
          exact .inl ⟨rfl, .inr ⟨_, by simp [RthPlanEntry.durations], hlong⟩⟩

end Skybrush
