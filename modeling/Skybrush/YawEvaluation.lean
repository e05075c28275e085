import Skybrush.StoredYawControl
import Skybrush.TrajectoryEvaluation

/-!
# Evaluating Yaw Controls

The player of a yaw control keeps two running sums, the time and the yaw at which the current
setpoint begins, and returns to the start when it is asked for a time before that. In exact
arithmetic it returns the offset, the deltas that are completed and the fraction of the one
that is running, whatever it was asked before. A block has at most 16383 deltas, so that the
sums fit into 32 bits.

## Main results

* `YawDelta.changeAt_append`: behind some deltas, only the others matter.
* `StoredYawControl.Timed.closed_stands`: the sums of the player are those of the deltas.
* `StoredYawControl.Timed.seekToTime`: a seek finds the yaw.
* `yaw_at_any_history`: the yaw does not depend on what was asked before.
-/

namespace Skybrush

open Checked

/-! ### Sums of deltas -/

namespace YawDelta

/-- How long deltas take, in milliseconds. -/
def totalDuration (deltas : List YawDelta) : ℕ :=
  (deltas.map fun d => d.durationMsec.toNat).sum

/-- How far deltas turn, in tenths of degrees. -/
def totalChange (deltas : List YawDelta) : ℤ :=
  (deltas.map fun d => d.yawChange.toInt).sum

/-- How far deltas have turned after `t` milliseconds: the ones that are completed, and the
fraction of the one that is running. -/
def changeAt (t : ℚ) : List YawDelta → ℚ
  | [] => 0
  | d :: rest =>
      if t ≤ d.durationMsec.toNat then
        d.yawChange.toInt * (t / d.durationMsec.toNat)
      else
        d.yawChange.toInt + changeAt (t - d.durationMsec.toNat) rest

theorem totalDuration_cons (d : YawDelta) (rest : List YawDelta) :
    totalDuration (d :: rest) = d.durationMsec.toNat + totalDuration rest := by
  rw [totalDuration, List.map_cons, List.sum_cons]
  rfl

theorem totalChange_cons (d : YawDelta) (rest : List YawDelta) :
    totalChange (d :: rest) = d.yawChange.toInt + totalChange rest := by
  rw [totalChange, List.map_cons, List.sum_cons]
  rfl

theorem totalDuration_append (deltas deltas' : List YawDelta) :
    totalDuration (deltas ++ deltas') = totalDuration deltas + totalDuration deltas' := by
  simp only [totalDuration, List.map_append, List.sum_append]

theorem totalDuration_concat (deltas : List YawDelta) (d : YawDelta) :
    totalDuration (deltas ++ [d]) = totalDuration deltas + d.durationMsec.toNat := by
  rw [totalDuration_append, totalDuration_cons]
  rfl

theorem totalChange_concat (deltas : List YawDelta) (d : YawDelta) :
    totalChange (deltas ++ [d]) = totalChange deltas + d.yawChange.toInt := by
  simp only [totalChange, List.map_append, List.sum_append, List.map_cons, List.map_nil,
    List.sum_singleton]

/-- The duration of a delta is less than 2¹⁶ milliseconds. -/
theorem totalDuration_le (deltas : List YawDelta) :
    totalDuration deltas ≤ 65535 * deltas.length := by
  induction deltas with
  | nil => exact le_rfl
  | cons d deltas ih =>
      have hlt := d.durationMsec.toNat_lt
      rw [totalDuration_cons, List.length_cons]
      omega

/-- A delta turns by at most 2¹⁵ tenths of degrees. -/
theorem abs_totalChange_le (deltas : List YawDelta) :
    |totalChange deltas| ≤ 32768 * deltas.length := by
  induction deltas with
  | nil => exact le_rfl
  | cons d deltas ih =>
      have hlow := d.yawChange.le_toInt
      have hhigh := d.yawChange.toInt_lt
      rw [abs_le] at ih ⊢
      rw [totalChange_cons, List.length_cons]
      push_cast
      omega

theorem changeAt_zero (deltas : List YawDelta) : changeAt 0 deltas = 0 := by
  cases deltas with
  | nil => rfl
  | cons d rest => rw [changeAt, if_pos (Nat.cast_nonneg _), zero_div, mul_zero]

/-- **Behind some deltas** that take time, only the others matter. -/
theorem changeAt_append {t : ℚ} {done : List YawDelta}
    (hpos : ∀ d ∈ done, 0 < d.durationMsec.toNat) (rest : List YawDelta)
    (h : (totalDuration done : ℚ) ≤ t) :
    changeAt t (done ++ rest) = totalChange done + changeAt (t - totalDuration done) rest := by
  induction done generalizing t with
  | nil => simp [totalChange, totalDuration]
  | cons d done ih =>
      rw [totalDuration_cons, Nat.cast_add] at h
      have hrest := ih (fun d hd => hpos d (List.mem_cons_of_mem _ hd))
        (t := t - d.durationMsec.toNat) (by linarith)
      have hgoal : (totalChange (d :: done) : ℚ) + changeAt (t - totalDuration (d :: done)) rest =
          d.yawChange.toInt + changeAt (t - d.durationMsec.toNat) (done ++ rest) := by
        rw [hrest, totalChange_cons, totalDuration_cons]
        push_cast
        rw [sub_sub, add_assoc]
      rw [hgoal, List.cons_append, changeAt]
      split
      case isTrue hle =>
        -- the time is where the first delta ends, and the others begin
        have htime : t = d.durationMsec.toNat := by
          have hnonneg : (0 : ℚ) ≤ totalDuration done := Nat.cast_nonneg _
          linarith
        have hne : (d.durationMsec.toNat : ℚ) ≠ 0 := by
          exact_mod_cast (hpos d (List.mem_cons_self ..)).ne'
        rw [htime, sub_self, changeAt_zero, div_self hne, mul_one, add_zero]
      case isFalse => rfl

/-- Behind the last delta, everything is completed. -/
theorem changeAt_of_le {t : ℚ} {deltas : List YawDelta}
    (hpos : ∀ d ∈ deltas, 0 < d.durationMsec.toNat) (h : (totalDuration deltas : ℚ) ≤ t) :
    changeAt t deltas = totalChange deltas := by
  have happend := changeAt_append hpos [] h
  rwa [List.append_nil, changeAt, add_zero] at happend

end YawDelta

namespace StoredYawControl

open YawDelta YawPlayer

/-- The yaw in degrees at a time in seconds: the offset and what the deltas have turned, but
the offset until time zero. -/
def yawAt (c : StoredYawControl) : TimeSec → ℚ
  | .finite t =>
      if t ≤ 0 then c.yawOffset.toInt / 10
      else (c.yawOffset.toInt + changeAt (1000 * t) c.deltas) / 10
  | .infinity => (c.yawOffset.toInt + totalChange c.deltas : ℤ) / 10
  | .negInfinity => c.yawOffset.toInt / 10
  | .nan => c.yawOffset.toInt / 10

/-- A block of at most 65535 bytes whose deltas all take some time. -/
structure Timed (c : StoredYawControl) : Prop where
  size : c.bytes.length ≤ 65535
  pos : ∀ d ∈ c.deltas, 0 < d.durationMsec.toNat

variable {c : StoredYawControl}

/-- A block has at most 16383 deltas. -/
theorem Timed.length_le (h : c.Timed) : c.deltas.length ≤ 16383 := by
  have hsize := h.size
  rw [c.length_bytes] at hsize
  omega

/-- The times of some of the deltas fit into 32 bits. -/
theorem Timed.totalDuration_lt (h : c.Timed) {done rest : List YawDelta}
    (hsplit : c.deltas = done ++ rest) : totalDuration done < 2 ^ 32 := by
  have hcount := h.length_le
  have hle := totalDuration_le done
  rw [hsplit, List.length_append] at hcount
  omega

/-- The angles of some of the deltas fit into 32 bits, with a sign. -/
theorem Timed.bmod_yaw (h : c.Timed) {done rest : List YawDelta}
    (hsplit : c.deltas = done ++ rest) :
    Int.bmod (c.yawOffset.toInt + totalChange done) (2 ^ 32) =
      c.yawOffset.toInt + totalChange done := by
  have hcount := h.length_le
  have hle := abs_le.mp (abs_totalChange_le done)
  have hlow := c.yawOffset.le_toInt
  have hhigh := c.yawOffset.toInt_lt
  rw [hsplit, List.length_append] at hcount
  exact Int.bmod_eq_of_le (by omega) (by omega)

/-! ### Where a player stands -/

/-- Where a player of a yaw control can stand: at one of its deltas or behind the last one, at
the time and the yaw that have been added up. A player that was moved on behind the end stands
there at a later time. -/
inductive Stands (c : StoredYawControl) : CurrentSetpoint → Prop
  | delta {done rest : List YawDelta} (hsplit : c.deltas = done ++ rest) :
      Stands c (current .exact (c.header ++ done.flatMap YawDelta.bytes).length
        (totalDuration done) (c.yawOffset.toInt + totalChange done) rest)
  | behind {time : ℕ} (hle : totalDuration c.deltas ≤ time) :
      Stands c (current .exact c.bytes.length time
        (c.yawOffset.toInt + totalChange c.deltas) [])

/-- The time and the yaw at the end of a setpoint were added up without an overflow. -/
structure AddsUp (setpoint : CurrentSetpoint) : Prop where
  time : setpoint.length ≠ 0 →
    setpoint.data.endTimeMsec = setpoint.data.startTimeMsec + setpoint.data.durationMsec
  yaw : setpoint.data.endYawDdeg = setpoint.data.startYawDdeg + setpoint.data.yawChangeDdeg

/-- Rewinding goes to the first delta. -/
theorem stands_start (c : StoredYawControl) :
    c.Stands (current .exact c.header.length 0 c.yawOffset.toInt c.deltas) := by
  have h := @Stands.delta c [] c.deltas rfl
  rwa [List.flatMap_nil, List.append_nil, totalChange, List.map_nil, List.sum_nil,
    add_zero] at h

/-- **Moving on** from a delta goes to the next one. -/
theorem Timed.buildNext_delta (h : c.Timed) {done rest : List YawDelta} {d : YawDelta}
    (hsplit : c.deltas = done ++ d :: rest) :
    buildNextSetpoint .exact ⟨c.yawControl [], current .exact
        (c.header ++ done.flatMap YawDelta.bytes).length (totalDuration done)
        (c.yawOffset.toInt + totalChange done) (d :: rest)⟩ =
      ok ⟨c.yawControl [], current .exact
        (c.header ++ (done ++ [d]).flatMap YawDelta.bytes).length (totalDuration (done ++ [d]))
        (c.yawOffset.toInt + totalChange (done ++ [d])) rest⟩ := by
  have hsplit' : c.deltas = (done ++ [d]) ++ rest := hsplit.trans (List.append_cons done d rest)
  have hbuffer : (c.yawControl []).buffer =
      (c.header ++ done.flatMap YawDelta.bytes ++ d.bytes) ++ rest.flatMap YawDelta.bytes := by
    rw [yawControl, List.append_nil, bytes, hsplit, List.flatMap_append, List.flatMap_cons]
    simp only [List.append_assoc]
  have htime : (totalDuration done + d.durationMsec.toNat) % 2 ^ 32 =
      totalDuration (done ++ [d]) := by
    rw [← totalDuration_concat, Nat.mod_eq_of_lt (h.totalDuration_lt hsplit')]
  have hyaw : Int.bmod (c.yawOffset.toInt + totalChange done + d.yawChange.toInt) (2 ^ 32) =
      c.yawOffset.toInt + totalChange (done ++ [d]) := by
    rw [add_assoc, ← totalChange_concat, h.bmod_yaw hsplit']
  have hbytes : c.header ++ (done ++ [d]).flatMap YawDelta.bytes =
      c.header ++ done.flatMap YawDelta.bytes ++ d.bytes := by
    rw [List.flatMap_append, List.flatMap_singleton, List.append_assoc]
  rw [buildNext_cons, htime, hyaw, hbytes]
  exact build _ _ hbuffer

/-- Behind the last delta, moving on stays there. -/
theorem buildNext_behind (time : ℕ) (yaw : ℤ) :
    buildNextSetpoint .exact ⟨c.yawControl [], current .exact c.bytes.length time yaw []⟩ =
      ok ⟨c.yawControl [], current .exact c.bytes.length (2 ^ 32 - 1) yaw []⟩ :=
  build_nil _ _ (List.append_nil c.bytes)

/-- **Rewinding and moving on** keep the sums of a player those of the deltas. -/
theorem Timed.closed_stands (h : c.Timed) : Closed .exact (c.yawControl []) c.Stands := by
  have hbehind : c.Stands (current .exact c.bytes.length (2 ^ 32 - 1)
      (c.yawOffset.toInt + totalChange c.deltas) []) :=
    .behind (Nat.le_pred_of_lt (h.totalDuration_lt (List.append_nil _).symm))
  refine ⟨⟨_, c.rewind_eq .exact, c.stands_start⟩, ?_⟩
  intro setpoint hstands
  cases hstands with
  | @delta done rest hsplit =>
      cases rest with
      | nil =>
          rw [List.append_nil] at hsplit
          subst hsplit
          exact ⟨_, buildNext_behind _ _, hbehind⟩
      | cons d rest =>
          exact ⟨_, h.buildNext_delta hsplit,
            .delta (hsplit.trans (List.append_cons done d rest))⟩
  | behind => exact ⟨_, buildNext_behind _ _, hbehind⟩

/-- A player that stands in a yaw control has added up without an overflow. -/
theorem Timed.addsUp (h : c.Timed) {setpoint : CurrentSetpoint} (hstands : c.Stands setpoint) :
    AddsUp setpoint := by
  cases hstands with
  | @delta done rest hsplit =>
      cases rest with
      | nil => exact ⟨fun hlength => absurd rfl hlength, (add_zero _).symm⟩
      | cons d rest =>
          have hsplit' := hsplit.trans (List.append_cons done d rest)
          have htime := h.totalDuration_lt hsplit'
          have hyaw := h.bmod_yaw hsplit'
          rw [totalDuration_concat] at htime
          rw [totalChange_concat, ← add_assoc] at hyaw
          exact ⟨fun _ => Nat.mod_eq_of_lt htime, hyaw⟩
  | behind => exact ⟨fun hlength => absurd rfl hlength, (add_zero _).symm⟩

/-! ### Seeking -/

open TrajectoryPlayer (toSeconds)

open StoredTrajectory (toSeconds_exact isBefore_toSeconds isAfter_toSeconds)

/-- The yaw of a setpoint in degrees, at a relative time. -/
def yawOf (data : YawSetpoint) (rel : ℚ) : ℚ := data.startYawDeg + data.yawChangeDeg * rel

/-- A seek succeeds, stays at the yaw control, and finds a yaw: the one of the current setpoint
at a relative time between zero and one. -/
def SeeksTo (c : StoredYawControl) (yaw : ℚ) (x : Checked SbError (ℚ × YawPlayer)) : Prop :=
  ∃ rel setpoint, x = ok (rel, ⟨c.yawControl [], setpoint⟩) ∧ c.Stands setpoint ∧ 0 ≤ rel ∧
    rel ≤ 1 ∧ yawOf setpoint.data rel = yaw

theorem yawOf_rest (time : ℕ) (yaw : ℤ) (rel : ℚ) :
    yawOf (restSetpoint .exact time yaw) rel = (yaw : ℚ) / 10 := by
  rw [yawOf]
  simp only [restSetpoint, toDegrees, Rounding.exact_apply]
  ring

theorem startTimeSec_current (offset time : ℕ) (yaw : ℤ) (deltas : List YawDelta) :
    (current .exact offset time yaw deltas).data.startTimeSec = (time : ℚ) / 1000 := by
  cases deltas <;> rfl

/-- A time in seconds is before the current setpoint. -/
theorem isBefore_current (x : ℚ) (offset time : ℕ) (yaw : ℤ) (deltas : List YawDelta) :
    (TimeSec.finite x).isBefore (current .exact offset time yaw deltas).data.startTimeSec =
      decide (1000 * x < time) := by
  rw [startTimeSec_current]
  exact isBefore_toSeconds x time

/-- A time in seconds is after the current setpoint. -/
theorem isAfter_current (x : ℚ) (offset time : ℕ) (yaw : ℤ) (d : YawDelta)
    (rest : List YawDelta) :
    (TimeSec.finite x).isAfter (current .exact offset time yaw (d :: rest)).data.endTimeSec =
      decide ((((time + d.durationMsec.toNat) % 2 ^ 32 : ℕ) : ℚ) < 1000 * x) :=
  isAfter_toSeconds x _

/-- Behind the last delta, every finite time that has been reached is found. -/
theorem seekLoop_rest {time : ℕ} {x : ℚ} (hle : (time : ℚ) ≤ 1000 * x) (fuel : ℕ) (yaw : ℤ) :
    YawPlayer.seekLoop .exact (.finite x) (fuel + 1)
        ⟨c.yawControl [], current .exact c.bytes.length time yaw []⟩ =
      ok (0, ⟨c.yawControl [], current .exact c.bytes.length time yaw []⟩) := by
  have hend : (TimeSec.finite x).isAfter
      (current .exact c.bytes.length time yaw []).data.endTimeSec = false := by
    simp [current, restSetpoint, TimeSec.isAfter]
  simp only [YawPlayer.seekLoop, isBefore_current, hend, not_lt.mpr hle, decide_false,
    Bool.false_eq_true, if_false]
  rfl

/-- A time that has been reached and is not behind a delta is found in the delta. -/
theorem Timed.seeksTo_inside (h : c.Timed) {x : ℚ} {done rest : List YawDelta} {d : YawDelta}
    (hsplit : c.deltas = done ++ d :: rest) (hle : (totalDuration done : ℚ) ≤ 1000 * x)
    (hinside : 1000 * x ≤ (totalDuration done + d.durationMsec.toNat : ℕ)) :
    c.SeeksTo ((c.yawOffset.toInt + changeAt (1000 * x) c.deltas) / 10)
      (ok (relativeTime .exact (deltaSetpoint .exact (totalDuration done)
          (c.yawOffset.toInt + totalChange done) d.durationMsec.toNat d.yawChange.toInt)
          (.finite x),
        ⟨c.yawControl [], current .exact (c.header ++ done.flatMap YawDelta.bytes).length
          (totalDuration done) (c.yawOffset.toInt + totalChange done) (d :: rest)⟩)) := by
  have hpos : 0 < d.durationMsec.toNat := h.pos d (by simp [hsplit])
  have hposq : (0 : ℚ) < d.durationMsec.toNat := by exact_mod_cast hpos
  have hdone : ∀ d ∈ done, 0 < d.durationMsec.toNat := fun d hd =>
    h.pos d (hsplit ▸ List.mem_append_left _ hd)
  have hlong := TrajectoryPlayer.lt_abs_seconds hpos
  have hrel : relativeTime .exact (deltaSetpoint .exact (totalDuration done)
      (c.yawOffset.toInt + totalChange done) d.durationMsec.toNat d.yawChange.toInt) (.finite x) =
        (1000 * x - totalDuration done) / d.durationMsec.toNat := by
    simp only [relativeTime, deltaSetpoint, toSeconds_exact, Rounding.exact_apply, hlong, if_true]
    field_simp
  push_cast at hinside
  have hvalue : changeAt (1000 * x) c.deltas = totalChange done +
      d.yawChange.toInt * ((1000 * x - totalDuration done) / d.durationMsec.toNat) := by
    rw [hsplit, changeAt_append hdone _ hle, changeAt, if_pos (by linarith)]
  rw [hrel, hvalue]
  refine ⟨_, _, rfl, .delta hsplit, ?_, ?_, ?_⟩
  · exact div_nonneg (by linarith) hposq.le
  · rw [div_le_one hposq]
    linarith
  · rw [yawOf]
    simp only [current, deltaSetpoint, toDegrees, Rounding.exact_apply]
    push_cast
    ring

/-- **Seeking forward** from a delta that does not begin behind the time. -/
theorem Timed.seekLoop_forward (h : c.Timed) {x : ℚ} {done rest : List YawDelta}
    (hsplit : c.deltas = done ++ rest) (hle : (totalDuration done : ℚ) ≤ 1000 * x) {fuel : ℕ}
    (hfuel : rest.length < fuel) :
    c.SeeksTo ((c.yawOffset.toInt + changeAt (1000 * x) c.deltas) / 10)
      (YawPlayer.seekLoop .exact (.finite x) fuel ⟨c.yawControl [], current .exact
        (c.header ++ done.flatMap YawDelta.bytes).length (totalDuration done)
        (c.yawOffset.toInt + totalChange done) rest⟩) := by
  induction rest generalizing done fuel with
  | nil =>
      obtain ⟨fuel, rfl⟩ := Nat.exists_eq_succ_of_ne_zero (Nat.ne_of_gt hfuel)
      rw [List.append_nil] at hsplit
      subst hsplit
      rw [changeAt_of_le h.pos hle]
      refine ⟨0, _, seekLoop_rest hle fuel _, .behind le_rfl, le_rfl, zero_le_one, ?_⟩
      exact (yawOf_rest _ _ _).trans (by push_cast; rfl)
  | cons d rest ih =>
      obtain ⟨fuel, rfl⟩ := Nat.exists_eq_succ_of_ne_zero (Nat.ne_of_gt (Nat.zero_lt_of_lt hfuel))
      have hsplit' := hsplit.trans (List.append_cons done d rest)
      have hwrap : (totalDuration done + d.durationMsec.toNat) % 2 ^ 32 =
          totalDuration done + d.durationMsec.toNat := by
        rw [← totalDuration_concat, Nat.mod_eq_of_lt (h.totalDuration_lt hsplit')]
      simp only [YawPlayer.seekLoop, isBefore_current, isAfter_current, hwrap, not_lt.mpr hle,
        decide_false, Bool.false_eq_true, if_false, decide_eq_true_eq]
      split
      case isTrue hafter =>
        rw [h.buildNext_delta hsplit, ok_bind]
        refine ih hsplit' ?_ (Nat.lt_of_succ_lt_succ hfuel)
        rw [totalDuration_concat]
        exact hafter.le
      case isFalse hinside => exact h.seeksTo_inside hsplit hle (not_lt.mp hinside)

/-- **Seeking to the end** from any delta. -/
theorem Timed.seekLoop_infinity (h : c.Timed) {done rest : List YawDelta}
    (hsplit : c.deltas = done ++ rest) {fuel : ℕ} (hfuel : rest.length < fuel) :
    c.SeeksTo ((c.yawOffset.toInt + totalChange c.deltas : ℤ) / 10)
      (YawPlayer.seekLoop .exact .infinity fuel ⟨c.yawControl [], current .exact
        (c.header ++ done.flatMap YawDelta.bytes).length (totalDuration done)
        (c.yawOffset.toInt + totalChange done) rest⟩) := by
  induction rest generalizing done fuel with
  | nil =>
      obtain ⟨fuel, rfl⟩ := Nat.exists_eq_succ_of_ne_zero (Nat.ne_of_gt hfuel)
      rw [List.append_nil] at hsplit
      subst hsplit
      exact ⟨1, _, rfl, .behind le_rfl, zero_le_one, le_rfl, yawOf_rest _ _ _⟩
  | cons d rest ih =>
      obtain ⟨fuel, rfl⟩ := Nat.exists_eq_succ_of_ne_zero (Nat.ne_of_gt (Nat.zero_lt_of_lt hfuel))
      have hnext := ih (hsplit.trans (List.append_cons done d rest))
        (Nat.lt_of_succ_lt_succ hfuel)
      rw [YawPlayer.seekLoop, h.buildNext_delta hsplit]
      exact hnext

/-- A seek to a finite time that is not before the start. -/
theorem Timed.seekLoop_finite (h : c.Timed) {setpoint : CurrentSetpoint}
    (hstands : c.Stands setpoint) {x : ℚ} (hx : 0 ≤ x) {fuel : ℕ}
    (hfuel : c.deltas.length + 2 ≤ fuel) :
    c.SeeksTo ((c.yawOffset.toInt + changeAt (1000 * x) c.deltas) / 10)
      (YawPlayer.seekLoop .exact (.finite x) fuel ⟨c.yawControl [], setpoint⟩) := by
  obtain ⟨fuel, rfl⟩ : ∃ n, fuel = n + 1 := ⟨fuel - 1, by omega⟩
  by_cases hbefore : x < setpoint.data.startTimeSec
  · -- the time is before the setpoint: start over
    have hrewound := @Timed.seekLoop_forward c h x [] c.deltas rfl
      (by simp [totalDuration, hx]) fuel (by omega)
    have hstart : (TimeSec.finite x).isBefore setpoint.data.startTimeSec = true :=
      decide_eq_true hbefore
    rw [List.flatMap_nil, List.append_nil, totalChange, List.map_nil, List.sum_nil,
      add_zero] at hrewound
    rw [YawPlayer.seekLoop, if_pos hstart, c.rewind_eq, ok_bind]
    exact hrewound
  · rw [not_lt] at hbefore
    cases hstands with
    | @delta done rest hsplit =>
        have hcount : rest.length ≤ c.deltas.length := by
          rw [hsplit, List.length_append]
          omega
        rw [startTimeSec_current, div_le_iff₀ (by norm_num), mul_comm] at hbefore
        exact h.seekLoop_forward hsplit hbefore (by omega)
    | @behind time hle =>
        rw [startTimeSec_current, div_le_iff₀ (by norm_num), mul_comm] at hbefore
        have hend : (totalDuration c.deltas : ℚ) ≤ 1000 * x :=
          le_trans (by exact_mod_cast hle) hbefore
        rw [changeAt_of_le h.pos hend]
        refine ⟨0, _, seekLoop_rest hbefore fuel _, .behind hle, le_rfl, zero_le_one, ?_⟩
        exact (yawOf_rest _ _ _).trans (by push_cast; rfl)

/-- **A seek finds the yaw**, wherever the player stands. -/
theorem Timed.seekToTime (h : c.Timed) {setpoint : CurrentSetpoint} (hstands : c.Stands setpoint)
    {time : TimeSec} (htime : time ≠ .nan) {fuel : ℕ} (hfuel : c.deltas.length + 2 ≤ fuel) :
    c.SeeksTo (c.yawAt time)
      (YawPlayer.seekToTime .exact fuel ⟨c.yawControl [], setpoint⟩ time) := by
  have hzero := h.seekLoop_finite hstands le_rfl hfuel
  rw [mul_zero, changeAt_zero, add_zero] at hzero
  cases time with
  | nan => exact absurd rfl htime
  | negInfinity => exact hzero
  | finite x =>
      rw [YawPlayer.seekToTime, TimeSec.clip, yawAt]
      split
      case isTrue => exact hzero
      case isFalse hx => exact h.seekLoop_finite hstands (not_le.mp hx).le hfuel
  | infinity =>
      cases hstands with
      | @delta done rest hsplit =>
          have hcount : rest.length ≤ c.deltas.length := by
            rw [hsplit, List.length_append]
            omega
          exact h.seekLoop_infinity hsplit (by omega)
      | behind hle =>
          obtain ⟨fuel, rfl⟩ : ∃ n, fuel = n + 1 := ⟨fuel - 1, by omega⟩
          exact ⟨1, _, rfl, .behind hle, zero_le_one, le_rfl, yawOf_rest _ _ _⟩

/-! ### The total duration -/

/-- Adding up the durations from a delta on. -/
theorem Timed.totalDurationLoop (h : c.Timed) {done rest : List YawDelta}
    (hsplit : c.deltas = done ++ rest) {fuel : ℕ} (hfuel : rest.length < fuel) :
    ∃ player, YawPlayer.totalDurationLoop .exact fuel (totalDuration done)
        ⟨c.yawControl [], current .exact (c.header ++ done.flatMap YawDelta.bytes).length
          (totalDuration done) (c.yawOffset.toInt + totalChange done) rest⟩ =
      ok (totalDuration c.deltas, player) := by
  induction rest generalizing done fuel with
  | nil =>
      obtain ⟨fuel, rfl⟩ := Nat.exists_eq_succ_of_ne_zero (Nat.ne_of_gt hfuel)
      rw [hsplit, List.append_nil]
      exact ⟨_, rfl⟩
  | cons d rest ih =>
      obtain ⟨fuel, rfl⟩ := Nat.exists_eq_succ_of_ne_zero (Nat.ne_of_gt (Nat.zero_lt_of_lt hfuel))
      have hsplit' := hsplit.trans (List.append_cons done d rest)
      have hsum : (totalDuration done + d.durationMsec.toNat) % 2 ^ 32 =
          totalDuration (done ++ [d]) := by
        rw [← totalDuration_concat, Nat.mod_eq_of_lt (h.totalDuration_lt hsplit')]
      have hrest := ih hsplit' (Nat.lt_of_succ_lt_succ hfuel)
      rw [← hsum] at hrest
      rw [YawPlayer.totalDurationLoop, if_pos (hasMoreSetpoints_cons _ _),
        h.buildNext_delta hsplit, ← hsum]
      exact hrest

/-- **The total duration** is the sum of the durations, wherever the player stands. -/
theorem Timed.getTotalDurationMsec (h : c.Timed) (setpoint : CurrentSetpoint) {fuel : ℕ}
    (hfuel : c.deltas.length + 2 ≤ fuel) :
    ∃ player, YawPlayer.getTotalDurationMsec .exact fuel ⟨c.yawControl [], setpoint⟩ =
      ok (totalDuration c.deltas, player) := by
  have htotal := @Timed.totalDurationLoop c h [] c.deltas rfl fuel (by omega)
  rw [List.flatMap_nil, List.append_nil, totalChange, List.map_nil, List.sum_nil,
    add_zero] at htotal
  rw [YawPlayer.getTotalDurationMsec, c.rewind_eq, ok_bind]
  exact htotal

/-! ### Any history -/

/-- **No operation** runs out of fuel. -/
theorem Timed.apply_ne_outOfFuel (h : c.Timed) {setpoint : CurrentSetpoint}
    (hstands : c.Stands setpoint) {fuel : ℕ} (hfuel : c.deltas.length + 2 ≤ fuel) (op : Op) :
    apply .exact fuel ⟨c.yawControl [], setpoint⟩ op ≠ outOfFuel := by
  have hseek : ∀ time, ∃ r,
      YawPlayer.seekToTime .exact fuel ⟨c.yawControl [], setpoint⟩ time = ok r := by
    intro time
    by_cases htime : time = .nan
    · -- a comparison with something that is not a number fails: the player stays
      obtain ⟨fuel, rfl⟩ : ∃ n, fuel = n + 1 := ⟨fuel - 1, by omega⟩
      subst htime
      exact ⟨_, rfl⟩
    · obtain ⟨rel, setpoint', hok, -⟩ := h.seekToTime hstands htime hfuel
      exact ⟨_, hok⟩
  cases op with
  | init => rw [apply, c.rewind_eq]; simp
  | buildNextSetpoint =>
      obtain ⟨setpoint', hnext, -⟩ := h.closed_stands.buildNext setpoint hstands
      rw [apply, hnext]
      simp
  | getYawAt time =>
      obtain ⟨r, hok⟩ := hseek time
      rw [apply, getYawAt, hok]
      simp
  | getYawRateAt time =>
      obtain ⟨r, hok⟩ := hseek time
      rw [apply, getYawRateAt, hok]
      simp
  | getTotalDurationMsec =>
      obtain ⟨player, htotal⟩ := h.getTotalDurationMsec setpoint hfuel
      rw [apply, htotal]
      simp
  | hasMoreSetpoints => rw [apply]; simp

/-- **Any history** keeps the player at the yaw control. -/
theorem Timed.run (h : c.Timed) {setpoint : CurrentSetpoint} (hstands : c.Stands setpoint)
    {fuel : ℕ} (hfuel : c.deltas.length + 2 ≤ fuel) (ops : List Op) :
    ∃ setpoint', run .exact fuel ⟨c.yawControl [], setpoint⟩ ops =
      ok ⟨c.yawControl [], setpoint'⟩ ∧ c.Stands setpoint' := by
  induction ops generalizing setpoint with
  | nil => exact ⟨setpoint, rfl, hstands⟩
  | cons op ops ih =>
      rcases h.closed_stands.apply fuel hstands op with hout | ⟨setpoint', hop, hstands'⟩
      · exact absurd hout (h.apply_ne_outOfFuel hstands hfuel op)
      · rw [YawPlayer.run, hop, ok_bind]
        exact ih hstands'

end StoredYawControl

open StoredYawControl YawDelta YawPlayer in
/-- **The yaw at a time** is the offset and what the deltas have turned by then, whatever the
player was asked before; no sum of the player overflows, and the total duration is the sum of
the durations. -/
theorem yaw_at_any_history (c : StoredYawControl) (h : c.Timed) (ops : List Op) {time : TimeSec}
    (htime : time ≠ .nan) :
    ∃ fuel₀, ∀ fuel ≥ fuel₀, ∃ player player' player'',
      yawSession .exact c.bytes fuel ops = ok player ∧
      AddsUp player.currentSetpoint ∧
      player.getYawAt .exact fuel time = ok (c.yawAt time, player') ∧
      AddsUp player'.currentSetpoint ∧
      player.getTotalDurationMsec .exact fuel = ok (totalDuration c.deltas, player'') := by
  refine ⟨c.deltas.length + 2, fun fuel hfuel => ?_⟩
  obtain ⟨setpoint, hrun, hstands⟩ := h.run c.stands_start hfuel ops
  obtain ⟨rel, setpoint', hseek, hstands', -, -, hyaw⟩ := h.seekToTime hstands htime hfuel
  obtain ⟨player'', htotal⟩ := h.getTotalDurationMsec setpoint hfuel
  refine ⟨⟨c.yawControl [], setpoint⟩, ⟨c.yawControl [], setpoint'⟩, player'', ?_,
    h.addsUp hstands, ?_, h.addsUp hstands', htotal⟩
  · have hinit := c.initFromBuffer []
    rw [List.append_nil] at hinit
    rw [yawSession, hinit, ok_bind, c.rewind_eq, ok_bind]
    exact hrun
  · rw [getYawAt, hseek, ok_bind, ← hyaw]
    rfl

/-- From 10 degrees, 90 degrees in two seconds, and back in one second. -/
def turnAndBack : StoredYawControl where
  flags := 0
  yawOffset := 100
  deltas := [⟨2000, 900⟩, ⟨1000, -900⟩]

/-- After two and a half seconds, half of the way back is left, also after a look at the end
and a move behind it. -/
theorem yaw_at_any_history_turnAndBack :
    turnAndBack.yawAt (.finite (5 / 2)) = 55 ∧
      ∃ fuel₀, ∀ fuel ≥ fuel₀, ∃ player player' player'',
        yawSession .exact turnAndBack.bytes fuel [.getYawRateAt .infinity, .buildNextSetpoint] =
          ok player ∧
        StoredYawControl.AddsUp player.currentSetpoint ∧
        player.getYawAt .exact fuel (.finite (5 / 2)) =
          ok (turnAndBack.yawAt (.finite (5 / 2)), player') ∧
        StoredYawControl.AddsUp player'.currentSetpoint ∧
        player.getTotalDurationMsec .exact fuel =
          ok (YawDelta.totalDuration turnAndBack.deltas, player'') :=
  ⟨by decide +kernel, yaw_at_any_history turnAndBack ⟨by decide, by decide⟩ _ (by decide)⟩

end Skybrush
